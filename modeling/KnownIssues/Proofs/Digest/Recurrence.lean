import KnownIssues.Proofs.Digest.Sines
import Mathlib.Data.Nat.Digits.Lemmas

/-! # The digest as a recurrence

The digest of a message said by equations (`IsDigest`).  The message is filled up to whole blocks
(`Fills`).  For each block the four words of the state go on as a sequence: every further word follows
from the last four, a word of the block and a sine (`Follows`); sixty-four words later the last four are
added to the state (`Works`).  The last state, written out byte by byte, is the digest (`Spells`).

* `fills_iff`, `works_iff`, `spells_iff`: each of the three is what the algorithm computes.
* `isDigest_iff`: so every message has one digest, and `digest` is it. -/

namespace KnownIssues.Digest.Md5

/-! ### The equations -/

/-- The number that bytes stand for, the lowest byte first. -/
def number (bytes : List UInt8) : ℕ :=
  Nat.ofDigits 256 (bytes.map UInt8.toNat)

/-- The message, a one bit, fewer zeros than a block has bytes, and in eight bytes how many bits the
message has: together whole blocks of 64 bytes. -/
def Fills (message padded : List UInt8) : Prop :=
  ∃ zeros size, padded = message ++ 0x80 :: (List.replicate zeros 0 ++ size) ∧ zeros < 64 ∧
    size.length = 8 ∧ number size = 8 * message.length % 2 ^ 64 ∧ padded.length % 64 = 0

/-- Word `j` of block `n`. -/
def blockWord (padded : List UInt8) (n j : ℕ) : UInt32 :=
  .ofNat (number ((padded.drop (64 * n + 4 * j)).take 4))

/-- How a step mixes three words, bit by bit. -/
def mixed (t : ℕ) (x y z : UInt32) : UInt32 :=
  if t < 16 then (x &&& y) ||| (~~~x &&& z)
  else if t < 32 then (x &&& z) ||| (y &&& ~~~z)
  else if t < 48 then x ^^^ y ^^^ z
  else y ^^^ (x ||| ~~~z)

/-- The word of the block that each step takes. -/
def places : List ℕ :=
  [0, 1, 2, 3, 4, 5, 6, 7, 8, 9, 10, 11, 12, 13, 14, 15,
    1, 6, 11, 0, 5, 10, 15, 4, 9, 14, 3, 8, 13, 2, 7, 12,
    5, 8, 11, 14, 1, 4, 7, 10, 13, 0, 3, 6, 9, 12, 15, 2,
    0, 7, 14, 5, 12, 3, 10, 1, 8, 15, 6, 13, 4, 11, 2, 9]

/-- By how many bits each step turns its sum. -/
def amounts : List ℕ :=
  [7, 12, 17, 22, 7, 12, 17, 22, 7, 12, 17, 22, 7, 12, 17, 22,
    5, 9, 14, 20, 5, 9, 14, 20, 5, 9, 14, 20, 5, 9, 14, 20,
    4, 11, 16, 23, 4, 11, 16, 23, 4, 11, 16, 23, 4, 11, 16, 23,
    6, 10, 15, 21, 6, 10, 15, 21, 6, 10, 15, 21, 6, 10, 15, 21]

/-- A word turned to the left by `n` bits. -/
def turned (x : UInt32) (n : ℕ) : UInt32 :=
  ⟨x.toBitVec.rotateLeft n⟩

/-- The sequence `q` goes on from the four words of the state by the words `x` of a block. -/
structure Follows (x : ℕ → UInt32) (s : State) (q : ℕ → UInt32) : Prop where
  a : q 0 = s.a
  d : q 1 = s.d
  c : q 2 = s.c
  b : q 3 = s.b
  next : ∀ t < 64, q (t + 4)
    = q (t + 3) + turned (q t + mixed t (q (t + 3)) (q (t + 2)) (q (t + 1))
        + x (places.getD t 0) + .ofNat (sineBits (t + 1))) (amounts.getD t 0)

/-- A block takes the one state to the other. -/
def Works (x : ℕ → UInt32) (s s' : State) : Prop :=
  ∃ q, Follows x s q ∧ s' = ⟨s.a + q 64, s.b + q 67, s.c + q 66, s.d + q 65⟩

/-- The bytes of the four words, one word after the other. -/
def Spells (s : State) (out : List UInt8) : Prop :=
  ∃ a b c d, out = a ++ (b ++ (c ++ d)) ∧
    (a.length = 4 ∧ b.length = 4 ∧ c.length = 4 ∧ d.length = 4) ∧
    number a = s.a.toNat ∧ number b = s.b.toNat ∧ number c = s.c.toNat ∧ number d = s.d.toNat

/-- The state before the first block, by the bytes of its words. -/
def beginning : State :=
  ⟨.ofNat (number [0x01, 0x23, 0x45, 0x67]), .ofNat (number [0x89, 0xAB, 0xCD, 0xEF]),
    .ofNat (number [0xFE, 0xDC, 0xBA, 0x98]), .ofNat (number [0x76, 0x54, 0x32, 0x10])⟩

/-- The bytes are the digest of the message. -/
def IsDigest (message out : List UInt8) : Prop :=
  ∃ padded, Fills message padded ∧ ∃ h : ℕ → State, h 0 = beginning ∧
    (∀ n < padded.length / 64, Works (blockWord padded n) (h n) (h (n + 1))) ∧
    Spells (h (padded.length / 64)) out

/-! ### Numbers and bytes -/

@[simp] theorem number_nil : number [] = 0 := rfl

@[simp] theorem number_cons (b : UInt8) (bytes : List UInt8) :
    number (b :: bytes) = b.toNat + 256 * number bytes :=
  Nat.ofDigits_cons

theorem number_littleEndian (n x : ℕ) : number (littleEndian n x) = x % 256 ^ n := by
  induction n generalizing x with
  | zero => simp [littleEndian, Nat.mod_one]
  | succ n ih =>
    have hbyte : x % 256 % 2 ^ 8 = x % 256 := Nat.mod_mod x 256
    rw [littleEndian, number_cons, ih, UInt8.toNat_ofNat', hbyte, pow_succ', Nat.mod_mul]

theorem littleEndian_number (bytes : List UInt8) :
    littleEndian bytes.length (number bytes) = bytes := by
  induction bytes with
  | nil => rfl
  | cons b bytes ih =>
    have hb : b.toNat < 256 := b.toNat_lt
    have hmod : (b.toNat + 256 * number bytes) % 256 = b.toNat := by omega
    have hdiv : (b.toNat + 256 * number bytes) / 256 = number bytes := by omega
    rw [List.length_cons, number_cons, littleEndian, hmod, hdiv, ih, UInt8.ofNat_toNat]

theorem littleEndian_mod (n x : ℕ) : littleEndian n (x % 256 ^ n) = littleEndian n x := by
  have h := littleEndian_number (littleEndian n x)
  rwa [length_littleEndian, number_littleEndian] at h

theorem eq_littleEndian_iff {bytes : List UInt8} {n x : ℕ} :
    bytes = littleEndian n x ↔ bytes.length = n ∧ number bytes = x % 256 ^ n := by
  constructor
  · rintro rfl
    exact ⟨length_littleEndian n x, number_littleEndian n x⟩
  · rintro ⟨rfl, h⟩
    calc bytes = littleEndian bytes.length (number bytes) := (littleEndian_number bytes).symm
      _ = littleEndian bytes.length x := by rw [h, littleEndian_mod]

/-! ### Filling up -/

theorem fills_iff {message padded : List UInt8} : Fills message padded ↔ padded = pad message := by
  have hpow : 256 ^ 8 = 2 ^ 64 := by decide
  constructor
  · rintro ⟨zeros, size, rfl, hzeros, hlength, hnumber, hblocks⟩
    rw [← hpow] at hnumber
    have hsize := eq_littleEndian_iff.2 ⟨hlength, hnumber⟩
    have hcount : zeros = (119 - message.length % 64) % 64 := by
      simp only [List.length_append, List.length_cons, List.length_replicate] at hblocks
      omega
    rw [pad, hsize, hcount]
  · rintro rfl
    refine ⟨_, littleEndian 8 (8 * message.length), rfl, Nat.mod_lt _ (by decide),
      length_littleEndian .., ?_, length_pad message⟩
    rw [number_littleEndian, hpow]

/-! ### Words -/

theorem toNat_shifted (b : UInt8) {n : UInt32} (hn : n.toNat ≤ 24) :
    (b.toUInt32 <<< n).toNat = b.toNat * 2 ^ n.toNat := by
  have hb := b.toNat_lt
  have hmod : n.toNat % 32 = n.toNat := by omega
  have hlt : b.toNat * 2 ^ n.toNat < 2 ^ 32 := by
    calc b.toNat * 2 ^ n.toNat < 2 ^ 8 * 2 ^ n.toNat := by gcongr
      _ ≤ 2 ^ 8 * 2 ^ 24 := by gcongr; decide
      _ = 2 ^ 32 := by norm_num
  rw [UInt32.toNat_shiftLeft, UInt8.toNat_toUInt32, Nat.shiftLeft_eq, hmod, Nat.mod_eq_of_lt hlt]

theorem or_mul_two_pow {x n : ℕ} (h : x < 2 ^ n) (y : ℕ) : x ||| y * 2 ^ n = x + y * 2 ^ n := by
  have hor := Nat.shiftLeft_add_eq_or_of_lt h y
  rw [Nat.shiftLeft_eq] at hor
  rw [Nat.or_comm, ← hor, Nat.add_comm]

/-- Shifted apart, the bytes of a word do not meet. -/
theorem word_eq (a b c d : UInt8) :
    a.toUInt32 ||| b.toUInt32 <<< 8 ||| c.toUInt32 <<< 16 ||| d.toUInt32 <<< 24
      = .ofNat (number [a, b, c, d]) := by
  have ha := a.toNat_lt
  have hb := b.toNat_lt
  have hc := c.toNat_lt
  have hd := d.toNat_lt
  rw [← UInt32.toNat_inj]
  simp only [UInt32.toNat_or, toNat_shifted b (n := 8) (by decide),
    toNat_shifted c (n := 16) (by decide), toNat_shifted d (n := 24) (by decide),
    UInt8.toNat_toUInt32, UInt32.toNat_ofNat', number_cons, number_nil]
  show a.toNat ||| b.toNat * 2 ^ 8 ||| c.toNat * 2 ^ 16 ||| d.toNat * 2 ^ 24 = _
  have hab : a.toNat + b.toNat * 2 ^ 8 < 2 ^ 16 := by omega
  have habc : a.toNat + b.toNat * 2 ^ 8 + c.toNat * 2 ^ 16 < 2 ^ 24 := by omega
  rw [or_mul_two_pow ha, or_mul_two_pow hab, or_mul_two_pow habc]
  omega

theorem length_words (bytes : List UInt8) : (words bytes).length = bytes.length / 4 := by
  fun_induction words bytes with
  | case1 a b c d r ih =>
    simp only [List.length_cons, ih]
    omega
  | case2 bytes hshort =>
    match bytes with
    | [] | [_] | [_, _] | [_, _, _] => simp
    | a :: b :: c :: d :: r => exact absurd rfl (hshort a b c d r)

theorem getD_words {bytes : List UInt8} {j : ℕ} (h : 4 * j + 4 ≤ bytes.length) :
    (words bytes).getD j 0 = .ofNat (number ((bytes.drop (4 * j)).take 4)) := by
  fun_induction words bytes generalizing j with
  | case1 a b c d r ih =>
    cases j with
    | zero => exact word_eq a b c d
    | succ j =>
      have hdrop : (a :: b :: c :: d :: r).drop (4 * (j + 1)) = r.drop (4 * j) := by
        rw [Nat.mul_succ]
        rfl
      rw [List.getD_cons_succ, hdrop]
      refine ih ?_
      simp only [List.length_cons] at h
      omega
  | case2 bytes hshort =>
    match bytes with
    | [] | [_] | [_, _] | [_, _, _] =>
      simp only [List.length_cons, List.length_nil] at h
      omega
    | a :: b :: c :: d :: r => exact absurd rfl (hshort a b c d r)

/-! ### One step -/

theorem turnLeft_eq (x : UInt32) {n : ℕ} (hpos : 0 < n) (hlt : n < 32) :
    turnLeft x (.ofNat n) = turned x n := by
  have hleft : ((UInt32.ofNat n).toBitVec % 32).toNat = n % 32 := by
    simp only [BitVec.toNat_umod, UInt32.toNat_toBitVec, UInt32.toNat_ofNat']
    show n % 2 ^ 32 % 32 = n % 32
    omega
  have hright : ((32 - UInt32.ofNat n).toBitVec % 32).toNat = 32 - n % 32 := by
    have hsub : (32 - UInt32.ofNat n).toNat = 32 - n := by
      rw [UInt32.toNat_sub]
      show (2 ^ 32 - n % 2 ^ 32 + 32) % 2 ^ 32 = _
      omega
    rw [BitVec.toNat_umod, UInt32.toNat_toBitVec, hsub]
    show (32 - n) % 32 = _
    omega
  rw [← UInt32.toBitVec_inj, turnLeft, turned, UInt32.toBitVec_or, UInt32.toBitVec_shiftLeft,
    UInt32.toBitVec_shiftRight, BitVec.rotateLeft_def, BitVec.shiftLeft_eq', BitVec.ushiftRight_eq',
    hleft, hright]

/-- The round of each step. -/
def roundOf (t : ℕ) : Round :=
  rounds.getD (t / 16) ⟨fun _ _ _ => 0, fun _ => 0, []⟩

theorem mix_roundOf {t : ℕ} (ht : t < 64) : (roundOf t).mix = mixed t := by
  have hround : t / 16 = 0 ∨ t / 16 = 1 ∨ t / 16 = 2 ∨ t / 16 = 3 := by omega
  funext x y z
  rcases hround with h | h | h | h
  · rw [roundOf, h, mixed, if_pos (by omega)]
    rfl
  · rw [roundOf, h, mixed, if_neg (by omega), if_pos (by omega)]
    rfl
  · rw [roundOf, h, mixed, if_neg (by omega), if_neg (by omega), if_pos (by omega)]
    rfl
  · rw [roundOf, h, mixed, if_neg (by omega), if_neg (by omega), if_neg (by omega)]
    rfl

/-- **What a step does:** the recurrence, with the state turned round. -/
theorem step_roundOf {t : ℕ} (ht : t < 64) (block : List UInt32) (s : State) :
    step (roundOf t) block s (t % 16) (sines.getD t 0)
      = ⟨s.d, s.b + turned (s.a + mixed t s.b s.c s.d + block.getD (places.getD t 0) 0
          + .ofNat (sineBits (t + 1))) (amounts.getD t 0), s.b, s.c⟩ := by
  have hword : ∀ t < 64, (roundOf t).word (t % 16) = places.getD t 0 := by decide
  have hturn : ∀ t < 64, (roundOf t).turns.getD (t % 16 % 4) 0 = .ofNat (amounts.getD t 0) ∧
      0 < amounts.getD t 0 ∧ amounts.getD t 0 < 32 := by decide
  obtain ⟨hamount, hpos, hlt⟩ := hturn t ht
  rw [step, hword t ht, hamount, turnLeft_eq _ hpos hlt, mix_roundOf ht, getD_sines ht,
    UInt32.add_assoc (s.a + _), UInt32.add_comm (.ofNat _), ← UInt32.add_assoc (s.a + _)]

/-! ### A block -/

/-- The state before each step of a block. -/
def stateAt (block : List UInt32) (s : State) : ℕ → State
  | 0 => s
  | t + 1 => step (roundOf t) block (stateAt block s t) (t % 16) (sines.getD t 0)

/-- The steps of the rounds in one list. -/
def schedule : List Round → List UInt32 → List (Round × ℕ × UInt32)
  | [], _ => []
  | r :: rs, constants =>
    ((constants.take 16).zipIdx.map fun k => (r, k.2, k.1)) ++ schedule rs (constants.drop 16)

theorem runRounds_eq_foldl (block : List UInt32) (rs : List Round) (constants : List UInt32)
    (s : State) :
    runRounds block rs constants s
      = (schedule rs constants).foldl (fun s k => step k.1 block s k.2.1 k.2.2) s := by
  induction rs generalizing constants s with
  | nil => rfl
  | cons r rs ih => rw [runRounds, schedule, ih, List.foldl_append, List.foldl_map]

theorem schedule_eq :
    schedule rounds sines = (List.range 64).map fun t => (roundOf t, t % 16, sines.getD t 0) := by
  rfl

theorem stateAt_eq_foldl (block : List UInt32) (s : State) (n : ℕ) :
    stateAt block s n
      = (List.range n).foldl (fun s t => step (roundOf t) block s (t % 16) (sines.getD t 0)) s := by
  induction n with
  | zero => rfl
  | succ n ih => rw [stateAt, ih, List.range_succ, List.foldl_append]; rfl

theorem compress_eq (s : State) (block : List UInt32) :
    compress s block = s.add (stateAt block s 64) := by
  rw [compress, runRounds_eq_foldl, schedule_eq, List.foldl_map, stateAt_eq_foldl]

/-- **A block takes** each state to the one that is computed. -/
theorem works_iff {block : List UInt32} {x : ℕ → UInt32} (hx : ∀ j < 16, block.getD j 0 = x j)
    {s s' : State} : Works x s s' ↔ s' = compress s block := by
  have hplace : ∀ t < 64, places.getD t 0 < 16 := by decide
  rw [compress_eq]
  constructor
  · rintro ⟨q, hq, rfl⟩
    have hstate : ∀ t ≤ 64, stateAt block s t = ⟨q t, q (t + 3), q (t + 2), q (t + 1)⟩ := by
      intro t ht
      induction t with
      | zero => rw [stateAt, hq.a, hq.b, hq.c, hq.d]
      | succ t ih =>
        rw [stateAt, ih (by omega), step_roundOf (by omega), hx _ (hplace t (by omega)),
          ← hq.next t (by omega)]
    rw [hstate 64 le_rfl]
    rfl
  · rintro rfl
    -- the words of a state are the next four, so the first words are all of the sequence
    refine ⟨fun t => (stateAt block s t).a, ⟨rfl, rfl, rfl, rfl, fun t ht => ?_⟩, rfl⟩
    show (stateAt block s (t + 1)).b
      = (stateAt block s t).b + turned ((stateAt block s t).a + mixed t (stateAt block s t).b
          (stateAt block s t).c (stateAt block s t).d + x (places.getD t 0)
          + .ofNat (sineBits (t + 1))) (amounts.getD t 0)
    rw [stateAt, step_roundOf ht, hx _ (hplace t ht)]

/-! ### The message -/

theorem blocks_eq (n : ℕ) (ws : List UInt32) :
    blocks n ws = (List.range n).map fun i => (ws.drop (16 * i)).take 16 := by
  induction n generalizing ws with
  | zero => rfl
  | succ n ih =>
    rw [blocks, ih, List.range_succ_eq_map, List.map_cons, List.map_map]
    congr 2
    funext i
    rw [List.drop_drop, Function.comp_apply, Nat.succ_eq_add_one, Nat.mul_succ, Nat.add_comm]

theorem getD_block {padded : List UInt8} {n j : ℕ} (hn : n < padded.length / 64) (hj : j < 16) :
    (((words padded).drop (16 * n)).take 16).getD j 0 = blockWord padded n j := by
  have hplace : 4 * (16 * n + j) = 64 * n + 4 * j := by omega
  have hin : 4 * (16 * n + j) + 4 ≤ padded.length := by omega
  rw [blockWord, ← hplace, ← getD_words hin, List.getD_eq_getElem?_getD,
    List.getElem?_take_of_lt hj, List.getElem?_drop, ← List.getD_eq_getElem?_getD]

/-- The state after some blocks of the words. -/
def stateAfter (ws : List UInt32) (n : ℕ) : State :=
  (blocks n ws).foldl compress .initial

theorem stateAfter_succ (ws : List UInt32) (n : ℕ) :
    stateAfter ws (n + 1) = compress (stateAfter ws n) ((ws.drop (16 * n)).take 16) := by
  rw [stateAfter, stateAfter, blocks_eq, blocks_eq, List.range_succ, List.map_append,
    List.foldl_append]
  rfl

theorem works_blockWord_iff {padded : List UInt8} {n : ℕ} (hn : n < padded.length / 64)
    {s' : State} :
    Works (blockWord padded n) (stateAfter (words padded) n) s'
      ↔ s' = stateAfter (words padded) (n + 1) := by
  rw [stateAfter_succ]
  exact works_iff fun j hj => getD_block hn hj

theorem eq_bytes_iff {bytes : List UInt8} {w : UInt32} :
    bytes = littleEndian 4 w.toNat ↔ bytes.length = 4 ∧ number bytes = w.toNat := by
  have hmod : w.toNat % 256 ^ 4 = w.toNat := Nat.mod_eq_of_lt w.toNat_lt
  rw [eq_littleEndian_iff, hmod]

theorem spells_iff {s : State} {out : List UInt8} : Spells s out ↔ out = s.bytes := by
  have hbytes : s.bytes = littleEndian 4 s.a.toNat ++ (littleEndian 4 s.b.toNat
      ++ (littleEndian 4 s.c.toNat ++ littleEndian 4 s.d.toNat)) := by
    simp [State.bytes]
  rw [hbytes]
  constructor
  · rintro ⟨a, b, c, d, rfl, ⟨ha, hb, hc, hd⟩, ha', hb', hc', hd'⟩
    rw [eq_bytes_iff.2 ⟨ha, ha'⟩, eq_bytes_iff.2 ⟨hb, hb'⟩, eq_bytes_iff.2 ⟨hc, hc'⟩,
      eq_bytes_iff.2 ⟨hd, hd'⟩]
  · rintro rfl
    obtain ⟨ha, ha'⟩ := eq_bytes_iff.1 (rfl : littleEndian 4 s.a.toNat = _)
    obtain ⟨hb, hb'⟩ := eq_bytes_iff.1 (rfl : littleEndian 4 s.b.toNat = _)
    obtain ⟨hc, hc'⟩ := eq_bytes_iff.1 (rfl : littleEndian 4 s.c.toNat = _)
    obtain ⟨hd, hd'⟩ := eq_bytes_iff.1 (rfl : littleEndian 4 s.d.toNat = _)
    exact ⟨_, _, _, _, rfl, ⟨ha, hb, hc, hd⟩, ha', hb', hc', hd'⟩

theorem beginning_eq : beginning = .initial := by
  decide

theorem digest_eq (message : List UInt8) :
    digest message
      = (stateAfter (words (pad message)) ((pad message).length / 64)).bytes := by
  rw [digest, length_words, Nat.div_div_eq_div_mul]
  rfl

/-- **The digest is the one that the equations have.** -/
theorem isDigest_iff {message out : List UInt8} : IsDigest message out ↔ out = digest message := by
  rw [digest_eq]
  constructor
  · rintro ⟨padded, hpadded, h, hbegin, hworks, hout⟩
    obtain rfl := fills_iff.1 hpadded
    have hstate : ∀ n ≤ (pad message).length / 64, h n = stateAfter (words (pad message)) n := by
      intro n hn
      induction n with
      | zero => rw [hbegin, beginning_eq]; rfl
      | succ n ih =>
        have hstep := hworks n hn
        rw [ih (by omega)] at hstep
        exact (works_blockWord_iff hn).1 hstep
    rw [hstate _ le_rfl] at hout
    exact spells_iff.1 hout
  · rintro rfl
    exact ⟨pad message, fills_iff.2 rfl, stateAfter (words (pad message)), beginning_eq.symm,
      fun n hn => (works_blockWord_iff hn).2 rfl, spells_iff.2 rfl⟩

end KnownIssues.Digest.Md5
