/-!
# Text as bytes

A file on disk and a path hold bytes; the texts in them are UTF-8.  `decode?` is none on bytes that
are no text, and reads back what `encode` writes (`decode?_encode`).  If the bytes of a text are cut
off, what is left is the beginning of that text or none at all (`exists_append_of_encode_prefix`).

Bytes that are no text can still be shown (`lossy`): a replacement character stands for each stretch
of them that is no character, which ends where no character could go on so.  There is nothing to
replace in a text (`patched_encode`), so the look that `lossy` takes first changes nothing
(`lossy_eq`).
-/

namespace KnownIssues.Text

/-- The UTF-8 bytes of a text. -/
def encode (s : String) : List UInt8 :=
  s.toList.flatMap String.utf8EncodeChar

/-- The size of a text in UTF-8. -/
def byteSize (cs : List Char) : Nat :=
  cs.foldr (fun c n => c.utf8Size + n) 0

/-- The text that the bytes encode, if they are UTF-8. -/
def decode? (bytes : List UInt8) : Option String :=
  String.fromUTF8? bytes.toByteArray

/-! ### Bytes that are no text -/

/-- The first and last byte that may stand in each place behind the first byte of a character. -/
def followers (b : UInt8) : List (UInt8 × UInt8) :=
  if b < 0xC2 then []
  else if b < 0xE0 then [(0x80, 0xBF)]
  else if b < 0xF0 then
    [(if b = 0xE0 then 0xA0 else 0x80, if b = 0xED then 0x9F else 0xBF), (0x80, 0xBF)]
  else if b < 0xF5 then
    [(if b = 0xF0 then 0x90 else 0x80, if b = 0xF4 then 0x8F else 0xBF), (0x80, 0xBF), (0x80, 0xBF)]
  else []

/-- How many of the bytes may stand in these places, up to the first that may not. -/
def fitting : List (UInt8 × UInt8) → List UInt8 → Nat
  | (first, last) :: places, b :: bytes =>
    if first ≤ b && b ≤ last then fitting places bytes + 1 else 0
  | _, _ => 0

/-- The character that the bytes begin with. -/
def headChar? (bytes : List UInt8) : Option Char :=
  (bytes.take 4).toByteArray.utf8DecodeChar? 0

/-- The characters of the bytes, with a replacement for each stretch that is none. -/
def patched : List UInt8 → List Char
  | [] => []
  | b :: bytes =>
    match headChar? (b :: bytes) with
    | some c => c :: patched (bytes.drop (c.utf8Size - 1))
    | none => '\uFFFD' :: patched (bytes.drop (fitting (followers b) bytes))
  termination_by bytes => bytes.length
  decreasing_by all_goals (simp only [List.length_drop, List.length_cons]; omega)

/-- The bytes as a text.  One look tells whether there is anything to replace. -/
def lossy (bytes : List UInt8) : String :=
  (decode? bytes).getD (.ofList (patched bytes))

/-! ### Sizes -/

@[simp] theorem byteSize_nil : byteSize [] = 0 := rfl

@[simp] theorem byteSize_cons (c : Char) (cs : List Char) :
    byteSize (c :: cs) = c.utf8Size + byteSize cs := rfl

theorem byteSize_append (cs ds : List Char) : byteSize (cs ++ ds) = byteSize cs + byteSize ds := by
  induction cs with
  | nil => simp
  | cons c cs ih => simp [ih, Nat.add_assoc]

/-- A byte below 128 stands for the character of that number, and is part of no other. -/
theorem mem_utf8EncodeChar_iff {b : UInt8} (hb : b.toNat < 128) {c : Char} :
    b ∈ String.utf8EncodeChar c ↔ c.toNat = b.toNat := by
  have heq (n : Nat) : b = UInt8.ofNat n ↔ b.toNat = n % 256 := by
    rw [← UInt8.toNat_inj, UInt8.toNat_ofNat']
  rw [← Char.toNat_val]
  unfold String.utf8EncodeChar
  dsimp only
  split
  · simp only [List.mem_singleton, heq]; omega
  · -- the bytes of a longer character are all above 127
    split
    · simp only [List.mem_cons, List.not_mem_nil, or_false, heq]; omega
    · split <;> (simp only [List.mem_cons, List.not_mem_nil, or_false, heq]; omega)

theorem mem_utf8EncodeChar_iff_eq {b : UInt8} {c d : Char} (hb : b.toNat < 128)
    (hd : d.toNat = b.toNat) : b ∈ String.utf8EncodeChar c ↔ c = d := by
  rw [mem_utf8EncodeChar_iff hb, ← hd, Char.toNat_inj]

/-- A byte below 128 is among the bytes of a text iff its character is in the text. -/
theorem mem_flatMap_utf8EncodeChar {b : UInt8} {c : Char} (hb : b.toNat < 128)
    (hc : c.toNat = b.toNat) {cs : List Char} :
    b ∈ cs.flatMap String.utf8EncodeChar ↔ c ∈ cs := by
  simp only [List.mem_flatMap, mem_utf8EncodeChar_iff_eq hb hc]
  constructor
  · rintro ⟨d, hd, rfl⟩
    exact hd
  · intro h
    exact ⟨c, h, rfl⟩

theorem length_flatMap_utf8EncodeChar (cs : List Char) :
    (cs.flatMap String.utf8EncodeChar).length = byteSize cs := by
  induction cs with
  | nil => rfl
  | cons c cs ih =>
    rw [List.flatMap_cons, List.length_append, ih, byteSize_cons, String.length_utf8EncodeChar]

theorem length_encode (s : String) : (encode s).length = byteSize s.toList :=
  length_flatMap_utf8EncodeChar s.toList

theorem encode_append (s t : String) : encode (s ++ t) = encode s ++ encode t := by
  rw [encode, String.toList_append, List.flatMap_append, ← encode, ← encode]

theorem toByteArray_encode (s : String) : (encode s).toByteArray = s.toByteArray := by
  rw [encode, ← List.utf8Encode, ← String.toByteArray_ofList, String.ofList_toList]

theorem utf8ByteSize_eq (s : String) : s.utf8ByteSize = byteSize s.toList := by
  rw [← length_encode, ← List.size_toByteArray, toByteArray_encode]
  rfl

@[simp] theorem decode?_encode (s : String) : decode? (encode s) = some s := by
  rw [decode?, toByteArray_encode, String.fromUTF8?, dif_pos s.isValidUTF8]
  rfl

/-- No two texts have the same bytes. -/
theorem encode_inj {s t : String} : encode s = encode t ↔ s = t := by
  refine ⟨fun h => Option.some.inj ?_, fun h => h ▸ rfl⟩
  rw [← decode?_encode s, h, decode?_encode]

/-- Bytes that encode a text are the bytes of that text. -/
theorem encode_of_decode? {bytes : List UInt8} {s : String} (h : decode? bytes = some s) :
    encode s = bytes := by
  unfold decode? String.fromUTF8? at h
  split at h
  next =>
    cases h
    have hbytes := toByteArray_encode (String.fromUTF8 bytes.toByteArray ‹_›)
    exact List.toByteArray_inj.1 hbytes
  next => cases h

theorem decode?_eq_some_iff {bytes : List UInt8} {s : String} :
    decode? bytes = some s ↔ encode s = bytes :=
  ⟨encode_of_decode?, fun h => h ▸ decode?_encode s⟩

theorem headChar?_append (c : Char) (bytes : List UInt8) :
    headChar? (String.utf8EncodeChar c ++ bytes) = some c := by
  have hsize : (String.utf8EncodeChar c).length ≤ 4 := by
    rw [String.length_utf8EncodeChar]
    exact c.utf8Size_le_four
  rw [headChar?, List.take_append, List.take_of_length_le hsize, List.toByteArray_append,
    ByteArray.utf8DecodeChar?_utf8EncodeChar_append]

/-- **A text is shown as it is.** -/
theorem patched_encode (s : String) : patched (encode s) = s.toList := by
  rw [encode]
  induction s.toList with
  | nil => rw [List.flatMap_nil, patched]
  | cons c cs ih =>
    have hsize := String.length_utf8EncodeChar c
    obtain ⟨b, tail, htail⟩ := List.exists_cons_of_ne_nil (String.utf8EncodeChar_ne_nil (c := c))
    have hhead := headChar?_append c (cs.flatMap String.utf8EncodeChar)
    have hdrop : (tail ++ cs.flatMap String.utf8EncodeChar).drop (c.utf8Size - 1)
        = cs.flatMap String.utf8EncodeChar := by
      rw [htail, List.length_cons] at hsize
      exact List.drop_left' (by omega)
    rw [htail, List.cons_append] at hhead
    rw [List.flatMap_cons, htail, List.cons_append, patched, hhead]
    show c :: patched ((tail ++ cs.flatMap String.utf8EncodeChar).drop (c.utf8Size - 1)) = c :: cs
    rw [hdrop, ih]

theorem lossy_eq (bytes : List UInt8) : lossy bytes = .ofList (patched bytes) := by
  unfold lossy
  cases h : decode? bytes with
  | none => rfl
  | some s => rw [← encode_of_decode? h, patched_encode, String.ofList_toList, Option.getD_some]

/-- A text whose bytes begin with those of another text begins with that text. -/
theorem exists_append_of_encode_prefix {s t : String} (h : encode s <+: encode t) :
    ∃ u, t = s ++ u := by
  obtain ⟨tail, htail⟩ := h
  have hbytes : t.toByteArray = s.toByteArray ++ tail.toByteArray := by
    rw [← toByteArray_encode, ← htail, List.toByteArray_append, toByteArray_encode]
  have hfront : t.toByteArray.extract 0 s.rawEndPos.byteIdx = s.toByteArray := by
    rw [hbytes]
    exact ByteArray.extract_append_eq_left rfl
  have hle : s.rawEndPos ≤ t.rawEndPos := by
    have hsize := congrArg ByteArray.size hbytes
    rw [ByteArray.size_append] at hsize
    exact Nat.le.intro hsize.symm
  have hvalid : s.rawEndPos.IsValid t :=
    String.Pos.Raw.isValid_iff_isValidUTF8_extract_zero.2 ⟨hle, hfront ▸ s.isValidUTF8⟩
  obtain ⟨s', u, rfl, hend⟩ := String.Pos.Raw.isValid_iff_exists_append.1 hvalid
  have hsame : s' = s := by
    rw [← String.toByteArray_inj, ← hfront, hend, String.toByteArray_append]
    exact (ByteArray.extract_append_eq_left rfl).symm
  exact ⟨u, hsame ▸ rfl⟩

end KnownIssues.Text
