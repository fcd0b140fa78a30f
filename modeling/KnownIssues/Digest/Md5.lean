import KnownIssues.Text.Hex

/-!
# The MD5 digest

A message of bytes is padded to whole blocks of sixteen little-endian words (`words (pad m)`), each
block is worked into a state of four words (`compress`, sixty-four steps in four rounds), and the
state after the last block, written out little-endian, is the digest: sixteen bytes
(`length_digest`).
-/

namespace KnownIssues.Digest.Md5

/-- The four words that the blocks are worked into. -/
structure State where
  a : UInt32
  b : UInt32
  c : UInt32
  d : UInt32
  deriving DecidableEq, Repr

/-- The state before the first block. -/
def State.initial : State :=
  ⟨0x67452301, 0xefcdab89, 0x98badcfe, 0x10325476⟩

/-- Wordwise addition. -/
def State.add (s t : State) : State :=
  ⟨s.a + t.a, s.b + t.b, s.c + t.c, s.d + t.d⟩

/-! ### Padding -/

/-- The lowest `n` bytes of a number, lowest first. -/
def littleEndian : (n : Nat) → Nat → List UInt8
  | 0, _ => []
  | n + 1, x => UInt8.ofNat (x % 256) :: littleEndian n (x / 256)

/-- The message, a one bit, zeros up to eight bytes below a block, and its length in bits. -/
def pad (message : List UInt8) : List UInt8 :=
  let zeros := (119 - message.length % 64) % 64
  message ++ 0x80 :: (List.replicate zeros 0 ++ littleEndian 8 (8 * message.length))

/-- Four bytes to a word, lowest byte first. -/
def words : List UInt8 → List UInt32
  | a :: b :: c :: d :: r =>
    (a.toUInt32 ||| b.toUInt32 <<< 8 ||| c.toUInt32 <<< 16 ||| d.toUInt32 <<< 24) :: words r
  | _ => []

/-! ### Compression -/

/-- The constant of each step, `⌊2 ^ 32 * |sin i|⌋` for `i` from 1 to 64. -/
def sines : List UInt32 :=
  [0xd76aa478, 0xe8c7b756, 0x242070db, 0xc1bdceee, 0xf57c0faf, 0x4787c62a, 0xa8304613, 0xfd469501,
    0x698098d8, 0x8b44f7af, 0xffff5bb1, 0x895cd7be, 0x6b901122, 0xfd987193, 0xa679438e, 0x49b40821,
    0xf61e2562, 0xc040b340, 0x265e5a51, 0xe9b6c7aa, 0xd62f105d, 0x02441453, 0xd8a1e681, 0xe7d3fbc8,
    0x21e1cde6, 0xc33707d6, 0xf4d50d87, 0x455a14ed, 0xa9e3e905, 0xfcefa3f8, 0x676f02d9, 0x8d2a4c8a,
    0xfffa3942, 0x8771f681, 0x6d9d6122, 0xfde5380c, 0xa4beea44, 0x4bdecfa9, 0xf6bb4b60, 0xbebfbc70,
    0x289b7ec6, 0xeaa127fa, 0xd4ef3085, 0x04881d05, 0xd9d4d039, 0xe6db99e5, 0x1fa27cf8, 0xc4ac5665,
    0xf4292244, 0x432aff97, 0xab9423a7, 0xfc93a039, 0x655b59c3, 0x8f0ccc92, 0xffeff47d, 0x85845dd1,
    0x6fa87e4f, 0xfe2ce6e0, 0xa3014314, 0x4e0811a1, 0xf7537e82, 0xbd3af235, 0x2ad7d2bb, 0xeb86d391]

/-- What the four rounds differ in: how three words are mixed, which word of the block step `i`
takes, and how far its sum is turned. -/
structure Round where
  mix : UInt32 → UInt32 → UInt32 → UInt32
  word : Nat → Nat
  turns : List UInt32

/-- The four rounds of sixteen steps. -/
def rounds : List Round :=
  [⟨fun x y z => (x &&& y) ||| (~~~x &&& z), fun i => i, [7, 12, 17, 22]⟩,
    ⟨fun x y z => (x &&& z) ||| (y &&& ~~~z), fun i => (5 * i + 1) % 16, [5, 9, 14, 20]⟩,
    ⟨fun x y z => x ^^^ y ^^^ z, fun i => (3 * i + 5) % 16, [4, 11, 16, 23]⟩,
    ⟨fun x y z => y ^^^ (x ||| ~~~z), fun i => 7 * i % 16, [6, 10, 15, 21]⟩]

/-- Turns a word to the left by `n` bits, `0 < n < 32`. -/
def turnLeft (x n : UInt32) : UInt32 :=
  x <<< n ||| x >>> (32 - n)

/-- Step `i` of a round, with the constant that belongs to it. -/
def step (r : Round) (block : List UInt32) (s : State) (i : Nat) (constant : UInt32) : State :=
  let sum := s.a + r.mix s.b s.c s.d + constant + block.getD (r.word i) 0
  ⟨s.d, s.b + turnLeft sum (r.turns.getD (i % 4) 0), s.b, s.c⟩

/-- The steps of the rounds one after another, each round with its own sixteen constants. -/
def runRounds (block : List UInt32) : List Round → List UInt32 → State → State
  | [], _, s => s
  | r :: rs, constants, s =>
    runRounds block rs (constants.drop 16)
      (((constants.take 16).zipIdx).foldl (fun s k => step r block s k.2 k.1) s)

/-- Works one block of sixteen words into the state. -/
def compress (s : State) (block : List UInt32) : State :=
  s.add (runRounds block rounds sines s)

/-- The first `n` blocks of the words. -/
def blocks : (n : Nat) → List UInt32 → List (List UInt32)
  | 0, _ => []
  | n + 1, ws => ws.take 16 :: blocks n (ws.drop 16)

/-! ### The digest -/

/-- The bytes of the state, word after word, lowest byte first. -/
def State.bytes (s : State) : List UInt8 :=
  [s.a, s.b, s.c, s.d].flatMap fun w => littleEndian 4 w.toNat

/-- The digest of a message. -/
def digest (message : List UInt8) : List UInt8 :=
  let ws := words (pad message)
  ((blocks (ws.length / 16) ws).foldl compress .initial).bytes

/-- The digest in lower-case hexadecimal digits. -/
def hexDigest (message : List UInt8) : List Char :=
  (digest message).flatMap Text.Hex.lower

theorem length_littleEndian (n x : Nat) : (littleEndian n x).length = n := by
  induction n generalizing x with
  | zero => rfl
  | succ n ih => simp [littleEndian, ih]

theorem length_pad (message : List UInt8) : (pad message).length % 64 = 0 := by
  simp only [pad, List.length_append, List.length_cons, List.length_replicate,
    length_littleEndian]
  omega

@[simp] theorem length_digest (message : List UInt8) : (digest message).length = 16 := by
  simp [digest, State.bytes, length_littleEndian]

example : hexDigest [] = "d41d8cd98f00b204e9800998ecf8427e".toList := by decide +kernel

example : hexDigest [97, 98, 99] = "900150983cd24fb0d6963f7d28e17f72".toList := by decide +kernel

end KnownIssues.Digest.Md5
