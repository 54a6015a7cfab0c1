/-!
# Digests

SHA-256 of a sequence of bytes.  The message is padded to whole blocks of sixteen words; each block
is stretched to a schedule of 64 words, and the words are mixed into a state of eight.
-/

namespace BasicScript.Digest

/-- The eight words that a digest is made of. -/
structure Words where
  a : UInt32
  b : UInt32
  c : UInt32
  d : UInt32
  e : UInt32
  f : UInt32
  g : UInt32
  h : UInt32
deriving Repr, DecidableEq

/-- The words of an empty digest. -/
def start : Words :=
  ⟨0x6a09e667, 0xbb67ae85, 0x3c6ef372, 0xa54ff53a, 0x510e527f, 0x9b05688c, 0x1f83d9ab, 0x5be0cd19⟩

/-- One constant for each round. -/
def roundConstants : List UInt32 :=
  [0x428a2f98, 0x71374491, 0xb5c0fbcf, 0xe9b5dba5, 0x3956c25b, 0x59f111f1, 0x923f82a4, 0xab1c5ed5,
    0xd807aa98, 0x12835b01, 0x243185be, 0x550c7dc3, 0x72be5d74, 0x80deb1fe, 0x9bdc06a7, 0xc19bf174,
    0xe49b69c1, 0xefbe4786, 0x0fc19dc6, 0x240ca1cc, 0x2de92c6f, 0x4a7484aa, 0x5cb0a9dc, 0x76f988da,
    0x983e5152, 0xa831c66d, 0xb00327c8, 0xbf597fc7, 0xc6e00bf3, 0xd5a79147, 0x06ca6351, 0x14292967,
    0x27b70a85, 0x2e1b2138, 0x4d2c6dfc, 0x53380d13, 0x650a7354, 0x766a0abb, 0x81c2c92e, 0x92722c85,
    0xa2bfe8a1, 0xa81a664b, 0xc24b8b70, 0xc76c51a3, 0xd192e819, 0xd6990624, 0xf40e3585, 0x106aa070,
    0x19a4c116, 0x1e376c08, 0x2748774c, 0x34b0bcb5, 0x391c0cb3, 0x4ed8aa4a, 0x5b9cca4f, 0x682e6ff3,
    0x748f82ee, 0x78a5636f, 0x84c87814, 0x8cc70208, 0x90befffa, 0xa4506ceb, 0xbef9a3f7, 0xc67178f2]

/-- The word turned to the right. -/
def turn (word count : UInt32) : UInt32 := (word >>> count) ||| (word <<< (32 - count))

/-! ### Blocks -/

/-- The zeros between the message and its length. -/
def paddingZeros (size : Nat) : Nat := (119 - size % 64) % 64

/-- The length of a message in bits, as eight bytes. -/
def lengthBytes (size : Nat) : List UInt8 :=
  (List.range 8).map fun i => UInt8.ofNat ((size * 8) >>> (8 * (7 - i)))

/-- The message filled up to whole blocks. -/
def padded (bytes : List UInt8) : List UInt8 :=
  let size := bytes.length
  bytes ++ 0x80 :: (List.replicate (paddingZeros size) 0 ++ lengthBytes size)

/-- Four bytes as a word, the greatest first. -/
def word (b₃ b₂ b₁ b₀ : UInt8) : UInt32 :=
  (b₃.toUInt32 <<< 24) ||| (b₂.toUInt32 <<< 16) ||| (b₁.toUInt32 <<< 8) ||| b₀.toUInt32

def wordsOf : List UInt8 → List UInt32
  | b₃ :: b₂ :: b₁ :: b₀ :: rest => word b₃ b₂ b₁ b₀ :: wordsOf rest
  | _ => []

/-- The schedule with one more word. -/
def stretch (schedule : Array UInt32) : Array UInt32 :=
  let back (count : Nat) : UInt32 := schedule.getD (schedule.size - count) 0
  let near := back 2
  let far := back 15
  let s₁ := turn near 17 ^^^ turn near 19 ^^^ (near >>> 10)
  let s₀ := turn far 7 ^^^ turn far 18 ^^^ (far >>> 3)
  schedule.push (s₁ + back 7 + s₀ + back 16)

/-- The 64 words of a block. -/
def schedule (block : List UInt32) : List UInt32 :=
  (Nat.repeat stretch 48 block.toArray).toList

/-! ### Rounds -/

/-- One round with a constant and a word of the schedule. -/
def round (w : Words) (constant item : UInt32) : Words :=
  let s₁ := turn w.e 6 ^^^ turn w.e 11 ^^^ turn w.e 25
  let choice := (w.e &&& w.f) ^^^ (~~~ w.e &&& w.g)
  let first := w.h + s₁ + choice + constant + item
  let s₀ := turn w.a 2 ^^^ turn w.a 13 ^^^ turn w.a 22
  let majority := (w.a &&& w.b) ^^^ (w.a &&& w.c) ^^^ (w.b &&& w.c)
  ⟨first + s₀ + majority, w.a, w.b, w.c, w.d + first, w.e, w.f, w.g⟩

/-- The sums of the words of two states. -/
def add (v w : Words) : Words :=
  ⟨v.a + w.a, v.b + w.b, v.c + w.c, v.d + w.d, v.e + w.e, v.f + w.f, v.g + w.g, v.h + w.h⟩

/-- A block mixed into a state. -/
def mix (w : Words) (block : List UInt32) : Words :=
  let rounds := roundConstants.zip (schedule block)
  add w (rounds.foldl (fun w (constant, item) => round w constant item) w)

/-- Blocks of sixteen words mixed into a state. -/
def mixAll (w : Words) (words : List UInt32) : Words :=
  match words with
  | [] => w
  | first :: rest => mixAll (mix w (first :: rest.take 15)) (rest.drop 15)
termination_by words.length
decreasing_by simp only [List.length_drop, List.length_cons]; omega

def sha256 (bytes : List UInt8) : Words := mixAll start (wordsOf (padded bytes))

/-! ### Text -/

/-- A word as eight digits of base sixteen. -/
def hexWord (w : UInt32) : String :=
  String.ofList ((List.range 8).map fun i => Nat.digitChar ((w.toNat >>> (4 * (7 - i))) % 16))

/-- The first sixteen digits of a digest. -/
def shortHex (w : Words) : String := hexWord w.a ++ hexWord w.b

end BasicScript.Digest
