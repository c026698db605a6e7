/-!
# SHA-256

The digest of a text by SHA-256 (FIPS 180-4).  The bytes are padded to blocks of sixteen
words, each block is expanded to the 64 words of its schedule, and 64 rounds mix the schedule
into the eight words of the state.
-/

namespace MathTemplate.Digest

/-- The round constants: the first 32 bits of the fractional parts of the cube roots of the
first 64 primes. -/
def roundConstants : List UInt32 :=
  [0x428a2f98, 0x71374491, 0xb5c0fbcf, 0xe9b5dba5, 0x3956c25b, 0x59f111f1, 0x923f82a4,
   0xab1c5ed5, 0xd807aa98, 0x12835b01, 0x243185be, 0x550c7dc3, 0x72be5d74, 0x80deb1fe,
   0x9bdc06a7, 0xc19bf174, 0xe49b69c1, 0xefbe4786, 0x0fc19dc6, 0x240ca1cc, 0x2de92c6f,
   0x4a7484aa, 0x5cb0a9dc, 0x76f988da, 0x983e5152, 0xa831c66d, 0xb00327c8, 0xbf597fc7,
   0xc6e00bf3, 0xd5a79147, 0x06ca6351, 0x14292967, 0x27b70a85, 0x2e1b2138, 0x4d2c6dfc,
   0x53380d13, 0x650a7354, 0x766a0abb, 0x81c2c92e, 0x92722c85, 0xa2bfe8a1, 0xa81a664b,
   0xc24b8b70, 0xc76c51a3, 0xd192e819, 0xd6990624, 0xf40e3585, 0x106aa070, 0x19a4c116,
   0x1e376c08, 0x2748774c, 0x34b0bcb5, 0x391c0cb3, 0x4ed8aa4a, 0x5b9cca4f, 0x682e6ff3,
   0x748f82ee, 0x78a5636f, 0x84c87814, 0x8cc70208, 0x90befffa, 0xa4506ceb, 0xbef9a3f7,
   0xc67178f2]

/-- The eight words of the state. -/
structure State where
  a : UInt32
  b : UInt32
  c : UInt32
  d : UInt32
  e : UInt32
  f : UInt32
  g : UInt32
  h : UInt32

namespace State

/-- The first state: the first 32 bits of the fractional parts of the square roots of the
first eight primes. -/
def initial : State :=
  ⟨0x6a09e667, 0xbb67ae85, 0x3c6ef372, 0xa54ff53a, 0x510e527f, 0x9b05688c, 0x1f83d9ab,
    0x5be0cd19⟩

/-- The words of a state. -/
def words (s : State) : List UInt32 := [s.a, s.b, s.c, s.d, s.e, s.f, s.g, s.h]

/-- The sum of two states, word by word. -/
def sum (s t : State) : State :=
  ⟨s.a + t.a, s.b + t.b, s.c + t.c, s.d + t.d, s.e + t.e, s.f + t.f, s.g + t.g, s.h + t.h⟩

end State

/-- A word rotated to the right. -/
def rotated (x n : UInt32) : UInt32 := (x >>> n) ||| (x <<< (32 - n))

/-- One round, with its constant and its word of the schedule. -/
def round (s : State) (constant word : UInt32) : State :=
  let mix := rotated s.e 6 ^^^ rotated s.e 11 ^^^ rotated s.e 25
  let choice := (s.e &&& s.f) ^^^ ((~~~ s.e) &&& s.g)
  let first := s.h + mix + choice + constant + word
  let blend := rotated s.a 2 ^^^ rotated s.a 13 ^^^ rotated s.a 22
  let majority := (s.a &&& s.b) ^^^ (s.a &&& s.c) ^^^ (s.b &&& s.c)
  ⟨first + (blend + majority), s.a, s.b, s.c, s.d + first, s.e, s.f, s.g⟩

/-- The next word of the schedule, given the last sixteen, the latest first. -/
def nextWord (recent : List UInt32) : UInt32 :=
  let back (i : Nat) : UInt32 := recent.getD (i - 1) 0
  let low := rotated (back 15) 7 ^^^ rotated (back 15) 18 ^^^ (back 15 >>> 3)
  let high := rotated (back 2) 17 ^^^ rotated (back 2) 19 ^^^ (back 2 >>> 10)
  back 16 + low + back 7 + high

/-- So many more words of the schedule, the latest first. -/
def extend : Nat → List UInt32 → List UInt32
  | 0, recent => recent
  | n + 1, recent => extend n (nextWord recent :: recent)

/-- The schedule of a block of sixteen words. -/
def schedule (block : List UInt32) : List UInt32 := (extend 48 block.reverse).reverse

/-- A block mixed into a state. -/
def compress (s : State) (block : List UInt32) : State :=
  s.sum ((roundConstants.zip (schedule block)).foldl (fun t p => round t p.1 p.2) s)

/-- The big-endian bytes of a number. -/
def bigEndian : (count : Nat) → Nat → List UInt8
  | 0, _ => []
  | count + 1, n => UInt8.ofNat (n / Nat.pow 256 count % 256) :: bigEndian count n

/-- Bytes padded to whole blocks: a set bit, zeros, and the length in bits. -/
def padded (bytes : List UInt8) : List UInt8 :=
  let zeros := (119 - bytes.length % 64) % 64
  bytes ++ 0x80 :: List.replicate zeros 0 ++ bigEndian 8 (8 * bytes.length)

/-- The big-endian words of bytes. -/
def wordsOf : List UInt8 → List UInt32
  | a :: b :: c :: d :: rest =>
    ((a.toUInt32 <<< 24) ||| (b.toUInt32 <<< 16) ||| (c.toUInt32 <<< 8) ||| d.toUInt32)
      :: wordsOf rest
  | _ => []

/-- The digest of so many blocks. -/
def digestBlocks : Nat → State → List UInt32 → State
  | 0, s, _ => s
  | n + 1, s, words => digestBlocks n (compress s (words.take 16)) (words.drop 16)

/-- The digest of bytes, as words. -/
def sha256 (bytes : List UInt8) : List UInt32 :=
  let words := wordsOf (padded bytes)
  (digestBlocks (words.length / 16) .initial words).words

/-- A hexadecimal digit. -/
private def digestDigit (n : Nat) : Char :=
  if n < 10 then Char.ofNat ('0'.toNat + n) else Char.ofNat ('a'.toNat + (n - 10))

/-- A word in hexadecimal. -/
def hexWord (w : UInt32) : List Char :=
  (bigEndian 4 w.toNat).flatMap fun byte =>
    [digestDigit (byte.toNat / 16), digestDigit (byte.toNat % 16)]

/-- The digest of a text in hexadecimal. -/
def sha256Hex (s : String) : String :=
  String.ofList ((sha256 s.toUTF8.toList).flatMap hexWord)

end MathTemplate.Digest
