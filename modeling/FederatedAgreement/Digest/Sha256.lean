/-
The SHA-256 digest of a byte sequence, and its form as 64 lower-case hexadecimal digits.
-/
import FederatedAgreement.Text.Quoted

namespace FederatedAgreement.Digest

/-- the eight working words -/
structure Words where
  a : UInt32
  b : UInt32
  c : UInt32
  d : UInt32
  e : UInt32
  f : UInt32
  g : UInt32
  h : UInt32
deriving DecidableEq, Repr

/-- the words before the first block: fractional parts of the square roots of the first eight primes -/
def Words.initial : Words :=
  ⟨0x6a09e667, 0xbb67ae85, 0x3c6ef372, 0xa54ff53a, 0x510e527f, 0x9b05688c, 0x1f83d9ab, 0x5be0cd19⟩

/-- word by word sums -/
def Words.add (x y : Words) : Words :=
  ⟨x.a + y.a, x.b + y.b, x.c + y.c, x.d + y.d, x.e + y.e, x.f + y.f, x.g + y.g, x.h + y.h⟩

def Words.toList (x : Words) : List UInt32 := [x.a, x.b, x.c, x.d, x.e, x.f, x.g, x.h]

/-- the round constants: fractional parts of the cube roots of the first 64 primes -/
def roundConstants : List UInt32 :=
  [0x428a2f98, 0x71374491, 0xb5c0fbcf, 0xe9b5dba5, 0x3956c25b, 0x59f111f1, 0x923f82a4, 0xab1c5ed5,
   0xd807aa98, 0x12835b01, 0x243185be, 0x550c7dc3, 0x72be5d74, 0x80deb1fe, 0x9bdc06a7, 0xc19bf174,
   0xe49b69c1, 0xefbe4786, 0x0fc19dc6, 0x240ca1cc, 0x2de92c6f, 0x4a7484aa, 0x5cb0a9dc, 0x76f988da,
   0x983e5152, 0xa831c66d, 0xb00327c8, 0xbf597fc7, 0xc6e00bf3, 0xd5a79147, 0x06ca6351, 0x14292967,
   0x27b70a85, 0x2e1b2138, 0x4d2c6dfc, 0x53380d13, 0x650a7354, 0x766a0abb, 0x81c2c92e, 0x92722c85,
   0xa2bfe8a1, 0xa81a664b, 0xc24b8b70, 0xc76c51a3, 0xd192e819, 0xd6990624, 0xf40e3585, 0x106aa070,
   0x19a4c116, 0x1e376c08, 0x2748774c, 0x34b0bcb5, 0x391c0cb3, 0x4ed8aa4a, 0x5b9cca4f, 0x682e6ff3,
   0x748f82ee, 0x78a5636f, 0x84c87814, 0x8cc70208, 0x90befffa, 0xa4506ceb, 0xbef9a3f7, 0xc67178f2]

def rotateRight (x : UInt32) (n : UInt32) : UInt32 := (x >>> n) ||| (x <<< (32 - n))

/-- the message length in bits, as eight bytes, behind the bit 1 and zeros up to a whole number of 64-byte blocks -/
def padded (message : List UInt8) : List UInt8 :=
  let size := message.length
  let zeros := (119 - size % 64) % 64
  message ++ 0x80 :: List.replicate zeros 0 ++
    [56, 48, 40, 32, 24, 16, 8, 0].map fun (shift : Nat) => UInt8.ofNat ((size * 8) >>> shift % 256)

/-- four bytes to a word, the highest first -/
def wordsOf : List UInt8 → List UInt32
  | p :: q :: r :: s :: rest =>
    ((p.toUInt32 <<< 24) ||| (q.toUInt32 <<< 16) ||| (r.toUInt32 <<< 8) ||| s.toUInt32) :: wordsOf rest
  | _ => []

/-- words in blocks of sixteen; `fuel` bounds the number of blocks -/
def blocksOf : Nat → List UInt32 → List (List UInt32)
  | 0, _ => []
  | fuel + 1, words => if words.isEmpty then [] else words.take 16 :: blocksOf fuel (words.drop 16)

/-- further words of the schedule in front of the earlier ones, which stand in reverse -/
def extendSchedule : Nat → List UInt32 → List UInt32
  | 0, reversed => reversed
  | n + 1, reversed =>
    let back2 := reversed.getD 1 0
    let back15 := reversed.getD 14 0
    let small0 := rotateRight back15 7 ^^^ rotateRight back15 18 ^^^ (back15 >>> 3)
    let small1 := rotateRight back2 17 ^^^ rotateRight back2 19 ^^^ (back2 >>> 10)
    extendSchedule n ((reversed.getD 15 0 + small0 + reversed.getD 6 0 + small1) :: reversed)

def round (x : Words) (constant word : UInt32) : Words :=
  let big1 := rotateRight x.e 6 ^^^ rotateRight x.e 11 ^^^ rotateRight x.e 25
  let choice := (x.e &&& x.f) ^^^ (~~~x.e &&& x.g)
  let first := x.h + big1 + choice + constant + word
  let big0 := rotateRight x.a 2 ^^^ rotateRight x.a 13 ^^^ rotateRight x.a 22
  let majority := (x.a &&& x.b) ^^^ (x.a &&& x.c) ^^^ (x.b &&& x.c)
  ⟨first + (big0 + majority), x.a, x.b, x.c, x.d + first, x.e, x.f, x.g⟩

/-- the words after one more block -/
def compress (x : Words) (block : List UInt32) : Words :=
  let schedule := (extendSchedule 48 block.reverse).reverse
  x.add ((roundConstants.zip schedule).foldl (fun y kw => round y kw.1 kw.2) x)

/-- the digest words of a message -/
def sha256 (message : List UInt8) : List UInt32 :=
  let words := wordsOf (padded message)
  ((blocksOf (words.length + 1) words).foldl compress Words.initial).toList

/-- the digest of a text's UTF-8 bytes, in hexadecimal digits -/
def sha256Hex (text : String) : String :=
  String.ofList ((sha256 text.toUTF8.toList).flatMap fun w => Text.hexDigits 8 w.toNat)

end FederatedAgreement.Digest
