import NestedCss.Text.Basic

set_option autoImplicit false

/-! The hash function SHA-256 on lists of bytes. A message is padded to whole
blocks of 64 bytes, and each block is mixed into eight words of state over 64
rounds. -/

namespace NestedCss.Sha256

def initialState : List UInt32 :=
  [0x6a09e667, 0xbb67ae85, 0x3c6ef372, 0xa54ff53a, 0x510e527f, 0x9b05688c, 0x1f83d9ab, 0x5be0cd19]

def roundWords : List UInt32 :=
  [0x428a2f98, 0x71374491, 0xb5c0fbcf, 0xe9b5dba5, 0x3956c25b, 0x59f111f1, 0x923f82a4, 0xab1c5ed5,
    0xd807aa98, 0x12835b01, 0x243185be, 0x550c7dc3, 0x72be5d74, 0x80deb1fe, 0x9bdc06a7, 0xc19bf174,
    0xe49b69c1, 0xefbe4786, 0x0fc19dc6, 0x240ca1cc, 0x2de92c6f, 0x4a7484aa, 0x5cb0a9dc, 0x76f988da,
    0x983e5152, 0xa831c66d, 0xb00327c8, 0xbf597fc7, 0xc6e00bf3, 0xd5a79147, 0x06ca6351, 0x14292967,
    0x27b70a85, 0x2e1b2138, 0x4d2c6dfc, 0x53380d13, 0x650a7354, 0x766a0abb, 0x81c2c92e, 0x92722c85,
    0xa2bfe8a1, 0xa81a664b, 0xc24b8b70, 0xc76c51a3, 0xd192e819, 0xd6990624, 0xf40e3585, 0x106aa070,
    0x19a4c116, 0x1e376c08, 0x2748774c, 0x34b0bcb5, 0x391c0cb3, 0x4ed8aa4a, 0x5b9cca4f, 0x682e6ff3,
    0x748f82ee, 0x78a5636f, 0x84c87814, 0x8cc70208, 0x90befffa, 0xa4506ceb, 0xbef9a3f7, 0xc67178f2]

def rotateRight (word amount : UInt32) : UInt32 := (word >>> amount) ||| (word <<< (32 - amount))

def bigEndian : Nat → Nat → List UInt8
  | 0, _ => []
  | bytes + 1, value => (value / 256 ^ bytes).toUInt8 :: bigEndian bytes value

def word (first second third fourth : UInt8) : UInt32 :=
  (first.toUInt32 <<< 24) ||| (second.toUInt32 <<< 16) ||| (third.toUInt32 <<< 8) |||
    fourth.toUInt32

def words : List UInt8 → List UInt32
  | first :: second :: third :: fourth :: rest => word first second third fourth :: words rest
  | _ => []

/-- A message followed by one bit, by zeros up to the last eight bytes of a
block, and by its length in bits. -/
def pad (message : List UInt8) : List UInt8 :=
  message ++ 0x80 :: List.replicate ((119 - message.length % 64) % 64) 0 ++
    bigEndian 8 (message.length * 8)

def nextWord (schedule : List UInt32) : UInt32 :=
  let early := schedule.getD 14 0
  let late := schedule.getD 1 0
  let mixedEarly := rotateRight early 7 ^^^ rotateRight early 18 ^^^ (early >>> 3)
  let mixedLate := rotateRight late 17 ^^^ rotateRight late 19 ^^^ (late >>> 10)
  schedule.getD 15 0 + mixedEarly + schedule.getD 6 0 + mixedLate

def extendSchedule : Nat → List UInt32 → List UInt32
  | 0, schedule => schedule
  | more + 1, schedule => extendSchedule more (nextWord schedule :: schedule)

def schedule (block : List UInt32) : List UInt32 := (extendSchedule 48 block.reverse).reverse

def round (state : List UInt32) (added : UInt32) : List UInt32 :=
  match state with
  | [a, b, c, d, e, f, g, h] =>
      let mixedE := rotateRight e 6 ^^^ rotateRight e 11 ^^^ rotateRight e 25
      let choice := (e &&& f) ^^^ (~~~e &&& g)
      let first := h + mixedE + choice + added
      let mixedA := rotateRight a 2 ^^^ rotateRight a 13 ^^^ rotateRight a 22
      let majority := (a &&& b) ^^^ (a &&& c) ^^^ (b &&& c)
      [first + mixedA + majority, a, b, c, d + first, e, f, g]
  | _ => state

def compress (state block : List UInt32) : List UInt32 :=
  let mixed := (List.zipWith (· + ·) roundWords (schedule block)).foldl round state
  List.zipWith (· + ·) state mixed

def compressBlocks : Nat → List UInt32 → List UInt32 → List UInt32
  | 0, state, _ => state
  | blocks + 1, state, rest => compressBlocks blocks (compress state (rest.take 16)) (rest.drop 16)

def digestWords (message : List UInt8) : List UInt32 :=
  let padded := words (pad message)
  compressBlocks (padded.length / 16) initialState padded

def hexDigits : Nat → Nat → Text
  | 0, _ => []
  | digits + 1, value => Nat.digitChar (value / 16 ^ digits % 16) :: hexDigits digits value

/-- The hash of a message in 64 digits of base sixteen, letters in lower case. -/
def digest (message : List UInt8) : Text :=
  (digestWords message).flatMap fun word => hexDigits 8 word.toNat

end NestedCss.Sha256
