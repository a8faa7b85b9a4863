import EdgarSec.Foundation.Text

/-! SHA-256 over natural numbers, so that the kernel can run it on short texts. -/

namespace EdgarSec.Foundation

def roundConstants : List Nat :=
  [0x428a2f98, 0x71374491, 0xb5c0fbcf, 0xe9b5dba5, 0x3956c25b, 0x59f111f1, 0x923f82a4, 0xab1c5ed5,
   0xd807aa98, 0x12835b01, 0x243185be, 0x550c7dc3, 0x72be5d74, 0x80deb1fe, 0x9bdc06a7, 0xc19bf174,
   0xe49b69c1, 0xefbe4786, 0x0fc19dc6, 0x240ca1cc, 0x2de92c6f, 0x4a7484aa, 0x5cb0a9dc, 0x76f988da,
   0x983e5152, 0xa831c66d, 0xb00327c8, 0xbf597fc7, 0xc6e00bf3, 0xd5a79147, 0x06ca6351, 0x14292967,
   0x27b70a85, 0x2e1b2138, 0x4d2c6dfc, 0x53380d13, 0x650a7354, 0x766a0abb, 0x81c2c92e, 0x92722c85,
   0xa2bfe8a1, 0xa81a664b, 0xc24b8b70, 0xc76c51a3, 0xd192e819, 0xd6990624, 0xf40e3585, 0x106aa070,
   0x19a4c116, 0x1e376c08, 0x2748774c, 0x34b0bcb5, 0x391c0cb3, 0x4ed8aa4a, 0x5b9cca4f, 0x682e6ff3,
   0x748f82ee, 0x78a5636f, 0x84c87814, 0x8cc70208, 0x90befffa, 0xa4506ceb, 0xbef9a3f7, 0xc67178f2]

def rotateRight (x n : Nat) : Nat := (x >>> n) ||| ((x <<< (32 - n)) % 2 ^ 32)

structure HashState where
  a : Nat
  b : Nat
  c : Nat
  d : Nat
  e : Nat
  f : Nat
  g : Nat
  h : Nat

def HashState.words (s : HashState) : List Nat := [s.a, s.b, s.c, s.d, s.e, s.f, s.g, s.h]

def initialState : HashState :=
  ⟨0x6a09e667, 0xbb67ae85, 0x3c6ef372, 0xa54ff53a, 0x510e527f, 0x9b05688c, 0x1f83d9ab, 0x5be0cd19⟩

/-- The word of the message schedule that follows the sixteen words `w`. -/
def scheduleWord (w : List Nat) : Nat :=
  let a := w.getD 1 0
  let b := w.getD 14 0
  (w.getD 0 0 + (rotateRight a 7 ^^^ rotateRight a 18 ^^^ (a >>> 3)) + w.getD 9 0 +
    (rotateRight b 17 ^^^ rotateRight b 19 ^^^ (b >>> 10))) % 2 ^ 32

def rounds : List Nat → List Nat → HashState → HashState
  | [], _, s => s
  | k :: ks, w, s =>
    let t1 := s.h + (rotateRight s.e 6 ^^^ rotateRight s.e 11 ^^^ rotateRight s.e 25) +
      ((s.e &&& s.f) ^^^ ((2 ^ 32 - 1 - s.e) &&& s.g)) + k + w.getD 0 0
    let t2 := (rotateRight s.a 2 ^^^ rotateRight s.a 13 ^^^ rotateRight s.a 22) +
      ((s.a &&& s.b) ^^^ (s.a &&& s.c) ^^^ (s.b &&& s.c))
    rounds ks (w.tail ++ [scheduleWord w])
      ⟨(t1 + t2) % 2 ^ 32, s.a, s.b, s.c, (s.d + t1) % 2 ^ 32, s.e, s.f, s.g⟩

def compress (s : HashState) (block : List Nat) : HashState :=
  let r := rounds roundConstants block s
  ⟨(s.a + r.a) % 2 ^ 32, (s.b + r.b) % 2 ^ 32, (s.c + r.c) % 2 ^ 32, (s.d + r.d) % 2 ^ 32,
   (s.e + r.e) % 2 ^ 32, (s.f + r.f) % 2 ^ 32, (s.g + r.g) % 2 ^ 32, (s.h + r.h) % 2 ^ 32⟩

def wordsOfBytes : List Nat → List Nat
  | a :: b :: c :: d :: rest => (((a * 256 + b) * 256 + c) * 256 + d) :: wordsOfBytes rest
  | _ => []

def blocksOfWords : Nat → List Nat → List (List Nat)
  | 0, _ => []
  | n + 1, ws => ws.take 16 :: blocksOfWords n (ws.drop 16)

def padMessage (bytes : List Nat) : List Nat :=
  bytes ++ 128 :: List.replicate ((119 - bytes.length % 64) % 64) 0 ++
    [7, 6, 5, 4, 3, 2, 1, 0].map fun i => bytes.length * 8 / 256 ^ i % 256

def hexWord (w : Nat) : List Char :=
  [28, 24, 20, 16, 12, 8, 4, 0].map fun i => hexDigit ((w >>> i) % 16)

/-- `hashlib.sha256(data).hexdigest()`. -/
def sha256Hex (data : Bytes) : String :=
  let ws := wordsOfBytes (padMessage (data.map UInt8.toNat))
  String.ofList (((blocksOfWords (ws.length / 16) ws).foldl compress initialState).words.flatMap hexWord)

example : sha256Hex (utf8 "abc") =
    "ba7816bf8f01cfea414140de5dae2223b00361a396177a9cb410ff61f20015ad" := by decide +kernel

end EdgarSec.Foundation
