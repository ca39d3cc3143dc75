import Tracelane.Lib.Bytes

/-
  The SHA-256 function of FIPS 180-4, executable.  Words are naturals below `2 ^ 32`; the schedule
  is kept newest word first.
-/

namespace Sha256

--
-- Words
--

/- Rotate a 32-bit word right. -/
def rotr (x n : Nat) : Nat :=
  (x >>> n) ||| ((x <<< (32 - n)) % 2 ^ 32)

/- Read big-endian words off a byte string. -/
def words : Bytes → List Nat
| a :: b :: c :: d :: rest =>
    (a.toNat <<< 24 + b.toNat <<< 16 + c.toNat <<< 8 + d.toNat) :: words rest
| _ => []

/- The four big-endian bytes of a word. -/
def wordBytes (w : Nat) : Bytes :=
  [UInt8.ofNat (w >>> 24), UInt8.ofNat (w >>> 16), UInt8.ofNat (w >>> 8), UInt8.ofNat w]

/- The round constants. -/
def roundConstants : List Nat :=
  [0x428a2f98, 0x71374491, 0xb5c0fbcf, 0xe9b5dba5,
    0x3956c25b, 0x59f111f1, 0x923f82a4, 0xab1c5ed5,
    0xd807aa98, 0x12835b01, 0x243185be, 0x550c7dc3,
    0x72be5d74, 0x80deb1fe, 0x9bdc06a7, 0xc19bf174,
    0xe49b69c1, 0xefbe4786, 0x0fc19dc6, 0x240ca1cc,
    0x2de92c6f, 0x4a7484aa, 0x5cb0a9dc, 0x76f988da,
    0x983e5152, 0xa831c66d, 0xb00327c8, 0xbf597fc7,
    0xc6e00bf3, 0xd5a79147, 0x06ca6351, 0x14292967,
    0x27b70a85, 0x2e1b2138, 0x4d2c6dfc, 0x53380d13,
    0x650a7354, 0x766a0abb, 0x81c2c92e, 0x92722c85,
    0xa2bfe8a1, 0xa81a664b, 0xc24b8b70, 0xc76c51a3,
    0xd192e819, 0xd6990624, 0xf40e3585, 0x106aa070,
    0x19a4c116, 0x1e376c08, 0x2748774c, 0x34b0bcb5,
    0x391c0cb3, 0x4ed8aa4a, 0x5b9cca4f, 0x682e6ff3,
    0x748f82ee, 0x78a5636f, 0x84c87814, 0x8cc70208,
    0x90befffa, 0xa4506ceb, 0xbef9a3f7, 0xc67178f2]

/- The eight working variables. -/
structure State where
  a : Nat
  b : Nat
  c : Nat
  d : Nat
  e : Nat
  f : Nat
  g : Nat
  h : Nat
deriving DecidableEq

def initial : State where
  a := 0x6a09e667
  b := 0xbb67ae85
  c := 0x3c6ef372
  d := 0xa54ff53a
  e := 0x510e527f
  f := 0x9b05688c
  g := 0x1f83d9ab
  h := 0x5be0cd19

/- Extend the schedule by `n` words, newest first. -/
def extend : Nat → List Nat → List Nat
| 0, ws => ws
| n + 1, ws =>
    let w2 := ws.getD 1 0
    let w15 := ws.getD 14 0
    let s0 := rotr w15 7 ^^^ rotr w15 18 ^^^ (w15 >>> 3)
    let s1 := rotr w2 17 ^^^ rotr w2 19 ^^^ (w2 >>> 10)
    extend n ((ws.getD 15 0 + s0 + ws.getD 6 0 + s1) % 2 ^ 32 :: ws)

/- One round with constant-plus-schedule word `kw`. -/
def round (s : State) (kw : Nat) : State :=
  let s1 := rotr s.e 6 ^^^ rotr s.e 11 ^^^ rotr s.e 25
  let ch := (s.e &&& s.f) ^^^ ((0xffffffff ^^^ s.e) &&& s.g)
  let t1 := s.h + s1 + ch + kw
  let s0 := rotr s.a 2 ^^^ rotr s.a 13 ^^^ rotr s.a 22
  let maj := (s.a &&& s.b) ^^^ (s.a &&& s.c) ^^^ (s.b &&& s.c)
  { a := (t1 + s0 + maj) % 2 ^ 32, b := s.a, c := s.b,
    d := s.c, e := (s.d + t1) % 2 ^ 32, f := s.e, g := s.f,
    h := s.g }

/- Run the rounds over constants and schedule together. -/
def rounds : List Nat → List Nat → State → State
| k :: ks, w :: ws, s => rounds ks ws (round s (k + w))
| _, _, s => s

/- Absorb one block of sixteen words. -/
def compress (s : State) (block : List Nat) : State :=
  let r := rounds roundConstants (extend 48 block.reverse).reverse s
  { a := (s.a + r.a) % 2 ^ 32, b := (s.b + r.b) % 2 ^ 32,
    c := (s.c + r.c) % 2 ^ 32, d := (s.d + r.d) % 2 ^ 32,
    e := (s.e + r.e) % 2 ^ 32, f := (s.f + r.f) % 2 ^ 32,
    g := (s.g + r.g) % 2 ^ 32, h := (s.h + r.h) % 2 ^ 32 }

/- The padded message: a multiple of 64 bytes. -/
def pad (m : Bytes) : Bytes :=
  m ++ 0x80 :: List.replicate ((119 - m.length % 64) % 64) 0 ++ u64Be (8 * m.length)

/- Absorb at most `fuel` blocks of sixteen words. -/
def absorb : Nat → List Nat → State → State
| 0, _, s => s
| _ + 1, [], s => s
| fuel + 1, ws, s =>
    absorb fuel (ws.drop 16) (compress s (ws.take 16))

/- The SHA-256 digest of a byte string. -/
def digest (m : Bytes) : ByteArr 32 :=
  let s := absorb (m.length / 64 + 2) (words (pad m)) initial
  ⟨wordBytes s.a ++ wordBytes s.b ++ wordBytes s.c ++
      wordBytes s.d ++ wordBytes s.e ++ wordBytes s.f ++
      wordBytes s.g ++ wordBytes s.h, rfl⟩

-- The one-block vector of FIPS 180-4, appendix B.1.
example :
    hexEncode (digest (utf8 "abc")).bytes =
      "ba7816bf8f01cfea414140de5dae2223b00361a396177a9cb410ff61f20015ad" := by
  decide

end Sha256
