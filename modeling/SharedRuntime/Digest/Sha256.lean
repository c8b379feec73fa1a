import SharedRuntime.Digest.Chunks

/-!
# SHA-256
-/

set_option autoImplicit false

namespace SharedRuntime.Digest.Sha256

/-- The round constants. -/
def constants : List UInt32 := [
  0x428a2f98, 0x71374491, 0xb5c0fbcf, 0xe9b5dba5, 0x3956c25b, 0x59f111f1, 0x923f82a4, 0xab1c5ed5,
  0xd807aa98, 0x12835b01, 0x243185be, 0x550c7dc3, 0x72be5d74, 0x80deb1fe, 0x9bdc06a7, 0xc19bf174,
  0xe49b69c1, 0xefbe4786, 0x0fc19dc6, 0x240ca1cc, 0x2de92c6f, 0x4a7484aa, 0x5cb0a9dc, 0x76f988da,
  0x983e5152, 0xa831c66d, 0xb00327c8, 0xbf597fc7, 0xc6e00bf3, 0xd5a79147, 0x06ca6351, 0x14292967,
  0x27b70a85, 0x2e1b2138, 0x4d2c6dfc, 0x53380d13, 0x650a7354, 0x766a0abb, 0x81c2c92e, 0x92722c85,
  0xa2bfe8a1, 0xa81a664b, 0xc24b8b70, 0xc76c51a3, 0xd192e819, 0xd6990624, 0xf40e3585, 0x106aa070,
  0x19a4c116, 0x1e376c08, 0x2748774c, 0x34b0bcb5, 0x391c0cb3, 0x4ed8aa4a, 0x5b9cca4f, 0x682e6ff3,
  0x748f82ee, 0x78a5636f, 0x84c87814, 0x8cc70208, 0x90befffa, 0xa4506ceb, 0xbef9a3f7, 0xc67178f2]

/-- The eight working words. -/
structure State where
  (a b c d e f g h : UInt32)

/-- The words before the first block. -/
def initial : State :=
  ⟨0x6a09e667, 0xbb67ae85, 0x3c6ef372, 0xa54ff53a, 0x510e527f, 0x9b05688c, 0x1f83d9ab, 0x5be0cd19⟩

/-- Rotation to the right. -/
def rotr (x n : UInt32) : UInt32 := (x >>> n) ||| (x <<< (32 - n))

/-- One round with its schedule word and constant. -/
def round (s : State) (wk : UInt32 × UInt32) : State :=
  let big1 := rotr s.e 6 ^^^ rotr s.e 11 ^^^ rotr s.e 25
  let ch := (s.e &&& s.f) ^^^ (~~~s.e &&& s.g)
  let t1 := s.h + big1 + ch + wk.2 + wk.1
  let big0 := rotr s.a 2 ^^^ rotr s.a 13 ^^^ rotr s.a 22
  let maj := (s.a &&& s.b) ^^^ (s.a &&& s.c) ^^^ (s.b &&& s.c)
  ⟨t1 + (big0 + maj), s.a, s.b, s.c, s.d + t1, s.e, s.f, s.g⟩

/-- The next `n` schedule words, given the last sixteen, newest first. -/
def extend : Nat → List UInt32 → List UInt32
  | 0, _ => []
  | n + 1, recent =>
    let w15 := recent.getD 14 0
    let w2 := recent.getD 1 0
    let small0 := rotr w15 7 ^^^ rotr w15 18 ^^^ (w15 >>> 3)
    let small1 := rotr w2 17 ^^^ rotr w2 19 ^^^ (w2 >>> 10)
    let w := recent.getD 15 0 + small0 + recent.getD 6 0 + small1
    w :: extend n (w :: recent.take 15)

/-- The words of a block, and the forty-eight that the schedule derives from them. -/
def schedule (block : Bytes) : List UInt32 :=
  let ws := (chunks 4 block).map fun q => UInt32.ofNat (Bytes.natBE q)
  ws ++ extend 48 ws.reverse

/-- Takes one block in. -/
def compress (s : State) (block : Bytes) : State :=
  let t := ((schedule block).zip constants).foldl round s
  ⟨s.a + t.a, s.b + t.b, s.c + t.c, s.d + t.d, s.e + t.e, s.f + t.f, s.g + t.g, s.h + t.h⟩

/-- The SHA-256 digest of a message, thirty-two bytes. -/
def hash (msg : Bytes) : Bytes :=
  let s := (chunks 64 (padded 64 8 msg)).foldl compress initial
  [s.a, s.b, s.c, s.d, s.e, s.f, s.g, s.h].flatMap fun w => Bytes.ofNatBE 4 w.toNat

@[simp] theorem length_hash (msg : Bytes) : (hash msg).length = 32 := by
  simp [hash, Bytes.ofNatBE]

end SharedRuntime.Digest.Sha256
