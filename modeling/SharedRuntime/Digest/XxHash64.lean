import SharedRuntime.Bytes

/-!
# XXH64

A fast checksum of eight bytes, here with the seed zero. Four sums take in the words of a message
in turn; what does not fill four words is taken in after the sums are merged.
-/

set_option autoImplicit false

namespace SharedRuntime.Digest.XxHash64

def prime1 : UInt64 := 0x9E3779B185EBCA87
def prime2 : UInt64 := 0xC2B2AE3D27D4EB4F
def prime3 : UInt64 := 0x165667B19E3779F9
def prime4 : UInt64 := 0x85EBCA77C2B2AE63
def prime5 : UInt64 := 0x27D4EB2F165667C5

/-- Rotation to the left. -/
def rotl (x n : UInt64) : UInt64 := (x <<< n) ||| (x >>> (64 - n))

/-- Takes a word into a sum. -/
def round (sum word : UInt64) : UInt64 := rotl (sum + word * prime2) 31 * prime1

/-- The word of eight bytes, the lowest first. -/
def word (a b c d e f g h : UInt8) : UInt64 :=
  a.toUInt64 ||| (b.toUInt64 <<< 8) ||| (c.toUInt64 <<< 16) ||| (d.toUInt64 <<< 24) |||
    (e.toUInt64 <<< 32) ||| (f.toUInt64 <<< 40) ||| (g.toUInt64 <<< 48) ||| (h.toUInt64 <<< 56)

/-- The four sums, in the order in which they take words in. -/
structure Sums where
  (a b c d : UInt64)

/-- The sums before the first word. -/
def Sums.initial : Sums := ⟨prime1 + prime2, prime2, 0, 0 - prime1⟩

/-- Takes a word in. The sum whose turn it was is last in the next turn. -/
def Sums.take (s : Sums) (w : UInt64) : Sums := ⟨s.b, s.c, s.d, round s.a w⟩

/-- Takes `n` words of a message in; the sums and the rest of the message. -/
def Sums.takeWords : Nat → Sums → Bytes → Sums × Bytes
  | n + 1, s, a :: b :: c :: d :: e :: f :: g :: h :: rest =>
    takeWords n (s.take (word a b c d e f g h)) rest
  | _, s, bs => (s, bs)

/-- Merges a sum in. -/
def merge (hash sum : UInt64) : UInt64 := (hash ^^^ round 0 sum) * prime1 + prime4

/-- The sums merged. -/
def Sums.merged (s : Sums) : UInt64 :=
  [s.a, s.b, s.c, s.d].foldl merge (rotl s.a 1 + rotl s.b 7 + rotl s.c 12 + rotl s.d 18)

/-- Takes in what does not fill four words. -/
def finish (hash : UInt64) : Bytes → UInt64
  | a :: b :: c :: d :: e :: f :: g :: h :: rest =>
    finish (rotl (hash ^^^ round 0 (word a b c d e f g h)) 27 * prime1 + prime4) rest
  | a :: b :: c :: d :: rest =>
    finish (rotl (hash ^^^ (word a b c d 0 0 0 0 * prime1)) 23 * prime2 + prime3) rest
  | a :: rest => finish (rotl (hash ^^^ (a.toUInt64 * prime5)) 11 * prime1) rest
  | [] => hash

/-- Mixes the bits of a hash. -/
def mix (hash : UInt64) : UInt64 :=
  let hash := (hash ^^^ (hash >>> 33)) * prime2
  let hash := (hash ^^^ (hash >>> 29)) * prime3
  hash ^^^ (hash >>> 32)

/-- The checksum of a message. -/
def hash (msg : Bytes) : UInt64 :=
  let n := msg.length
  if n < 32 then mix (finish (prime5 + UInt64.ofNat n) msg)
  else
    let (sums, rest) := Sums.takeWords (n / 32 * 4) .initial msg
    mix (finish (sums.merged + UInt64.ofNat n) rest)

end SharedRuntime.Digest.XxHash64
