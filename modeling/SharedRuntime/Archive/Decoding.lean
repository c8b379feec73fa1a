import SharedRuntime.Archive.ByteStream

/-!
# Decoders at work

A decoder gets its input in refills and adds to its output. Whoever reads from a decoder gets what
it has decoded when a refill is used up; these are the portions of the output. `Decode` is the
monad of decoders, with the faults of the data; `decode` runs one over its refills.

Bits can be taken from the low end of a byte or from the high end, as the format says.
-/

set_option autoImplicit false

namespace SharedRuntime

/-- Why decoding stopped before the end of the data. -/
inductive DecodingFault
  | truncated
  | corrupt
  deriving DecidableEq, Repr

/-- The end of a portion: how much output there was, and whether the next portion is joined. -/
structure PortionEnd where
  size : Nat
  joined : Bool

/-- A decoder at work: the bytes at hand, how many bits of the first are used, the refills to come,
and the output with the ends of its portions, the last first. -/
structure Decoding where
  input : Bytes
  used : Nat
  later : List Bytes
  out : Array UInt8
  ends : List PortionEnd

/-- Adds the end of a portion. Two ends at one place are one, joined only if both are. -/
def PortionEnd.addTo (e : PortionEnd) : List PortionEnd → List PortionEnd
  | [] => [e]
  | h :: hs => if h.size = e.size then ⟨e.size, h.joined && e.joined⟩ :: hs else e :: h :: hs

/-- A step of a decoder. -/
abbrev Decode (α : Type) := ExceptT DecodingFault (StateM Decoding) α

namespace Decoding

/-- The start of a decoder on its refills. -/
def start (refills : List Bytes) : Decoding := ⟨[], 0, refills, #[], []⟩

/-- Ends a portion of the output. -/
def endPortion (joined : Bool) (d : Decoding) : Decoding :=
  ⟨d.input, d.used, d.later, d.out, PortionEnd.addTo ⟨d.out.size, joined⟩ d.ends⟩

/-- Takes refills until there are bytes. What was decoded up to then is a portion. -/
def supply (d : Decoding) : List Bytes → Decoding
  | [] => endPortion false ⟨[], 0, [], d.out, d.ends⟩
  | [] :: later => supply d later
  | (b :: bs) :: later => endPortion false ⟨b :: bs, 0, later, d.out, d.ends⟩

/-- Are there bytes at hand of which no bit is used? -/
def hasInput (d : Decoding) : Bool :=
  match d.input with
  | [] => false
  | _ :: rest => d.used == 0 || !rest.isEmpty

/-- The whole bytes that no bit was taken of. -/
def rest (d : Decoding) : Bytes :=
  (if d.used = 0 then d.input else d.input.tail) ++ d.later.flatten

/-- The portions between ends, which come in order, from `size` on. -/
def portionsFrom : Nat → List PortionEnd → List Portion
  | _, [] => []
  | size, e :: ends =>
    if e.size ≤ size then portionsFrom size ends
    else ⟨e.size - size, e.joined⟩ :: portionsFrom e.size ends

/-- The portions that have ended. -/
def portions (d : Decoding) : List Portion := portionsFrom 0 d.ends.reverse

/-- How much output there was at the last end of a portion. -/
def settled (d : Decoding) : Nat := (d.ends.head?.map PortionEnd.size).getD 0

end Decoding

/-- What came of decoding: the bytes that can be had, in portions, and what follows the encoded
data or why they ended. -/
structure Decoded where
  bytes : Bytes
  portions : List Portion
  rest : Except DecodingFault Bytes

namespace Decoded

/-- The output of a decoder that came to its end. A portion in which the data turn out to be corrupt
is lost. -/
def ofOutcome (r : Except DecodingFault Unit) (d : Decoding) : Decoded :=
  match r with
  | .ok () => ⟨d.out.toList, (d.endPortion false).portions, .ok d.rest⟩
  | .error .truncated => ⟨d.out.toList, d.portions, .error .truncated⟩
  | .error .corrupt => ⟨d.out.toList.take d.settled, d.portions, .error .corrupt⟩

/-- The text of the fault for data that are corrupt. -/
def corruptText : String := "corrupt data"

/-- The output as a stream. `short` is the fault where the data end too early, `none` where that
counts as their end. -/
def stream (short : Option IoFault) (r : Decoded) : ByteStream :=
  match r.rest with
  | .ok _ => ⟨r.bytes, none, r.portions⟩
  | .error .truncated => ⟨r.bytes, short, r.portions⟩
  | .error .corrupt => ⟨r.bytes, some (.badData corruptText), r.portions⟩

end Decoded

namespace Decode

/-- Runs a decoder over its refills. -/
def run (step : Decode Unit) (refills : List Bytes) : Decoded :=
  match ExceptT.run step (Decoding.start refills) with
  | (r, d) => Decoded.ofOutcome r d

/-- A step made of its effect. -/
def ofStep {α : Type} (f : Decoding → Except DecodingFault α × Decoding) : Decode α := f

/-- Stops decoding. -/
def fail {α : Type} (f : DecodingFault) : Decode α := ofStep fun d => (.error f, d)

/-- Stops decoding where a condition does not hold. -/
def require (c : Bool) : Decode Unit := if c then pure () else fail .corrupt

/-- The next byte, none of whose bits are used. -/
def byte : Decode UInt8 :=
  ofStep fun d =>
    match d.input with
    | b :: rest => (.ok b, ⟨rest, 0, d.later, d.out, d.ends⟩)
    | [] =>
      match d.supply d.later with
      | ⟨b :: rest, _, later, out, ends⟩ => (.ok b, ⟨rest, 0, later, out, ends⟩)
      | d => (.error .truncated, d)

/-- The next `n` bytes. -/
def bytes : Nat → Decode Bytes
  | 0 => pure []
  | n + 1 => do
    let b ← byte
    let bs ← bytes n
    return b :: bs

/-- Passes over `n` bytes. -/
def skip : Nat → Decode Unit
  | 0 => pure ()
  | n + 1 => do
    let _ ← byte
    skip n

/-- A number of `n` bytes, the lowest first. -/
def natLE (n : Nat) : Decode Nat := do
  let bs ← bytes n
  return Bytes.natLE bs

/-- Drops the bits that are left of a byte that is begun. -/
def align : Decode Unit :=
  ofStep fun d => (.ok (), if d.used = 0 then d else ⟨d.input.tail, 0, d.later, d.out, d.ends⟩)

/-- A bit of a byte, by its place counted from one end. -/
abbrev BitOrder := UInt8 → Nat → Nat

/-- Bits are taken from the low end of a byte to the high end. -/
def lowFirst : BitOrder := fun b i => (b >>> UInt8.ofNat i).toNat % 2

/-- Bits are taken from the high end of a byte to the low end. -/
def highFirst : BitOrder := fun b i => (b >>> UInt8.ofNat (7 - i)).toNat % 2

/-- The next bit. -/
def bit (order : BitOrder) : Decode Nat :=
  ofStep fun d =>
    match if d.input.isEmpty then d.supply d.later else d with
    | ⟨b :: rest, used, later, out, ends⟩ =>
      if used = 7 then (.ok (order b 7), ⟨rest, 0, later, out, ends⟩)
      else (.ok (order b used), ⟨b :: rest, used + 1, later, out, ends⟩)
    | d => (.error .truncated, d)

/-- A number of `n` bits, the lowest first, from the low ends of bytes. -/
def bitsLow : Nat → Decode Nat
  | 0 => pure 0
  | n + 1 => do
    let b ← bit lowFirst
    let high ← bitsLow n
    return b + 2 * high

/-- A number of `n` bits below `acc`, the highest first, from the high ends of bytes. -/
def bitsHighAux : Nat → Nat → Decode Nat
  | 0, acc => pure acc
  | n + 1, acc => do
    let b ← bit highFirst
    bitsHighAux n (2 * acc + b)

/-- A number of `n` bits, the highest first, from the high ends of bytes. -/
def bitsHigh (n : Nat) : Decode Nat := bitsHighAux n 0

/-- Adds a byte to the output. -/
def emit (b : UInt8) : Decode Unit :=
  ofStep fun d => (.ok (), ⟨d.input, d.used, d.later, d.out.push b, d.ends⟩)

/-- Adds bytes to the output. -/
def emitAll (bs : Bytes) : Decode Unit :=
  ofStep fun d =>
    (.ok (), ⟨d.input, d.used, d.later, bs.foldl Array.push d.out, d.ends⟩)

/-- Ends a portion of the output. -/
def endPortion (joined : Bool) : Decode Unit :=
  ofStep fun d => (.ok (), d.endPortion joined)

/-- Ends a portion before the last byte of the output, if that has been added since the last end:
the byte is handed out together with what follows it. -/
def holdLast : Decode Unit :=
  ofStep fun d =>
    if d.settled < d.out.size then
      (.ok (), ⟨d.input, d.used, d.later, d.out,
        PortionEnd.addTo ⟨d.out.size - 1, true⟩ d.ends⟩)
    else (.ok (), d)

/-- Copies a byte of the output from `distance` bytes back; before the output there are zeros. -/
def copyByte (distance : Nat) : Decode Unit :=
  ofStep fun d =>
    let b := if distance ≤ d.out.size then d.out.getD (d.out.size - distance) 0 else 0
    (.ok (), ⟨d.input, d.used, d.later, d.out.push b, d.ends⟩)

/-- Copies `n` bytes of the output from `distance` bytes back. -/
def copyBytes (distance : Nat) : Nat → Decode Unit
  | 0 => pure ()
  | n + 1 => do
    copyByte distance
    copyBytes distance n

/-- The byte of the output that stands `n` bytes before the last; zero where there are fewer. -/
def lastByte (n : Nat) : Decode UInt8 :=
  ofStep fun d => (.ok (if n < d.out.size then d.out.getD (d.out.size - 1 - n) 0 else 0), d)

/-- How many whole bytes of the input remain. -/
def remaining : Decode Nat := ofStep fun d => (.ok d.rest.length, d)

/-- Are there bytes at hand? -/
def hasInput : Decode Bool := ofStep fun d => (.ok d.hasInput, d)

/-- Is all input used up, that of later refills as well? -/
def atEnd : Decode Bool := ofStep fun d => (.ok (d.input.isEmpty && d.later.all List.isEmpty), d)

/-- The output from its byte of index `n` on. -/
def outFrom (n : Nat) : Decode Bytes := ofStep fun d => (.ok (d.out.toList.drop n), d)

/-- The size of the output. -/
def outSize : Decode Nat := ofStep fun d => (.ok d.out.size, d)

end Decode

end SharedRuntime
