import SharedRuntime.FileSystem.Fault

/-!
# Byte streams

What a reader gets from an archive member: some bytes, and then the end or a fault. A reader asks
for a number of bytes at a time and may get fewer, because a decoder hands out what it has before
it goes on: its bytes come in portions.
-/

set_option autoImplicit false

namespace SharedRuntime

/-- A run of bytes that a decoder hands out before it decodes more. -/
structure Portion where
  length : Nat
  /-- Does a reader that has room left get bytes of the next portion at once? -/
  joined : Bool
  deriving DecidableEq, Repr

/-- The bytes that can be read, and the fault that reading on meets after them. Bytes behind the
portions are one more portion. -/
structure ByteStream where
  data : Bytes
  fault : Option IoFault
  portions : List Portion
  deriving DecidableEq, Repr

namespace ByteStream

/-- A stream that ends after its bytes. -/
def ofBytes (data : Bytes) : ByteStream := ⟨data, none, []⟩

/-- A stream of some bytes and a fault. -/
def withFault (data : Bytes) (fault : IoFault) : ByteStream := ⟨data, some fault, []⟩

/-- All bytes, where reading to the end meets no fault. -/
def readAll (s : ByteStream) : Except IoFault Bytes :=
  match s.fault with
  | none => .ok s.data
  | some f => .error f

/-- One read of up to `n` bytes: at least one byte, unless the stream is at its end. Bytes of
joined portions are lost when the fault behind them is met in the same read. -/
def readPortions (fault : Option IoFault) :
    List Portion → Nat → Bytes → Except IoFault (Bytes × ByteStream)
  | [], n, data =>
    match data, fault with
    | [], some f => .error f
    | _, _ => .ok (data.take n, ⟨data.drop n, fault, []⟩)
  | p :: ps, n, data =>
    if p.length = 0 then readPortions fault ps n data
    else if n < p.length then
      .ok (data.take n, ⟨data.drop n, fault, ⟨p.length - n, false⟩ :: ps⟩)
    else if n = p.length || !p.joined then
      .ok (data.take p.length, ⟨data.drop p.length, fault, ps⟩)
    else
      match readPortions fault ps (n - p.length) (data.drop p.length) with
      | .error f => .error f
      | .ok (more, rest) => .ok (data.take p.length ++ more, rest)

/-- One read of up to `n` bytes. -/
def read (n : Nat) (s : ByteStream) : Except IoFault (Bytes × ByteStream) :=
  readPortions s.fault s.portions n s.data

/-- Reads again and again, until there are `n` bytes or the stream is at its end. -/
def peekAux : Nat → Nat → ByteStream → Except IoFault Bytes
  | 0, _, _ => .ok []
  | fuel + 1, n, s =>
    match s.read n with
    | .error f => .error f
    | .ok (got, rest) =>
      if got = [] || n ≤ got.length then .ok got
      else match peekAux fuel (n - got.length) rest with
        | .error f => .error f
        | .ok more => .ok (got ++ more)

/-- The first `n` bytes, or all where there are fewer. A fault is met only when more than the bytes
before it are wanted. -/
def peek (n : Nat) (s : ByteStream) : Except IoFault Bytes := peekAux (n + 1) n s

/-- The bytes that one read takes when a stream is copied. -/
def copySize : Nat := 8192

/-- The bytes that single reads give, the first of up to `first` bytes and the others of up to
`size`, until a read meets a fault or the end. -/
def readsAux (size : Nat) : Nat → Nat → ByteStream → List Bytes
  | 0, _, _ => []
  | fuel + 1, first, s =>
    match s.read first with
    | .error _ => []
    | .ok (got, rest) => if got = [] then [] else got :: readsAux size fuel size rest

/-- The bytes that single reads give, the first of up to `first` bytes and the others of up to
`size`. -/
def reads (first size : Nat) (s : ByteStream) : List Bytes :=
  readsAux size (s.data.length + 1) first s

/-- What a copy of the stream holds when it ends or meets the fault. -/
def copied (s : ByteStream) : Bytes :=
  match s.fault with
  | none => s.data
  | some _ => (s.reads copySize copySize).flatten

/-- What a copy of the first `n` bytes holds when it ends or meets the fault. -/
def copiedUpTo (n : Nat) (s : ByteStream) : Bytes :=
  let start := s.data.take n
  if start.length = n then start else s.copied

/-- The portions without their first `n` bytes; of a portion that is begun the rest is handed out
on its own. -/
def dropPortions : Nat → List Portion → List Portion
  | _, [] => []
  | n, p :: ps =>
    if n = 0 then p :: ps
    else if n < p.length then ⟨p.length - n, false⟩ :: ps
    else dropPortions (n - p.length) ps

/-- The stream without its first `n` bytes. -/
def drop (n : Nat) (s : ByteStream) : ByteStream :=
  ⟨s.data.drop n, s.fault, dropPortions n s.portions⟩

/-- The fault of a reader that needs more bytes than there are. -/
def shortage (s : ByteStream) (text : String) : IoFault := s.fault.getD (.endOfData text)

end ByteStream

end SharedRuntime
