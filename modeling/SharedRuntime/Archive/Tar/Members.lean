import SharedRuntime.Archive.Tar.Header

/-!
# Members of tar archives

`members` reads the members off a stream. Some members only describe the next one: they give it a
long path, a long link target, or attributes. The archive ends with a block of zeros or with the
stream; a fault ends the list of members, and those before it stand.
-/

set_option autoImplicit false

namespace SharedRuntime.Tar

/-- A part of the contents of a member: bytes of the archive, of which `wanted` are promised, or
a hole. -/
inductive Piece
  | data (bytes : Bytes) (wanted : Nat)
  | hole (length : Nat)

/-- A member as it is unpacked. -/
structure Member where
  kind : Char
  path : Bytes
  link : Option Bytes
  isStandard : Bool
  pieces : List Piece

/-- What earlier members said about the next one. -/
structure Description where
  path : Option Bytes
  link : Option Bytes
  attributes : Option Bytes

/-- Nothing said. -/
def Description.none : Description := ⟨.none, .none, .none⟩

/-- Is nothing said? -/
def Description.isNone (d : Description) : Bool :=
  d.path.isNone && d.link.isNone && d.attributes.isNone

/-- A decimal number as an attribute writes it. -/
def decimal? (cs : List Char) : Option Nat :=
  let digits := match cs with
    | '+' :: rest => rest
    | all => all
  if digits = [] || !digits.all isDecimal then none
  else
    let n := decimalNumber digits
    if n < numberLimit then some n else none

/-- The key and the value of an attribute line that states its own length. -/
def attributeOfLine? (line : Bytes) : Option (Bytes × Bytes) := do
  let digits := line.takeWhile (· != 0x20)
  let text ← Utf8.decode? digits
  let n ← decimal? text.toList
  let rest ← match line.dropWhile (· != 0x20) with
    | _ :: rest => some rest
    | [] => Option.none
  if n != line.length + 1 then failure
  match rest.dropWhile (· != 0x3D) with
  | _ :: value => return (rest.takeWhile (· != 0x3D), value)
  | [] => failure

/-- The attribute lines, a malformed one as none. An empty line ends them. -/
def attributes (text : Bytes) : List (Option (Bytes × Bytes)) :=
  ((Bytes.splitOn 0x0A text).takeWhile fun line => line != []).map attributeOfLine?

/-- The first well-formed value of a key. -/
def attribute? (key : String) (text : Bytes) : Option Bytes :=
  ((attributes text).filterMap id).lookup (Bytes.ofString key)

/-- The size that attributes give, if no malformed line comes before it. -/
def attributeSize? (text : Bytes) : Option Nat := do
  let sound := (attributes text).takeWhile Option.isSome
  let value ← (sound.filterMap id).lookup (Bytes.ofString "size")
  decimal? (← Utf8.decode? value).toList

/-- A fault of the format. -/
def fault (text : String) : IoFault := .other text

/-- A header that was read, with the size of its contents and the bytes behind it. -/
structure RawMember where
  block : Block
  size : Nat
  rest : ByteStream

/-- The stream without its first `n` bytes. -/
def skip (n : Nat) (s : ByteStream) : Except IoFault ByteStream :=
  if n ≤ s.data.length then .ok (s.drop n)
  else .error (s.fault.getD (fault "unexpected EOF during skip"))

/-- The next block, or none at the end of the stream. -/
def block? (s : ByteStream) : Except IoFault (Option (Block × ByteStream)) :=
  if blockSize ≤ s.data.length then
    .ok (some (s.data.take blockSize, s.drop blockSize))
  else match s.fault with
    | some f => .error f
    | none => if s.data = [] then .ok none else .error (fault "failed to read entire block")

/-- Does a member of the kind only describe the next one, or all that follow? -/
def isDescribing (kind : Char) : Bool := kind = 'L' || kind = 'K' || kind = 'x' || kind = 'g'

/-- Reads a header; `text` holds the attributes said about the member. A size among them counts
and not that of the header. -/
def rawMember (text : Option Bytes) (s : ByteStream) : Except IoFault (Option RawMember) := do
  match ← block? s with
  | none => .ok none
  | some (block, rest) =>
    if block.all (· == 0) then .ok none
    else if !block.isSound then .error (fault "archive header checksum mismatch")
    else match block.size? with
      | none => .error (fault "numeric field was not a number")
      | some n =>
        let said := if isDescribing block.kind then Option.none else text.bind attributeSize?
        let size := said.getD n
        if numberLimit ≤ size + (blockSize - 1) then .error (fault "size overflow")
        else .ok (some ⟨block, size, rest⟩)

/-- A size, filled up to whole blocks. -/
def paddedSize (n : Nat) : Nat := (n + (blockSize - 1)) / blockSize * blockSize

/-- A text that may end with one zero byte. -/
def withoutFinalZero (bs : Bytes) : Bytes := if bs.getLast? == some 0 then bs.dropLast else bs

/-- What is known while the parts of a sparse file are read. -/
structure SparseState where
  pieces : List Piece
  current : Nat
  remaining : Nat
  stream : ByteStream

/-- Adds a part of a sparse file, which its 24 bytes describe. -/
def addSparse (size : Nat) (st : SparseState) (part : Bytes) : Except IoFault SparseState :=
  if part.headD 0 = 0 || (part.drop 12).headD 0 = 0 then .ok st
  else match number? (part.take 12), number? ((part.drop 12).take 12) with
    | some offset, some len =>
      if len != 0 && (size - st.remaining) % blockSize != 0 then
        .error (fault "previous block in sparse file was not aligned to 512-byte boundary")
      else if offset < st.current then
        .error (fault "out of order or overlapping sparse blocks")
      else if numberLimit ≤ offset + len then
        .error (fault "more bytes listed in sparse file than u64 can hold")
      else if st.remaining < len then
        .error (fault "sparse file consumed more data than the header listed")
      else
        let hole := if st.current < offset then [Piece.hole (offset - st.current)] else []
        .ok ⟨st.pieces ++ hole ++ [.data (st.stream.copiedUpTo len) len], offset + len,
          st.remaining - len, st.stream.drop len⟩
    | _, _ => .error (fault "numeric field was not a number")

/-- The descriptions of parts in a block. -/
def sparseParts (count start : Nat) (block : Block) : List Bytes :=
  (List.range count).map fun i => slice (start + 24 * i) 24 block

/-- Adds all parts in order. -/
def addSparseParts (size : Nat) (st : SparseState) (parts : List Bytes) :
    Except IoFault SparseState := parts.foldlM (addSparse size) st

/-- Reads the further blocks that describe parts: their descriptions, and what is behind them. -/
def sparseBlocks : Nat → ByteStream → Except IoFault (List Bytes × ByteStream)
  | 0, _ => .error (fault "failed to read extension")
  | fuel + 1, s => do
    match ← block? s with
    | none => .error (fault "failed to read extension")
    | some (block, rest) =>
      let parts := sparseParts 21 0 block
      if (block.drop 504).headD 0 = 1 then
        let (more, rest) ← sparseBlocks fuel rest
        return (parts ++ more, rest)
      else return (parts, rest)

/-- The contents of a sparse file, and the stream behind the descriptions of its parts. -/
def sparsePieces (raw : RawMember) : Except IoFault (List Piece × ByteStream) := do
  if !raw.block.isExtended then
    .error (fault "sparse entry type listed but not GNU header")
  else
    let own := sparseParts 4 386 raw.block
    let (more, rest) ←
      if (raw.block.drop 482).headD 0 = 1 then
        sparseBlocks (raw.rest.data.length / blockSize + 1) raw.rest
      else .ok ([], raw.rest)
    let st ← addSparseParts raw.size ⟨[], 0, raw.size, rest⟩ (own ++ more)
    match number? (slice 483 12 raw.block) with
    | none => .error (fault "numeric field was not a number")
    | some real =>
      if st.current != real then
        .error (fault "mismatch in sparse file chunks and size in header")
      else if st.remaining != 0 then
        .error (fault "mismatch in sparse file chunks and entry size in header")
      else return (st.pieces, rest)

/-- The member of a header, with what was said about it, and the stream behind the header. -/
def memberOf (d : Description) (raw : RawMember) : Except IoFault (Member × ByteStream) := do
  let said (key : String) := d.attributes.bind (attribute? key)
  let path := match d.path with
    | some p => withoutFinalZero p
    | none => (said "path").getD raw.block.path
  let link := match d.link with
    | some l => some (withoutFinalZero l)
    | none => (said "linkpath").or raw.block.linkTarget?
  let (pieces, rest) ←
    if raw.block.kind = 'S' then sparsePieces raw
    else .ok ([Piece.data (raw.rest.copiedUpTo raw.size) raw.size], raw.rest)
  return (⟨raw.block.kind, path, link, raw.block.isStandard, pieces⟩, rest)

/-- The contents of a member that describes the next one. -/
def describing (raw : RawMember) : Except IoFault Bytes :=
  if raw.size ≤ raw.rest.data.length then .ok (raw.rest.data.take raw.size)
  else match raw.rest.fault with
    | some f => .error f
    | none => .ok raw.rest.data

/-- Takes a description into what was said; each thing is said once. -/
def describe (d : Description) (raw : RawMember) : Except IoFault (Option Description) := do
  if !(raw.block.isStandard || raw.block.isExtended) then return none
  else if raw.block.kind = 'L' then
    if d.path.isSome then .error (fault "two long name entries describing the same member")
    else return some { d with path := some (← describing raw) }
  else if raw.block.kind = 'K' then
    if d.link.isSome then .error (fault "two long name entries describing the same member")
    else return some { d with link := some (← describing raw) }
  else if raw.block.kind = 'x' then
    if d.attributes.isSome then
      .error (fault "two pax extensions entries describing the same member")
    else return some { d with attributes := some (← describing raw) }
  else return none

/-- Reads members from where `n` bytes have to be skipped first. -/
def membersAux : Nat → Description → Nat → ByteStream → List Member × Option IoFault
  | 0, _, _, _ => ([], none)
  | fuel + 1, d, n, s =>
    match (skip n s).bind (rawMember d.attributes) with
    | .error f => ([], some f)
    | .ok none =>
      if d.isNone then ([], none)
      else ([], some (fault
        "members found describing a future member but no future member found"))
    | .ok (some raw) =>
      match describe d raw with
      | .error f => ([], some f)
      | .ok (some d) => membersAux fuel d (paddedSize raw.size) raw.rest
      | .ok none =>
        match memberOf d raw with
        | .error f => ([], some f)
        | .ok (m, rest) =>
          let (ms, f) := membersAux fuel .none (paddedSize raw.size) rest
          (m :: ms, f)

/-- The members of an archive, and the fault that ends them. -/
def members (s : ByteStream) : List Member × Option IoFault :=
  membersAux (s.data.length / blockSize + 2) .none 0 s

end SharedRuntime.Tar
