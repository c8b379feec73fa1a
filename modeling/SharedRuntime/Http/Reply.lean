import SharedRuntime.Http.Address
import SharedRuntime.Update.Transfer

/-!
# Replies of a server

A reply is read off all the bytes that came before the connection ended: the status, the fields of
the head, and the body in the framing that the head tells. A body that is shorter than the head
says, or whose last piece is missing, breaks off.
-/

set_option autoImplicit false

namespace SharedRuntime.Http

/-- The head of a reply. -/
structure Head where
  status : UInt16
  /-- The fields, their names in lower case. -/
  fields : List (String × String)
  deriving DecidableEq, Repr

namespace Head

/-- The value of a field. -/
def field? (h : Head) (name : String) : Option String := h.fields.lookup name

end Head

/-- The byte `\n`. -/
def lineFeed : UInt8 := 0x0A

/-- The next line and what follows it; a carriage return at its end is dropped. -/
def line? (bs : Bytes) : Option (Bytes × Bytes) :=
  match bs.dropWhile (· != lineFeed) with
  | [] => none
  | _ :: rest =>
    let line := bs.takeWhile (· != lineFeed)
    some (if line.getLast? == some 0x0D then line.dropLast else line, rest)

/-- Reads the line with the status. -/
def statusOf? (line : String) : Option UInt16 :=
  let cs := line.toList
  let code := ((cs.dropWhile (· != ' ')).dropWhile (· == ' ')).take 3
  if (String.ofList (cs.take 7)) = "HTTP/1." && code.length = 3 && code.all isDecimal then
    some (UInt16.ofNat (decimalNumber code))
  else none

/-- Reads the line of a field. -/
def fieldOf? (line : String) : Option (String × String) :=
  let cs := line.toList
  match cs.dropWhile (· != ':') with
  | [] => none
  | _ :: value =>
    let blank (c : Char) : Bool := c == ' ' || c == '\t'
    let value := ((value.dropWhile blank).reverse.dropWhile blank).reverse
    some (asciiLower (String.ofList (cs.takeWhile (· != ':'))), String.ofList value)

/-- Reads the fields up to the empty line; `fuel` bounds their number. -/
def fields? : Nat → Bytes → Option (List (String × String) × Bytes)
  | 0, _ => none
  | fuel + 1, bs => do
    let (line, rest) ← line? bs
    if line = [] then return ([], rest)
    else
      let field ← fieldOf? (Utf8.decodeLossy line)
      let (fields, rest) ← fields? fuel rest
      return (field :: fields, rest)

/-- Reads the head of a reply, and passes over heads that only announce another. -/
def head? : Nat → Bytes → Option (Head × Bytes)
  | 0, _ => none
  | fuel + 1, bs => do
    let (first, rest) ← line? bs
    let status ← statusOf? (Utf8.decodeLossy first)
    let (fields, rest) ← fields? bs.length rest
    if 100 ≤ status && status < 200 then head? fuel rest
    else return (⟨status, fields⟩, rest)

/-- The pieces of a body that comes in pieces, and whether it breaks off. -/
def pieces : Nat → Bytes → List Bytes × Bool
  | 0, _ => ([], true)
  | fuel + 1, bs =>
    match line? bs with
    | none => ([], true)
    | some (line, rest) =>
      let digits := (Utf8.decodeLossy line).toList.takeWhile fun c => (hexValue? c).isSome
      let size := digits.foldl (fun n c => 16 * n + (hexValue? c).getD 0) 0
      if digits = [] then ([], true)
      else if size = 0 then ([], false)
      else if rest.length < size then ([rest], true)
      else
        match line? (rest.drop size) with
        | some ([], rest') =>
          let (more, breaksOff) := pieces fuel rest'
          (rest.take size :: more, breaksOff)
        | _ => ([rest.take size], true)

/-- A body as one piece; none if it is empty. -/
def asPiece (body : Bytes) : List Bytes := if body = [] then [] else [body]

/-- The reply with the body in the framing that the head tells. `ended` says that the connection
was closed in order. -/
def frame (h : Head) (body : Bytes) (ended : Bool) : Transfer.Reply :=
  if h.status = 204 || h.status = 304 then ⟨h.status, 0, [], false⟩
  else if (h.field? "transfer-encoding").any fun v => eqIgnoringCase v "chunked" then
    let (chunks, breaksOff) := pieces (body.length + 1) body
    ⟨h.status, 0, chunks.filter (· != []), breaksOff⟩
  else
    match h.field? "content-length" with
    | some v =>
      let size := decimalNumber (v.toList.takeWhile isDecimal)
      ⟨h.status, size, asPiece (body.take size), body.length < size⟩
    | none => ⟨h.status, 0, asPiece body, !ended⟩

/-- What a server answers. -/
inductive Answer
  | reply (r : Transfer.Reply)
  /-- What is asked for is elsewhere. -/
  | elsewhere (address : Address)

/-- Does the status send elsewhere? -/
def isRedirection (status : UInt16) : Bool :=
  status == 301 || status == 302 || status == 303 || status == 307 || status == 308

/-- Reads the answer to the request for an address; `none` if it has no head. -/
def answerOf? (a : Address) (bs : Bytes) (ended : Bool) : Option Answer := do
  let (h, body) ← head? (bs.length + 1) bs
  match (if isRedirection h.status then h.field? "location" else none) with
  | some location => return .elsewhere (← a.redirect? location)
  | none => return .reply (frame h body ended)

end SharedRuntime.Http
