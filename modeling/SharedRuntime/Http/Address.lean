import SharedRuntime.Text.Ascii

/-!
# Addresses of the web

An address names a host, a service and what is asked for there. Only the scheme `http` is read.
-/

set_option autoImplicit false

namespace SharedRuntime.Http

/-- Where to ask, and for what. -/
structure Address where
  host : String
  /-- The number of the service on the host. -/
  service : UInt16
  /-- The path and the query. -/
  target : String
  deriving DecidableEq, Repr

namespace Address

/-- The service that the scheme stands for. -/
def usualService : UInt16 := 80

/-- What precedes the host. -/
def scheme : List Char := ['h', 't', 't', 'p', ':', '/', '/']

/-- Is the character the end of host and service? -/
def endsAuthority (c : Char) : Bool := c == '/' || c == '?' || c == '#'

/-- The number of a service; the usual one if there are no digits. -/
def service? (cs : List Char) : Option UInt16 :=
  if cs = [] then some usualService
  else if cs.all isDecimal && decimalNumber cs < 65536 then some (UInt16.ofNat (decimalNumber cs))
  else none

/-- Host and service. The host may stand in square brackets. -/
def hostAndService? (cs : List Char) : Option (String × UInt16) :=
  let (host, rest) :=
    match cs with
    | '[' :: cs => (cs.takeWhile (· != ']'), (cs.dropWhile (· != ']')).drop 1)
    | cs => (cs.takeWhile (· != ':'), cs.dropWhile (· != ':'))
  if host = [] then none
  else
    match rest with
    | [] => some (String.ofList host, usualService)
    | ':' :: digits => (service? digits).map fun n => (String.ofList host, n)
    | _ => none

/-- Drops a name with its `@` before the host. -/
def withoutUser (cs : List Char) : List Char :=
  if cs.contains '@' then (cs.reverse.takeWhile (· != '@')).reverse else cs

/-- The target that follows the host. A fragment is not asked for. -/
def targetOf (cs : List Char) : String :=
  let cs := cs.takeWhile (· != '#')
  match cs with
  | '/' :: _ => String.ofList cs
  | _ => String.ofList ('/' :: cs)

/-- Reads an address. -/
def parse? (text : String) : Option Address :=
  let cs := text.toList
  if (cs.take scheme.length).map Char.toLower != scheme then none
  else
    let rest := cs.drop scheme.length
    let authority := withoutUser (rest.takeWhile (! endsAuthority ·))
    (hostAndService? authority).map fun (host, service) =>
      ⟨host, service, targetOf (rest.dropWhile (! endsAuthority ·))⟩

/-- The address that a reply sends to, from the one that was asked. -/
def redirect? (a : Address) (location : String) : Option Address :=
  match location.toList with
  | '/' :: '/' :: _ => parse? ("http:" ++ location)
  | '/' :: cs => some { a with target := targetOf ('/' :: cs) }
  | cs =>
    if (cs.takeWhile (! endsAuthority ·)).contains ':' then parse? location
    else
      let path := a.target.toList.takeWhile (· != '?')
      let directory := (path.reverse.dropWhile (· != '/')).reverse
      some { a with target := targetOf (directory ++ cs) }

/-- Host and service as a request names them. -/
def authority (a : Address) : String :=
  let host := if a.host.toList.contains ':' then "[" ++ a.host ++ "]" else a.host
  if a.service = usualService then host else host ++ ":" ++ toString a.service.toNat

/-- The request for what the address names. The connection ends with the reply. -/
def request (a : Address) : String :=
  "\r\n".intercalate ["GET " ++ a.target ++ " HTTP/1.1", "user-agent: Runtime-Updater",
    "accept: */*", "host: " ++ a.authority, "connection: close", "", ""]

end Address

end SharedRuntime.Http
