import SharedRuntime.Http.Reply
import Std.Async

/-!
# The network

Asks a server for what an address names and waits until the connection ends.
-/

set_option autoImplicit false

namespace SharedRuntime.Network

open Std.Async Std.Net

/-- The address of a service. -/
def socketAddress (service : UInt16) : IPAddr → SocketAddress
  | .v4 ip => .v4 ⟨ip, service⟩
  | .v6 ip => .v6 ⟨ip, service⟩

/-- All that comes until the connection ends, and whether it ended in order. -/
partial def receive (client : TCP.Socket.Client) (got : ByteArray) : Async (ByteArray × Bool) := do
  let next ← try
      match ← client.recv? 65536 with
      | some data => pure (some data, true)
      | none => pure (none, true)
    catch _ => pure (none, false)
  match next with
  | (some data, _) => receive client (got ++ data)
  | (none, ended) => return (got, ended)

/-- A connection to the first of some addresses that takes one. -/
def connect (service : UInt16) : List IPAddr → Async (Option TCP.Socket.Client)
  | [] => return none
  | ip :: rest => do
    try
      let client ← TCP.Socket.Client.mk
      client.connect (socketAddress service ip)
      return some client
    catch _ => connect service rest

/-- Asks for what an address names. -/
def ask (a : Http.Address) : Async (Option Http.Answer) := do
  let ips ← DNS.getAddrInfo a.host (toString a.service.toNat)
  match ← connect a.service ips.toList with
  | none => return none
  | some client =>
    client.send a.request.toUTF8
    let (data, ended) ← receive client ByteArray.empty
    return Http.answerOf? a data.toList ended

/-- Asks for what an address names, and goes where the answers send to, at most `hops` times. -/
def fetch : Nat → Http.Address → Async (Option Transfer.Reply)
  | hops, a => do
    match ← ask a with
    | some (.reply r) => return some r
    | some (.elsewhere b) =>
      match hops with
      | 0 => return none
      | hops + 1 => fetch hops b
    | none => return none

/-- The course of a transfer from an address. -/
def courseFor (url : String) : IO Transfer.Course := do
  match Http.Address.parse? url with
  | none => return .unanswered
  | some a =>
    try
      match ← (fetch 10 a).block with
      | some r => return { Transfer.Course.unanswered with reply := .ok r }
      | none => return .unanswered
    catch _ => return .unanswered

end SharedRuntime.Network
