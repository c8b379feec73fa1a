import SharedRuntime.Host.Config
import SharedRuntime.Host.Layout
import SharedRuntime.Update.Failure

/-!
# Failures of commands

A command that cannot do its work ends with one of these. The text tells first what was tried and
then, after a colon each, the causes.
-/

set_option autoImplicit false

namespace SharedRuntime

/-- A text with its cause. -/
def withCause (text cause : String) : String := text ++ ": " ++ cause

/-- The text of a fault with its causes. -/
def ConfigFault.chain (f : ConfigFault) : String :=
  match f with
  | unreadable cause => withCause f.message cause.message
  | _ => f.message

/-- The text of a fault with its causes. -/
def IdentityFault.chain (f : IdentityFault) : String :=
  match f with
  | io cause => withCause f.message cause.message
  | archive cause => withCause f.message cause.message
  | _ => f.message

/-- Why a command did not do its work. -/
inductive CommandFault
  | config (fault : ConfigFault)
  /-- The configuration that the arguments name cannot be loaded. -/
  | loading (file : Path) (fault : ConfigFault)
  | layout (fault : LayoutFault)
  | io (fault : IoFault)
  | identity (fault : IdentityFault)
  /-- The artifact did not pass. -/
  | rejected
  | installation (error : UpdateError)
  /-- The update came to another end than its completion. -/
  | incomplete (error : UpdateError)
  | readingKey (file : Path) (fault : IoFault)
  | malformedKey (fault : Hex.Fault)
  /-- The secret key has another size than keys have. -/
  | wrongKeySize
  | notAFile (path : Path)
  | reading (file : Path) (fault : IoFault)
  deriving DecidableEq, Repr

/-- The text of a fault with its causes. -/
def CommandFault.message : CommandFault → String
  | config f => f.chain
  | loading file f => withCause ("loading " ++ file.display) f.chain
  | layout f => f.message
  | io f => f.message
  | identity f => f.chain
  | rejected => "verification failed"
  | installation e => e.message
  | incomplete e => withCause "runtime update did not complete" e.message
  | readingKey file f => withCause ("reading key " ++ file.display) f.message
  | malformedKey f => f.message
  | wrongKeySize => "secret key must be " ++ toString keySize ++ " bytes"
  | notAFile path => withCause "not a file" path.display
  | reading file f => withCause ("reading " ++ file.display) f.message

end SharedRuntime
