import SharedRuntime.Bytes

/-!
# Faults of the file system

A fault is an error number of the operating system, or a refusal before it was asked.
`IoFault.message` is the text that a reader sees.
-/

set_option autoImplicit false

namespace SharedRuntime

/-- The error numbers that file operations end with. -/
inductive Errno
  | notPermitted
  | noEntry
  | busy
  | exists
  | notDirectory
  | isDirectory
  | invalid
  | nameTooLong
  | linkLoop
  deriving DecidableEq, Repr

namespace Errno

/-- The number. -/
def code : Errno → Nat
  | notPermitted => 1
  | noEntry => 2
  | busy => 16
  | .exists => 17
  | notDirectory => 20
  | isDirectory => 21
  | invalid => 22
  | nameTooLong => 36
  | linkLoop => 40

/-- The text for the number. -/
def text : Errno → String
  | notPermitted => "Operation not permitted"
  | noEntry => "No such file or directory"
  | busy => "Device or resource busy"
  | .exists => "File exists"
  | notDirectory => "Not a directory"
  | isDirectory => "Is a directory"
  | invalid => "Invalid argument"
  | nameTooLong => "File name too long"
  | linkLoop => "Too many levels of symbolic links"

end Errno

/-- Why bytes could not be read, written or decoded. -/
inductive IoFault
  /-- The operating system refused. -/
  | os (errno : Errno)
  /-- A path holds a NUL byte. -/
  | nulInPath
  /-- A file that has to be text is not UTF-8. -/
  | notText
  /-- A file does not have the form that its reader expects. -/
  | badData (text : String)
  /-- Data end too early. -/
  | endOfData (text : String)
  /-- Anything else, by its text. -/
  | other (text : String)
  deriving DecidableEq, Repr

namespace IoFault

/-- The text of a fault. -/
def message : IoFault → String
  | os e => e.text ++ " (os error " ++ toString e.code ++ ")"
  | nulInPath => "file name contained an unexpected NUL byte"
  | notText => "stream did not contain valid UTF-8"
  | badData t => t
  | endOfData t => t
  | other t => t

/-- Is the fault that a file or directory does not exist? -/
def isMissing (f : IoFault) : Bool := f == os .noEntry

end IoFault

end SharedRuntime
