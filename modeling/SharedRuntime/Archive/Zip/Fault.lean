import SharedRuntime.FileSystem.Fault

/-!
# Faults of zip archives
-/

set_option autoImplicit false

namespace SharedRuntime.Zip

/-- Why a zip archive or one of its entries cannot be read or written. -/
inductive Fault
  | io (fault : IoFault)
  /-- The bytes do not have the form of an archive, or cannot be given it. -/
  | invalid
  /-- The archive has a form that is not read here. -/
  | unsupported
  /-- There is no entry of the name. -/
  | notFound
  /-- The entry can only be read with a password. -/
  | wrongPassword
  deriving DecidableEq, Repr

/-- The text of a fault. -/
def Fault.message : Fault → String
  | io _ => "i/o error"
  | invalid => "invalid Zip archive"
  | unsupported => "unsupported Zip archive"
  | notFound => "specified file not found in archive"
  | wrongPassword => "provided password is incorrect"

end SharedRuntime.Zip
