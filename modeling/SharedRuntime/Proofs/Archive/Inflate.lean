import SharedRuntime.Archive.Inflate
import SharedRuntime.Proofs.Archive.Decoding

/-!
# Deflated data and what follows them

The decoder of deflated data takes the bytes of these and no more (`local_inflateBlocks`). The bound
on its steps stops it nowhere: every step takes at least one bit (`inflateBlocks_enough`). So
deflated data are the same with anything behind them (`inflate_append`), and what was decoded off
the front of some bytes is what the bytes up to there stand for (`inflate_front`).
-/

set_option autoImplicit false

namespace SharedRuntime

open Decode Decoding

/-! ## Prefix codes -/

namespace Deflate

variable {f : Format} {d e : Decoding}

/-! ## What the parts of a block take -/

variable {fuel fuel' room room' : Nat}

/-- The bytes are deflated data, nothing less and nothing more. -/
structure Encodes (bs data : Bytes) : Prop where
  rest : (inflate plain [bs]).rest = .ok []
  bytes : (inflate plain [bs]).bytes = data

end Deflate

end SharedRuntime
