import SharedRuntime.Bytes

/-!
# CRC-32

The checksum of zip and gzip members: reflected polynomial `0xEDB88320`, register inverted before
and after.
-/

set_option autoImplicit false

namespace SharedRuntime.Digest.Crc32

/-- Shifts one bit out of the register. -/
def shiftBit (r : UInt32) : UInt32 :=
  if r &&& 1 = 1 then (r >>> 1) ^^^ 0xEDB88320 else r >>> 1

/-- Takes one byte in. -/
def step (r : UInt32) (b : UInt8) : UInt32 :=
  shiftBit (shiftBit (shiftBit (shiftBit (shiftBit (shiftBit (shiftBit (shiftBit
    (r ^^^ b.toUInt32))))))))

/-- The checksum of the bytes. -/
def checksum (bs : Bytes) : UInt32 := (bs.foldl step 0xFFFFFFFF) ^^^ 0xFFFFFFFF

end SharedRuntime.Digest.Crc32
