import SharedRuntime.Bytes

/-!
# Blocks of a padded message

The padding of the two hash functions: a one bit, zeros, and the length of the message in bits as
a big-endian number that ends the last block. `chunks` cuts the padded message into its blocks.
-/

set_option autoImplicit false

namespace SharedRuntime.Digest

/-- Pieces of `n` bytes, in order; `fuel` bounds their number. -/
def chunksFuel (n : Nat) : Nat → Bytes → List Bytes
  | 0, _ => []
  | fuel + 1, bs => if bs.isEmpty then [] else bs.take n :: chunksFuel n fuel (bs.drop n)

/-- Pieces of `n` bytes, in order. -/
def chunks (n : Nat) (bs : Bytes) : List Bytes := chunksFuel n (bs.length / n + 1) bs

/-- The message with its padding for blocks of `block` bytes and a length field of `field` bytes. -/
def padded (block field : Nat) (msg : Bytes) : Bytes :=
  let used := (msg.length + 1 + field) % block
  let zeros := if used = 0 then 0 else block - used
  msg ++ 0x80 :: (List.replicate zeros 0 ++ Bytes.ofNatBE field (8 * msg.length))

end SharedRuntime.Digest
