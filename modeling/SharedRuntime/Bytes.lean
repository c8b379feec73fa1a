/-!
# Byte strings

Files, archives and network bodies are lists of bytes. Numbers are stored least significant byte
first (`ofNatLE`, `natLE`); `natLE_ofNatLE` says that a number of `n` bytes reads back.
-/

set_option autoImplicit false

namespace SharedRuntime

/-- The contents of a file, an archive member or a response. -/
abbrev Bytes := List UInt8

namespace Bytes

/-- The UTF-8 bytes of a text. -/
def ofString (s : String) : Bytes := s.toByteArray.data.toList

theorem ofString_append (s t : String) : ofString (s ++ t) = ofString s ++ ofString t := by
  unfold ofString
  rw [String.toByteArray_append, ByteArray.data_append, Array.toList_append]

/-- The `n` lowest bytes of a number, least significant first. -/
def ofNatLE : Nat → Nat → Bytes
  | 0, _ => []
  | n + 1, v => UInt8.ofNat v :: ofNatLE n (v / 256)

/-- The number whose bytes are given least significant first. -/
def natLE : Bytes → Nat
  | [] => 0
  | b :: bs => b.toNat + 256 * natLE bs

/-- The number whose bytes are given most significant first. -/
def natBE (bs : Bytes) : Nat := bs.foldl (fun n b => 256 * n + b.toNat) 0

/-- The `n` lowest bytes of a number, most significant first. -/
def ofNatBE (n v : Nat) : Bytes := (ofNatLE n v).reverse

@[simp] theorem length_ofNatLE (n v : Nat) : (ofNatLE n v).length = n := by
  induction n generalizing v with
  | zero => rfl
  | succ n ih => simp [ofNatLE, ih]

theorem natLE_ofNatLE (n v : Nat) (h : v < Nat.pow 256 n) : natLE (ofNatLE n v) = v := by
  induction n generalizing v with
  | zero => simp_all [ofNatLE, natLE]
  | succ n ih =>
    have hv : v / 256 < Nat.pow 256 n := by
      rw [Nat.div_lt_iff_lt_mul (by decide)]
      exact h
    simp only [ofNatLE, natLE, ih _ hv]
    have : (UInt8.ofNat v).toNat = v % 256 := by simp
    omega

/-- Are there less than `n` bytes? -/
def isShorterThan : Nat → Bytes → Bool
  | 0, _ => false
  | _ + 1, [] => true
  | n + 1, _ :: bs => isShorterThan n bs

@[simp] theorem isShorterThan_iff (n : Nat) (bs : Bytes) :
    isShorterThan n bs = true ↔ bs.length < n := by
  induction n generalizing bs with
  | zero => simp [isShorterThan]
  | succ n ih => cases bs <;> simp [isShorterThan, ih]

/-- Do the bytes begin with `start`? -/
def startsWith (start bs : Bytes) : Bool := start.isPrefixOf bs

/-- The parts of `bs` between the occurrences of `sep`: always one more than there are. -/
def splitOn (sep : UInt8) : Bytes → List Bytes
  | [] => [[]]
  | b :: bs =>
    if b = sep then [] :: splitOn sep bs
    else match splitOn sep bs with
      | [] => [[b]]
      | part :: parts => (b :: part) :: parts

/-- Lexicographic order, byte by byte: the order in which names are sorted. -/
def le : Bytes → Bytes → Bool
  | [], _ => true
  | _ :: _, [] => false
  | a :: as, b :: bs => a < b || (a == b && le as bs)

end Bytes

end SharedRuntime
