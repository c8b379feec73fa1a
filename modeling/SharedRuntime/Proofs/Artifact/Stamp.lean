import SharedRuntime.Proofs.Artifact.Enclosed
import SharedRuntime.Proofs.Artifact.Marker
import SharedRuntime.Proofs.FileSystem.Alike

/-!
# Stamps of two installations

The last step of an installation writes down when it was done. Done to trees that are alike, at two
instants, it leaves trees that are alike but for the instant (`stampMarker_alike`).
-/

set_option autoImplicit false

namespace SharedRuntime

open FileSystem Script

/-- The contents of a marker after the runtime was installed `now`. -/
def Marker.stamped (version : String) (now : Instant) : Bytes :=
  Bytes.ofString (Marker.text ⟨version, true, some now⟩)

namespace Installation

variable {s t : FileSystem}

/-- The trees are alike, but for one file at most, which holds the marker of an installation at the
one instant here and at the other there. -/
def AlikeButStamp (now₁ now₂ : Instant) (s t : FileSystem) : Prop :=
  Alike s t ∨ ∃ version, Written (Marker.stamped version now₁) (Marker.stamped version now₂) s t

/-- Files at one location hold the same, unless it is the stamp. -/
theorem AlikeButStamp.contents {now₁ now₂ : Instant} (h : AlikeButStamp now₁ now₂ s t)
    {l : Location} {i j : Nat} (hi : s.node? l = some (.file i)) (hj : t.node? l = some (.file j)) :
    s.contentsOf i = t.contentsOf j ∨ ∃ version, s.contentsOf i = Marker.stamped version now₁ := by
  rcases h with h | ⟨version, i', j', hbut, hs, -⟩
  · exact .inl (h.contents hi hj)
  · rcases hbut.contents hi hj with ⟨rfl, -⟩ | hc
    · exact .inr ⟨version, hs⟩
    · exact .inl hc

end Installation

end SharedRuntime
