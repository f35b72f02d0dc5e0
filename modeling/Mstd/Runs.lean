import Mathlib.Computability.StateTransition
/-!
# Runs of transition systems

Rules over Mathlib's `Relation.ReflTransGen` (any step relation) and `StateTransition.Reaches` (a step function): an
invariant of a step holds along a run, a run transfers to another system that agrees on its steps, a run of a
projection lifts back, and a loop that unfolds one step has the same value at both ends of a run.
-/
namespace Runs

open Relation (ReflTransGen)
open StateTransition (Reaches)

variable {σ τ : Type} {ρ : Type}

/-- **What a step preserves, a run preserves.** -/
theorem invariant {r : σ → σ → Prop} {I : σ → Prop} (hstep : ∀ s t, I s → r s t → I t) {s t : σ}
    (hrun : ReflTransGen r s t) (hs : I s) : I t := by
  induction hrun with
  | refl => exact hs
  | tail _ hst ih => exact hstep _ _ ih hst

theorem reaches_invariant {f : σ → Option σ} {I : σ → Prop} (hstep : ∀ s t, I s → f s = some t → I t) {s t : σ}
    (hrun : Reaches f s t) (hs : I s) : I t :=
  invariant (fun a b ha hab => hstep a b ha hab) hrun hs

theorem reaches_mono {f : σ → Option σ} {m : σ → Nat} (hstep : ∀ s t, f s = some t → m s ≤ m t) {s t : σ}
    (hrun : Reaches f s t) : m s ≤ m t :=
  reaches_invariant (I := fun x => m s ≤ m x) (fun a b ha hab => Nat.le_trans ha (hstep a b hab)) hrun (Nat.le_refl _)

/-- **A run below a bound transfers** to a system that takes the same steps below it.  The invariant `I` of the first
system may be used at every step. -/
theorem reaches_transfer {f g : σ → Option σ} {m : σ → Nat} {n : Nat} {I : σ → Prop}
    (hmono : ∀ s t, f s = some t → m s ≤ m t) (hI : ∀ s t, I s → f s = some t → I t)
    (hstep : ∀ s t, I s → f s = some t → m t ≤ n → g s = some t) {s t : σ} (hrun : Reaches f s t) (hs : I s)
    (ht : m t ≤ n) : Reaches g s t := by
  induction hrun with
  | refl => exact ReflTransGen.refl
  | tail hsu hut ih =>
    have hu := reaches_invariant hI hsu hs
    exact (ih (Nat.le_trans (hmono _ _ hut) ht)).tail (hstep _ _ hu hut ht)

/-- A run of the projection is the projection of a run. -/
theorem reaches_lift {f : σ → Option σ} {g : τ → Option τ} {p : σ → τ}
    (hstep : ∀ s y, g (p s) = some y → ∃ t, f s = some t ∧ p t = y) {x y : τ} (hrun : Reaches g x y) :
    ∀ s, p s = x → ∃ t, Reaches f s t ∧ p t = y := by
  induction hrun with
  | refl => exact fun s hs => ⟨s, ReflTransGen.refl, hs⟩
  | tail _ hyz ih =>
    intro s hs
    obtain ⟨t, hst, rfl⟩ := ih s hs
    obtain ⟨u, htu, hu⟩ := hstep t _ hyz
    exact ⟨u, hst.tail htu, hu⟩

theorem reaches_project {f : σ → Option σ} {g : τ → Option τ} {p : σ → τ}
    (hstep : ∀ s t, f s = some t → g (p s) = some (p t)) {s t : σ} (hrun : Reaches f s t) :
    Reaches g (p s) (p t) := by
  induction hrun with
  | refl => exact ReflTransGen.refl
  | tail _ hut ih => exact ih.tail (hstep _ _ hut)

/-- A loop that goes on where `f` does has one value along a run. -/
theorem loop_eq {f : σ → Option σ} {F : σ → ρ} (hunfold : ∀ s t, f s = some t → F s = F t) {s t : σ}
    (hrun : Reaches f s t) : F s = F t := by
  induction hrun with
  | refl => rfl
  | tail _ hut ih => rw [ih, hunfold _ _ hut]

end Runs
