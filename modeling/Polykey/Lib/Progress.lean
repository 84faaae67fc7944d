/-
# Runs that must end

A relation that decreases a measure has no infinite run.  What a system does when it is left alone
is what holds in the states in which it gets stuck.
-/
import Mathlib.Logic.Relation

namespace Lib

open Relation

variable {σ : Type*} {r : σ → σ → Prop} {m : σ → Nat}

/-- Nothing can happen. -/
def Stuck (r : σ → σ → Prop) (s : σ) : Prop := ∀ s', ¬ r s s'

theorem not_stuck {s : σ} : ¬ Stuck r s ↔ ∃ s', r s s' := by
  simp [Stuck]

/-- After `n` steps the measure has gone down by `n` at least. -/
theorem measure_add_le (hm : ∀ s s', r s s' → m s' < m s) {f : Nat → σ}
    (hf : ∀ n, r (f n) (f (n + 1))) (n : Nat) : m (f n) + n ≤ m (f 0) := by
  induction n with
  | zero => exact Nat.le_refl _
  | succ n ih =>
    have hlt := hm _ _ (hf n)
    omega

/-- There is no infinite run. -/
theorem not_exists_infinite (hm : ∀ s s', r s s' → m s' < m s) (s : σ) :
    ¬ ∃ f : Nat → σ, f 0 = s ∧ ∀ n, r (f n) (f (n + 1)) := by
  rintro ⟨f, -, hf⟩
  have hle := measure_add_le hm hf (m (f 0) + 1)
  omega

/-- What every step keeps, every run keeps. -/
theorem run_invariant {P : σ → Prop} (hstep : ∀ {s s'}, P s → r s s' → P s') {s s' : σ}
    (hs : P s) (hrun : ReflTransGen r s s') : P s' := by
  induction hrun with
  | refl => exact hs
  | tail _ h ih => exact hstep ih h

end Lib
