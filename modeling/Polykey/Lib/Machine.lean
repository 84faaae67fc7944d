/-
# Machines that answer

A machine takes inputs one after another and answers each.  What is proved here is a rule for
leaving inputs out: if the inputs outside a set never change what matters to those inside, then
those inside are answered as if they were alone (`run_filter`).
-/
import Mathlib.Data.List.Basic

namespace Lib

/-- A machine with states in `σ`, inputs in `ι` and answers in `ο`. -/
structure Machine (σ ι ο : Type) where
  init : σ
  step : ι → σ → ο × σ

namespace Machine

variable {σ ι ο : Type} (m : Machine σ ι ο)

/-- The inputs, each with its answer. -/
def run : σ → List ι → List (ι × ο)
  | _, [] => []
  | s, i :: is => (i, (m.step i s).1) :: run (m.step i s).2 is

/-- A run from the start. -/
def runs (is : List ι) : List (ι × ο) := m.run m.init is

@[simp] theorem run_nil (s : σ) : m.run s [] = [] := rfl

@[simp] theorem run_cons (s : σ) (i : ι) (is : List ι) :
    m.run s (i :: is) = (i, (m.step i s).1) :: m.run (m.step i s).2 is := rfl

/-- **Leaving inputs out.**  Two states may be taken for each other if an input of the set is
answered the same in both and leaves them so, and any other input in the one leaves them so. -/
theorem run_filter {p : ι → Bool} {R : σ → σ → Prop}
    (hin : ∀ i s s', p i = true → R s s' →
      (m.step i s).1 = (m.step i s').1 ∧ R (m.step i s).2 (m.step i s').2)
    (hout : ∀ i s s', p i = false → R s s' → R (m.step i s).2 s')
    {s s' : σ} (hs : R s s') (is : List ι) :
    (m.run s is).filter (fun x => p x.1) = m.run s' (is.filter p) := by
  induction is generalizing s s' with
  | nil => rfl
  | cons i is ih =>
    cases hp : p i with
    | true =>
      obtain ⟨hanswer, hstep⟩ := hin i s s' hp hs
      simp only [run_cons, List.filter_cons, hp, if_true, hanswer, ih hstep]
    | false =>
      simp only [run_cons, List.filter_cons, hp, Bool.false_eq_true, if_false]
      exact ih (hout i s s' hp hs)

end Machine

end Lib
