/-
# Edits of one value

An edit gives a value a new content or leaves it as it is.  Some edits made one after another come
to the last content that one of them gives; the last edit alone comes to its own.  `Settled` says
when the two agree.  For a record it is enough to look at its fields: a field of the record that
steps have gone over is the field under the steps' edits (`get_foldl`).
-/
import Mathlib.Data.List.Induction
import Mathlib.Data.List.ReduceOption

namespace Lib

section Edits

variable {α σ ι : Type}

/-- The value after some edits, one after another. -/
def edited (old : α) (edits : List (Option α)) : α := edits.foldl (fun x e => e.getD x) old

/-- The value after the last edit alone. -/
def editedLast (old : α) (edits : List (Option α)) : α := edits.getLast?.join.getD old

/-- The last edit gives a value, or the last value that an edit gives is the old one. -/
def Settled (old : α) (edits : List (Option α)) : Prop :=
  (∃ v, edits.getLast? = some (some v)) ∨ ∀ v, edits.reduceOption.getLast? = some v → v = old

theorem edited_snoc (old : α) (edits : List (Option α)) (e : Option α) :
    edited old (edits ++ [e]) = e.getD (edited old edits) := by
  simp [edited]

/-- What the edits come to is the last value given. -/
theorem edited_eq (old : α) (edits : List (Option α)) :
    edited old edits = edits.reduceOption.getLast?.getD old := by
  induction edits using List.reverseRecOn with
  | nil => rfl
  | append_singleton edits e ih =>
    rw [edited_snoc, ih]
    cases e with
    | none => simp [List.reduceOption_append]
    | some v => simp [List.reduceOption_append]

/-- **When the earlier edits do not matter.** -/
theorem editedLast_eq_edited_iff (old : α) (edits : List (Option α)) :
    editedLast old edits = edited old edits ↔ Settled old edits := by
  induction edits using List.reverseRecOn with
  | nil => simp [editedLast, edited, Settled]
  | append_singleton edits e _ =>
    cases e with
    | some v => simp [editedLast, edited_snoc, Settled]
    | none =>
      have hlast : editedLast old (edits ++ [none]) = old := by simp [editedLast]
      have hgiven : (edits ++ [none]).reduceOption = edits.reduceOption := by
        simp [List.reduceOption_append]
      rw [hlast, edited_snoc, Option.getD_none, edited_eq, Settled, hgiven]
      constructor
      · intro h
        refine .inr fun v hv => ?_
        rw [hv] at h
        exact h.symm
      · rintro (⟨v, hv⟩ | h)
        · simp at hv
        · cases hv : edits.reduceOption.getLast? with
          | none => rfl
          | some v => exact (h v hv).symm

/-- One field of a record that some steps go over. -/
theorem get_foldl {get : σ → α} {step : σ → ι → σ} {edit : ι → Option α}
    (h : ∀ s i, get (step s i) = (edit i).getD (get s)) (s : σ) (is : List ι) :
    get (is.foldl step s) = edited (get s) (is.map edit) := by
  induction is using List.reverseRecOn with
  | nil => rfl
  | append_singleton is i ih =>
    rw [List.foldl_append, List.map_append, List.map_singleton, edited_snoc, ← ih]
    exact h _ i

/-- The same field after the last step alone. -/
theorem get_last {get : σ → α} {step : σ → ι → σ} {edit : ι → Option α}
    (h : ∀ s i, get (step s i) = (edit i).getD (get s)) (s : σ) (is : List ι) :
    get (is.getLast?.elim s (step s)) = editedLast (get s) (is.map edit) := by
  induction is using List.reverseRecOn with
  | nil => rfl
  | append_singleton is i _ => simp [editedLast, h]

/-- **When the last step alone does to a field what all steps do.** -/
theorem get_last_eq_foldl_iff (get : σ → α) {step last : σ → ι → σ} {edit : ι → Option α}
    (hstep : ∀ s i, get (step s i) = (edit i).getD (get s))
    (hlast : ∀ s i, get (last s i) = (edit i).getD (get s)) (s : σ) (is : List ι) :
    get (is.getLast?.elim s (last s)) = get (is.foldl step s) ↔ Settled (get s) (is.map edit) := by
  rw [get_last hlast, get_foldl hstep, editedLast_eq_edited_iff]

end Edits

end Lib
