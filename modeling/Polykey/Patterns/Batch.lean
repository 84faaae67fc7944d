/-
# `ProcessBatch`

`BatchProcessor.ProcessBatch` starts one goroutine for each request and waits for all of them.  A
goroutine takes a slot of a semaphore, validates its request, processes it if it is valid, stores
the outcome at its own index and gives the slot back.

Validation and processing are programs, so the goroutines are interleaved at the granularity of
their calls.  What one goroutine can do next is said once, in `Goroutine.Step`; a step of the batch
is such a step of one goroutine.  `Goroutine.Good` says, for each place in the code, what the
goroutine has done so far and what its index holds; it is kept by the goroutine's own steps, and
the others do not touch it.  The results follow for every schedule (`processBatch_correct`): the
bound on the concurrency, one call of `Process` for each valid request and none for the others, the
outcome of each request at its own index, and that the batch comes to its end.

What validation and processing guarantee of their answers is carried along: they meet a discipline
of the state they share, with any facts about what they return.
-/
import Polykey.Lib.Prog
import Mathlib.Data.List.Basic

namespace Polykey

open Lib

/-! ## 1. The goroutines -/

/-- `batch.BatchItem`. -/
structure BatchItem (ρ ε : Type) where
  result : ρ
  error : Option ε

/-- The zero value. -/
def BatchItem.zero {ρ ε : Type} [Inhabited ρ] : BatchItem ρ ε := ⟨default, none⟩

/-- `batch.BatchProcessor`. -/
structure BatchProcessor (I : Interface) (α ρ ε : Type) where
  maxConcurrency : Nat
  validate : α → Prog I (Option ε)
  process : α → Prog I (ρ × Option ε)

namespace BatchProcessor

/-- Where a goroutine stands. -/
inductive Goroutine (I : Interface) (ρ ε : Type) : Type
  /-- the loop has not come to its `go` statement -/
  | spawning
  | acquiring
  | validating (p : Prog I (Option ε))
  | processing (p : Prog I (ρ × Option ε))
  | storing (item : BatchItem ρ ε)
  | releasing
  | done

/-- It is between acquire and release. -/
def Goroutine.holds {I : Interface} {ρ ε : Type} : Goroutine I ρ ε → Bool
  | validating _ | processing _ | storing _ | releasing => true
  | spawning | acquiring | done => false

def Goroutine.isDone {I : Interface} {ρ ε : Type} : Goroutine I ρ ε → Bool
  | done => true
  | _ => false

/-- What is recorded of a goroutine: what `Validate` returned, that `Process` was called, and what
it returned. -/
inductive Event (ρ ε : Type) : Type
  | validated (err : Option ε)
  | called
  | processed (result : ρ) (err : Option ε)

def Event.isCalled {ρ ε : Type} : Event ρ ε → Bool
  | called => true
  | _ => false

/-- What a goroutine sees: the shared state, the number of slots taken, where it stands, and
`results[index]`. -/
structure Local (I : Interface) (σ ρ ε : Type) where
  env : σ
  semaphore : Nat
  goroutine : Goroutine I ρ ε
  slot : BatchItem ρ ε

variable {I : Interface} {α ρ ε σ : Type}

/-- The steps of the goroutine of request `a`, with what is recorded of them. -/
inductive Goroutine.Step [Inhabited ρ] (bp : BatchProcessor I α ρ ε) (sem : Sem I σ) (a : α) :
    Local I σ ρ ε → List (Event ρ ε) → Local I σ ρ ε → Prop
  | spawn {env n slot} :
    Step bp sem a ⟨env, n, .spawning, slot⟩ [] ⟨env, n, .acquiring, slot⟩
  | acquire {env n slot} (hfree : n < bp.maxConcurrency) :
    Step bp sem a ⟨env, n, .acquiring, slot⟩ [] ⟨env, n + 1, .validating (bp.validate a), slot⟩
  | validateCall {env n slot op k r env'} (hop : sem op env r env') :
    Step bp sem a ⟨env, n, .validating (.call op k), slot⟩ [] ⟨env', n, .validating (k r), slot⟩
  | reject {env n slot} (err : ε) :
    Step bp sem a ⟨env, n, .validating (.ret (some err)), slot⟩ [.validated (some err)]
      ⟨env, n, .storing ⟨default, some err⟩, slot⟩
  | accept {env n slot} :
    Step bp sem a ⟨env, n, .validating (.ret none), slot⟩ [.validated none, .called]
      ⟨env, n, .processing (bp.process a), slot⟩
  | processCall {env n slot op k r env'} (hop : sem op env r env') :
    Step bp sem a ⟨env, n, .processing (.call op k), slot⟩ [] ⟨env', n, .processing (k r), slot⟩
  | processed {env n slot} (result : ρ) (err : Option ε) :
    Step bp sem a ⟨env, n, .processing (.ret (result, err)), slot⟩ [.processed result err]
      ⟨env, n, .storing ⟨result, err⟩, slot⟩
  | store {env n slot} (item : BatchItem ρ ε) :
    Step bp sem a ⟨env, n, .storing item, slot⟩ [] ⟨env, n, .releasing, item⟩
  /-- the deferred calls: the slot first, then `wg.Done` -/
  | release {env n slot} :
    Step bp sem a ⟨env, n, .releasing, slot⟩ [] ⟨env, n - 1, .done, slot⟩

/-! ## 2. The batch -/

/-- A batch under way.  The log is no part of the program. -/
structure State (I : Interface) (σ ρ ε : Type) where
  env : σ
  semaphore : Nat
  goroutines : List (Goroutine I ρ ε)
  results : List (BatchItem ρ ε)
  log : List (Nat × Event ρ ε)

namespace State

/-- `ProcessBatch` before its loop. -/
def init [Inhabited ρ] (requests : List α) (env : σ) : State I σ ρ ε :=
  ⟨env, 0, List.replicate requests.length .spawning, List.replicate requests.length .zero, []⟩

/-- `wg.Wait` lets the batch return. -/
def Returned (st : State I σ ρ ε) : Prop := ∀ g ∈ st.goroutines, g.isDone = true

/-- What is recorded of the goroutine at an index, in order. -/
def events (st : State I σ ρ ε) (i : Nat) : List (Event ρ ε) :=
  st.log.filterMap fun entry => if entry.1 = i then some entry.2 else none

/-- The batch after a step of the goroutine at an index. -/
def update (st : State I σ ρ ε) (i : Nat) (es : List (Event ρ ε)) (l : Local I σ ρ ε) :
    State I σ ρ ε :=
  ⟨l.env, l.semaphore, st.goroutines.set i l.goroutine, st.results.set i l.slot,
    st.log ++ es.map (i, ·)⟩

theorem events_update_self (st : State I σ ρ ε) (i : Nat) (es : List (Event ρ ε))
    (l : Local I σ ρ ε) : (st.update i es l).events i = st.events i ++ es := by
  simp [events, update, List.filterMap_append, List.filterMap_map]

theorem events_update_ne (st : State I σ ρ ε) {i j : Nat} (hne : i ≠ j) (es : List (Event ρ ε))
    (l : Local I σ ρ ε) : (st.update i es l).events j = st.events j := by
  simp [events, update, List.filterMap_append, List.filterMap_map, hne]

end State

variable [Inhabited ρ]

/-- A step of the batch: one of its goroutines.  The loop starts them in order. -/
inductive Step (bp : BatchProcessor I α ρ ε) (sem : Sem I σ) (requests : List α) :
    State I σ ρ ε → State I σ ρ ε → Prop
  | mk {st : State I σ ρ ε} {i : Nat} {a : α} {g : Goroutine I ρ ε} {slot : BatchItem ρ ε}
    {es : List (Event ρ ε)} {l : Local I σ ρ ε} (hrequest : requests[i]? = some a)
    (hg : st.goroutines[i]? = some g) (hslot : st.results[i]? = some slot)
    (horder : g = .spawning → ∀ j < i, st.goroutines[j]? ≠ some .spawning)
    (hstep : Goroutine.Step bp sem a ⟨st.env, st.semaphore, g, slot⟩ es l) :
    Step bp sem requests st (st.update i es l)

/-- Any schedule. -/
def Reaches (bp : BatchProcessor I α ρ ε) (sem : Sem I σ) (requests : List α) :
    State I σ ρ ε → State I σ ρ ε → Prop :=
  Relation.ReflTransGen (Step bp sem requests)

/-! ## 3. What a goroutine has done

`Good` has one case for each place in the code. Its own step takes a goroutine from one case to
the next; the step of another one moves the shared state only, and the facts carried are stable
under that. -/

/-- Validation and processing of a request keep to the discipline and return what is said of them,
whatever the others do; of processing this is asked only when the request may be valid. -/
structure Keeps (bp : BatchProcessor I α ρ ε) (D : Discipline I σ) (V : α → Option ε → Prop)
    (P : α → ρ → Option ε → Prop) (a : α) : Prop where
  validate : ∀ s, D.inv s → (bp.validate a).Meets D (fun err _ => V a err) s
  process : V a none → ∀ s, D.inv s →
    (bp.process a).Meets D (fun out _ => P a out.1 out.2) s

/-- What is recorded of a goroutine that has come to an outcome, and the outcome. -/
inductive Outcome (V : α → Option ε → Prop) (P : α → ρ → Option ε → Prop) (a : α) :
    List (Event ρ ε) → BatchItem ρ ε → Prop
  | rejected {err : ε} (hvalidate : V a (some err)) :
    Outcome V P a [.validated (some err)] ⟨default, some err⟩
  | processed {result : ρ} {err : Option ε} (hvalidate : V a none) (hprocess : P a result err) :
    Outcome V P a [.validated none, .called, .processed result err] ⟨result, err⟩

/-- **What a goroutine has done**, by where it stands. -/
def Goroutine.Good (D : Discipline I σ) (V : α → Option ε → Prop) (P : α → ρ → Option ε → Prop)
    (a : α) (env : σ) (slot : BatchItem ρ ε) (es : List (Event ρ ε)) : Goroutine I ρ ε → Prop
  | spawning | acquiring => es = []
  | validating p => es = [] ∧ p.Meets D (fun err _ => V a err) env
  | processing p => es = [.validated none, .called] ∧ V a none ∧
      p.Meets D (fun out _ => P a out.1 out.2) env
  | storing item => Outcome V P a es item
  | releasing | done => Outcome V P a es slot

section Invariant

variable {bp : BatchProcessor I α ρ ε} {D : Discipline I σ} {V : α → Option ε → Prop}
  {P : α → ρ → Option ε → Prop} {a : α} {requests : List α}

/-- The others do not spoil it. -/
theorem Goroutine.Good.stable {env env' : σ} {slot : BatchItem ρ ε} {es : List (Event ρ ε)}
    {g : Goroutine I ρ ε} (h : g.Good D V P a env slot es) (hrely : D.rely env env') :
    g.Good D V P a env' slot es := by
  cases g with
  | validating p => exact ⟨h.1, h.2.stable (fun _ _ _ _ hV => hV) hrely⟩
  | processing p => exact ⟨h.1, h.2.1, h.2.2.stable (fun _ _ _ _ hP => hP) hrely⟩
  | spawning | acquiring | storing item | releasing | done => exact h

/-- **A goroutine's own step** keeps it. -/
theorem Goroutine.Step.good {env : σ} {n : Nat} {g : Goroutine I ρ ε} {slot : BatchItem ρ ε}
    {es es' : List (Event ρ ε)} {l : Local I σ ρ ε}
    (hstep : Goroutine.Step bp D.sem a ⟨env, n, g, slot⟩ es' l) (hkeeps : Keeps bp D V P a)
    (hinv : D.inv env) (h : g.Good D V P a env slot es) :
    D.inv l.env ∧ D.rely env l.env ∧ l.goroutine.Good D V P a l.env l.slot (es ++ es') := by
  cases hstep with
  | spawn => exact ⟨hinv, D.refl _, by rw [h]; rfl⟩
  | acquire hfree => exact ⟨hinv, D.refl _, by rw [h]; rfl, hkeeps.validate env hinv⟩
  | validateCall hop =>
    obtain ⟨rfl, hmeets⟩ := h
    obtain ⟨-, hcall⟩ := hmeets env (D.refl _) hinv
    obtain ⟨hinv', hrely, hrest⟩ := hcall _ _ hop
    exact ⟨hinv', hrely, rfl, hrest⟩
  | reject err =>
    obtain ⟨rfl, hV⟩ := h
    exact ⟨hinv, D.refl _, .rejected hV⟩
  | accept =>
    obtain ⟨rfl, hV⟩ := h
    exact ⟨hinv, D.refl _, rfl, hV, hkeeps.process hV env hinv⟩
  | processCall hop =>
    obtain ⟨rfl, hV, hmeets⟩ := h
    obtain ⟨-, hcall⟩ := hmeets env (D.refl _) hinv
    obtain ⟨hinv', hrely, hrest⟩ := hcall _ _ hop
    exact ⟨hinv', hrely, rfl, hV, hrest⟩
  | processed result err =>
    obtain ⟨rfl, hV, hP⟩ := h
    exact ⟨hinv, D.refl _, .processed hV hP⟩
  | store item =>
    rw [List.append_nil]
    exact ⟨hinv, D.refl _, h⟩
  | release =>
    rw [List.append_nil]
    exact ⟨hinv, D.refl _, h⟩

/-- The slots taken, with the goroutine's own. -/
theorem Goroutine.Step.semaphore {sem : Sem I σ} {env : σ} {n : Nat} {g : Goroutine I ρ ε}
    {slot : BatchItem ρ ε} {es : List (Event ρ ε)} {l : Local I σ ρ ε}
    (hstep : Goroutine.Step bp sem a ⟨env, n, g, slot⟩ es l) (hpos : g.holds = true → 0 < n) :
    l.semaphore + (if g.holds then 1 else 0) = n + (if l.goroutine.holds then 1 else 0) ∧
      (n ≤ bp.maxConcurrency → l.semaphore ≤ bp.maxConcurrency) := by
  cases hstep with
  | acquire hfree => exact ⟨rfl, fun _ => hfree⟩
  | release =>
    have hpos := hpos rfl
    exact ⟨by simp [Goroutine.holds]; omega, fun hle => le_trans (Nat.sub_le _ _) hle⟩
  | spawn | validateCall | reject | accept | processCall | processed | store =>
    exact ⟨rfl, fun hle => hle⟩

/-- What holds in every state of a batch. -/
structure Inv (bp : BatchProcessor I α ρ ε) (D : Discipline I σ) (V : α → Option ε → Prop)
    (P : α → ρ → Option ε → Prop) (requests : List α) (st : State I σ ρ ε) : Prop where
  goroutines : st.goroutines.length = requests.length
  results : st.results.length = requests.length
  env : D.inv st.env
  good : ∀ (i : Nat) (a : α) (g : Goroutine I ρ ε) (slot : BatchItem ρ ε), requests[i]? = some a →
    st.goroutines[i]? = some g → st.results[i]? = some slot →
      g.Good D V P a st.env slot (st.events i)
  slots : st.semaphore = st.goroutines.countP (·.holds)
  bound : st.semaphore ≤ bp.maxConcurrency

theorem inv_init {env : σ} (henv : D.inv env) : Inv bp D V P requests (.init requests env) where
  goroutines := List.length_replicate
  results := List.length_replicate
  env := henv
  good := by
    intro i a g slot _ hg _
    rw [State.init, List.getElem?_replicate] at hg
    split at hg
    · cases hg
      rfl
    · cases hg
  slots := by simp [State.init, List.countP_replicate, Goroutine.holds]
  bound := Nat.zero_le _

/-- **The step lemma.** -/
theorem Inv.step {st st' : State I σ ρ ε} (h : Inv bp D V P requests st)
    (hkeeps : ∀ a ∈ requests, Keeps bp D V P a) (hstep : Step bp D.sem requests st st') :
    Inv bp D V P requests st' := by
  cases hstep with
  | @mk i a g slot es l hrequest hg hslot _ hlocal =>
    obtain ⟨henv, hrely, hgood⟩ := hlocal.good (hkeeps a (List.mem_of_getElem? hrequest)) h.env
      (h.good i a g slot hrequest hg hslot)
    obtain ⟨hi, hgi⟩ := List.getElem?_eq_some_iff.mp hg
    obtain ⟨hi', -⟩ := List.getElem?_eq_some_iff.mp hslot
    have hpos : g.holds = true → 0 < st.semaphore := by
      intro hholds
      rw [h.slots]
      exact List.countP_pos_iff.mpr ⟨g, List.mem_of_getElem? hg, hholds⟩
    obtain ⟨hslots, hbound⟩ := hlocal.semaphore hpos
    refine ⟨?_, ?_, henv, ?_, ?_, hbound h.bound⟩
    · rw [State.update, List.length_set, h.goroutines]
    · rw [State.update, List.length_set, h.results]
    · intro j a' g' slot' hrequest' hg' hslot'
      by_cases hij : i = j
      · subst hij
        cases hrequest.symm.trans hrequest'
        rw [State.update, List.getElem?_set_self hi] at hg'
        rw [State.update, List.getElem?_set_self hi'] at hslot'
        cases hg'
        cases hslot'
        rw [State.events_update_self]
        exact hgood
      · rw [State.update, List.getElem?_set_ne hij] at hg' hslot'
        rw [State.events_update_ne st hij]
        exact (h.good j a' g' slot' hrequest' hg' hslot').stable hrely
    · have hcount := List.countP_set (p := Goroutine.holds) (a := l.goroutine) hi
      rw [hgi, ← h.slots] at hcount
      change l.semaphore = (st.goroutines.set i l.goroutine).countP _
      rw [hcount]
      cases hholds : g.holds with
      | true =>
        have := hpos hholds
        simp only [hholds, if_true] at hslots ⊢
        omega
      | false =>
        simp only [hholds, Bool.false_eq_true, if_false] at hslots ⊢
        omega

/-- **The run lemma.** -/
theorem Reaches.inv {st st' : State I σ ρ ε} (hreach : Reaches bp D.sem requests st st')
    (hkeeps : ∀ a ∈ requests, Keeps bp D V P a) (h : Inv bp D V P requests st) :
    Inv bp D V P requests st' := by
  induction hreach with
  | refl => exact h
  | tail _ hstep ih => exact ih.step hkeeps hstep

/-- **At its end, each index holds the outcome of its request.** -/
theorem Inv.outcome {st : State I σ ρ ε} (h : Inv bp D V P requests st) (hret : st.Returned)
    {i : Nat} (hrequest : requests[i]? = some a) :
    ∃ item, st.results[i]? = some item ∧ Outcome V P a (st.events i) item := by
  obtain ⟨hi, -⟩ := List.getElem?_eq_some_iff.mp hrequest
  obtain ⟨g, hg⟩ : ∃ g, st.goroutines[i]? = some g :=
    ⟨_, List.getElem?_eq_getElem (h.goroutines ▸ hi)⟩
  obtain ⟨item, hitem⟩ : ∃ item, st.results[i]? = some item :=
    ⟨_, List.getElem?_eq_getElem (h.results ▸ hi)⟩
  have hgood := h.good i a g item hrequest hg hitem
  have hdone := hret g (List.mem_of_getElem? hg)
  cases g with
  | done => exact ⟨item, hitem, hgood⟩
  | spawning | acquiring | validating _ | processing _ | storing _ | releasing => cases hdone

theorem Inv.forall₂_outcome {st : State I σ ρ ε} (h : Inv bp D V P requests st)
    (hret : st.Returned) :
    List.Forall₂ (fun a item => ∃ es, Outcome V P a es item) requests st.results := by
  refine List.forall₂_iff_get.mpr ⟨h.results.symm, fun i hi hi' => ?_⟩
  obtain ⟨item, hitem, houtcome⟩ := h.outcome hret (List.getElem?_eq_getElem hi)
  rw [List.getElem?_eq_getElem hi'] at hitem
  cases hitem
  exact ⟨_, houtcome⟩

end Invariant

/-! ## 4. The batch comes to its end

One goroutine holds a slot or a slot is free, so one that is not done can be brought to its end
without the others. Then there is one less. -/

section Progress

variable {bp : BatchProcessor I α ρ ε} {sem : Sem I σ} {a : α} {requests : List α}

/-- Steps of one goroutine, from its `go` statement on. -/
def Goroutine.Runs (bp : BatchProcessor I α ρ ε) (sem : Sem I σ) (a : α) :
    Local I σ ρ ε → Local I σ ρ ε → Prop :=
  Relation.ReflTransGen fun l l' => l.goroutine ≠ .spawning ∧ ∃ es, Goroutine.Step bp sem a l es l'

/-- The goroutine can come to its end. -/
def Goroutine.Finishes (bp : BatchProcessor I α ρ ε) (sem : Sem I σ) (a : α) (l : Local I σ ρ ε) :
    Prop :=
  ∃ l', Goroutine.Runs bp sem a l l' ∧ l'.goroutine = .done

theorem Goroutine.Finishes.head {l l' : Local I σ ρ ε} {es : List (Event ρ ε)}
    (h : Goroutine.Finishes bp sem a l') (hstep : Goroutine.Step bp sem a l es l')
    (hgo : l.goroutine ≠ .spawning) : Goroutine.Finishes bp sem a l := by
  obtain ⟨l'', hruns, hdone⟩ := h
  exact ⟨l'', Relation.ReflTransGen.head ⟨hgo, es, hstep⟩ hruns, hdone⟩

section Finishes

variable {env : σ} {n : Nat} {slot : BatchItem ρ ε}

theorem Goroutine.finishes_releasing :
    Goroutine.Finishes bp sem a ⟨env, n, .releasing, slot⟩ :=
  ⟨_, Relation.ReflTransGen.single ⟨by simp, [], .release⟩, rfl⟩

theorem Goroutine.finishes_storing (item : BatchItem ρ ε) :
    Goroutine.Finishes bp sem a ⟨env, n, .storing item, slot⟩ :=
  Goroutine.finishes_releasing.head (.store item) (by simp)

variable (htotal : ∀ op s, ∃ r s', sem op s r s')

include htotal

theorem Goroutine.finishes_processing (p : Prog I (ρ × Option ε)) :
    Goroutine.Finishes bp sem a ⟨env, n, .processing p, slot⟩ := by
  induction p generalizing env with
  | ret out => exact (Goroutine.finishes_storing _).head (.processed out.1 out.2) (by simp)
  | call op k ih =>
    obtain ⟨r, env', hop⟩ := htotal op env
    exact (ih r).head (.processCall hop) (by simp)

theorem Goroutine.finishes_validating (p : Prog I (Option ε)) :
    Goroutine.Finishes bp sem a ⟨env, n, .validating p, slot⟩ := by
  induction p generalizing env with
  | ret err =>
    cases err with
    | some err => exact (Goroutine.finishes_storing _).head (.reject err) (by simp)
    | none => exact (Goroutine.finishes_processing htotal _).head .accept (by simp)
  | call op k ih =>
    obtain ⟨r, env', hop⟩ := htotal op env
    exact (ih r).head (.validateCall hop) (by simp)

/-- **A goroutine that has a slot, or can have one, comes to its end**, if every call is
answered. -/
theorem Goroutine.finishes {g : Goroutine I ρ ε}
    (h : g.holds = true ∨ g = .acquiring ∧ n < bp.maxConcurrency) :
    Goroutine.Finishes bp sem a ⟨env, n, g, slot⟩ := by
  rcases h with h | ⟨rfl, hfree⟩
  · cases g with
    | validating p => exact Goroutine.finishes_validating htotal p
    | processing p => exact Goroutine.finishes_processing htotal p
    | storing item => exact Goroutine.finishes_storing item
    | releasing => exact Goroutine.finishes_releasing
    | spawning | acquiring | done => cases h
  · exact (Goroutine.finishes_validating htotal _).head (.acquire hfree) (by simp)

end Finishes

/-- What the goroutine at an index sees. -/
def State.At (st : State I σ ρ ε) (i : Nat) (l : Local I σ ρ ε) : Prop :=
  st.env = l.env ∧ st.semaphore = l.semaphore ∧ st.goroutines[i]? = some l.goroutine ∧
    st.results[i]? = some l.slot

/-- Steps of one goroutine are steps of the batch. -/
theorem Goroutine.Runs.lift {st : State I σ ρ ε} {i : Nat} {l l' : Local I σ ρ ε}
    (h : Goroutine.Runs bp sem a l l') (hrequest : requests[i]? = some a) (hat : st.At i l) :
    ∃ st', Reaches bp sem requests st st' ∧ st'.At i l' ∧
      st'.goroutines = st.goroutines.set i l'.goroutine ∧
      st'.results = st.results.set i l'.slot := by
  induction h with
  | refl =>
    obtain ⟨hi, hgi⟩ := List.getElem?_eq_some_iff.mp hat.2.2.1
    obtain ⟨hi', hri⟩ := List.getElem?_eq_some_iff.mp hat.2.2.2
    refine ⟨st, .refl, hat, ?_, ?_⟩
    · rw [← hgi, List.set_getElem_self]
    · rw [← hri, List.set_getElem_self]
  | @tail l₁ l₂ _ hstep ih =>
    obtain ⟨hgo, es, hstep⟩ := hstep
    obtain ⟨st₁, hreach, ⟨henv, hn, hg, hslot⟩, hset, hset'⟩ := ih
    obtain ⟨env, n, g, slot⟩ := l₁
    cases henv
    cases hn
    obtain ⟨hi, -⟩ := List.getElem?_eq_some_iff.mp hg
    obtain ⟨hi', -⟩ := List.getElem?_eq_some_iff.mp hslot
    refine ⟨st₁.update i es l₂, hreach.tail (.mk hrequest hg hslot (fun h => absurd h hgo) hstep),
      ⟨rfl, rfl, List.getElem?_set_self hi, List.getElem?_set_self hi'⟩, ?_, ?_⟩
    · rw [State.update, hset, List.set_set]
    · rw [State.update, hset', List.set_set]

section Returns

variable {D : Discipline I σ} {V : α → Option ε → Prop} {P : α → ρ → Option ε → Prop}
  {st : State I σ ρ ε}

omit [Inhabited ρ] in
/-- One goroutine less. -/
theorem countP_set_done {i : Nat} {g : Goroutine I ρ ε} {gs : List (Goroutine I ρ ε)}
    (hg : gs[i]? = some g) (hdone : g ≠ .done) :
    (gs.set i .done).countP (!·.isDone) < gs.countP (!·.isDone) := by
  have hdone : g.isDone = false := by
    cases g with
    | done => exact absurd rfl hdone
    | _ => rfl
  obtain ⟨hi, hgi⟩ := List.getElem?_eq_some_iff.mp hg
  have hpos : 0 < gs.countP (!·.isDone) :=
    List.countP_pos_iff.mpr ⟨g, List.mem_of_getElem? hg, by simp [hdone]⟩
  rw [List.countP_set hi, hgi, hdone]
  show _ - 1 + 0 < _
  omega

/-- Bring the goroutine at an index to its end. -/
theorem finish_at (htotal : ∀ op s, ∃ r s', sem op s r s') {i : Nat} {g : Goroutine I ρ ε}
    {slot : BatchItem ρ ε} (hrequest : requests[i]? = some a) (hg : st.goroutines[i]? = some g)
    (hslot : st.results[i]? = some slot)
    (h : g.holds = true ∨ g = .acquiring ∧ st.semaphore < bp.maxConcurrency) :
    ∃ st', Reaches bp sem requests st st' ∧ st'.goroutines = st.goroutines.set i .done := by
  have hfinishes : Goroutine.Finishes bp sem a ⟨st.env, st.semaphore, g, slot⟩ :=
    Goroutine.finishes htotal h
  obtain ⟨l', hruns, hdone⟩ := hfinishes
  obtain ⟨st', hreach, -, hset, -⟩ := hruns.lift hrequest ⟨rfl, rfl, hg, hslot⟩
  exact ⟨st', hreach, hdone ▸ hset⟩

/-- Some goroutine that is not done can be brought to its end. -/
theorem Inv.finish_one (h : Inv bp D V P requests st) (hmax : 0 < bp.maxConcurrency)
    (htotal : ∀ op s, ∃ r s', D.sem op s r s') (hmore : ¬ st.Returned) :
    ∃ st', ∃ i : Nat, ∃ g, Reaches bp D.sem requests st st' ∧ st.goroutines[i]? = some g ∧
      g ≠ .done ∧ st'.goroutines = st.goroutines.set i .done := by
  have hat : ∀ (i : Nat) g, st.goroutines[i]? = some g → ∃ a slot, requests[i]? = some a ∧
      st.results[i]? = some slot := by
    intro i g hg
    obtain ⟨hi, -⟩ := List.getElem?_eq_some_iff.mp hg
    exact ⟨_, _, List.getElem?_eq_getElem (h.goroutines ▸ hi),
      List.getElem?_eq_getElem (h.results ▸ h.goroutines ▸ hi)⟩
  by_cases hheld : ∃ g ∈ st.goroutines, g.holds = true
  · obtain ⟨g, hmem, hholds⟩ := hheld
    obtain ⟨i, hg⟩ := List.getElem?_of_mem hmem
    obtain ⟨a, slot, hrequest, hslot⟩ := hat i g hg
    obtain ⟨st', hreach, hset⟩ := finish_at htotal hrequest hg hslot (.inl hholds)
    refine ⟨st', i, g, hreach, hg, ?_, hset⟩
    rintro rfl
    cases hholds
  -- nobody holds a slot, so there is one for a goroutine that is acquiring
  have hfree : st.semaphore < bp.maxConcurrency := by
    rw [h.slots, List.countP_eq_zero.mpr fun g hg hholds => hheld ⟨g, hg, hholds⟩]
    exact hmax
  by_cases hspawn : ∃ i : Nat, st.goroutines[i]? = some .spawning
  · classical
    have hg := Nat.find_spec hspawn
    have hleast : ∀ j < Nat.find hspawn, st.goroutines[j]? ≠ some .spawning :=
      fun j hj => Nat.find_min hspawn hj
    generalize Nat.find hspawn = i at hg hleast
    obtain ⟨a, slot, hrequest, hslot⟩ := hat i _ hg
    obtain ⟨hi, -⟩ := List.getElem?_eq_some_iff.mp hg
    obtain ⟨hi', -⟩ := List.getElem?_eq_some_iff.mp hslot
    let l : Local I σ ρ ε := ⟨st.env, st.semaphore, .acquiring, slot⟩
    have hstart : Step bp D.sem requests st (st.update i [] l) :=
      .mk hrequest hg hslot (fun _ => hleast) .spawn
    have hacquiring : (st.update i [] l).goroutines[i]? = some .acquiring :=
      List.getElem?_set_self hi
    have hsame : (st.update i [] l).results[i]? = some slot := List.getElem?_set_self hi'
    obtain ⟨st', hreach, hset⟩ :=
      finish_at htotal hrequest hacquiring hsame (.inr ⟨rfl, hfree⟩)
    refine ⟨st', i, _, Relation.ReflTransGen.head hstart hreach, hg, by simp, ?_⟩
    rw [hset, State.update, List.set_set]
  · obtain ⟨g, hmem, hdone⟩ : ∃ g ∈ st.goroutines, ¬ g.isDone = true := by
      simpa only [State.Returned, not_forall, exists_prop] using hmore
    obtain ⟨i, hg⟩ := List.getElem?_of_mem hmem
    obtain ⟨a, slot, hrequest, hslot⟩ := hat i g hg
    cases g with
    | acquiring =>
      obtain ⟨st', hreach, hset⟩ := finish_at htotal hrequest hg hslot (.inr ⟨rfl, hfree⟩)
      exact ⟨st', i, _, hreach, hg, by simp, hset⟩
    | spawning => exact absurd ⟨i, hg⟩ hspawn
    | done => exact absurd rfl hdone
    | validating _ | processing _ | storing _ | releasing => exact absurd ⟨_, hmem, rfl⟩ hheld

/-- **From every state the batch can come to its end**, if every call is answered. -/
theorem Inv.can_return (h : Inv bp D V P requests st) (hkeeps : ∀ a ∈ requests, Keeps bp D V P a)
    (hmax : 0 < bp.maxConcurrency) (htotal : ∀ op s, ∃ r s', D.sem op s r s') :
    ∃ st', Reaches bp D.sem requests st st' ∧ st'.Returned := by
  induction hn : st.goroutines.countP (!·.isDone) using Nat.strong_induction_on generalizing st with
  | _ n ih =>
    by_cases hret : st.Returned
    · exact ⟨st, .refl, hret⟩
    obtain ⟨st₁, i, g, hreach, hg, hdone, hset⟩ := h.finish_one hmax htotal hret
    have hless : st₁.goroutines.countP (!·.isDone) < n := by
      rw [hset, ← hn]
      exact countP_set_done hg hdone
    obtain ⟨st', hreach', hret'⟩ := ih _ hless (hreach.inv hkeeps h) rfl
    exact ⟨st', hreach.trans hreach', hret'⟩

end Returns

end Progress

/-! ## 5. Every schedule -/

/-- The outcome of validation and processing that depend on the request only. -/
def itemOf (v : α → Option ε) (p : α → ρ × Option ε) (a : α) : BatchItem ρ ε :=
  match v a with
  | some err => ⟨default, some err⟩
  | none => ⟨(p a).1, (p a).2⟩

/-- An action that depends on the request only: whatever the calls are answered with, it returns the
given value. -/
def Returns {β : Type} (sem : Sem I σ) (p : Prog I β) (b : β) : Prop :=
  ∀ s, p.Meets (.free sem) (fun x _ => x = b) s

/-- `Process` is called at most once, and not at all for a request that failed `Validate`. -/
def CalledOnce (es : List (Event ρ ε)) : Prop :=
  es.countP (·.isCalled) ≤ 1 ∧ ∀ err, .validated (some err) ∈ es → es.countP (·.isCalled) = 0

section Correct

variable {bp : BatchProcessor I α ρ ε} {sem : Sem I σ} {requests : List α} {a : α}

omit [Inhabited ρ] in
theorem keeps_free : Keeps bp (.free sem) (fun _ _ => True) (fun _ _ _ => True) a where
  validate s _ := Prog.meets_free sem _ s
  process _ s _ := Prog.meets_free sem _ s

omit [Inhabited ρ] in
theorem keeps_returns {v : α → Option ε} {p : α → ρ × Option ε}
    (hv : Returns sem (bp.validate a) (v a)) (hp : v a = none → Returns sem (bp.process a) (p a)) :
    Keeps bp (.free sem) (fun a err => err = v a) (fun a result err => (result, err) = p a) a where
  validate s _ := hv s
  process hnone s _ := hp hnone.symm s

/-- The outcome is the one of the request. -/
theorem Outcome.eq_itemOf {v : α → Option ε} {p : α → ρ × Option ε} {es : List (Event ρ ε)}
    {item : BatchItem ρ ε}
    (h : Outcome (fun a err => err = v a) (fun a result err => (result, err) = p a) a es item) :
    item = itemOf v p a := by
  unfold itemOf
  cases h with
  | rejected hvalidate => rw [← hvalidate]
  | processed hvalidate hprocess => rw [← hvalidate, ← hprocess]

theorem Outcome.calledOnce {V : α → Option ε → Prop} {P : α → ρ → Option ε → Prop}
    {es : List (Event ρ ε)} {item : BatchItem ρ ε} (h : Outcome V P a es item) : CalledOnce es := by
  cases h with
  | rejected _ => exact ⟨by simp [Event.isCalled], fun _ _ => by simp [Event.isCalled]⟩
  | processed _ _ => exact ⟨by simp [Event.isCalled], fun _ h => by simp at h⟩

theorem Goroutine.Good.calledOnce {D : Discipline I σ} {V : α → Option ε → Prop}
    {P : α → ρ → Option ε → Prop} {env : σ} {slot : BatchItem ρ ε} {es : List (Event ρ ε)}
    {g : Goroutine I ρ ε} (h : g.Good D V P a env slot es) : CalledOnce es := by
  cases g with
  | spawning | acquiring =>
    cases h
    exact ⟨Nat.zero_le _, fun _ h => by cases h⟩
  | validating p =>
    obtain ⟨rfl, -⟩ := h
    exact ⟨Nat.zero_le _, fun _ h => by cases h⟩
  | processing p =>
    obtain ⟨rfl, -⟩ := h
    exact ⟨by simp [Event.isCalled], fun _ h => by simp at h⟩
  | storing item => exact Outcome.calledOnce h
  | releasing | done => exact Outcome.calledOnce h

/-- **`ProcessBatch`, under every schedule.** At most `maxConcurrency` goroutines are between
acquire and release; `Process` is called at most once for a request, and never for one that fails
`Validate`.  When the batch returns, there is an item for each request, at its index the outcome of
its validation and processing: the error of the first, or what the second returned, which was then
called once.  When both depend on the request only, the items are the outcomes in order.  And the
batch can always return, if every call is answered. -/
theorem processBatch_correct (bp : BatchProcessor I α ρ ε) (hmax : 1 ≤ bp.maxConcurrency)
    (sem : Sem I σ) (requests : List α) (env : σ) {st : State I σ ρ ε}
    (h : Reaches bp sem requests (.init requests env) st) :
    st.goroutines.countP (·.holds) ≤ bp.maxConcurrency ∧
    (∀ (i : Nat) a, requests[i]? = some a → CalledOnce (st.events i)) ∧
    (st.Returned → st.results.length = requests.length ∧ ∀ (i : Nat) a, requests[i]? = some a →
      ∃ item, st.results[i]? = some item ∧
        Outcome (fun _ _ => True) (fun _ _ _ => True) a (st.events i) item) ∧
    (∀ v p, (∀ a ∈ requests, Returns sem (bp.validate a) (v a)) →
      (∀ a ∈ requests, v a = none → Returns sem (bp.process a) (p a)) →
        st.Returned → st.results = requests.map (itemOf v p)) ∧
    ((∀ op s, ∃ r s', sem op s r s') →
      ∃ st', Reaches bp sem requests st st' ∧ st'.Returned) := by
  have hinv : Inv bp (.free sem) (fun _ _ => True) (fun _ _ _ => True) requests st :=
    Reaches.inv (D := .free sem) h (fun _ _ => keeps_free) (inv_init trivial)
  refine ⟨hinv.slots ▸ hinv.bound, ?_, fun hret => ⟨hinv.results, fun i a => hinv.outcome hret⟩, ?_,
    hinv.can_return (fun _ _ => keeps_free) hmax⟩
  · intro i a hrequest
    obtain ⟨hi, -⟩ := List.getElem?_eq_some_iff.mp hrequest
    exact (hinv.good i a _ _ hrequest (List.getElem?_eq_getElem (hinv.goroutines ▸ hi))
      (List.getElem?_eq_getElem (hinv.results ▸ hi))).calledOnce
  · intro v p hv hp hret
    have hinv' := Reaches.inv (D := .free sem) h
      (fun a ha => keeps_returns (hv a ha) (hp a ha)) (inv_init trivial)
    refine List.ext_getElem? fun i => ?_
    rw [List.getElem?_map]
    cases hrequest : requests[i]? with
    | none => exact List.getElem?_eq_none (hinv.results ▸ List.getElem?_eq_none_iff.mp hrequest)
    | some a =>
      obtain ⟨item, hitem, houtcome⟩ := hinv'.outcome hret hrequest
      rw [hitem, houtcome.eq_itemOf]
      rfl

end Correct

/-- Two goroutines and one slot: the batch returns, with an error and a result. -/
def sampleProcessor : BatchProcessor ⟨Empty, Empty.elim⟩ Nat Nat String where
  maxConcurrency := 1
  validate n := .ret (if n = 0 then some "zero" else none)
  process n := .ret (10 * n, none)

theorem processBatch_correct_two :
    ∃ st, Reaches sampleProcessor (fun op (_ : Unit) _ _ => op.elim) [0, 7] (.init [0, 7] ()) st ∧
      st.Returned ∧ st.results = [⟨0, some "zero"⟩, ⟨70, none⟩] := by
  have hstart := processBatch_correct sampleProcessor (le_refl 1) (fun op (_ : Unit) _ _ => op.elim)
    [0, 7] () .refl
  obtain ⟨st, hreach, hret⟩ := hstart.2.2.2.2 fun op => op.elim
  have hend := processBatch_correct sampleProcessor (le_refl 1) (fun op (_ : Unit) _ _ => op.elim)
    [0, 7] () hreach
  refine ⟨st, hreach, hret, ?_⟩
  exact hend.2.2.2.1 (fun n => if n = 0 then some "zero" else none) (fun n => (10 * n, none))
    (fun _ _ _ => rfl) (fun _ _ _ _ => rfl) hret

/-! ## 6. The schedule that takes the requests in order

The service is modelled with one request after the other. This says that such a run is one of the
schedules, so that what is proved of all of them is true of it. -/

section Sequential

variable {bp : BatchProcessor I α ρ ε} {sem : Sem I σ} {a : α} {s s' : σ} {n : Nat}
  {slot : BatchItem ρ ε}

/-- A request validated and processed with nothing in between. -/
inductive ItemRuns (bp : BatchProcessor I α ρ ε) (sem : Sem I σ) (a : α) (s : σ) :
    BatchItem ρ ε → σ → Prop
  | rejected {err : ε} {s' : σ} (hvalidate : (bp.validate a).Runs sem s (some err) s') :
    ItemRuns bp sem a s ⟨default, some err⟩ s'
  | processed {result : ρ} {err : Option ε} {s₁ s' : σ}
    (hvalidate : (bp.validate a).Runs sem s none s₁)
    (hprocess : (bp.process a).Runs sem s₁ (result, err) s') : ItemRuns bp sem a s ⟨result, err⟩ s'

/-- One request after the other. -/
inductive InOrder (bp : BatchProcessor I α ρ ε) (sem : Sem I σ) :
    List α → σ → List (BatchItem ρ ε) → σ → Prop
  | nil {s : σ} : InOrder bp sem [] s [] s
  | cons {a : α} {as : List α} {s s₁ s' : σ} {item : BatchItem ρ ε} {items : List (BatchItem ρ ε)}
    (hitem : ItemRuns bp sem a s item s₁) (hrest : InOrder bp sem as s₁ items s') :
    InOrder bp sem (a :: as) s (item :: items) s'

theorem Goroutine.runs_validating {p : Prog I (Option ε)} {err : Option ε}
    (h : p.Runs sem s err s') :
    Goroutine.Runs bp sem a ⟨s, n, .validating p, slot⟩ ⟨s', n, .validating (.ret err), slot⟩ := by
  induction p generalizing s with
  | ret b =>
    obtain ⟨rfl, rfl⟩ := h
    exact .refl
  | call op k ih =>
    obtain ⟨r, s₁, hop, hrest⟩ := h
    exact Relation.ReflTransGen.head ⟨by simp, [], .validateCall hop⟩ (ih r hrest)

theorem Goroutine.runs_processing {p : Prog I (ρ × Option ε)} {out : ρ × Option ε}
    (h : p.Runs sem s out s') :
    Goroutine.Runs bp sem a ⟨s, n, .processing p, slot⟩ ⟨s', n, .processing (.ret out), slot⟩ := by
  induction p generalizing s with
  | ret b =>
    obtain ⟨rfl, rfl⟩ := h
    exact .refl
  | call op k ih =>
    obtain ⟨r, s₁, hop, hrest⟩ := h
    exact Relation.ReflTransGen.head ⟨by simp, [], .processCall hop⟩ (ih r hrest)

theorem Goroutine.runs_storing {item : BatchItem ρ ε} :
    Goroutine.Runs bp sem a ⟨s, n + 1, .storing item, slot⟩ ⟨s, n, .done, item⟩ :=
  Relation.ReflTransGen.head ⟨by simp, [], .store item⟩
    (Relation.ReflTransGen.single ⟨by simp, [], .release⟩)

/-- A goroutine that is not interrupted. -/
theorem ItemRuns.runs {item : BatchItem ρ ε} (h : ItemRuns bp sem a s item s')
    (hfree : n < bp.maxConcurrency) :
    Goroutine.Runs bp sem a ⟨s, n, .acquiring, slot⟩ ⟨s', n, .done, item⟩ := by
  have hacquire : Goroutine.Runs bp sem a ⟨s, n, .acquiring, slot⟩
      ⟨s, n + 1, .validating (bp.validate a), slot⟩ :=
    Relation.ReflTransGen.single ⟨by simp, [], .acquire hfree⟩
  cases h with
  | rejected hvalidate =>
    refine (hacquire.trans (Goroutine.runs_validating hvalidate)).trans ?_
    exact Relation.ReflTransGen.head ⟨by simp, _, .reject _⟩ Goroutine.runs_storing
  | processed hvalidate hprocess =>
    refine (hacquire.trans (Goroutine.runs_validating hvalidate)).trans ?_
    refine Relation.ReflTransGen.head ⟨by simp, _, .accept⟩ ?_
    refine (Goroutine.runs_processing hprocess).trans ?_
    exact Relation.ReflTransGen.head ⟨by simp, _, .processed _ _⟩ Goroutine.runs_storing

/-- The requests of which the goroutines have not been started, one after the other. -/
theorem InOrder.reaches_from {requests after : List α} {items : List (BatchItem ρ ε)}
    (h : InOrder bp sem after s items s') (hmax : 0 < bp.maxConcurrency) {before : List α}
    {stored : List (BatchItem ρ ε)} {st : State I σ ρ ε} (hrequests : requests = before ++ after)
    (hlength : stored.length = before.length)
    (hgoroutines : st.goroutines =
      List.replicate before.length .done ++ List.replicate after.length .spawning)
    (hresults : st.results = stored ++ List.replicate after.length .zero) (henv : st.env = s)
    (hsemaphore : st.semaphore = 0) :
    ∃ st', Reaches bp sem requests st st' ∧ st'.Returned ∧ st'.env = s' ∧
      st'.results = stored ++ items := by
  induction h generalizing before stored st with
  | nil =>
    refine ⟨st, .refl, fun g hg => ?_, henv, by simpa using hresults⟩
    rw [hgoroutines, List.length_nil, List.replicate_zero, List.append_nil] at hg
    rw [List.eq_of_mem_replicate hg]
    rfl
  | @cons a as s s₁ s' item items hitem hrest ih =>
    have hrequest : requests[before.length]? = some a := by simp [hrequests]
    have hg : st.goroutines[before.length]? = some .spawning := by simp [hgoroutines]
    have hslot : st.results[before.length]? = some .zero := by simp [hresults, ← hlength]
    have horder : ∀ j < before.length, st.goroutines[j]? ≠ some .spawning := by
      intro j hj
      simp [hgoroutines, List.getElem?_append_left, hj]
    subst henv
    let l : Local I σ ρ ε := ⟨st.env, st.semaphore, .acquiring, .zero⟩
    have hstart : Step bp sem requests st (st.update before.length [] l) :=
      .mk hrequest hg hslot (fun _ => horder) .spawn
    obtain ⟨hi, -⟩ := List.getElem?_eq_some_iff.mp hg
    obtain ⟨hi', -⟩ := List.getElem?_eq_some_iff.mp hslot
    have hat : (st.update before.length [] l).At before.length l :=
      ⟨rfl, rfl, List.getElem?_set_self hi, List.getElem?_set_self hi'⟩
    obtain ⟨st₁, hreach, ⟨henv₁, hsemaphore₁, -, -⟩, hset, hset'⟩ :=
      (hitem.runs (hsemaphore ▸ hmax)).lift hrequest hat
    have hdone : st₁.goroutines = List.replicate (before ++ [a]).length .done ++
        List.replicate as.length .spawning := by
      rw [hset, State.update, List.set_set, hgoroutines, List.set_append_right _ _ (by simp),
        List.length_append, List.length_singleton, List.replicate_succ', List.append_assoc]
      simp [List.replicate_succ]
    have hstored : st₁.results = (stored ++ [item]) ++ List.replicate as.length .zero := by
      rw [hset', State.update, List.set_set, hresults, List.set_append_right _ _ hlength.le]
      simp [List.replicate_succ, hlength]
    have hsplit : requests = (before ++ [a]) ++ as := by simpa using hrequests
    have hlength' : (stored ++ [item]).length = (before ++ [a]).length := by simp [hlength]
    obtain ⟨st', hreach', hret, henv', hresults'⟩ := ih hsplit hlength' hdone hstored
      henv₁ (hsemaphore₁.trans hsemaphore)
    exact ⟨st', (Relation.ReflTransGen.head hstart hreach).trans hreach', hret, henv',
      by simpa using hresults'⟩

/-- **It is one of the schedules.** -/
theorem InOrder.reaches {requests : List α} {items : List (BatchItem ρ ε)}
    (h : InOrder bp sem requests s items s') (hmax : 0 < bp.maxConcurrency) :
    ∃ st', Reaches bp sem requests (.init requests s) st' ∧ st'.Returned ∧ st'.env = s' ∧
      st'.results = items :=
  have hnone : ([] : List (BatchItem ρ ε)).length = ([] : List α).length := rfl
  h.reaches_from hmax (List.nil_append requests).symm hnone rfl rfl rfl rfl

end Sequential

end BatchProcessor

end Polykey
