/-
# Programs over an interface, and pools of them

A program here is a tree of calls: it either has a result, or it makes one call of an
interface and goes on with the answer.  What a call answers, and what it does to the shared
state, is a RELATION (`Sem`), so that clocks, random bytes and failures need no oracle: an
answer is whatever the relation allows.

The same program has two readings.

* **Alone**: `Prog.Runs sem p s a s'` says that `p`, started in `s` with nobody else around,
  can end with `a` in `s'`.
* **In a pool** (`Pool.Step`): any number of programs share one state, and one step performs
  ONE call of ONE of them.  New programs may join at any time.

What holds across every interleaving is proved by the rely/guarantee rule `Pool.invariant`.
A `Discipline` names an invariant of the state, a transitive relation along which the state
moves, and what a program promises of each call it makes.  They hold along every run, provided
each program meets its obligations (`Prog.Meets`) under whatever the others may have done since
its last call, that is, in every state related to the last one it saw.

The last sections are for what an invariant of the state cannot say: `Settles` is about states
that are wrong for a while, `Pool.Trace` about the order of the calls of a run, labels are for
conditions on a call that depend on whose call it is, histories for those that depend on what the
same thread did before, and places for those that depend on what other threads did before.
-/
import Mathlib.Logic.Relation
import Mathlib.Order.Lattice.Nat

namespace Lib

/-! ## 1. Programs -/

/-- An interface: the calls it offers, and the type each of them answers with. -/
structure Interface where
  Op : Type
  Res : Op → Type

/-- A program over an interface. -/
inductive Prog (I : Interface) (α : Type) : Type
  | ret (a : α)
  | call (op : I.Op) (k : I.Res op → Prog I α)

namespace Prog

variable {I : Interface} {α β γ σ : Type}

/-- Sequencing: graft `f` onto the results of a program. -/
def bind : Prog I α → (α → Prog I β) → Prog I β
  | .ret a, f => f a
  | .call op k, f => .call op fun r => (k r).bind f

/-- The program that makes one call and returns its answer. -/
def perform (op : I.Op) : Prog I (I.Res op) := .call op .ret

instance : Monad (Prog I) where
  pure := .ret
  bind := bind

@[simp] theorem ret_bind (a : α) (f : α → Prog I β) : (Prog.ret a).bind f = f a := rfl

@[simp] theorem call_bind (op : I.Op) (k : I.Res op → Prog I α) (f : α → Prog I β) :
    (Prog.call op k).bind f = .call op fun r => (k r).bind f := rfl

@[simp] theorem bind_ret (p : Prog I α) : p.bind .ret = p := by
  induction p with
  | ret a => rfl
  | call op k ih => exact congrArg (call op) (funext ih)

theorem bind_assoc (p : Prog I α) (f : α → Prog I β) (g : β → Prog I γ) :
    (p.bind f).bind g = p.bind fun a => (f a).bind g := by
  induction p with
  | ret a => rfl
  | call op k ih => exact congrArg (call op) (funext ih)

/-- Every call that the program can come to make satisfies `P`. -/
def Only (P : I.Op → Prop) : Prog I α → Prop
  | .ret _ => True
  | .call op k => P op ∧ ∀ r, (k r).Only P

theorem Only.bind {P : I.Op → Prop} {p : Prog I α} {f : α → Prog I β} (hp : p.Only P)
    (hf : ∀ a, (f a).Only P) : (p.bind f).Only P := by
  induction p with
  | ret a => exact hf a
  | call op k ih => exact ⟨hp.1, fun r => ih r (hp.2 r)⟩

theorem Only.mono {P P' : I.Op → Prop} (h : ∀ op, P op → P' op) {p : Prog I α} (hp : p.Only P) :
    p.Only P' := by
  induction p with
  | ret a => trivial
  | call op k ih => exact ⟨h op hp.1, fun r => ih r (hp.2 r)⟩

/-- The program makes at most so many calls. -/
def Within : Prog I α → Nat → Prop
  | .ret _, _ => True
  | .call _ _, 0 => False
  | .call _ k, n + 1 => ∀ r, (k r).Within n

theorem Within.mono {n m : Nat} (hle : n ≤ m) {p : Prog I α} (hp : p.Within n) : p.Within m := by
  induction p generalizing n m with
  | ret a => trivial
  | call op k ih =>
    cases n with
    | zero => exact hp.elim
    | succ n =>
      obtain ⟨m, rfl⟩ := Nat.exists_eq_succ_of_ne_zero (Nat.ne_of_gt (Nat.zero_lt_of_lt hle))
      exact fun r => ih r (Nat.le_of_succ_le_succ hle) (hp r)

/-- The number of calls that the program makes at most, where there is a bound. -/
noncomputable def depth (p : Prog I α) : Nat := sInf { n | p.Within n }

theorem depth_le {n : Nat} {p : Prog I α} (h : p.Within n) : p.depth ≤ n := Nat.sInf_le h

/-- A call brings a program closer to its end. -/
theorem depth_lt {n : Nat} {op : I.Op} {k : I.Res op → Prog I α} (h : (call op k).Within n)
    (r : I.Res op) : (k r).depth < (call op k).depth := by
  have hmem : (call op k).Within (call op k).depth := Nat.sInf_mem (s := { n | _ }) ⟨n, h⟩
  cases hd : (call op k).depth with
  | zero =>
    rw [hd] at hmem
    exact hmem.elim
  | succ m =>
    rw [hd] at hmem
    exact Nat.lt_succ_of_le (depth_le (hmem r))

/-- A program is another one after its first call. -/
theorem call_ne (op : I.Op) (k : I.Res op → Prog I α) (r : I.Res op) : k r ≠ .call op k := by
  have h : ∀ p : Prog I α, ∀ op k r, p = .call op k → k r ≠ p := by
    intro p
    induction p with
    | ret a =>
      intro op k r hp
      cases hp
    | call op k ih =>
      rintro op' k' r hp hsame
      cases hp
      exact ih r op k r hsame rfl
  exact h _ op k r rfl

end Prog

/-! ## 2. What a program can do when it runs alone

`Runs` is defined by recursion on the program, so a run of a sequence comes apart into the runs
of its halves. `Shows` is the same with a watcher, for statements about the calls and not only
about their outcome. -/

/-- `sem op s r s'`: in state `s` the call `op` may answer `r` and leave `s'`. -/
def Sem (I : Interface) (σ : Type) : Type := (op : I.Op) → σ → I.Res op → σ → Prop

namespace Prog

variable {I : Interface} {α β σ : Type}

/-- `p.Runs sem s a s'`: alone from `s`, the program can end with `a` in `s'`. -/
def Runs (sem : Sem I σ) : Prog I α → σ → α → σ → Prop
  | .ret a, s, b, s' => b = a ∧ s' = s
  | .call op k, s, b, s' => ∃ r s₁, sem op s r s₁ ∧ (k r).Runs sem s₁ b s'

variable {sem : Sem I σ}

@[simp] theorem runs_ret {a b : α} {s s' : σ} :
    (Prog.ret a : Prog I α).Runs sem s b s' ↔ b = a ∧ s' = s := Iff.rfl

@[simp] theorem runs_call {op : I.Op} {k : I.Res op → Prog I α} {s s' : σ} {b : α} :
    (Prog.call op k).Runs sem s b s' ↔ ∃ r s₁, sem op s r s₁ ∧ (k r).Runs sem s₁ b s' := Iff.rfl

/-- A sequence runs as its first half followed by its second. -/
theorem runs_bind {p : Prog I α} {f : α → Prog I β} {s s' : σ} {b : β} :
    (p.bind f).Runs sem s b s' ↔ ∃ a s₁, p.Runs sem s a s₁ ∧ (f a).Runs sem s₁ b s' := by
  induction p generalizing s with
  | ret a =>
    constructor
    · intro h
      exact ⟨a, s, ⟨rfl, rfl⟩, h⟩
    · rintro ⟨_, _, ⟨rfl, rfl⟩, h⟩
      exact h
  | call op k ih =>
    simp only [call_bind, runs_call, ih]
    constructor
    · rintro ⟨r, s₁, hop, a, s₂, hk, hf⟩
      exact ⟨a, s₂, ⟨r, s₁, hop, hk⟩, hf⟩
    · rintro ⟨a, s₂, ⟨r, s₁, hop, hk⟩, hf⟩
      exact ⟨r, s₁, hop, a, s₂, hk, hf⟩

/-- What can happen in one world can happen in a world where more can. -/
theorem Runs.mono {sem' : Sem I σ} (h : ∀ op s r s', sem op s r s' → sem' op s r s')
    {p : Prog I α} {s s' : σ} {a : α} (hrun : p.Runs sem s a s') : p.Runs sem' s a s' := by
  induction p generalizing s with
  | ret b => exact hrun
  | call op k ih =>
    obtain ⟨r, s₁, hop, hk⟩ := hrun
    exact ⟨r, s₁, h op s r s₁ hop, ih r hk⟩

/-- **Simulation.**  If every call of some kind can be followed from a related state, with the same
answer, so can every program that makes such calls only. -/
theorem Only.simulate {τ : Type} {sem' : Sem I τ} {P : I.Op → Prop} {R : σ → τ → Prop}
    (hstep : ∀ op, P op → ∀ s t r s', R s t → sem op s r s' → ∃ t', sem' op t r t' ∧ R s' t')
    {p : Prog I α} (hp : p.Only P) {s s' : σ} {t : τ} {a : α} (hR : R s t)
    (hrun : p.Runs sem s a s') : ∃ t', p.Runs sem' t a t' ∧ R s' t' := by
  induction p generalizing s t with
  | ret b =>
    obtain ⟨rfl, rfl⟩ := hrun
    exact ⟨t, ⟨rfl, rfl⟩, hR⟩
  | call op k ih =>
    obtain ⟨r, s₁, hop, hk⟩ := hrun
    obtain ⟨t₁, hop', hR₁⟩ := hstep op hp.1 s t r s₁ hR hop
    obtain ⟨t', hrun', hR'⟩ := ih r (hp.2 r) hR₁ hk
    exact ⟨t', ⟨r, t₁, hop', hrun'⟩, hR'⟩

/-- What every call that a program makes keeps, its runs keep. -/
theorem Only.keeps {P : I.Op → Prop} {F : σ → Prop}
    (hF : ∀ op, P op → ∀ s r s', sem op s r s' → F s → F s') {p : Prog I α} (hp : p.Only P)
    {s s' : σ} {a : α} (hrun : p.Runs sem s a s') (hs : F s) : F s' := by
  induction p generalizing s with
  | ret b =>
    obtain ⟨-, rfl⟩ := hrun
    exact hs
  | call op k ih =>
    obtain ⟨r, s₁, hop, hk⟩ := hrun
    exact ih r (hp.2 r) hk (hF op hp.1 s r s₁ hop hs)

/-- `p.Shows sem see s a s' seen`: alone from `s`, the program can end with `a` in `s'`, and a
watcher, who sees `see op r` of a call `op` that answers `r`, has then seen `seen`. -/
def Shows {γ : Type} (sem : Sem I σ) (see : (op : I.Op) → I.Res op → List γ) :
    Prog I α → σ → α → σ → List γ → Prop
  | .ret a, s, b, s', seen => b = a ∧ s' = s ∧ seen = []
  | .call op k, s, b, s', seen => ∃ r s₁ rest, sem op s r s₁ ∧ seen = see op r ++ rest ∧
      (k r).Shows sem see s₁ b s' rest

variable {γ : Type} {see : (op : I.Op) → I.Res op → List γ} {seen : List γ}

theorem shows_bind {p : Prog I α} {f : α → Prog I β} {s s' : σ} {b : β} :
    (p.bind f).Shows sem see s b s' seen ↔ ∃ a s₁ seen₁ seen₂, p.Shows sem see s a s₁ seen₁ ∧
      (f a).Shows sem see s₁ b s' seen₂ ∧ seen = seen₁ ++ seen₂ := by
  induction p generalizing s seen with
  | ret a =>
    constructor
    · intro h
      exact ⟨a, s, [], seen, ⟨rfl, rfl, rfl⟩, h, rfl⟩
    · rintro ⟨_, _, _, seen₂, ⟨rfl, rfl, rfl⟩, h, rfl⟩
      exact h
  | call op k ih =>
    constructor
    · rintro ⟨r, s₁, rest, hop, rfl, hk⟩
      obtain ⟨a, s₂, seen₁, seen₂, hp, hf, rfl⟩ := (ih r).mp hk
      exact ⟨a, s₂, _, seen₂, ⟨r, s₁, seen₁, hop, rfl, hp⟩, hf, (List.append_assoc ..).symm⟩
    · rintro ⟨a, s₂, _, seen₂, ⟨r, s₁, seen₁, hop, rfl, hp⟩, hf, rfl⟩
      exact ⟨r, s₁, _, hop, List.append_assoc .., (ih r).mpr ⟨a, s₂, seen₁, seen₂, hp, hf, rfl⟩⟩

/-- Watching a program changes nothing of what it does. -/
theorem runs_iff_shows (see : (op : I.Op) → I.Res op → List γ) {p : Prog I α} {s s' : σ} {a : α} :
    p.Runs sem s a s' ↔ ∃ seen, p.Shows sem see s a s' seen := by
  induction p generalizing s with
  | ret b =>
    constructor
    · rintro ⟨rfl, rfl⟩
      exact ⟨[], rfl, rfl, rfl⟩
    · rintro ⟨_, rfl, rfl, -⟩
      exact ⟨rfl, rfl⟩
  | call op k ih =>
    constructor
    · rintro ⟨r, s₁, hop, hk⟩
      obtain ⟨rest, hk⟩ := (ih r).mp hk
      exact ⟨_, r, s₁, rest, hop, rfl, hk⟩
    · rintro ⟨_, r, s₁, rest, hop, -, hk⟩
      exact ⟨r, s₁, hop, (ih r).mpr ⟨rest, hk⟩⟩

/-- A program ends if the calls it makes are answered. -/
theorem Only.exists_shows {P : I.Op → Prop} (see : (op : I.Op) → I.Res op → List γ)
    (hanswers : ∀ op, P op → ∀ s, ∃ r s', sem op s r s') {p : Prog I α} (hp : p.Only P) (s : σ) :
    ∃ a s' seen, p.Shows sem see s a s' seen := by
  induction p generalizing s with
  | ret a => exact ⟨a, s, [], rfl, rfl, rfl⟩
  | call op k ih =>
    obtain ⟨r, s₁, hop⟩ := hanswers op hp.1 s
    obtain ⟨a, s', rest, hk⟩ := ih r (hp.2 r) s₁
    exact ⟨a, s', _, r, s₁, rest, hop, rfl, hk⟩

end Prog

/-! ## 3. Pools: any number of programs over one state -/

/-- A shared state and the programs that are under way. -/
structure Pool (I : Interface) (σ α : Type) where
  state : σ
  threads : List (Prog I α)

namespace Pool

variable {I : Interface} {σ α : Type}

/-- One step of a pool: a group of programs joins, or one program makes its next call.
`starts` says which groups may join. -/
inductive Step (sem : Sem I σ) (starts : List (Prog I α) → Prop) :
    Pool I σ α → Pool I σ α → Prop
  | spawn {s : σ} {ts new : List (Prog I α)} (h : starts new) :
      Step sem starts ⟨s, ts⟩ ⟨s, ts ++ new⟩
  | call {s s' : σ} {pre post : List (Prog I α)} {op : I.Op} {k : I.Res op → Prog I α}
      {r : I.Res op} (h : sem op s r s') :
      Step sem starts ⟨s, pre ++ .call op k :: post⟩ ⟨s', pre ++ k r :: post⟩

/-- Every pool some finite number of steps away. -/
abbrev Reaches (sem : Sem I σ) (starts : List (Prog I α) → Prop) :
    Pool I σ α → Pool I σ α → Prop :=
  Relation.ReflTransGen (Step sem starts)

/-- A pool step under a stronger semantics is one under a weaker semantics. -/
theorem Step.mono {sem sem' : Sem I σ} {starts : List (Prog I α) → Prop} {p q : Pool I σ α}
    (hsem : ∀ op s r s', sem op s r s' → sem' op s r s') (h : Step sem starts p q) :
    Step sem' starts p q := by
  cases h with
  | spawn h => exact .spawn h
  | call h => exact .call (hsem _ _ _ _ h)

/-- A run under a stronger semantics is one under a weaker semantics. -/
theorem Reaches.mono {sem sem' : Sem I σ} {starts : List (Prog I α) → Prop} {p q : Pool I σ α}
    (hsem : ∀ op s r s', sem op s r s' → sem' op s r s') (h : Reaches sem starts p q) :
    Reaches sem' starts p q := by
  induction h with
  | refl => exact .refl
  | tail _ hstep ih => exact ih.tail (hstep.mono hsem)

end Pool

/-- The semantics restricted to the calls that meet a condition in the state they find. -/
def Sem.restrict {I : Interface} {σ : Type} (sem : Sem I σ) (cond : I.Op → σ → Prop) : Sem I σ :=
  fun op s r s' => cond op s ∧ sem op s r s'

/-! ## 4. Executing

A handler picks one answer for each call, or none where the semantics has none.  With it a program
runs by evaluation, and so does a pool once the order of its threads' calls is given. -/

/-- One way to answer each call. -/
def Handler (I : Interface) (σ : Type) : Type := (op : I.Op) → σ → Option (I.Res op × σ)

/-- The handler does what the semantics allows. -/
def Handler.Sound {I : Interface} {σ : Type} (h : Handler I σ) (sem : Sem I σ) : Prop :=
  ∀ op s r s', h op s = some (r, s') → sem op s r s'

/-- The handler, stopped before a call that fails a test. -/
def Handler.guard {I : Interface} {σ : Type} (h : Handler I σ) (ok : I.Op → σ → Bool) :
    Handler I σ :=
  fun op s => if ok op s then h op s else none

theorem Handler.Sound.guard {I : Interface} {σ : Type} {h : Handler I σ} {sem : Sem I σ}
    (hh : h.Sound sem) {ok : I.Op → σ → Bool} {cond : I.Op → σ → Prop}
    (hok : ∀ op s, ok op s = true → cond op s) : (h.guard ok).Sound (sem.restrict cond) := by
  intro op s r s' he
  unfold Handler.guard at he
  split at he
  · rename_i hop
    exact ⟨hok op s hop, hh op s r s' he⟩
  · cases he

/-- Run a program alone. -/
def Prog.exec {I : Interface} {σ α : Type} (h : Handler I σ) : Prog I α → σ → Option (α × σ)
  | .ret a, s => some (a, s)
  | .call op k, s =>
    match h op s with
    | none => none
    | some (r, s') => (k r).exec h s'

theorem Prog.exec_runs {I : Interface} {σ α : Type} {h : Handler I σ} {sem : Sem I σ}
    (hh : h.Sound sem) {p : Prog I α} {s s' : σ} {a : α} (he : p.exec h s = some (a, s')) :
    p.Runs sem s a s' := by
  induction p generalizing s with
  | ret b =>
    cases he
    exact ⟨rfl, rfl⟩
  | call op k ih =>
    unfold Prog.exec at he
    split at he
    · cases he
    · rename_i r s₁ hop
      exact ⟨r, s₁, hh op s r s₁ hop, ih r he⟩

/-- What evaluation finds of the outcome of a program holds of one of its runs. -/
theorem Prog.exists_runs {I : Interface} {σ α : Type} {h : Handler I σ} {sem : Sem I σ}
    (hh : h.Sound sem) (p : Prog I α) (s : σ) (check : α × σ → Bool)
    (he : (p.exec h s).any check = true) : ∃ a s', p.Runs sem s a s' ∧ check (a, s') = true := by
  cases hexec : p.exec h s with
  | none =>
    rw [hexec] at he
    cases he
  | some out =>
    rw [hexec] at he
    exact ⟨out.1, out.2, Prog.exec_runs hh hexec, he⟩

namespace Pool

variable {I : Interface} {σ α : Type}

/-- A move of a pool: some programs join, the thread at an index makes its next call, or it runs
to its end. -/
inductive Move (I : Interface) (α : Type)
  | join (new : List (Prog I α))
  | step (i : Nat)
  | finish (i : Nat)

/-- Make one move. -/
def move (h : Handler I σ) (p : Pool I σ α) : Move I α → Option (Pool I σ α)
  | .join new => some ⟨p.state, p.threads ++ new⟩
  | .step i =>
    match p.threads[i]? with
    | some (.call op k) => (h op p.state).map fun (r, s') => ⟨s', p.threads.set i (k r)⟩
    | _ => none
  | .finish i =>
    match p.threads[i]? with
    | some t => (t.exec h p.state).map fun (a, s') => ⟨s', p.threads.set i (.ret a)⟩
    | none => none

/-- Make the moves one after another. -/
def play (h : Handler I σ) : List (Move I α) → Pool I σ α → Option (Pool I σ α)
  | [], p => some p
  | m :: ms, p => (p.move h m).bind (play h ms)

/-- One call of the thread at an index. -/
theorem step_set {sem : Sem I σ} {starts : List (Prog I α) → Prop} {p : Pool I σ α} {i : Nat}
    {op : I.Op} {k : I.Res op → Prog I α} (hi : p.threads[i]? = some (.call op k)) {r : I.Res op}
    {s' : σ} (hop : sem op p.state r s') : Step sem starts p ⟨s', p.threads.set i (k r)⟩ := by
  obtain ⟨hlt, hget⟩ := List.getElem?_eq_some_iff.mp hi
  have hsplit : p.threads = p.threads.take i ++ .call op k :: p.threads.drop (i + 1) := by
    rw [← hget, ← List.drop_eq_getElem_cons hlt, List.take_append_drop]
  have hset : p.threads.set i (k r) = p.threads.take i ++ k r :: p.threads.drop (i + 1) := by
    rw [List.set_eq_take_append_cons_drop, if_pos hlt]
  have hstep : Step sem starts ⟨p.state, p.threads.take i ++ .call op k :: p.threads.drop (i + 1)⟩
      ⟨s', p.threads.take i ++ k r :: p.threads.drop (i + 1)⟩ := .call hop
  rw [← hsplit, ← hset] at hstep
  exact hstep

/-- A thread that runs alone to its end. -/
theorem reaches_set {sem : Sem I σ} {starts : List (Prog I α) → Prop} {t : Prog I α}
    {p : Pool I σ α} {i : Nat} (hi : p.threads[i]? = some t) {a : α} {s' : σ}
    (hrun : t.Runs sem p.state a s') : Reaches sem starts p ⟨s', p.threads.set i (.ret a)⟩ := by
  induction t generalizing p with
  | ret b =>
    obtain ⟨rfl, rfl⟩ := hrun
    obtain ⟨hlt, hget⟩ := List.getElem?_eq_some_iff.mp hi
    rw [← hget, List.set_getElem_self]
  | call op k ih =>
    obtain ⟨r, s₁, hop, hk⟩ := hrun
    have hstep : Step sem starts p ⟨s₁, p.threads.set i (k r)⟩ := step_set hi hop
    obtain ⟨hlt, -⟩ := List.getElem?_eq_some_iff.mp hi
    have hrest := ih r (p := ⟨s₁, p.threads.set i (k r)⟩) (List.getElem?_set_self hlt) hk
    rw [List.set_set] at hrest
    exact .head hstep hrest

theorem move_reaches {h : Handler I σ} {sem : Sem I σ} (hh : h.Sound sem)
    {starts : List (Prog I α) → Prop} {m : Move I α} (hm : ∀ new, m = .join new → starts new)
    {p q : Pool I σ α} (he : p.move h m = some q) : Reaches sem starts p q := by
  cases m with
  | join new =>
    cases he
    exact .single (.spawn (hm new rfl))
  | step i =>
    simp only [move] at he
    split at he
    · rename_i op k hi
      obtain ⟨⟨r, s'⟩, hop, rfl⟩ := Option.map_eq_some_iff.mp he
      exact .single (step_set hi (hh op p.state r s' hop))
    · cases he
  | finish i =>
    simp only [move] at he
    split at he
    · rename_i t hi
      obtain ⟨⟨a, s'⟩, hexec, rfl⟩ := Option.map_eq_some_iff.mp he
      exact reaches_set hi (Prog.exec_runs hh hexec)
    · cases he

/-- A pool that evaluation reaches is reached. -/
theorem play_reaches {h : Handler I σ} {sem : Sem I σ} (hh : h.Sound sem)
    {starts : List (Prog I α) → Prop} {ms : List (Move I α)}
    (hms : ∀ new, .join new ∈ ms → starts new) {p q : Pool I σ α} (he : play h ms p = some q) :
    Reaches sem starts p q := by
  induction ms generalizing p with
  | nil =>
    cases he
    exact .refl
  | cons m ms ih =>
    obtain ⟨p₁, hp₁, hrest⟩ := Option.bind_eq_some_iff.mp he
    have hmove : Reaches sem starts p p₁ :=
      move_reaches hh (fun new hnew => hms new (by simp [hnew])) hp₁
    exact hmove.trans (ih (fun new hnew => hms new (by simp [hnew])) hrest)

/-- The pool after some moves; the same pool, when one of them cannot be made. -/
def after (h : Handler I σ) (ms : List (Move I α)) (p : Pool I σ α) : Pool I σ α :=
  (play h ms p).getD p

theorem after_reaches {h : Handler I σ} {sem : Sem I σ} (hh : h.Sound sem)
    {starts : List (Prog I α) → Prop} {ms : List (Move I α)}
    (hms : ∀ new, .join new ∈ ms → starts new) (p : Pool I σ α) :
    Reaches sem starts p (after h ms p) := by
  unfold after
  cases hplay : play h ms p with
  | none => exact .refl
  | some q => exact play_reaches hh hms hplay

end Pool

/-! ## 5. The rely/guarantee rule

An obligation is asked for in every state that the others may have left since the last call, so
what they do does not spoil it (`Meets.stable`). That is why one step keeps a pool good: the
thread that moves has shown its own obligation, and the others' survive. -/

/-- What the programs of a pool agree on. -/
structure Discipline (I : Interface) (σ : Type) where
  sem : Sem I σ
  /-- what a program promises of a call, in the state it makes it in -/
  promise : I.Op → σ → Prop
  inv : σ → Prop
  /-- how the state moves -/
  rely : σ → σ → Prop
  refl : ∀ s, rely s s
  trans : ∀ {a b c}, rely a b → rely b c → rely a c

/-- A call that may be made in any state, whatever the program knows. -/
def Discipline.Allows {I : Interface} {σ : Type} (D : Discipline I σ) (op : I.Op) : Prop :=
  ∀ s, D.inv s → D.promise op s ∧ ∀ r s', D.sem op s r s' → D.inv s' ∧ D.rely s s'

/-- The same discipline for permitted calls only, with a second invariant. -/
def Discipline.restrict {I : Interface} {σ : Type} (D : Discipline I σ)
    (cond : I.Op → σ → Prop) (inv : σ → Prop) : Discipline I σ :=
  { D with
    sem := D.sem.restrict cond
    inv := fun s => D.inv s ∧ inv s }

/-- The discipline that asks for nothing. -/
def Discipline.free {I : Interface} {σ : Type} (sem : Sem I σ) : Discipline I σ where
  sem := sem
  promise _ _ := True
  inv _ := True
  rely _ _ := True
  refl _ := trivial
  trans _ _ := trivial

namespace Prog

variable {I : Interface} {α β σ : Type} {D : Discipline I σ}

/-- `p.Meets D Q s`: whatever the others do before each of its calls, every call of `p` is as
promised, keeps the invariant and moves the state as it should, and `p` ends with `Q`. -/
def Meets (D : Discipline I σ) (Q : α → σ → Prop) : Prog I α → σ → Prop
  | .ret a, s => Q a s
  | .call op k, s => ∀ s₁, D.rely s s₁ → D.inv s₁ → D.promise op s₁ ∧ ∀ r s₂, D.sem op s₁ r s₂ →
      D.inv s₂ ∧ D.rely s₁ s₂ ∧ (k r).Meets D Q s₂

/-- What the others do does not spoil an obligation, as long as it does not spoil the
postcondition. -/
theorem Meets.stable {Q : α → σ → Prop} (hQ : ∀ a s s', D.rely s s' → Q a s → Q a s')
    {p : Prog I α} {s s' : σ} (h : p.Meets D Q s) (hR : D.rely s s') : p.Meets D Q s' := by
  cases p with
  | ret a => exact hQ a s s' hR h
  | call op k => exact fun s₁ h₁ hi => h s₁ (D.trans hR h₁) hi

theorem meets_free (sem : Sem I σ) (p : Prog I α) (s : σ) :
    p.Meets (.free sem) (fun _ _ => True) s := by
  induction p generalizing s with
  | ret a => trivial
  | call op k ih => exact fun _ _ _ => ⟨trivial, fun r s₂ _ => ⟨trivial, trivial, ih r s₂⟩⟩

/-- Sequencing of obligations. -/
theorem Meets.bind {Q : α → σ → Prop} {Q' : β → σ → Prop} {p : Prog I α} {f : α → Prog I β}
    {s : σ} (h : p.Meets D Q s) (hf : ∀ a s', Q a s' → (f a).Meets D Q' s') :
    (p.bind f).Meets D Q' s := by
  induction p generalizing s with
  | ret a => exact hf a s h
  | call op k ih =>
    intro s₁ h₁ hi
    obtain ⟨hpromise, hstep⟩ := h s₁ h₁ hi
    refine ⟨hpromise, fun r s₂ hop => ?_⟩
    obtain ⟨hi', hR', hk⟩ := hstep r s₂ hop
    exact ⟨hi', hR', ih r hk⟩

/-- What the others cannot spoil still holds when the program ends. -/
theorem Meets.frame {Q : α → σ → Prop} {F : σ → Prop} (hF : ∀ s s', D.rely s s' → F s → F s')
    {p : Prog I α} {s : σ} (h : p.Meets D Q s) (hs : F s) :
    p.Meets D (fun a s' => Q a s' ∧ F s') s := by
  induction p generalizing s with
  | ret a => exact ⟨h, hs⟩
  | call op k ih =>
    intro s₁ h₁ hi
    obtain ⟨hpromise, hstep⟩ := h s₁ h₁ hi
    refine ⟨hpromise, fun r s₂ hop => ?_⟩
    obtain ⟨hi', hR', hk⟩ := hstep r s₂ hop
    exact ⟨hi', hR', ih r hk (hF _ _ (D.trans h₁ hR') hs)⟩

/-- A second invariant, kept by every permitted call that is as promised, comes for free. -/
theorem Meets.restrict {cond : I.Op → σ → Prop} {inv : σ → Prop} {Q : α → σ → Prop}
    (hinv : ∀ op s r s', D.sem op s r s' → cond op s → D.promise op s → D.inv s → inv s → inv s')
    {p : Prog I α} {s : σ} (h : p.Meets D Q s) : p.Meets (D.restrict cond inv) Q s := by
  induction p generalizing s with
  | ret a => exact h
  | call op k ih =>
    intro s₁ h₁ hi
    obtain ⟨hpromise, hstep⟩ := h s₁ h₁ hi.1
    refine ⟨hpromise, fun r s₂ hop => ?_⟩
    obtain ⟨hi', hR', hk⟩ := hstep r s₂ hop.2
    exact ⟨⟨hi', hinv op s₁ r s₂ hop.2 hop.1 hpromise hi.1 hi.2⟩, hR', ih r hk⟩

/-- A program that meets its obligations keeps the invariant when it runs alone, and ends with its
postcondition. -/
theorem Meets.runs {Q : α → σ → Prop} {p : Prog I α} {s s' : σ} {a : α} (h : p.Meets D Q s)
    (hi : D.inv s) (hrun : p.Runs D.sem s a s') : D.inv s' ∧ Q a s' := by
  induction p generalizing s with
  | ret b =>
    obtain ⟨rfl, rfl⟩ := hrun
    exact ⟨hi, h⟩
  | call op k ih =>
    obtain ⟨r, s₁, hop, hk⟩ := hrun
    obtain ⟨hi', -, hmeets⟩ := (h s (D.refl s) hi).2 r s₁ hop
    exact ih r hmeets hi' hk

theorem Meets.mono {Q Q' : α → σ → Prop} {p : Prog I α} {s : σ} (h : p.Meets D Q s)
    (hQ : ∀ a s', Q a s' → Q' a s') : p.Meets D Q' s := by
  induction p generalizing s with
  | ret a => exact hQ a s h
  | call op k ih =>
    intro s₁ h₁ hi
    obtain ⟨hpromise, hstep⟩ := h s₁ h₁ hi
    refine ⟨hpromise, fun r s₂ hop => ?_⟩
    obtain ⟨hi', hR', hk⟩ := hstep r s₂ hop
    exact ⟨hi', hR', ih r hk⟩

/-- A program that makes no other calls has nothing else to show. -/
theorem Only.meets {p : Prog I α} (hp : p.Only D.Allows) (s : σ) :
    p.Meets D (fun _ _ => True) s := by
  induction p generalizing s with
  | ret a => trivial
  | call op k ih =>
    intro s₁ _ hi
    obtain ⟨hpromise, hstep⟩ := hp.1 s₁ hi
    refine ⟨hpromise, fun r s₂ hop => ?_⟩
    obtain ⟨hi', hR'⟩ := hstep r s₂ hop
    exact ⟨hi', hR', ih r (hp.2 r) s₂⟩

end Prog

namespace Pool

variable {I : Interface} {σ α : Type} {D : Discipline I σ} {starts : List (Prog I α) → Prop}

/-- Every thread of the pool meets its obligations, and the state meets the invariant. -/
def Good (D : Discipline I σ) (p : Pool I σ α) : Prop :=
  D.inv p.state ∧ ∀ t ∈ p.threads, t.Meets D (fun _ _ => True) p.state

/-- **One step keeps a pool good**, and moves the state as it should.  The thread that makes the
call uses its own obligation; every other thread's is stable. -/
theorem Step.good
    (hstart : ∀ new, starts new → ∀ s, ∀ t ∈ new, t.Meets D (fun _ _ => True) s)
    {p q : Pool I σ α} (h : Step D.sem starts p q) (hp : Good D p) :
    Good D q ∧ D.rely p.state q.state := by
  cases h with
  | @spawn s ts new hnew =>
    refine ⟨⟨hp.1, ?_⟩, D.refl _⟩
    intro t ht
    rcases List.mem_append.mp ht with ht | ht
    · exact hp.2 t ht
    · exact hstart new hnew _ t ht
  | @call s s' pre post op k r hop =>
    have hthread := hp.2 (.call op k) (by simp)
    obtain ⟨hi', hR', hk⟩ := (hthread s (D.refl s) hp.1).2 r s' hop
    refine ⟨⟨hi', ?_⟩, hR'⟩
    intro t ht
    have hothers : t ∈ pre ∨ t ∈ post → t.Meets D (fun _ _ => True) s' := by
      intro hmem
      refine (hp.2 t ?_).stable (fun _ _ _ _ _ => trivial) hR'
      rcases hmem with hmem | hmem <;> simp [hmem]
    rcases List.mem_append.mp ht with ht | ht
    · exact hothers (Or.inl ht)
    · rcases List.mem_cons.mp ht with rfl | ht
      · exact hk
      · exact hothers (Or.inr ht)

/-- **The rely/guarantee rule.**  A good pool stays good along every interleaving, and its state
only ever moves as it should. -/
theorem invariant
    (hstart : ∀ new, starts new → ∀ s, ∀ t ∈ new, t.Meets D (fun _ _ => True) s)
    {p q : Pool I σ α} (h : Reaches D.sem starts p q) (hp : Good D p) :
    Good D q ∧ D.rely p.state q.state := by
  induction h with
  | refl => exact ⟨hp, D.refl _⟩
  | tail _ hstep ih =>
    obtain ⟨hgood, hR⟩ := ih
    obtain ⟨hgood', hR'⟩ := hstep.good hstart hgood
    exact ⟨hgood', D.trans hR hR'⟩

/-- **Restricted runs.**  An invariant that the permitted calls keep, when they are as promised,
holds along every run of permitted calls. -/
theorem invariant_restrict {cond : I.Op → σ → Prop} {inv : σ → Prop}
    (hstart : ∀ new, starts new → ∀ s, ∀ t ∈ new, t.Meets D (fun _ _ => True) s)
    (hinv : ∀ op s r s', D.sem op s r s' → cond op s → D.promise op s → D.inv s → inv s → inv s')
    {p q : Pool I σ α} (h : Reaches (D.sem.restrict cond) starts p q) (hp : Good D p)
    (hi : inv p.state) : Good D q ∧ D.rely p.state q.state ∧ inv q.state := by
  have hfull := invariant hstart (Reaches.mono (fun _ _ _ _ hop => hop.2) h) hp
  have hgood : Good (D.restrict cond inv) p :=
    ⟨⟨hp.1, hi⟩, fun t ht => (hp.2 t ht).restrict hinv⟩
  have hrun := invariant (D := D.restrict cond inv)
    (fun new hnew s t ht => (hstart new hnew s t ht).restrict hinv) h hgood
  exact ⟨hfull.1, hfull.2, hrun.1.1.2⟩

/-- **What is promised is kept.**  A run of a good pool makes only calls that are as promised, in
states that meet the invariant. -/
theorem Reaches.promised
    (hstart : ∀ new, starts new → ∀ s, ∀ t ∈ new, t.Meets D (fun _ _ => True) s)
    {p q : Pool I σ α} (h : Reaches D.sem starts p q) (hp : Good D p) :
    Reaches (D.sem.restrict fun op s => D.promise op s ∧ D.inv s) starts p q := by
  induction h with
  | refl => exact .refl
  | tail hrun hstep ih =>
    obtain ⟨hinv, hthreads⟩ := (invariant hstart hrun hp).1
    refine ih.tail ?_
    cases hstep with
    | spawn hnew => exact .spawn hnew
    | @call s _ _ _ op k _ hop =>
      exact .call ⟨⟨(hthreads (.call op k) (by simp) s (D.refl s) hinv).1, hinv⟩, hop⟩

end Pool

/-! ## 6. Debts

A state may be wrong for a while, as long as some thread is about to put it right.  A call `pays`
if it leaves no wrong state; a program `Settles` if whichever of its calls makes the state wrong is
followed at once by one that pays.  Then a wrong state always has a debtor, and where no thread has
a paying call to make the state is right. -/

/-- The next call of a program. -/
def Prog.next {I : Interface} {α : Type} : Prog I α → Option I.Op
  | .ret _ => none
  | .call op _ => some op

/-- After each of its calls a wrong state was wrong before a call that does not pay, or the program
pays next. -/
def Prog.Settles {I : Interface} {σ α : Type} (sem : Sem I σ) (wrong : σ → Prop)
    (pays : I.Op → Prop) : Prog I α → Prop
  | .ret _ => True
  | .call op k =>
    (∀ s r s', sem op s r s' → wrong s' →
      wrong s ∧ ¬ pays op ∨ ∃ op', (k r).next = some op' ∧ pays op') ∧
    ∀ r, (k r).Settles sem wrong pays

/-- A sequence settles its debts if both its halves do. -/
theorem Prog.Settles.bind {I : Interface} {σ α β : Type} {sem : Sem I σ} {wrong : σ → Prop}
    {pays : I.Op → Prop} {p : Prog I α} {f : α → Prog I β} (hp : p.Settles sem wrong pays)
    (hf : ∀ a, (f a).Settles sem wrong pays) : (p.bind f).Settles sem wrong pays := by
  induction p with
  | ret a => exact hf a
  | call op k ih =>
    obtain ⟨hcall, hrest⟩ := hp
    refine ⟨?_, fun r => ih r (hrest r)⟩
    intro s r s' hop hwrong
    rcases hcall s r s' hop hwrong with h | ⟨op', hnext, hpays⟩
    · exact .inl h
    · right
      refine ⟨op', ?_, hpays⟩
      cases hk : k r with
      | ret a => simp [hk, Prog.next] at hnext
      | call op₁ k₁ => simpa [hk, Prog.next] using hnext

namespace Pool

variable {I : Interface} {σ α : Type} {sem : Sem I σ} {starts : List (Prog I α) → Prop}
  {wrong : σ → Prop} {pays : I.Op → Prop}

/-- Every thread settles its debts, and a wrong state has a debtor. -/
structure Solvent (sem : Sem I σ) (wrong : σ → Prop) (pays : I.Op → Prop) (p : Pool I σ α) :
    Prop where
  settles : ∀ t ∈ p.threads, t.Settles sem wrong pays
  debtor : wrong p.state → ∃ t ∈ p.threads, ∃ op, t.next = some op ∧ pays op

theorem Step.solvent (hstart : ∀ new, starts new → ∀ t ∈ new, t.Settles sem wrong pays)
    {p q : Pool I σ α} (h : Step sem starts p q) (hp : Solvent sem wrong pays p) :
    Solvent sem wrong pays q := by
  cases h with
  | @spawn s ts new hnew =>
    constructor
    · intro t ht
      rcases List.mem_append.mp ht with ht | ht
      · exact hp.settles t ht
      · exact hstart new hnew t ht
    · intro hwrong
      obtain ⟨t, ht, hpays⟩ := hp.debtor hwrong
      exact ⟨t, List.mem_append_left _ ht, hpays⟩
  | @call s s' pre post op k r hop =>
    obtain ⟨hcall, hrest⟩ := hp.settles (.call op k) (by simp)
    constructor
    · intro t ht
      rcases List.mem_append.mp ht with ht | ht
      · exact hp.settles t (by simp [ht])
      rcases List.mem_cons.mp ht with rfl | ht
      · exact hrest r
      · exact hp.settles t (by simp [ht])
    · intro hwrong
      rcases hcall s r s' hop hwrong with ⟨hbefore, hnot⟩ | ⟨op', hnext, hpays⟩
      · -- The debtor is another thread: this one's call does not pay.
        obtain ⟨t, ht, op', hnext, hpays⟩ := hp.debtor hbefore
        rcases List.mem_append.mp ht with ht | ht
        · exact ⟨t, by simp [ht], op', hnext, hpays⟩
        rcases List.mem_cons.mp ht with rfl | ht
        · cases hnext
          exact absurd hpays hnot
        · exact ⟨t, by simp [ht], op', hnext, hpays⟩
      · exact ⟨k r, by simp, op', hnext, hpays⟩

/-- **A wrong state has a debtor**, along every interleaving. -/
theorem Reaches.solvent (hstart : ∀ new, starts new → ∀ t ∈ new, t.Settles sem wrong pays)
    {p q : Pool I σ α} (h : Reaches sem starts p q) (hp : Solvent sem wrong pays p) :
    Solvent sem wrong pays q := by
  induction h with
  | refl => exact hp
  | tail _ hstep ih => exact hstep.solvent hstart ih

end Pool

/-! ## 7. Traces

What a run did: the calls in their order, each with the index of the thread that made it.  A
property of the order of calls is a property of the trace. -/

namespace Pool

variable {I : Interface} {σ α : Type} {sem : Sem I σ}

/-- `Trace sem p h q`: the threads of `p` can make the calls `h`, in this order, which leaves `q`.
-/
inductive Trace (sem : Sem I σ) (p : Pool I σ α) : List (Nat × I.Op) → Pool I σ α → Prop
  | nil : Trace sem p [] p
  | snoc {h : List (Nat × I.Op)} {q : Pool I σ α} {i : Nat} {op : I.Op} {k : I.Res op → Prog I α}
      {r : I.Res op} {s' : σ} (hrun : Trace sem p h q) (hi : q.threads[i]? = some (.call op k))
      (hop : sem op q.state r s') : Trace sem p (h ++ [(i, op)]) ⟨s', q.threads.set i (k r)⟩

/-- What holds at the start and is kept by every call holds along every trace. -/
theorem Trace.invariant {P : List (Nat × I.Op) → Pool I σ α → Prop} {p q : Pool I σ α}
    {h : List (Nat × I.Op)} (hstart : P [] p)
    (hstep : ∀ h q i op k r s', P h q → q.threads[i]? = some (.call op k) →
      sem op q.state r s' → P (h ++ [(i, op)]) ⟨s', q.threads.set i (k r)⟩)
    (ht : Trace sem p h q) : P h q := by
  induction ht with
  | nil => exact hstart
  | snoc _ hi hop ih => exact hstep _ _ _ _ _ _ _ ih hi hop

/-- Let the threads at some indices make one call each, in this order. -/
def schedule (hd : Handler I σ) : List Nat → Pool I σ α → Option (List (Nat × I.Op) × Pool I σ α)
  | [], p => some ([], p)
  | i :: is, p =>
    match p.threads[i]? with
    | some (.call op k) =>
      (hd op p.state).bind fun (r, s') =>
        (schedule hd is ⟨s', p.threads.set i (k r)⟩).map fun (h, q) => ((i, op) :: h, q)
    | _ => none

/-- A trace goes on with another. -/
theorem Trace.append {p q q' : Pool I σ α} {h h' : List (Nat × I.Op)} (ht : Trace sem p h q)
    (ht' : Trace sem q h' q') : Trace sem p (h ++ h') q' := by
  induction ht' with
  | nil => simpa using ht
  | snoc _ hi hop ih =>
    rw [← List.append_assoc]
    exact .snoc ih hi hop

/-- What a schedule does is a trace. -/
theorem schedule_trace {hd : Handler I σ} (hh : hd.Sound sem) {is : List Nat} {p q : Pool I σ α}
    {h : List (Nat × I.Op)} (he : schedule hd is p = some (h, q)) : Trace sem p h q := by
  induction is generalizing p h with
  | nil =>
    cases he
    exact .nil
  | cons i is ih =>
    simp only [schedule] at he
    split at he
    · rename_i op k hi
      obtain ⟨⟨r, s'⟩, hop, hrest⟩ := Option.bind_eq_some_iff.mp he
      obtain ⟨⟨h', q'⟩, hsched, heq⟩ := Option.map_eq_some_iff.mp hrest
      cases heq
      have hfirst : Trace sem p [(i, op)] ⟨s', p.threads.set i (k r)⟩ :=
        .snoc .nil hi (hh op p.state r s' hop)
      exact hfirst.append (ih hsched)
    · cases he

/-- The trace of a schedule and the pool it leaves; nothing happens when a thread cannot move. -/
def scheduled (hd : Handler I σ) (is : List Nat) (p : Pool I σ α) :
    List (Nat × I.Op) × Pool I σ α :=
  (schedule hd is p).getD ([], p)

theorem scheduled_trace {hd : Handler I σ} (hh : hd.Sound sem) (is : List Nat) (p : Pool I σ α) :
    Trace sem p (scheduled hd is p).1 (scheduled hd is p).2 := by
  unfold scheduled
  cases he : schedule hd is p with
  | none => exact .nil
  | some out => exact schedule_trace hh he

end Pool

/-! ## 8. Labels

A call with a label says whose call it is.  A discipline for labelled calls is one discipline for
each label, with one invariant; a program is checked against that of its own label.  Without their
labels the steps of a pool are the steps of a pool without labels. -/

/-- The calls of an interface, each with a label. -/
def Interface.label (I : Interface) (L : Type) : Interface := ⟨L × I.Op, fun op => I.Res op.2⟩

section Labels

variable {I : Interface} {L σ α : Type}

/-- A label has no effect. -/
def Sem.label (L : Type) (sem : Sem I σ) : Sem (I.label L) σ := fun op => sem op.2

def Handler.label (L : Type) (h : Handler I σ) : Handler (I.label L) σ := fun op => h op.2

theorem Handler.Sound.label {h : Handler I σ} {sem : Sem I σ} (hh : h.Sound sem) :
    (h.label L).Sound (sem.label L) :=
  fun op => hh op.2

namespace Prog

/-- The program with one label on all its calls. -/
def label (l : L) : Prog I α → Prog (I.label L) α
  | .ret a => .ret a
  | .call op k => .call (l, op) fun r => (k r).label l

/-- The program without its labels. -/
def unlabel : Prog (I.label L) α → Prog I α
  | .ret a => .ret a
  | .call op k => .call op.2 fun r => (k r).unlabel

@[simp] theorem unlabel_label (l : L) (p : Prog I α) : (p.label l).unlabel = p := by
  induction p with
  | ret a => rfl
  | call op k ih => exact congrArg (Prog.call op) (funext ih)

end Prog

/-- What a discipline for labelled calls asks of the programs with one label. -/
def Discipline.fix (D : Discipline (I.label L) σ) (l : L) : Discipline I σ where
  sem op := D.sem (l, op)
  promise op := D.promise (l, op)
  inv := D.inv
  rely := D.rely
  refl := D.refl
  trans := D.trans

theorem Prog.Meets.label {D : Discipline (I.label L) σ} {l : L} {Q : α → σ → Prop}
    {p : Prog I α} {s : σ} (h : p.Meets (D.fix l) Q s) : (p.label l).Meets D Q s := by
  induction p generalizing s with
  | ret a => exact h
  | call op k ih =>
    intro s₁ h₁ hi
    obtain ⟨hpromise, hstep⟩ := h s₁ h₁ hi
    refine ⟨hpromise, fun r s₂ hop => ?_⟩
    obtain ⟨hi', hR', hk⟩ := hstep r s₂ hop
    exact ⟨hi', hR', ih r hk⟩

namespace Pool

/-- The pool without its labels. -/
def unlabel (p : Pool (I.label L) σ α) : Pool I σ α := ⟨p.state, p.threads.map Prog.unlabel⟩

theorem Step.unlabel {sem : Sem I σ} {starts : List (Prog (I.label L) α) → Prop}
    {starts' : List (Prog I α) → Prop}
    (hstarts : ∀ new, starts new → starts' (new.map Prog.unlabel))
    {p q : Pool (I.label L) σ α} (h : Step (sem.label L) starts p q) :
    Step sem starts' p.unlabel q.unlabel := by
  cases h with
  | spawn hnew =>
    simp only [Pool.unlabel, List.map_append]
    exact .spawn (hstarts _ hnew)
  | call hop =>
    simp only [Pool.unlabel, List.map_append, List.map_cons, Prog.unlabel]
    exact .call hop

/-- **Without its labels a run is a run.** -/
theorem Reaches.unlabel {sem : Sem I σ} {starts : List (Prog (I.label L) α) → Prop}
    {starts' : List (Prog I α) → Prop}
    (hstarts : ∀ new, starts new → starts' (new.map Prog.unlabel))
    {p q : Pool (I.label L) σ α} (h : Reaches (sem.label L) starts p q) :
    Reaches sem starts' p.unlabel q.unlabel := by
  induction h with
  | refl => exact .refl
  | tail _ hstep ih => exact ih.tail (hstep.unlabel hstarts)

end Pool

end Labels

/-! ## 9. Histories

Here the label of a call is what its thread has done before, each call with its answer.  A
semantics for such calls may note something about them in a record beside the state.  The programs
see neither: every run is the run of some pool with histories (`Reaches.exists_record`). -/

/-- Calls with their answers, the oldest first. -/
abbrev Interface.History (I : Interface) : Type := List ((op : I.Op) × I.Res op)

section Histories

variable {I : Interface} {σ γ α : Type}

namespace Prog

/-- The program with its history on each of its calls. -/
def log : I.History → Prog I α → Prog (I.label I.History) α
  | _, .ret a => .ret a
  | h, .call op k => .call (h, op) fun r => (k r).log (h ++ [⟨op, r⟩])

@[simp] theorem unlabel_log (h : I.History) (p : Prog I α) : (p.log h).unlabel = p := by
  induction p generalizing h with
  | ret a => rfl
  | call op k ih => exact congrArg (Prog.call op) (funext fun r => ih r _)

end Prog

/-- The semantics with a record.  What is noted depends on the history of the thread, its last call
included, and on the state before that call. -/
def Sem.record (sem : Sem I σ) (note : I.History → σ → γ → γ) :
    Sem (I.label I.History) (σ × γ) :=
  fun op s r s' => sem op.2 s.1 r s'.1 ∧ s'.2 = note (op.1 ++ [⟨op.2, r⟩]) s.1 s.2

def Handler.record (h : Handler I σ) (note : I.History → σ → γ → γ) :
    Handler (I.label I.History) (σ × γ) :=
  fun op s => (h op.2 s.1).map fun (r, s') => (r, (s', note (op.1 ++ [⟨op.2, r⟩]) s.1 s.2))

theorem Handler.Sound.record {h : Handler I σ} {sem : Sem I σ} (hh : h.Sound sem)
    (note : I.History → σ → γ → γ) : (h.record note).Sound (sem.record note) := by
  intro op s r s' he
  obtain ⟨⟨r₁, s₁⟩, hop, heq⟩ := Option.map_eq_some_iff.mp he
  cases heq
  exact ⟨hh op.2 s.1 r s₁ hop, rfl⟩

namespace Discipline

/-- A discipline that does not look at histories and record. -/
def record (D : Discipline I σ) (note : I.History → σ → γ → γ) :
    Discipline (I.label I.History) (σ × γ) where
  sem := D.sem.record note
  promise op s := D.promise op.2 s.1
  inv s := D.inv s.1
  rely s s' := D.rely s.1 s'.1
  refl s := D.refl s.1
  trans := D.trans

/-- What a discipline for calls with histories asks of one thread.  Its own history is part of its
state, and only grows. -/
def own (D : Discipline (I.label I.History) σ) : Discipline I (I.History × σ) where
  sem op s r s' := D.sem (s.1, op) s.2 r s'.2 ∧ s'.1 = s.1 ++ [⟨op, r⟩]
  promise op s := D.promise (s.1, op) s.2
  inv s := D.inv s.2
  rely s s' := s.1.Sublist s'.1 ∧ D.rely s.2 s'.2
  refl s := ⟨.refl s.1, D.refl s.2⟩
  trans h h' := ⟨h.1.trans h'.1, D.trans h.2 h'.2⟩

/-- A call that may be made with any history. -/
theorem Allows.own {D : Discipline (I.label I.History) σ} {op : I.Op}
    (h : ∀ calls, D.Allows (calls, op)) : D.own.Allows op := by
  rintro ⟨calls, s⟩ hi
  obtain ⟨hpromise, hstep⟩ := h calls s hi
  refine ⟨hpromise, ?_⟩
  rintro r ⟨calls', s'⟩ ⟨hop, rfl⟩
  obtain ⟨hi', hR'⟩ := hstep r s' hop
  exact ⟨hi', List.sublist_append_left _ _, hR'⟩

end Discipline

theorem Prog.Meets.record {D : Discipline I σ} {note : I.History → σ → γ → γ} {Q : α → σ → Prop}
    {p : Prog I α} {s : σ} (h : p.Meets D Q s) (calls : I.History) (g : γ) :
    (p.log calls).Meets (D.record note) (fun a s' => Q a s'.1) (s, g) := by
  induction p generalizing s calls g with
  | ret a => exact h
  | call op k ih =>
    intro s₁ h₁ hi
    obtain ⟨hpromise, hstep⟩ := h s₁.1 h₁ hi
    refine ⟨hpromise, ?_⟩
    rintro r ⟨s₂, g₂⟩ ⟨hop, -⟩
    obtain ⟨hi', hR', hk⟩ := hstep r s₂ hop
    exact ⟨hi', hR', ih r hk _ g₂⟩

theorem Prog.Meets.own {D : Discipline (I.label I.History) σ} {Q : α → σ → Prop} {p : Prog I α}
    {calls : I.History} {s : σ} (h : p.Meets D.own (fun a s' => Q a s'.2) (calls, s)) :
    (p.log calls).Meets D Q s := by
  induction p generalizing calls s with
  | ret a => exact h
  | call op k ih =>
    intro s₁ h₁ hi
    obtain ⟨hpromise, hstep⟩ := h (calls, s₁) ⟨.refl calls, h₁⟩ hi
    refine ⟨hpromise, fun r s₂ hop => ?_⟩
    obtain ⟨hi', hR', hk⟩ := hstep r (calls ++ [⟨op, r⟩], s₂) ⟨hop, rfl⟩
    exact ⟨hi', hR'.2, ih r hk⟩

namespace Pool

/-- The pool without histories and record. -/
def forget (p : Pool (I.label I.History) (σ × γ) α) : Pool I σ α :=
  ⟨p.state.1, p.threads.map Prog.unlabel⟩

/-- The groups that may join, with nothing done yet. -/
def logged (starts : List (Prog I α) → Prop) (new : List (Prog (I.label I.History) α)) : Prop :=
  ∃ ts, starts ts ∧ new = ts.map (Prog.log [])

/-- Every thread carries its history. -/
def Logged (p : Pool (I.label I.History) σ α) : Prop :=
  ∀ t ∈ p.threads, ∃ calls u, t = Prog.log calls u

variable {sem : Sem I σ} {note : I.History → σ → γ → γ} {starts : List (Prog I α) → Prop}

theorem Step.exists_record {p q : Pool I σ α} (h : Step sem starts p q)
    {p' : Pool (I.label I.History) (σ × γ) α} (hp : p'.forget = p) (hlogged : p'.Logged) :
    ∃ q', Step (sem.record note) (logged starts) p' q' ∧ q'.forget = q ∧ q'.Logged := by
  obtain ⟨⟨s', g⟩, threads⟩ := p'
  cases h with
  | @spawn s ts new hnew =>
    cases hp
    refine ⟨⟨(s', g), threads ++ new.map (Prog.log [])⟩, .spawn ⟨new, hnew, rfl⟩, ?_, ?_⟩
    · simp [forget, Function.comp_def]
    · intro t ht
      rcases List.mem_append.mp ht with ht | ht
      · exact hlogged t ht
      · obtain ⟨u, -, rfl⟩ := List.mem_map.mp ht
        exact ⟨[], u, rfl⟩
  | @call s s₁ pre post op k r hop =>
    obtain ⟨rfl, hthreads⟩ := Pool.mk.inj hp
    obtain ⟨pre', rest, rfl, rfl, hrest⟩ := List.map_eq_append_iff.mp hthreads
    obtain ⟨t, post', rfl, ht, rfl⟩ := List.map_eq_cons_iff.mp hrest
    obtain ⟨calls, u, rfl⟩ := hlogged t (by simp)
    rw [Prog.unlabel_log] at ht
    subst ht
    refine ⟨⟨(s₁, note (calls ++ [⟨op, r⟩]) s' g),
      pre' ++ (k r).log (calls ++ [⟨op, r⟩]) :: post'⟩, .call ⟨hop, rfl⟩, ?_, ?_⟩
    · simp [forget]
    · intro t ht
      rcases List.mem_append.mp ht with ht | ht
      · exact hlogged t (by simp [ht])
      rcases List.mem_cons.mp ht with rfl | ht
      · exact ⟨_, k r, rfl⟩
      · exact hlogged t (by simp [ht])

/-- **Every run has its histories.** -/
theorem Reaches.exists_record {p q : Pool I σ α} (h : Reaches sem starts p q)
    {p' : Pool (I.label I.History) (σ × γ) α} (hp : p'.forget = p) (hlogged : p'.Logged) :
    ∃ q', Reaches (sem.record note) (logged starts) p' q' ∧ q'.forget = q ∧ q'.Logged := by
  induction h with
  | refl => exact ⟨p', .refl, hp, hlogged⟩
  | tail _ hstep ih =>
    obtain ⟨q₁, hrun, hq₁, hlogged₁⟩ := ih
    obtain ⟨q', hstep', hq', hlogged'⟩ := hstep.exists_record hq₁ hlogged₁
    exact ⟨q', hrun.tail hstep', hq', hlogged'⟩

end Pool

end Histories

/-! ## 10. Places

A thread keeps its place in the pool, so that the place says whose call it is.  A record is kept
beside the pool: after each call something is noted, about the thread at that place, the call, its
answer, and whether the thread is over with it.  A condition on the calls may look at the record.
Neither is seen by the programs (`NotedStep.forget`). -/

section Places

variable {I : Interface} {σ γ α : Type}

/-- What is noted of a call. -/
abbrev Interface.Note (I : Interface) (γ : Type) : Type :=
  Nat → (op : I.Op) → I.Res op → Bool → γ → γ

/-- Has the program ended? -/
def Prog.ended : Prog I α → Bool
  | .ret _ => true
  | .call _ _ => false

namespace Pool

/-- One step of a pool with its record, all calls of which meet a condition. -/
inductive NotedStep (sem : Sem I σ) (starts : List (Prog I α) → Prop) (note : I.Note γ)
    (cond : Nat → (op : I.Op) → I.Res op → σ → γ → Prop) :
    Pool I σ α × γ → Pool I σ α × γ → Prop
  | spawn {p : Pool I σ α} {g : γ} {new : List (Prog I α)} (h : starts new) :
      NotedStep sem starts note cond (p, g) (⟨p.state, p.threads ++ new⟩, g)
  | call {p : Pool I σ α} {g : γ} {i : Nat} {op : I.Op} {k : I.Res op → Prog I α} {r : I.Res op}
      {s' : σ} (hi : p.threads[i]? = some (.call op k)) (hop : sem op p.state r s')
      (hcond : cond i op r p.state g) :
      NotedStep sem starts note cond (p, g)
        (⟨s', p.threads.set i (k r)⟩, note i op r (k r).ended g)

/-- Every pool and record some finite number of steps away. -/
abbrev NotedReaches (sem : Sem I σ) (starts : List (Prog I α) → Prop) (note : I.Note γ)
    (cond : Nat → (op : I.Op) → I.Res op → σ → γ → Prop) :
    Pool I σ α × γ → Pool I σ α × γ → Prop :=
  Relation.ReflTransGen (NotedStep sem starts note cond)

variable {sem : Sem I σ} {starts : List (Prog I α) → Prop} {note : I.Note γ}
  {cond : Nat → (op : I.Op) → I.Res op → σ → γ → Prop}

/-- Without its record a step is a step. -/
theorem NotedStep.forget {p q : Pool I σ α × γ} (h : NotedStep sem starts note cond p q) :
    Step sem starts p.1 q.1 := by
  cases h with
  | spawn hnew => exact .spawn hnew
  | call hi hop hcond => exact step_set hi hop

theorem NotedReaches.forget {p q : Pool I σ α × γ} (h : NotedReaches sem starts note cond p q) :
    Reaches sem starts p.1 q.1 :=
  h.lift Prod.fst fun _ _ hstep => hstep.forget

/-- Let the threads at some places make one call each, in this order; none if a thread cannot, or
if the test fails. -/
def playNoted (hd : Handler I σ) (note : I.Note γ)
    (ok : Nat → (op : I.Op) → I.Res op → σ → γ → Bool) :
    List Nat → Pool I σ α × γ → Option (Pool I σ α × γ)
  | [], p => some p
  | i :: is, p =>
    match p.1.threads[i]? with
    | some (.call op k) =>
      (hd op p.1.state).bind fun (r, s') =>
        if ok i op r p.1.state p.2 then
          playNoted hd note ok is
            (⟨s', p.1.threads.set i (k r)⟩, note i op r (k r).ended p.2)
        else none
    | _ => none

theorem playNoted_reaches {hd : Handler I σ} (hh : hd.Sound sem)
    {ok : Nat → (op : I.Op) → I.Res op → σ → γ → Bool}
    (hok : ∀ i op r s g, ok i op r s g = true → cond i op r s g) {is : List Nat}
    {p q : Pool I σ α × γ} (he : playNoted hd note ok is p = some q) :
    NotedReaches sem starts note cond p q := by
  induction is generalizing p with
  | nil =>
    cases he
    exact .refl
  | cons i is ih =>
    simp only [playNoted] at he
    split at he
    · rename_i op k hi
      obtain ⟨⟨r, s'⟩, hop, hrest⟩ := Option.bind_eq_some_iff.mp he
      split at hrest
      · rename_i htest
        exact .head (.call hi (hh op p.1.state r s' hop) (hok _ _ _ _ _ htest)) (ih hrest)
      · cases hrest
    · cases he

end Pool

end Places

/-! ## 11. Interpretations

A program over one interface becomes a program over another when each of its calls is made by a
program over the other one, with a state that is kept between the calls. -/

section Interpretations

namespace Prog

variable {I J : Interface} {α β γ δ σ : Type}

/-- The program with its calls made by `h`. -/
def interpret (h : (op : I.Op) → σ → Prog J (I.Res op × σ)) : Prog I α → σ → Prog J (α × σ)
  | .ret a, s => .ret (a, s)
  | .call op k, s => (h op s).bind fun out => (k out.1).interpret h out.2

variable {h : (op : I.Op) → σ → Prog J (I.Res op × σ)}

theorem interpret_bind (p : Prog I α) (f : α → Prog I β) (s : σ) :
    (p.bind f).interpret h s = (p.interpret h s).bind fun out => (f out.1).interpret h out.2 := by
  induction p generalizing s with
  | ret a => rfl
  | call op k ih =>
    simp only [call_bind, interpret, bind_assoc]
    exact congrArg ((h op s).bind) (funext fun out => ih out.1 out.2)

/-- The programs make the same calls, and end with related results. -/
inductive Same (R : α → β → Prop) : Prog J α → Prog J β → Prop
  | ret {a : α} {b : β} (hab : R a b) : Same R (.ret a) (.ret b)
  | call (op : J.Op) {k : J.Res op → Prog J α} {k' : J.Res op → Prog J β}
    (hk : ∀ r, Same R (k r) (k' r)) : Same R (.call op k) (.call op k')

theorem Same.bind {R : α → β → Prop} {R' : γ → δ → Prop} {p : Prog J α} {q : Prog J β}
    {f : α → Prog J γ} {g : β → Prog J δ} (hpq : Same R p q)
    (hfg : ∀ a b, R a b → Same R' (f a) (g b)) : Same R' (p.bind f) (q.bind g) := by
  induction hpq with
  | ret hab => exact hfg _ _ hab
  | call op _ ih => exact .call op ih

theorem Same.interpret_bind {R : α × σ → γ → Prop} {R' : β × σ → δ → Prop} {p : Prog I α}
    {f : α → Prog I β} {q : Prog J γ} {g : γ → Prog J δ} {s : σ} (hp : Same R (p.interpret h s) q)
    (hf : ∀ out c, R out c → Same R' ((f out.1).interpret h out.2) (g c)) :
    Same R' ((p.bind f).interpret h s) (q.bind g) := by
  rw [Prog.interpret_bind]
  exact hp.bind hf

end Prog

end Interpretations

end Lib
