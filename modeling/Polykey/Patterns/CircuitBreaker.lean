/-
# The circuit breaker

`pkg/patterns/circuitbreaker`.  A `Breaker` is four atomics: a state and three numbers.  Its
methods read and write them one at a time, so each `Load`, `Store`, `Add` and `CompareAndSwap` is
one call here, and any number of threads make theirs in any order.

Two questions are asked about all these interleavings.

* **Can it get stuck?**  In the half-open state a request is let through as long as
  `successCount < halfOpenRequests`.  A counter that stayed at the bound would shut everybody out
  for good: nothing runs, so nothing is ever recorded.  It does not stay there (`not_wedged`): the
  `Add` that reaches the bound is followed by a `CompareAndSwap` that leaves the state, and whoever
  enters the state resets the counter.  In between the breaker may well look stuck, but then some
  thread has the call that repairs it as its NEXT call, which is the shape of `Prog.Settles`.
* **How many requests does the half-open state let through?**  The counter counts the requests
  that have SUCCEEDED, so until the first one does nobody is turned away (`probes_unbounded`).  A
  request is let through by ONE atomic of `canExecute`, whatever the others do in the meantime, so
  that is where it is counted (`canExecute_admits`); the count is bounded as long as the callers
  themselves are few (`probes_bounded`).
-/
import Mathlib.Data.List.Perm.Subperm
import Polykey.Domain.Types
import Polykey.Lib.Prog

namespace Polykey

open Lib

namespace CircuitBreaker

/-! ## 1. The breaker -/

inductive State
  | stateClosed
  | stateOpen
  | stateHalfOpen
  deriving DecidableEq, Repr

/-- The configuration of a `Breaker`; `New` and its options keep `halfOpenRequests` positive. -/
structure Config where
  maxFailures : Int
  resetTimeout : Duration
  callTimeout : Duration
  halfOpenRequests : Int
  halfOpenRequests_pos : 0 < halfOpenRequests

/-- `Option[T]`, but for the callback, which does not touch the breaker. -/
inductive Setting
  | withResetTimeout (d : Duration)
  | withCallTimeout (d : Duration)
  | withHalfOpenRequests (n : Int)

def Config.set (cfg : Config) : Setting → Config
  | .withResetTimeout d => { cfg with resetTimeout := d }
  | .withCallTimeout d => { cfg with callTimeout := d }
  | .withHalfOpenRequests n =>
    if h : 0 < n then { cfg with halfOpenRequests := n, halfOpenRequests_pos := h } else cfg

/-- `New`: the defaults, and then the options in order. -/
def Config.new (maxFailures : Int) (opts : List Setting) : Config :=
  opts.foldl Config.set
    { maxFailures, resetTimeout := 5 * second, callTimeout := 2 * second, halfOpenRequests := 1,
      halfOpenRequests_pos := by decide }

/-- A sum of `int64`s. -/
def int64 (n : Int) : Int := n.bmod (2 ^ 64)

/-- What comes of the function in the `select` of `Execute`. -/
inductive Outcome (ε α : Type)
  | returned (r : Except ε α)
  | deadlineExceeded
  /-- the parent context is done -/
  | cancelled (e : ε)

/-- The errors of `Execute`: the breaker's own, and those of the function. -/
inductive Fault (ε : Type)
  | errOpen
  | errTimeout
  | err (e : ε)
  deriving DecidableEq, Repr

/-- What `Execute` returns for it. -/
def Outcome.result {ε α : Type} : Outcome ε α → Except (Fault ε) α
  | .returned (.ok a) => .ok a
  | .returned (.error e) => .error (.err e)
  | .deadlineExceeded => .error .errTimeout
  | .cancelled e => .error (.err e)

section Methods

variable {Fn : Type} {Out : Fn → Type} {ε : Type}

/-- The calls of the methods. -/
inductive Op (Fn : Type)
  | loadState
  | compareAndSwapState (old new : State)
  | addFailures
  | storeFailures (n : Int)
  | loadLastFailureTime
  | storeLastFailureTime (t : Time)
  | loadSuccessCount
  | addSuccessCount
  | storeSuccessCount (n : Int)
  | timeNow
  | onStateChange (old new : State)
  | callFn (f : Fn)

@[reducible] def Op.Res (Out : Fn → Type) (ε : Type) : Op Fn → Type
  | loadState => State
  | compareAndSwapState _ _ => Bool
  | addFailures | addSuccessCount | loadSuccessCount => Int
  | loadLastFailureTime | timeNow => Time
  | callFn f => Outcome ε (Out f)
  | storeFailures _ | storeLastFailureTime _ | storeSuccessCount _ | onStateChange _ _ => Unit

@[reducible] def Atomics (Out : Fn → Type) (ε : Type) : Interface := ⟨Op Fn, Op.Res Out ε⟩

variable (Out ε)

/-- `transition`. -/
def transition (old new : State) : Prog (Atomics Out ε) Unit := do
  let swapped ← Prog.perform (I := Atomics Out ε) (.compareAndSwapState old new)
  if swapped then
    match new with
    | .stateOpen => Prog.perform (I := Atomics Out ε) (.storeSuccessCount 0)
    | .stateHalfOpen => Prog.perform (I := Atomics Out ε) (.storeSuccessCount 0)
    | .stateClosed => do
      Prog.perform (I := Atomics Out ε) (.storeFailures 0)
      Prog.perform (I := Atomics Out ε) (.storeSuccessCount 0)
    Prog.perform (I := Atomics Out ε) (.onStateChange old new)
  else pure ()

/-- `canExecute`. -/
def canExecute (cfg : Config) : Prog (Atomics Out ε) Bool := do
  let currentState ← Prog.perform (I := Atomics Out ε) .loadState
  match currentState with
  | .stateClosed => pure true
  | .stateOpen => do
    let now ← Prog.perform (I := Atomics Out ε) .timeNow
    let lastFailureTime ← Prog.perform (I := Atomics Out ε) .loadLastFailureTime
    if int64 (lastFailureTime + cfg.resetTimeout) < now then
      transition Out ε .stateOpen .stateHalfOpen
      pure true
    else pure false
  | .stateHalfOpen => do
    let successCount ← Prog.perform (I := Atomics Out ε) .loadSuccessCount
    pure (decide (successCount < cfg.halfOpenRequests))

/-- `recordResult`; of the error only its presence is looked at. -/
def recordResult (cfg : Config) (failed : Bool) : Prog (Atomics Out ε) Unit :=
  if failed then do
    let newFailures ← Prog.perform (I := Atomics Out ε) .addFailures
    let now ← Prog.perform (I := Atomics Out ε) .timeNow
    Prog.perform (I := Atomics Out ε) (.storeLastFailureTime now)
    let currentState ← Prog.perform (I := Atomics Out ε) .loadState
    if currentState = .stateHalfOpen ∨
        currentState = .stateClosed ∧ cfg.maxFailures ≤ newFailures then
      transition Out ε currentState .stateOpen
    else pure ()
  else do
    let currentState ← Prog.perform (I := Atomics Out ε) .loadState
    if currentState = .stateHalfOpen then
      let successCount ← Prog.perform (I := Atomics Out ε) .addSuccessCount
      if cfg.halfOpenRequests ≤ successCount then transition Out ε .stateHalfOpen .stateClosed
      else pure ()
    else Prog.perform (I := Atomics Out ε) (.storeFailures 0)

/-- `Execute`. -/
def execute (cfg : Config) (f : Fn) : Prog (Atomics Out ε) (Except (Fault ε) (Out f)) := do
  let admitted ← canExecute Out ε cfg
  if admitted then
    let outcome ← Prog.perform (I := Atomics Out ε) (.callFn f)
    recordResult Out ε cfg !outcome.result.isOk
    pure outcome.result
  else pure (.error .errOpen)

end Methods

/-! ## 2. Threads -/

section Pools

variable {Fn : Type} {Out : Fn → Type} {ε τ : Type}

/-- The atomics, the clock, and whatever the functions work on. -/
structure Shared (τ : Type) where
  state : State
  failures : Int
  lastFailureTime : Time
  successCount : Int
  clock : Time
  env : τ

/-- A new breaker. -/
def Shared.new (clock : Time) (env : τ) : Shared τ := ⟨.stateClosed, 0, 0, 0, clock, env⟩

/-- What each call does.  `fn` says what the functions may do. -/
def sem (fn : (f : Fn) → τ → Outcome ε (Out f) → τ → Prop) : Sem (Atomics Out ε) (Shared τ)
  | .loadState, s, r, s' => r = s.state ∧ s' = s
  | .compareAndSwapState old new, s, r, s' =>
    if s.state = old then r = true ∧ s' = { s with state := new } else r = false ∧ s' = s
  | .addFailures, s, r, s' => r = s.failures + 1 ∧ s' = { s with failures := s.failures + 1 }
  | .storeFailures n, s, _, s' => s' = { s with failures := n }
  | .loadLastFailureTime, s, r, s' => r = s.lastFailureTime ∧ s' = s
  | .storeLastFailureTime t, s, _, s' => s' = { s with lastFailureTime := t }
  | .loadSuccessCount, s, r, s' => r = s.successCount ∧ s' = s
  | .addSuccessCount, s, r, s' =>
    r = s.successCount + 1 ∧ s' = { s with successCount := s.successCount + 1 }
  | .storeSuccessCount n, s, _, s' => s' = { s with successCount := n }
  | .timeNow, s, r, s' => s.clock ≤ r ∧ s' = { s with clock := r }
  | .onStateChange _ _, s, _, s' => s' = s
  | .callFn f, s, r, s' =>
    ∃ now env', s.clock ≤ now ∧ fn f s.env r env' ∧ s' = { s with clock := now, env := env' }

variable (Out ε)

/-- Calls of `Execute`. -/
inductive Calls (cfg : Config) : List (Prog (Atomics Out ε) Unit) → Prop
  | execute (f : Fn) : Calls cfg [do let _ ← execute Out ε cfg f; pure ()]

/-- The threads of a breaker: whole calls, and `canExecute` and `recordResult` on their own, with
any outcome. -/
inductive Starts (cfg : Config) : List (Prog (Atomics Out ε) Unit) → Prop
  | calls {new : List (Prog (Atomics Out ε) Unit)} (h : Calls Out ε cfg new) : Starts cfg new
  | canExecute : Starts cfg [do let _ ← canExecute Out ε cfg; pure ()]
  | recordResult (failed : Bool) : Starts cfg [recordResult Out ε cfg failed]

/-- A breaker and the threads that use it. -/
abbrev Threads (τ : Type) := Pool (Atomics Out ε) (Shared τ) Unit

variable {Out ε}

/-- The call of `Execute` itself. -/
def Op.isOutside : Op Fn → Bool
  | .callFn _ => true
  | _ => false

/-- No thread is inside a method: each has ended, or is running its function. -/
def Quiet (p : Threads Out ε τ) : Prop :=
  ∀ t ∈ p.threads, ∀ op, t.next = some op → op.isOutside = true

end Pools

/-! ## 3. The methods alone

Where no other thread comes in between, `canExecute` and `recordResult` are functions of the
atomics and of the clock. `Shared.check` and `Shared.record` are these functions; the equations
are used wherever calls are made one after the other. -/

section Alone

variable {Fn : Type} {Out : Fn → Type} {ε τ : Type}

/-- A change of state, with the counters it resets. -/
def Shared.enter (s : Shared τ) (new : State) : Shared τ :=
  { s with
    state := new
    failures := if new = .stateClosed then 0 else s.failures
    successCount := 0 }

/-- What `canExecute` answers and leaves, alone, when its clock shows `now`. -/
def Shared.check (cfg : Config) (now : Time) (s : Shared τ) : Bool × Shared τ :=
  match s.state with
  | .stateClosed => (true, s)
  | .stateOpen =>
    if int64 (s.lastFailureTime + cfg.resetTimeout) < now then
      (true, { s with clock := now }.enter .stateHalfOpen)
    else (false, { s with clock := now })
  | .stateHalfOpen => (decide (s.successCount < cfg.halfOpenRequests), s)

/-- What `recordResult` leaves, alone, when its clock shows `now`. -/
def Shared.record (cfg : Config) (failed : Bool) (now : Time) (s : Shared τ) : Shared τ :=
  if failed then
    let s' := { s with failures := s.failures + 1, lastFailureTime := now, clock := now }
    if s.state = .stateHalfOpen ∨ s.state = .stateClosed ∧ cfg.maxFailures ≤ s.failures + 1 then
      s'.enter .stateOpen
    else s'
  else if s.state = .stateHalfOpen then
    let s' := { s with successCount := s.successCount + 1 }
    if cfg.halfOpenRequests ≤ s.successCount + 1 then s'.enter .stateClosed else s'
  else { s with failures := 0 }

/-- What can be watched of a breaker: the readings of the clock, what comes of the functions, and
the changes of state that the callback is told about. -/
inductive Seen (Out : Fn → Type) (ε : Type)
  | time (t : Time)
  | called (f : Fn) (outcome : Outcome ε (Out f))
  | changed (old new : State)

def see : (op : Op Fn) → op.Res Out ε → List (Seen Out ε)
  | .timeNow, now => [.time now]
  | .callFn f, outcome => [.called f outcome]
  | .onStateChange old new, _ => [.changed old new]
  | .loadState, _ | .compareAndSwapState _ _, _ | .addFailures, _ | .storeFailures _, _
  | .loadLastFailureTime, _ | .storeLastFailureTime _, _ | .loadSuccessCount, _
  | .addSuccessCount, _ | .storeSuccessCount _, _ => []

/-- What is seen of `canExecute`. -/
def Shared.checkSeen (Out : Fn → Type) (ε : Type) (cfg : Config) (now : Time) (s : Shared τ) :
    List (Seen Out ε) :=
  match s.state with
  | .stateClosed | .stateHalfOpen => []
  | .stateOpen =>
    if int64 (s.lastFailureTime + cfg.resetTimeout) < now then
      [.time now, .changed .stateOpen .stateHalfOpen]
    else [.time now]

/-- What is seen of `recordResult`. -/
def Shared.recordSeen (Out : Fn → Type) (ε : Type) (cfg : Config) (failed : Bool) (now : Time)
    (s : Shared τ) : List (Seen Out ε) :=
  if failed then
    if s.state = .stateHalfOpen ∨ s.state = .stateClosed ∧ cfg.maxFailures ≤ s.failures + 1 then
      [.time now, .changed s.state .stateOpen]
    else [.time now]
  else if s.state = .stateHalfOpen ∧ cfg.halfOpenRequests ≤ s.successCount + 1 then
    [.changed .stateHalfOpen .stateClosed]
  else []

variable {cfg : Config} {fn : (f : Fn) → τ → Outcome ε (Out f) → τ → Prop}
  {seen : List (Seen Out ε)}

theorem compareAndSwap_hit {s s' : Shared τ} {old new : State} (hold : s.state = old)
    {swapped : Bool} : sem fn (.compareAndSwapState old new) s swapped s' ↔
      swapped = true ∧ s' = { s with state := new } := by
  simp only [sem, if_pos hold]

theorem transition_shows {s s' : Shared τ} {old new : State} (hold : s.state = old) {r : Unit} :
    (transition Out ε old new).Shows (sem fn) see s r s' seen ↔
      s' = s.enter new ∧ seen = [.changed old new] := by
  constructor
  · rintro ⟨swapped, s₁, _, hop, rfl, hrun⟩
    obtain ⟨rfl, rfl⟩ := (compareAndSwap_hit hold).mp hop
    cases new with
    | stateClosed =>
      obtain ⟨_, s₂, _, rfl, rfl, _, s₃, _, rfl, rfl, _, s₄, _, rfl, rfl, -, rfl, rfl⟩ := hrun
      exact ⟨rfl, rfl⟩
    | stateOpen | stateHalfOpen =>
      obtain ⟨_, s₂, _, rfl, rfl, _, s₃, _, rfl, rfl, -, rfl, rfl⟩ := hrun
      exact ⟨rfl, rfl⟩
  · rintro ⟨rfl, rfl⟩
    refine ⟨true, _, _, (compareAndSwap_hit hold).mpr ⟨rfl, rfl⟩, rfl, ?_⟩
    cases new with
    | stateClosed =>
      exact ⟨(), _, _, rfl, rfl, (), _, _, rfl, rfl, (), _, _, rfl, rfl, rfl, rfl, rfl⟩
    | stateOpen | stateHalfOpen =>
      exact ⟨(), _, _, rfl, rfl, (), _, _, rfl, rfl, rfl, rfl, rfl⟩

/-- What `canExecute` does once it has found the breaker open: the clock is read first, then the
time of the last failure. -/
theorem canExecute_shows_open {s s' : Shared τ} {admitted : Bool} (hstate : s.state = .stateOpen) :
    (canExecute Out ε cfg).Shows (sem fn) see s admitted s' seen ↔
      ∃ now, s.clock ≤ now ∧ s.check cfg now = (admitted, s') ∧
        seen = s.checkSeen Out ε cfg now := by
  constructor
  · rintro ⟨state, s₁, _, ⟨rfl, rfl⟩, rfl, hrun⟩
    simp only [Prog.ret_bind] at hrun
    rw [hstate] at hrun
    obtain ⟨now, s₂, _, ⟨hnow, rfl⟩, rfl, last, s₃, _, ⟨rfl, rfl⟩, rfl, hrun⟩ := hrun
    refine ⟨now, hnow, ?_⟩
    simp only [Prog.ret_bind] at hrun
    simp only [Shared.check, Shared.checkSeen, hstate]
    split at hrun
    · rename_i hlate
      obtain ⟨_, s₄, _, _, htransition, ⟨rfl, rfl, rfl⟩, rfl⟩ := Prog.shows_bind.mp hrun
      obtain ⟨hs', rfl⟩ := (transition_shows (by exact hstate)).mp htransition
      rw [if_pos hlate, if_pos hlate, hs', hstate]
      exact ⟨rfl, rfl⟩
    · rename_i hlate
      obtain ⟨rfl, rfl, rfl⟩ := hrun
      rw [if_neg hlate, if_neg hlate, hstate]
      exact ⟨rfl, rfl⟩
  · rintro ⟨now, hnow, hcheck, rfl⟩
    simp only [Shared.check, Shared.checkSeen, hstate] at hcheck ⊢
    split at hcheck
    · rename_i hlate
      cases hcheck
      rw [if_pos hlate]
      refine ⟨s.state, s, _, ⟨rfl, rfl⟩, rfl, ?_⟩
      simp only [Prog.ret_bind, hstate]
      refine ⟨now, { s with clock := now }, _, ⟨hnow, rfl⟩, rfl, s.lastFailureTime, _, _,
        ⟨rfl, rfl⟩, rfl, ?_⟩
      simp only [Prog.ret_bind, if_pos hlate]
      exact Prog.shows_bind.mpr ⟨(), _, _, [],
        (transition_shows (by exact hstate)).mpr ⟨rfl, rfl⟩, ⟨rfl, rfl, rfl⟩, rfl⟩
    · rename_i hlate
      cases hcheck
      rw [if_neg hlate]
      refine ⟨s.state, s, _, ⟨rfl, rfl⟩, rfl, ?_⟩
      simp only [Prog.ret_bind, hstate]
      refine ⟨now, { s with clock := now }, _, ⟨hnow, rfl⟩, rfl, s.lastFailureTime, _, _,
        ⟨rfl, rfl⟩, rfl, ?_⟩
      simp only [Prog.ret_bind, if_neg hlate]
      exact ⟨rfl, by rw [hstate], rfl⟩

/-- **`canExecute` alone**, and what is seen of it. -/
theorem canExecute_shows {s s' : Shared τ} {admitted : Bool} :
    (canExecute Out ε cfg).Shows (sem fn) see s admitted s' seen ↔
      ∃ now, s.clock ≤ now ∧ s.check cfg now = (admitted, s') ∧
        seen = s.checkSeen Out ε cfg now := by
  cases hstate : s.state with
  | stateOpen => exact canExecute_shows_open hstate
  | stateClosed =>
    simp only [Shared.check, Shared.checkSeen, hstate]
    constructor
    · rintro ⟨state, s₁, _, ⟨rfl, rfl⟩, rfl, hrun⟩
      rw [hstate] at hrun
      obtain ⟨rfl, rfl, rfl⟩ := hrun
      exact ⟨s'.clock, le_refl _, rfl, rfl⟩
    · rintro ⟨now, -, hcheck, rfl⟩
      cases hcheck
      refine ⟨s.state, s, _, ⟨rfl, rfl⟩, rfl, ?_⟩
      simp only [Prog.ret_bind, hstate]
      exact ⟨rfl, rfl, rfl⟩
  | stateHalfOpen =>
    simp only [Shared.check, Shared.checkSeen, hstate]
    constructor
    · rintro ⟨state, s₁, _, ⟨rfl, rfl⟩, rfl, hrun⟩
      rw [hstate] at hrun
      obtain ⟨count, s₂, _, ⟨rfl, rfl⟩, rfl, rfl, rfl, rfl⟩ := hrun
      exact ⟨s'.clock, le_refl _, rfl, rfl⟩
    · rintro ⟨now, -, hcheck, rfl⟩
      cases hcheck
      refine ⟨s.state, s, _, ⟨rfl, rfl⟩, rfl, ?_⟩
      simp only [Prog.ret_bind, hstate]
      exact ⟨s.successCount, s, _, ⟨rfl, rfl⟩, rfl, rfl, rfl, rfl⟩

/-- **`canExecute` alone.** -/
theorem canExecute_runs {s s' : Shared τ} {admitted : Bool} :
    (canExecute Out ε cfg).Runs (sem fn) s admitted s' ↔
      ∃ now, s.clock ≤ now ∧ s.check cfg now = (admitted, s') := by
  rw [Prog.runs_iff_shows see]
  constructor
  · rintro ⟨seen, hrun⟩
    obtain ⟨now, hnow, hcheck, -⟩ := canExecute_shows.mp hrun
    exact ⟨now, hnow, hcheck⟩
  · rintro ⟨now, hnow, hcheck⟩
    exact ⟨_, canExecute_shows.mpr ⟨now, hnow, hcheck, rfl⟩⟩

/-- **`recordResult` alone**, after a failure. -/
theorem recordResult_failed_shows {s s' : Shared τ} {r : Unit} :
    (recordResult Out ε cfg true).Shows (sem fn) see s r s' seen ↔
      ∃ now, s.clock ≤ now ∧ s' = s.record cfg true now ∧
        seen = s.recordSeen Out ε cfg true now := by
  constructor
  · rintro ⟨newFailures, s₁, _, ⟨rfl, rfl⟩, rfl, now, s₂, _, ⟨hnow, rfl⟩, rfl, _, s₃, _, rfl, rfl,
      state, s₄, _, ⟨rfl, rfl⟩, rfl, hrun⟩
    refine ⟨now, hnow, ?_⟩
    simp only [Prog.ret_bind] at hrun
    simp only [Shared.record, Shared.recordSeen, if_true]
    split at hrun
    · rename_i htrip
      rw [if_pos htrip, if_pos htrip]
      obtain ⟨hs', rfl⟩ := (transition_shows (by rfl)).mp hrun
      exact ⟨hs', rfl⟩
    · rename_i htrip
      obtain ⟨-, rfl, rfl⟩ := hrun
      rw [if_neg htrip, if_neg htrip]
      exact ⟨rfl, rfl⟩
  · rintro ⟨now, hnow, rfl, rfl⟩
    simp only [Shared.record, Shared.recordSeen, if_true]
    split
    · rename_i htrip
      refine ⟨_, _, _, ⟨rfl, rfl⟩, rfl, now, _, _, ⟨hnow, rfl⟩, rfl, (), _, _, rfl, rfl, s.state, _,
        _, ⟨rfl, rfl⟩, rfl, ?_⟩
      simp only [Prog.ret_bind]
      rw [if_pos htrip]
      exact (transition_shows (by rfl)).mpr ⟨rfl, rfl⟩
    · rename_i htrip
      refine ⟨_, _, _, ⟨rfl, rfl⟩, rfl, now, _, _, ⟨hnow, rfl⟩, rfl, (), _, _, rfl, rfl, s.state, _,
        _, ⟨rfl, rfl⟩, rfl, ?_⟩
      simp only [Prog.ret_bind]
      rw [if_neg htrip]
      exact ⟨rfl, rfl, rfl⟩

/-- **`recordResult` alone**, after a success: no clock is read. -/
theorem recordResult_ok_shows {s s' : Shared τ} {r : Unit} (now : Time) :
    (recordResult Out ε cfg false).Shows (sem fn) see s r s' seen ↔
      s' = s.record cfg false now ∧ seen = s.recordSeen Out ε cfg false now := by
  constructor
  · rintro ⟨state, s₁, _, ⟨rfl, rfl⟩, rfl, hrun⟩
    simp only [Prog.ret_bind] at hrun
    simp only [Shared.record, Shared.recordSeen, Bool.false_eq_true, if_false]
    split at hrun
    · rename_i hstate
      obtain ⟨count, s₂, _, ⟨rfl, rfl⟩, rfl, hrun⟩ := hrun
      rw [if_pos hstate]
      simp only [Prog.ret_bind] at hrun
      split at hrun
      · rename_i hcount
        rw [if_pos hcount, if_pos ⟨hstate, hcount⟩]
        obtain ⟨hs', rfl⟩ := (transition_shows (by exact hstate)).mp hrun
        exact ⟨hs', rfl⟩
      · rename_i hcount
        obtain ⟨-, rfl, rfl⟩ := hrun
        rw [if_neg hcount, if_neg (fun h => hcount h.2)]
        exact ⟨rfl, rfl⟩
    · rename_i hstate
      obtain ⟨_, s₂, _, rfl, rfl, -, rfl, rfl⟩ := hrun
      rw [if_neg hstate, if_neg (fun h => hstate h.1)]
      exact ⟨rfl, rfl⟩
  · rintro ⟨rfl, rfl⟩
    simp only [Shared.record, Shared.recordSeen, Bool.false_eq_true, if_false]
    by_cases hstate : s.state = .stateHalfOpen
    · rw [if_pos hstate]
      by_cases hcount : cfg.halfOpenRequests ≤ s.successCount + 1
      · rw [if_pos hcount, if_pos ⟨hstate, hcount⟩]
        refine ⟨s.state, s, _, ⟨rfl, rfl⟩, rfl, ?_⟩
        simp only [Prog.ret_bind, if_pos hstate]
        refine ⟨_, _, _, ⟨rfl, rfl⟩, rfl, ?_⟩
        simp only [Prog.ret_bind, if_pos hcount]
        exact (transition_shows (by exact hstate)).mpr ⟨rfl, rfl⟩
      · rw [if_neg hcount, if_neg (fun h => hcount h.2)]
        refine ⟨s.state, s, _, ⟨rfl, rfl⟩, rfl, ?_⟩
        simp only [Prog.ret_bind, if_pos hstate]
        refine ⟨_, _, _, ⟨rfl, rfl⟩, rfl, ?_⟩
        simp only [Prog.ret_bind, if_neg hcount]
        exact ⟨rfl, rfl, rfl⟩
    · rw [if_neg hstate, if_neg (fun h => hstate h.1)]
      refine ⟨s.state, s, _, ⟨rfl, rfl⟩, rfl, ?_⟩
      simp only [Prog.ret_bind, if_neg hstate]
      exact ⟨(), _, _, rfl, rfl, rfl, rfl, rfl⟩

theorem recordResult_shows {s s' : Shared τ} {r : Unit} {failed : Bool} :
    (recordResult Out ε cfg failed).Shows (sem fn) see s r s' seen ↔
      ∃ now, s.clock ≤ now ∧ s' = s.record cfg failed now ∧
        seen = s.recordSeen Out ε cfg failed now := by
  cases failed with
  | true => exact recordResult_failed_shows
  | false =>
    constructor
    · intro hrun
      exact ⟨s.clock, le_refl _, (recordResult_ok_shows s.clock).mp hrun⟩
    · rintro ⟨now, -, hs'⟩
      exact (recordResult_ok_shows now).mpr hs'

/-- A call that was let through, once its function has answered: the clock and what the functions
work on. -/
def Shared.answered (s : Shared τ) (now : Time) (env : τ) : Shared τ := { s with clock := now, env }

/-- **`Execute` alone**, and what is seen of it: it is refused, or the function answers and the
answer is recorded. -/
theorem execute_shows {f : Fn} {s s' : Shared τ} {result : Except (Fault ε) (Out f)} :
    (execute Out ε cfg f).Shows (sem fn) see s result s' seen ↔
      (result = .error .errOpen ∧ ∃ now, s.clock ≤ now ∧ s.check cfg now = (false, s') ∧
        seen = s.checkSeen Out ε cfg now) ∨
      ∃ now s₁ outcome env now₁ now₂, s.clock ≤ now ∧ s.check cfg now = (true, s₁) ∧
        fn f s₁.env outcome env ∧ s₁.clock ≤ now₁ ∧ now₁ ≤ now₂ ∧ result = outcome.result ∧
        s' = (s₁.answered now₁ env).record cfg (!outcome.result.isOk) now₂ ∧
        seen = s.checkSeen Out ε cfg now ++ .called f outcome ::
          (s₁.answered now₁ env).recordSeen Out ε cfg (!outcome.result.isOk) now₂ := by
  constructor
  · intro hrun
    obtain ⟨admitted, s₁, _, _, hcan, hserve, rfl⟩ := Prog.shows_bind.mp hrun
    obtain ⟨now, hnow, hcheck, rfl⟩ := canExecute_shows.mp hcan
    cases admitted with
    | false =>
      obtain ⟨rfl, rfl, rfl⟩ := hserve
      exact .inl ⟨rfl, now, hnow, hcheck, List.append_nil _⟩
    | true =>
      obtain ⟨outcome, s₃, _, ⟨now₁, env, hnow₁, hfn, rfl⟩, rfl, hend⟩ := hserve
      simp only [Prog.ret_bind] at hend
      obtain ⟨_, s₄, _, _, hrecord, ⟨rfl, rfl, rfl⟩, rfl⟩ := Prog.shows_bind.mp hend
      obtain ⟨now₂, hnow₂, rfl, rfl⟩ := recordResult_shows.mp hrecord
      refine .inr ⟨now, s₁, outcome, env, now₁, now₂, hnow, hcheck, hfn, hnow₁, hnow₂, rfl, rfl, ?_⟩
      simp [see, Shared.answered]
  · rintro (⟨rfl, now, hnow, hcheck, rfl⟩ |
      ⟨now, s₁, outcome, env, now₁, now₂, hnow, hcheck, hfn, hnow₁, hnow₂, rfl, rfl, rfl⟩)
    · exact Prog.shows_bind.mpr ⟨false, s', _, [], canExecute_shows.mpr ⟨now, hnow, hcheck, rfl⟩,
        ⟨rfl, rfl, rfl⟩, (List.append_nil _).symm⟩
    · refine Prog.shows_bind.mpr
        ⟨true, s₁, _, _, canExecute_shows.mpr ⟨now, hnow, hcheck, rfl⟩, ?_, rfl⟩
      refine ⟨outcome, s₁.answered now₁ env, _, ⟨now₁, env, hnow₁, hfn, rfl⟩, rfl, ?_⟩
      simp only [Prog.ret_bind]
      exact Prog.shows_bind.mpr ⟨(), _, _, [], recordResult_shows.mpr ⟨now₂, hnow₂, rfl, rfl⟩,
        ⟨rfl, rfl, rfl⟩, (List.append_nil _).symm⟩

/-- **`Execute` alone**: it is refused, or the function answers and the answer is recorded. -/
theorem execute_runs {f : Fn} {s s' : Shared τ} {result : Except (Fault ε) (Out f)} :
    (execute Out ε cfg f).Runs (sem fn) s result s' ↔
      (result = .error .errOpen ∧ ∃ now, s.clock ≤ now ∧ s.check cfg now = (false, s')) ∨
      ∃ now s₁ outcome env now₁ now₂, s.clock ≤ now ∧ s.check cfg now = (true, s₁) ∧
        fn f s₁.env outcome env ∧ s₁.clock ≤ now₁ ∧ now₁ ≤ now₂ ∧ result = outcome.result ∧
        s' = (s₁.answered now₁ env).record cfg (!outcome.result.isOk) now₂ := by
  rw [Prog.runs_iff_shows see]
  constructor
  · rintro ⟨seen, hrun⟩
    rcases execute_shows.mp hrun with ⟨hresult, now, hnow, hcheck, -⟩ |
      ⟨now, s₁, outcome, env, now₁, now₂, hnow, hcheck, hfn, hnow₁, hnow₂, hresult, hs', -⟩
    · exact .inl ⟨hresult, now, hnow, hcheck⟩
    · exact .inr ⟨now, s₁, outcome, env, now₁, now₂, hnow, hcheck, hfn, hnow₁, hnow₂, hresult, hs'⟩
  · rintro (⟨hresult, now, hnow, hcheck⟩ |
      ⟨now, s₁, outcome, env, now₁, now₂, hnow, hcheck, hfn, hnow₁, hnow₂, hresult, hs'⟩)
    · exact ⟨_, execute_shows.mpr (.inl ⟨hresult, now, hnow, hcheck, rfl⟩)⟩
    · exact ⟨_, execute_shows.mpr (.inr ⟨now, s₁, outcome, env, now₁, now₂, hnow, hcheck, hfn,
        hnow₁, hnow₂, hresult, hs', rfl⟩)⟩

end Alone

/-! ## 4. A run

A breaker with its default options, that opens at the first failure, around a function that always
fails.  The clock moves on by ten seconds between two readings. -/

section Down

abbrev DownPool := Threads (fun _ : Unit => Unit) Unit Unit

def downConfig : Config := Config.new 1 []

def downFn (_ : Unit) (_ : Unit) (r : Outcome Unit Unit) (_ : Unit) : Prop :=
  r = .returned (.error ())

def downStep : Handler (Atomics (fun _ : Unit => Unit) Unit) (Shared Unit)
  | .loadState, s => some (s.state, s)
  | .compareAndSwapState old new, s =>
    if s.state = old then some (true, { s with state := new }) else some (false, s)
  | .addFailures, s => some (s.failures + 1, { s with failures := s.failures + 1 })
  | .storeFailures n, s => some ((), { s with failures := n })
  | .loadLastFailureTime, s => some (s.lastFailureTime, s)
  | .storeLastFailureTime t, s => some ((), { s with lastFailureTime := t })
  | .loadSuccessCount, s => some (s.successCount, s)
  | .addSuccessCount, s => some (s.successCount + 1, { s with successCount := s.successCount + 1 })
  | .storeSuccessCount n, s => some ((), { s with successCount := n })
  | .timeNow, s => some (s.clock + 10 * second, { s with clock := s.clock + 10 * second })
  | .onStateChange _ _, s => some ((), s)
  | .callFn _, s => some (.returned (.error ()), s)

theorem downStep_sound : downStep.Sound (sem downFn) := by
  intro op s r s' h
  cases op with
  | compareAndSwapState old new =>
    simp only [downStep] at h
    simp only [sem]
    split at h <;> cases h <;> simp_all
  | timeNow =>
    cases h
    exact ⟨Int.le_add_of_nonneg_right (by decide), rfl⟩
  | callFn f =>
    cases h
    exact ⟨s.clock, s.env, le_refl _, rfl, rfl⟩
  | loadState | addFailures | loadLastFailureTime | loadSuccessCount | addSuccessCount =>
    cases h
    exact ⟨rfl, rfl⟩
  | storeFailures n | storeLastFailureTime t | storeSuccessCount n | onStateChange old new =>
    cases h
    rfl

/-- A call of `Execute`. -/
def downCall (cfg : Config) : Prog (Atomics (fun _ : Unit => Unit) Unit) Unit := do
  let _ ← execute (fun _ : Unit => Unit) Unit cfg ()
  pure ()

/-- The first call fails and opens the breaker; the second finds the reset timeout passed and is
let through. -/
def downMoves : List (Pool.Move (Atomics (fun _ : Unit => Unit) Unit) Unit) :=
  [.join [downCall downConfig], .finish 0, .join [downCall downConfig]] ++
    List.replicate 6 (.step 1)

theorem calls_of_downMoves :
    ∀ new, .join new ∈ downMoves → Calls (fun _ => Unit) Unit downConfig new := by
  intro new hnew
  simp only [downMoves, List.mem_append, List.mem_cons, List.mem_replicate,
    Pool.Move.join.injEq, reduceCtorEq, List.not_mem_nil, and_false, or_false, false_or,
    or_self] at hnew
  subst hnew
  exact .execute ()

/-- The breaker with the second call under way. -/
def downPool : DownPool := Pool.after downStep downMoves ⟨.new 0 (), []⟩

end Down

/-! ## 5. The half-open state is left or open

A shut breaker is wrong, but only for a while. Each atomic is looked at for whether it can shut
the breaker: two can, the `Add` at the bound and the swap into the half-open state, and both are
followed by the call that reopens it. -/

section Wedge

variable {Fn : Type} {Out : Fn → Type} {ε τ : Type}

/-- Half-open, with the counter at its bound. -/
def Shut (cfg : Config) (s : Shared τ) : Prop :=
  s.state = .stateHalfOpen ∧ cfg.halfOpenRequests ≤ s.successCount

/-- The two calls that end it. -/
def Reopens : Op Fn → Prop
  | .storeSuccessCount n => n = 0
  | .compareAndSwapState old new => old = .stateHalfOpen ∧ new = .stateClosed
  | _ => False

/-- The calls that touch neither the state nor the counter. -/
def Op.isNeutral : Op Fn → Bool
  | .compareAndSwapState _ _ | .addSuccessCount | .storeSuccessCount _ => false
  | _ => true

variable {cfg : Config} {fn : (f : Fn) → τ → Outcome ε (Out f) → τ → Prop}

theorem sem_neutral {op : Op Fn} {s s' : Shared τ} {r : op.Res Out ε}
    (h : sem fn op s r s') (hop : op.isNeutral = true) :
    s'.state = s.state ∧ s'.successCount = s.successCount := by
  cases op with
  | compareAndSwapState old new => cases hop
  | addSuccessCount => cases hop
  | storeSuccessCount n => cases hop
  | callFn f =>
    obtain ⟨now, env', -, -, rfl⟩ := h
    exact ⟨rfl, rfl⟩
  | loadState | addFailures | loadLastFailureTime | loadSuccessCount | timeNow =>
    obtain ⟨-, rfl⟩ := h
    exact ⟨rfl, rfl⟩
  | storeFailures n | storeLastFailureTime t | onStateChange old new =>
    cases h
    exact ⟨rfl, rfl⟩

theorem not_reopens_of_isNeutral {op : Op Fn} (hop : op.isNeutral = true) : ¬ Reopens op := by
  intro hpays
  cases op <;> first | exact hpays | cases hop

/-- A neutral call shuts nothing. -/
theorem settles_neutral {α : Type} {op : Op Fn} {k : op.Res Out ε → Prog (Atomics Out ε) α}
    (hop : op.isNeutral = true) (hk : ∀ r, (k r).Settles (sem fn) (Shut cfg) Reopens) :
    (Prog.call (I := Atomics Out ε) op k).Settles (sem fn) (Shut cfg) Reopens := by
  refine ⟨?_, hk⟩
  intro s r s' h hshut
  obtain ⟨hstate, hcount⟩ := sem_neutral h hop
  refine .inl ⟨?_, not_reopens_of_isNeutral hop⟩
  unfold Shut at hshut ⊢
  rw [← hstate, ← hcount]
  exact hshut

/-- Resetting the counter shuts nothing. -/
theorem settles_storeSuccessCount {α : Type} {k : Unit → Prog (Atomics Out ε) α}
    (hk : ∀ r, (k r).Settles (sem fn) (Shut cfg) Reopens) :
    (Prog.call (I := Atomics Out ε) (.storeSuccessCount 0) k).Settles (sem fn) (Shut cfg)
      Reopens := by
  refine ⟨?_, hk⟩
  rintro s r s' rfl ⟨-, hcount⟩
  have hpos := cfg.halfOpenRequests_pos
  simp only at hcount
  omega

/-- A swap makes the breaker half-open only where the counter is reset next. -/
theorem settles_compareAndSwap {α : Type} {old new : State}
    {k : Bool → Prog (Atomics Out ε) α}
    (hnext : new = .stateHalfOpen → (k true).next = some (.storeSuccessCount 0))
    (hk : ∀ r, (k r).Settles (sem fn) (Shut cfg) Reopens) :
    (Prog.call (I := Atomics Out ε) (.compareAndSwapState old new) k).Settles (sem fn) (Shut cfg)
      Reopens := by
  refine ⟨?_, hk⟩
  intro s r s' h hshut
  simp only [sem] at h
  split at h
  · obtain ⟨rfl, rfl⟩ := h
    exact .inr ⟨_, hnext hshut.1, rfl⟩
  · rename_i hold
    obtain ⟨rfl, rfl⟩ := h
    refine .inl ⟨hshut, ?_⟩
    rintro ⟨rfl, -⟩
    exact hold hshut.1

theorem settles_transition (old new : State) :
    (transition Out ε old new).Settles (sem fn) (Shut cfg) Reopens := by
  have hdone : ∀ old' new', (Prog.perform (I := Atomics Out ε)
      (.onStateChange old' new')).Settles (sem fn) (Shut cfg) Reopens :=
    fun _ _ => settles_neutral rfl fun _ => trivial
  refine settles_compareAndSwap ?_ ?_
  · rintro rfl
    rfl
  · intro swapped
    cases swapped with
    | false => trivial
    | true =>
      cases new with
      | stateClosed =>
        exact settles_neutral rfl fun _ => settles_storeSuccessCount fun _ => hdone _ _
      | stateOpen => exact settles_storeSuccessCount fun _ => hdone _ _
      | stateHalfOpen => exact settles_storeSuccessCount fun _ => hdone _ _

theorem settles_canExecute : (canExecute Out ε cfg).Settles (sem fn) (Shut cfg) Reopens := by
  refine settles_neutral rfl ?_
  intro currentState
  cases currentState with
  | stateClosed => trivial
  | stateHalfOpen => exact settles_neutral rfl fun _ => trivial
  | stateOpen =>
    refine settles_neutral rfl fun now => settles_neutral rfl fun lastFailureTime => ?_
    simp only [Prog.ret_bind]
    split
    · exact (settles_transition _ _).bind fun _ => trivial
    · trivial

/-- The `Add` that brings the counter to its bound is followed by the swap that leaves the
half-open state. -/
theorem settles_addSuccessCount :
    (Prog.call (I := Atomics Out ε) .addSuccessCount fun successCount =>
      if cfg.halfOpenRequests ≤ successCount then transition Out ε .stateHalfOpen .stateClosed
      else pure ()).Settles (sem fn) (Shut cfg) Reopens := by
  constructor
  · rintro s r s' ⟨rfl, rfl⟩ ⟨-, hcount⟩
    refine .inr ⟨.compareAndSwapState .stateHalfOpen .stateClosed, ?_, rfl, rfl⟩
    beta_reduce
    rw [if_pos (show cfg.halfOpenRequests ≤ s.successCount + 1 from hcount)]
    rfl
  · intro successCount
    beta_reduce
    split
    · exact settles_transition _ _
    · trivial

theorem settles_recordResult (failed : Bool) :
    (recordResult Out ε cfg failed).Settles (sem fn) (Shut cfg) Reopens := by
  cases failed with
  | true =>
    refine settles_neutral rfl fun newFailures => settles_neutral rfl fun now => ?_
    refine settles_neutral rfl fun _ => settles_neutral rfl fun currentState => ?_
    simp only [Prog.ret_bind]
    split
    · exact settles_transition _ _
    · trivial
  | false =>
    refine settles_neutral rfl fun currentState => ?_
    simp only [Prog.ret_bind]
    split
    · exact settles_addSuccessCount
    · exact settles_neutral rfl fun _ => trivial

theorem settles_execute (f : Fn) :
    (execute Out ε cfg f).Settles (sem fn) (Shut cfg) Reopens := by
  refine settles_canExecute.bind fun admitted => ?_
  cases admitted with
  | false => trivial
  | true =>
    refine settles_neutral rfl fun outcome => ?_
    exact (settles_recordResult _).bind fun _ => trivial

theorem settles_of_starts {new : List (Prog (Atomics Out ε) Unit)} (h : Starts Out ε cfg new) :
    ∀ t ∈ new, t.Settles (sem fn) (Shut cfg) Reopens := by
  intro t ht
  rcases h with ⟨⟨f⟩⟩ | ⟨⟩ | ⟨failed⟩ <;> rw [List.mem_singleton] at ht <;> subst ht
  · exact (settles_execute f).bind fun _ => trivial
  · exact settles_canExecute.bind fun _ => trivial
  · exact settles_recordResult failed

/-- **A shut breaker is being reopened.** -/
theorem not_shut_of_quiet {p : Threads Out ε τ} {clock : Time} {env : τ}
    (h : Pool.Reaches (sem fn) (Starts Out ε cfg) ⟨.new clock env, []⟩ p) (hquiet : Quiet p) :
    ¬ Shut cfg p.state := by
  intro hshut
  have hsolvent : Pool.Solvent (sem fn) (Shut cfg) Reopens p := by
    refine Pool.Reaches.solvent (fun _ => settles_of_starts) h ⟨?_, ?_⟩
    · intro t ht
      cases ht
    · rintro ⟨hstate, -⟩
      cases hstate
  obtain ⟨t, ht, op, hnext, hpays⟩ := hsolvent.debtor hshut
  have houtside := hquiet t ht op hnext
  cases op <;> first | exact hpays | cases houtside

/-- What `canExecute` answers where the breaker is not shut and the reset timeout has passed. -/
theorem check_of_not_shut {s : Shared τ} {now : Time} (hopen : ¬ Shut cfg s)
    (hlate : int64 (s.lastFailureTime + cfg.resetTimeout) < now) : (s.check cfg now).1 = true := by
  cases hstate : s.state with
  | stateClosed => simp [Shared.check, hstate]
  | stateOpen => simp [Shared.check, hstate, hlate]
  | stateHalfOpen =>
    simp only [Shared.check, hstate, decide_eq_true_eq]
    by_contra hcount
    exact hopen ⟨hstate, not_lt.mp hcount⟩

/-- **The breaker never wedges.**  Where no thread is inside a method, the half-open state lets
requests through, and once the reset timeout has passed the next request is admitted. -/
theorem not_wedged (cfg : Config) (fn : (f : Fn) → τ → Outcome ε (Out f) → τ → Prop)
    {p : Threads Out ε τ} {clock : Time} {env : τ}
    (h : Pool.Reaches (sem fn) (Starts Out ε cfg) ⟨.new clock env, []⟩ p) (hquiet : Quiet p) :
    (p.state.state = .stateHalfOpen → p.state.successCount < cfg.halfOpenRequests) ∧
    ∀ now, p.state.clock ≤ now → int64 (p.state.lastFailureTime + cfg.resetTimeout) < now →
      (∃ admitted s', (canExecute Out ε cfg).Runs (sem fn) { p.state with clock := now }
        admitted s') ∧
      ∀ admitted s', (canExecute Out ε cfg).Runs (sem fn) { p.state with clock := now }
        admitted s' → admitted = true := by
  have hopen : ¬ Shut cfg p.state := not_shut_of_quiet h hquiet
  constructor
  · intro hstate
    by_contra hcount
    exact hopen ⟨hstate, not_lt.mp hcount⟩
  · intro now _ hlate
    refine ⟨⟨_, _, canExecute_runs.mpr ⟨now, le_refl now, rfl⟩⟩, ?_⟩
    intro admitted s' hrun
    obtain ⟨now', hnow', hcheck⟩ := canExecute_runs.mp hrun
    have htrue := check_of_not_shut (s := { p.state with clock := now }) hopen
      (lt_of_lt_of_le hlate hnow')
    rw [hcheck] at htrue
    exact htrue

theorem quiet_of_all {p : Threads Out ε τ}
    (h : (p.threads.all fun t => t.next.all Op.isOutside) = true) : Quiet p := by
  intro t ht op hnext
  have hall := List.all_eq_true.mp h t ht
  rw [hnext] at hall
  exact hall

end Wedge

/-- The second call is running its function in the half-open state. -/
theorem not_wedged_down :
    downPool.state.state = .stateHalfOpen ∧
    (downPool.state.state = .stateHalfOpen →
      downPool.state.successCount < downConfig.halfOpenRequests) :=
  ⟨by decide, (not_wedged downConfig downFn
    (Pool.after_reaches downStep_sound (fun new hnew => .calls (calls_of_downMoves new hnew))
      ⟨.new 0 (), []⟩) (quiet_of_all (by decide))).1⟩

/-! ## 6. How many requests the half-open state lets through

A call is admitted by one atomic of `canExecute`: by the load that finds the breaker closed, by the
load of a success count below the bound, or, where it finds the breaker open and the timeout over,
by its `CompareAndSwap`, whichever way that goes.  The record says which threads have been admitted
and are not over, and which of them since the breaker last became half-open. -/

section Probes

variable {Fn : Type} {Out : Fn → Type} {ε τ : Type} {cfg : Config}
  {fn : (f : Fn) → τ → Outcome ε (Out f) → τ → Prop}

/-- The atomic lets a call of `canExecute` through. -/
def admits (cfg : Config) : (op : Op Fn) → op.Res Out ε → Bool
  | .loadState, state => state = .stateClosed
  | .compareAndSwapState old new, _ => old = .stateOpen && new = .stateHalfOpen
  | .loadSuccessCount, successCount => successCount < cfg.halfOpenRequests
  | .addFailures, _ | .storeFailures _, _ | .loadLastFailureTime, _ | .storeLastFailureTime _, _
  | .addSuccessCount, _ | .storeSuccessCount _, _ | .timeNow, _ | .onStateChange _ _, _
  | .callFn _, _ => false

/-- Any answer at any time: what other threads may have done in between. -/
def anything : Sem (Atomics Out ε) Unit := fun _ _ _ _ => True

def seeAdmission (cfg : Config) (op : Op Fn) (r : op.Res Out ε) : List Unit :=
  if admits cfg op r then [()] else []

/-- **`canExecute` is decided by one atomic.**  Whatever the atomics answer, so in any interleaving,
it returns true exactly if one of its calls admits, and there is never a second. -/
theorem canExecute_admits {admitted : Bool} {seen : List Unit}
    (h : (canExecute Out ε cfg).Shows anything (seeAdmission cfg) () admitted () seen) :
    seen = if admitted then [()] else [] := by
  obtain ⟨state, _, rest, -, rfl, h⟩ := h
  cases state with
  | stateClosed =>
    obtain ⟨rfl, -, rfl⟩ := h
    rfl
  | stateHalfOpen =>
    obtain ⟨successCount, _, rest, -, rfl, rfl, -, rfl⟩ := h
    simp [seeAdmission, admits]
  | stateOpen =>
    obtain ⟨now, _, rest, -, rfl, lastFailureTime, _, rest, -, rfl, h⟩ := h
    simp only [Prog.ret_bind] at h
    split at h
    · obtain ⟨swapped, _, rest, -, rfl, h⟩ := h
      cases swapped with
      | false =>
        obtain ⟨rfl, -, rfl⟩ := h
        rfl
      | true =>
        obtain ⟨_, _, rest, -, rfl, _, _, rest, -, rfl, rfl, -, rfl⟩ := h
        rfl
    · obtain ⟨rfl, -, rfl⟩ := h
      rfl

/-- The threads that have been admitted and are not over, and those of them that have been admitted
since the breaker last became half-open. -/
structure Admissions where
  running : List Nat
  probes : List Nat
  deriving DecidableEq

/-- The atomic makes the breaker half-open. -/
def enters : (op : Op Fn) → op.Res Out ε → Bool
  | .compareAndSwapState _ new, swapped => swapped && new = .stateHalfOpen
  | .loadState, _ | .addFailures, _ | .storeFailures _, _ | .loadLastFailureTime, _
  | .storeLastFailureTime _, _ | .loadSuccessCount, _ | .addSuccessCount, _
  | .storeSuccessCount _, _ | .timeNow, _ | .onStateChange _ _, _ | .callFn _, _ => false

/-- The call is an admission: a thread that has been admitted is past `canExecute`. -/
def Admissions.admits (cfg : Config) (g : Admissions) (i : Nat) (op : Op Fn)
    (r : op.Res Out ε) : Bool :=
  i ∉ g.running && CircuitBreaker.admits cfg op r

/-- What is noted after each atomic. -/
def Admissions.note (cfg : Config) : (Atomics Out ε).Note Admissions := fun i op r ended g =>
  let probes := if enters op r then [] else g.probes
  if ended then ⟨g.running.erase i, probes.erase i⟩
  else if g.admits cfg i op r then ⟨i :: g.running, i :: probes⟩
  else ⟨g.running, probes⟩

/-- A call is admitted in the half-open state only where fewer than `halfOpenRequests` of those
admitted before it, at whatever time, are not over. -/
def FewCallers (cfg : Config) (i : Nat) (op : Op Fn) (r : op.Res Out ε) (s : Shared τ)
    (g : Admissions) : Prop :=
  g.admits cfg i op r = true → s.state = .stateHalfOpen →
    (g.running.length : Int) < cfg.halfOpenRequests

/-- The probes are running, and while the breaker is half-open they are few. -/
structure Bounded (cfg : Config) (s : Shared τ) (g : Admissions) : Prop where
  running : g.probes.Subperm g.running
  few : s.state = .stateHalfOpen → (g.probes.length : Int) ≤ cfg.halfOpenRequests

/-- Only a `CompareAndSwap` makes the breaker half-open. -/
theorem halfOpen_of_not_enters {op : Op Fn} {s s' : Shared τ} {r : op.Res Out ε}
    (hop : sem fn op s r s') (hstays : enters op r = false) (hstate : s'.state = .stateHalfOpen) :
    s.state = .stateHalfOpen := by
  cases op with
  | compareAndSwapState old new =>
    simp only [CircuitBreaker.sem] at hop
    split at hop
    · obtain ⟨rfl, rfl⟩ := hop
      simp only at hstate
      simp [enters, hstate] at hstays
    · obtain ⟨-, rfl⟩ := hop
      exact hstate
  | callFn f =>
    obtain ⟨now, env', -, -, rfl⟩ := hop
    exact hstate
  | loadState | addFailures | loadLastFailureTime | loadSuccessCount | addSuccessCount | timeNow =>
    obtain ⟨-, rfl⟩ := hop
    exact hstate
  | storeFailures n | storeLastFailureTime t | storeSuccessCount n | onStateChange old new =>
    cases hop
    exact hstate

theorem Bounded.note {op : Op Fn} {s s' : Shared τ} {r : op.Res Out ε} {g : Admissions} {i : Nat}
    {ended : Bool} (h : Bounded cfg s g) (hop : sem fn op s r s')
    (hfew : FewCallers cfg i op r s g) : Bounded cfg s' (g.note cfg i op r ended) := by
  have hpos := cfg.halfOpenRequests_pos
  -- the probes that are left once the breaker may have become half-open
  let kept : Admissions := ⟨g.running, if enters op r then [] else g.probes⟩
  have hkept : Bounded cfg s' kept := by
    refine ⟨?_, fun hstate => ?_⟩
    · show (if enters op r then [] else g.probes).Subperm g.running
      split
      · exact List.nil_subperm
      · exact h.running
    · show (((if enters op r then [] else g.probes).length : Nat) : Int) ≤ _
      split
      · simpa using hpos.le
      · exact h.few (halfOpen_of_not_enters hop (Bool.eq_false_of_not_eq_true ‹_›) hstate)
  unfold Admissions.note
  dsimp only
  split
  · refine ⟨hkept.running.erase i, fun hstate => ?_⟩
    have hle : (kept.probes.erase i).length ≤ kept.probes.length := List.length_erase_le
    have hbound := hkept.few hstate
    show ((kept.probes.erase i).length : Int) ≤ _
    omega
  split
  · rename_i hadmits
    refine ⟨(List.subperm_cons i).mpr hkept.running, fun hstate => ?_⟩
    show ((i :: (if enters op r then [] else g.probes)).length : Int) ≤ _
    split
    · simpa using Int.add_one_le_iff.mpr hpos
    · rename_i hstays
      have hbefore := halfOpen_of_not_enters hop (Bool.eq_false_of_not_eq_true hstays) hstate
      have hroom : (g.running.length : Int) < cfg.halfOpenRequests := hfew hadmits hbefore
      have hle : g.probes.length ≤ g.running.length := h.running.length_le
      simp only [List.length_cons]
      omega
  · exact hkept

/-- **Few callers, few probes.**  `canExecute` returns true exactly if one of its atomics admits, so
that the record counts the calls it lets through.  While the breaker is half-open, at most
`halfOpenRequests` of those let through since it became so are not over, in every run in which a
call is let through in that state only where fewer than that are not over at all. -/
theorem probes_bounded (cfg : Config) (fn : (f : Fn) → τ → Outcome ε (Out f) → τ → Prop) :
    (∀ admitted seen, (canExecute Out ε cfg).Shows anything (seeAdmission cfg) () admitted () seen →
      seen = if admitted then [()] else []) ∧
    ∀ {p : Threads Out ε τ} {g : Admissions} {clock : Time} {env : τ},
      Pool.NotedReaches (sem fn) (Calls Out ε cfg) (Admissions.note cfg) (FewCallers cfg)
        (⟨.new clock env, []⟩, ⟨[], []⟩) (p, g) →
      p.state.state = .stateHalfOpen → (g.probes.length : Int) ≤ cfg.halfOpenRequests := by
  refine ⟨fun admitted seen => canExecute_admits, fun {p g clock env} hrun => ?_⟩
  have hnew : Bounded cfg (Shared.new clock env) ⟨[], []⟩ := ⟨List.nil_subperm, by rintro ⟨⟩⟩
  suffices h : ∀ {q}, Pool.NotedReaches (sem fn) (Calls Out ε cfg) (Admissions.note cfg)
      (FewCallers cfg) (⟨.new clock env, []⟩, ⟨[], []⟩) q → Bounded cfg q.1.state q.2 from
    (h hrun).few
  intro q hq
  induction hq with
  | refl => exact hnew
  | tail _ hstep ih =>
    cases hstep with
    | spawn hcall => exact ih
    | call hi hop hcond => exact ih.note hop hcond

end Probes

section Crowd

/-- A breaker that lets two requests through. -/
def twoConfig : Config := Config.new 1 [.withHalfOpenRequests 2]

/-- Three calls of `Execute` that have made no step yet. -/
def threeCalls (cfg : Config) : DownPool × Admissions :=
  (⟨.new 0 (), [downCall cfg, downCall cfg, downCall cfg]⟩, ⟨[], []⟩)

theorem threeCalls_reached (cfg : Config)
    {cond : Nat → (op : Op Unit) → op.Res (fun _ => Unit) Unit → Shared Unit → Admissions → Prop} :
    Pool.NotedReaches (sem downFn) (Calls (fun _ => Unit) Unit cfg) (Admissions.note cfg) cond
      (⟨.new 0 (), []⟩, ⟨[], []⟩) (threeCalls cfg) :=
  .tail (.tail (.single (.spawn (.execute ()))) (.spawn (.execute ()))) (.spawn (.execute ()))

/-- The first call fails and opens the breaker, the second makes it half-open, and the third is let
through before the second has its answer. -/
def crowdTurns : List Nat := List.replicate 9 0 ++ List.replicate 6 1 ++ List.replicate 2 2

/-- The condition, as a test. -/
def fewCallers (cfg : Config) (i : Nat) (op : Op Unit) (r : op.Res (fun _ => Unit) Unit)
    (s : Shared Unit) (g : Admissions) : Bool :=
  !(g.admits cfg i op r && s.state = .stateHalfOpen) ||
    decide ((g.running.length : Int) < cfg.halfOpenRequests)

theorem fewCallers_iff {cfg : Config} {i : Nat} {op : Op Unit} {r : op.Res (fun _ => Unit) Unit}
    {s : Shared Unit} {g : Admissions} :
    fewCallers cfg i op r s g = true ↔ FewCallers cfg i op r s g := by
  simp only [fewCallers, FewCallers, Bool.or_eq_true, Bool.not_eq_true', Bool.and_eq_false_iff,
    decide_eq_true_eq, decide_eq_false_iff_not]
  cases g.admits cfg i op r <;> simp [imp_iff_not_or]

/-- Where two may pass, both the second call and the third are under way. -/
theorem probes_bounded_two : ∃ (p : DownPool) (g : Admissions),
    Pool.NotedReaches (sem downFn) (Calls (fun _ => Unit) Unit twoConfig)
      (Admissions.note twoConfig) (FewCallers twoConfig) (⟨.new 0 (), []⟩, ⟨[], []⟩) (p, g) ∧
    p.state.state = .stateHalfOpen ∧ g.probes = [2, 1] ∧
    (g.probes.length : Int) ≤ twoConfig.halfOpenRequests := by
  have hsome : ((Pool.playNoted downStep (Admissions.note twoConfig) (fewCallers twoConfig)
      crowdTurns (threeCalls twoConfig)).map fun q => (q.1.state.state, q.2.probes)) =
      some (.stateHalfOpen, [2, 1]) := by decide +kernel
  obtain ⟨⟨p, g⟩, hplay, hq⟩ := Option.map_eq_some_iff.mp hsome
  obtain ⟨hstate, hprobes⟩ := Prod.mk.inj hq
  have hrun := (threeCalls_reached twoConfig).trans
    (Pool.playNoted_reaches downStep_sound (fun _ _ _ _ _ => fewCallers_iff.mp) hplay)
  exact ⟨p, g, hrun, hstate, hprobes, (probes_bounded twoConfig downFn).2 hrun hstate⟩

/-- **Nobody is turned away** before the first success: with `halfOpenRequests = 1`, two calls let
through in the half-open state are under way. -/
theorem probes_unbounded : ∃ (p : DownPool) (g : Admissions),
    Pool.NotedReaches (sem downFn) (Calls (fun _ => Unit) Unit downConfig)
      (Admissions.note downConfig) (fun _ _ _ _ _ => True) (⟨.new 0 (), []⟩, ⟨[], []⟩) (p, g) ∧
    Pool.Reaches (sem downFn) (Calls (fun _ => Unit) Unit downConfig) ⟨.new 0 (), []⟩ p ∧
    p.state.state = .stateHalfOpen ∧ downConfig.halfOpenRequests < g.probes.length := by
  have hsome : ((Pool.playNoted downStep (Admissions.note downConfig) (fun _ _ _ _ _ => true)
      crowdTurns (threeCalls downConfig)).map fun q => (q.1.state.state, q.2.probes)) =
      some (.stateHalfOpen, [2, 1]) := by decide +kernel
  obtain ⟨⟨p, g⟩, hplay, hq⟩ := Option.map_eq_some_iff.mp hsome
  obtain ⟨hstate, hprobes⟩ := Prod.mk.inj hq
  have hrun : Pool.NotedReaches (sem downFn) (Calls (fun _ => Unit) Unit downConfig)
      (Admissions.note downConfig) (fun _ _ _ _ _ => True) (⟨.new 0 (), []⟩, ⟨[], []⟩) (p, g) :=
    (threeCalls_reached downConfig).trans
      (Pool.playNoted_reaches downStep_sound (fun _ _ _ _ _ _ => trivial) hplay)
  refine ⟨p, g, hrun, hrun.forget, hstate, ?_⟩
  rw [show g.probes = [2, 1] from hprobes]
  decide

end Crowd

end CircuitBreaker

end Polykey
