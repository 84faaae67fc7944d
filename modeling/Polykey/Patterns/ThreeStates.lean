/-
# The circuit breaker, one call at a time

`Patterns/CircuitBreaker` lets any number of threads use a breaker.  Here the calls of `Execute` are
made one after the other, each over before the next begins, and the breaker is compared with what
it is meant to be: the machine of §1, which has three states and one number in each.

The numbers are what makes the comparison more than reading the code back.  The breaker keeps all
of its counters in all of its states, and most of them mean nothing most of the time: `failures`
goes on counting while the breaker is half-open and is not reset when it opens, `lastFailureTime`
is written by failures that open nothing, and `successCount` is reset twice on the way from one
half-open period to the next.  `Agrees` says which counter means something in which state; that is
enough to carry the comparison along, because whatever enters a state sets the counter it needs.
The counters are unbounded here: one that means something is below a bound, which is an `int64`.

Nothing is assumed about the functions or about when they answer.  What is compared is everything
that can be watched of a call (`Seen`): the readings of the clock, whether the function was called
and what came of it, the changes of state and the result.  `breaker_lockstep` says that the
histories of the breaker are exactly the machine's.  Histories list the newest call FIRST.
-/
import Polykey.Patterns.CircuitBreaker

namespace Polykey

open Lib

namespace CircuitBreaker

/-! ## 1. The machine -/

inductive Machine
  /-- the calls that have failed one after the other -/
  | closed (failures : Nat)
  /-- when the last failure was recorded -/
  | opened (since : Time)
  /-- the calls that have succeeded one after the other -/
  | halfOpen (successes : Nat)
  deriving DecidableEq, Repr

namespace Machine

variable {Fn : Type} {Out : Fn → Type} {ε : Type}

/-- A call arrives.  It goes ahead in the machine that is returned, if there is one. -/
def check (Out : Fn → Type) (ε : Type) (cfg : Config) (now : Time) :
    Machine → List (Seen Out ε) × Option Machine
  | closed n => ([], some (closed n))
  | opened since =>
    if since + cfg.resetTimeout < now then
      ([.time now, .changed .stateOpen .stateHalfOpen], some (halfOpen 0))
    else ([.time now], none)
  | halfOpen k => ([], some (halfOpen k))

/-- A call is over. -/
def record (Out : Fn → Type) (ε : Type) (cfg : Config) (failed : Bool) (now : Time) :
    Machine → List (Seen Out ε) × Machine
  | closed n =>
    if failed then
      if (n : Int) + 1 = cfg.maxFailures then
        ([.time now, .changed .stateClosed .stateOpen], opened now)
      else ([.time now], closed (n + 1))
    else ([], closed 0)
  | halfOpen k =>
    if failed then ([.time now, .changed .stateHalfOpen .stateOpen], opened now)
    else if (k : Int) + 1 = cfg.halfOpenRequests then
      ([.changed .stateHalfOpen .stateClosed], closed 0)
    else ([], halfOpen (k + 1))
  -- no call goes ahead in an open machine
  | opened since => ([], opened since)

end Machine

/-- A call of `Execute` as it went. -/
structure Attempt {Fn : Type} (Out : Fn → Type) (ε : Type) where
  fn : Fn
  seen : List (Seen Out ε)
  result : Except (Fault ε) (Out fn)

section Histories

variable {Fn : Type} {Out : Fn → Type} {ε τ : Type}

/-- One call of the machine. -/
inductive Machine.Step (cfg : Config) (m : Machine) : Attempt Out ε → Machine → Prop
  | rejected {f : Fn} {now : Time} {seen : List (Seen Out ε)}
    (hcheck : m.check Out ε cfg now = (seen, none)) : Step cfg m ⟨f, seen, .error .errOpen⟩ m
  | served {f : Fn} {now now' : Time} {seen seen' : List (Seen Out ε)} {m₁ m' : Machine}
    {outcome : Outcome ε (Out f)} (hcheck : m.check Out ε cfg now = (seen, some m₁))
    (hrecord : m₁.record Out ε cfg (!outcome.result.isOk) now' = (seen', m')) :
    Step cfg m ⟨f, seen ++ .called f outcome :: seen', outcome.result⟩ m'

/-- The histories of the machine. -/
inductive Machine.Runs (cfg : Config) : List (Attempt Out ε) → Machine → Prop
  | start : Runs cfg [] (closed 0)
  | call {history : List (Attempt Out ε)} {a : Attempt Out ε} {m m' : Machine}
    (h : Runs cfg history m) (hstep : m.Step cfg a m') : Runs cfg (a :: history) m'

/-- The histories of the breaker.  Between two calls time passes, and what the functions work on
is everybody's. -/
inductive OneByOne (cfg : Config) (fn : (f : Fn) → τ → Outcome ε (Out f) → τ → Prop)
    (s₀ : Shared τ) : List (Attempt Out ε) → Shared τ → Prop
  | start : OneByOne cfg fn s₀ [] s₀
  | call {history : List (Attempt Out ε)} {s s' : Shared τ} {arrived : Time} {env : τ}
    {f : Fn} {result : Except (Fault ε) (Out f)} {seen : List (Seen Out ε)}
    (h : OneByOne cfg fn s₀ history s) (harrived : s.clock ≤ arrived)
    (hrun : (execute Out ε cfg f).Shows (sem fn) see { s with clock := arrived, env } result
      s' seen) : OneByOne cfg fn s₀ (⟨f, seen, result⟩ :: history) s'

/-! ### What a history says about itself -/

def Seen.time? : Seen Out ε → Option Time
  | .time t => some t
  | _ => none

def Seen.isCalled : Seen Out ε → Bool
  | .called _ _ => true
  | _ => false

def Seen.isClosing : Seen Out ε → Bool
  | .changed _ .stateClosed => true
  | _ => false

/-- The readings of the clock. -/
def readings (seen : List (Seen Out ε)) : List Time := seen.filterMap Seen.time?

/-- The readings after the function was called: it takes one to record a failure. -/
def Attempt.recorded (a : Attempt Out ε) : List Time :=
  readings (a.seen.dropWhile (!·.isCalled))

def Attempt.failed (a : Attempt Out ε) : Bool := a.seen.any Seen.isCalled && !a.result.isOk

/-- The call succeeded, or the breaker closed. -/
def Attempt.resets (a : Attempt Out ε) : Bool := a.result.isOk || a.seen.any Seen.isClosing

/-- The failures since the last success or closing. -/
def failuresSince (history : List (Attempt Out ε)) : Nat :=
  (history.takeWhile (!·.resets)).countP (·.failed)

/-- All the readings of the clock in the order they were made, after the one at the beginning. -/
def instants (t₀ : Time) : List (Attempt Out ε) → List Time
  | [] => [t₀]
  | a :: history => instants t₀ history ++ readings a.seen

def Timely (t₀ : Time) (history : List (Attempt Out ε)) : Prop :=
  (instants t₀ history).Pairwise (· ≤ ·)

/-- The functions may do what they did. -/
def Possible (fn : (f : Fn) → τ → Outcome ε (Out f) → τ → Prop) (history : List (Attempt Out ε)) :
    Prop :=
  ∀ a ∈ history, ∀ f outcome, Seen.called f outcome ∈ a.seen → ∃ env env', fn f env outcome env'

/-- The number is an `int64`. -/
def IsInt64 (n : Int) : Prop := -2 ^ 63 ≤ n ∧ n < 2 ^ 63

theorem IsInt64.int64_eq {n : Int} (h : IsInt64 n) : int64 n = n := by
  obtain ⟨hlow, hhigh⟩ := h
  exact Int.bmod_eq_of_le_mul_two (by omega) (by omega)

/-- The end of the reset timeout, after a failure at `t`, can be represented. -/
def Fits (cfg : Config) (t : Time) : Prop := IsInt64 (t + cfg.resetTimeout)

/-! ## 2. Which counter means what

`Agrees` is the simulation relation, one case per state. A counter that means nothing in a state
does not occur in its case. -/

/-- **The breaker and the machine agree.** -/
def Agrees (cfg : Config) (s : Shared τ) : Machine → Prop
  | .closed n => s.state = .stateClosed ∧ s.failures = n ∧ (n : Int) < cfg.maxFailures
  | .opened since => s.state = .stateOpen ∧ s.lastFailureTime = since ∧ Fits cfg since
  | .halfOpen k => s.state = .stateHalfOpen ∧ s.successCount = k ∧ (k : Int) < cfg.halfOpenRequests

variable {cfg : Config} {fn : (f : Fn) → τ → Outcome ε (Out f) → τ → Prop} {s s' s₀ : Shared τ}
  {m m' : Machine} {now : Time}

/-- The clock and what the functions work on have no part in it. -/
theorem Agrees.frame (h : Agrees cfg s m) (hstate : s'.state = s.state)
    (hfailures : s'.failures = s.failures) (hlast : s'.lastFailureTime = s.lastFailureTime)
    (hcount : s'.successCount = s.successCount) : Agrees cfg s' m := by
  cases m with
  | closed n => exact ⟨hstate.trans h.1, hfailures.trans h.2.1, h.2.2⟩
  | opened since => exact ⟨hstate.trans h.1, hlast.trans h.2.1, h.2.2⟩
  | halfOpen k => exact ⟨hstate.trans h.1, hcount.trans h.2.1, h.2.2⟩

theorem Agrees.rejected (Out : Fn → Type) (ε : Type) (h : Agrees cfg s m)
    (hcheck : s.check cfg now = (false, s')) :
    m.check Out ε cfg now = (s.checkSeen Out ε cfg now, none) ∧ Agrees cfg s' m := by
  cases m with
  | closed n =>
    simp only [Shared.check, h.1] at hcheck
    cases (Prod.mk.inj hcheck).1
  | opened since =>
    simp only [Shared.check, h.1, h.2.1, IsInt64.int64_eq h.2.2] at hcheck
    split_ifs at hcheck with hlate
    · cases (Prod.mk.inj hcheck).1
    · obtain ⟨-, rfl⟩ := Prod.mk.inj hcheck
      refine ⟨?_, rfl, rfl, h.2.2⟩
      simp only [Machine.check, Shared.checkSeen, h.1, h.2.1, IsInt64.int64_eq h.2.2, if_neg hlate]
  | halfOpen k =>
    simp only [Shared.check, h.1, h.2.1, h.2.2, decide_true] at hcheck
    cases (Prod.mk.inj hcheck).1

theorem Agrees.admitted (Out : Fn → Type) (ε : Type) (h : Agrees cfg s m)
    (hcheck : s.check cfg now = (true, s')) :
    ∃ m', m.check Out ε cfg now = (s.checkSeen Out ε cfg now, some m') ∧ Agrees cfg s' m' ∧
      s'.state ≠ .stateOpen := by
  cases m with
  | closed n =>
    simp only [Shared.check, h.1] at hcheck
    obtain ⟨-, rfl⟩ := Prod.mk.inj hcheck
    refine ⟨.closed n, ?_, h, by simp [h.1]⟩
    simp only [Machine.check, Shared.checkSeen, h.1]
  | opened since =>
    simp only [Shared.check, h.1, h.2.1, IsInt64.int64_eq h.2.2] at hcheck
    split_ifs at hcheck with hlate
    · obtain ⟨-, rfl⟩ := Prod.mk.inj hcheck
      refine ⟨.halfOpen 0, ?_, ⟨rfl, rfl, cfg.halfOpenRequests_pos⟩, by simp [Shared.enter]⟩
      simp only [Machine.check, Shared.checkSeen, h.1, h.2.1, IsInt64.int64_eq h.2.2, if_pos hlate]
    · cases (Prod.mk.inj hcheck).1
  | halfOpen k =>
    simp only [Shared.check, h.1] at hcheck
    obtain ⟨-, rfl⟩ := Prod.mk.inj hcheck
    refine ⟨.halfOpen k, ?_, h, by simp [h.1]⟩
    simp only [Machine.check, Shared.checkSeen, h.1]

theorem Agrees.record (Out : Fn → Type) (ε : Type) (h : Agrees cfg s m)
    (hmax : 1 ≤ cfg.maxFailures) (hstate : s.state ≠ .stateOpen) (failed : Bool) (now : Time) :
    (m.record Out ε cfg failed now).1 = s.recordSeen Out ε cfg failed now ∧
      ((failed = true → Fits cfg now) →
        Agrees cfg (s.record cfg failed now) (m.record Out ε cfg failed now).2) := by
  cases m with
  | closed n =>
    obtain ⟨hclosed, hfailures, hlt⟩ := h
    cases failed with
    | true =>
      by_cases hreached : (n : Int) + 1 = cfg.maxFailures
      · simp only [Machine.record, Shared.recordSeen, Shared.record, hclosed, hfailures, hreached,
          if_true, and_self, or_true, le_refl]
        exact ⟨trivial, fun hfits => ⟨rfl, rfl, hfits trivial⟩⟩
      · have hbelow : ¬ cfg.maxFailures ≤ (n : Int) + 1 := by omega
        simp only [Machine.record, Shared.recordSeen, Shared.record, hclosed, hfailures, hreached,
          hbelow, if_true, if_false, and_false, or_false, reduceCtorEq]
        exact ⟨trivial, fun _ => ⟨rfl, by push_cast; rfl, by push_cast; omega⟩⟩
    | false =>
      simp only [Machine.record, Shared.recordSeen, Shared.record, hclosed, Bool.false_eq_true,
        if_false, false_and, reduceCtorEq]
      exact ⟨trivial, fun _ => ⟨rfl, rfl, by push_cast; omega⟩⟩
  | opened since => exact absurd h.1 hstate
  | halfOpen k =>
    obtain ⟨hhalf, hcount, hlt⟩ := h
    cases failed with
    | true =>
      simp only [Machine.record, Shared.recordSeen, Shared.record, hhalf, if_true, true_or]
      exact ⟨trivial, fun hfits => ⟨rfl, rfl, hfits trivial⟩⟩
    | false =>
      by_cases hreached : (k : Int) + 1 = cfg.halfOpenRequests
      · simp only [Machine.record, Shared.recordSeen, Shared.record, hhalf, hcount, hreached,
          Bool.false_eq_true, if_true, if_false, and_self, le_refl]
        exact ⟨trivial, fun _ => ⟨rfl, rfl, by push_cast; omega⟩⟩
      · have hbelow : ¬ cfg.halfOpenRequests ≤ (k : Int) + 1 := by omega
        simp only [Machine.record, Shared.recordSeen, Shared.record, hhalf, hcount, hreached,
          hbelow, Bool.false_eq_true, if_true, if_false, and_false]
        exact ⟨trivial, fun _ => ⟨rfl, by push_cast; rfl, by push_cast; omega⟩⟩

/-! ## 3. What is read of the clock

The clock is read at most once in a check and once when a failure is recorded, and in between the
function takes whatever time it takes. These lemmas say in which order the readings of a call are
made. -/

/-- Readings made one after the other while the clock went from `t` to `t'`. -/
structure Between (t t' : Time) (l : List Time) : Prop where
  le : t ≤ t'
  sorted : l.Pairwise (· ≤ ·)
  bounds : ∀ x ∈ l, t ≤ x ∧ x ≤ t'

theorem Between.nil {t t' : Time} (h : t ≤ t') : Between t t' [] := ⟨h, .nil, by simp⟩

theorem Between.single {t t' : Time} (h : t ≤ t') : Between t t' [t'] := by
  refine ⟨h, List.pairwise_singleton _ _, ?_⟩
  intro x hx
  rw [List.mem_singleton.mp hx]
  exact ⟨h, le_refl _⟩

theorem Between.append {t t₁ t' : Time} {l l' : List Time} (h : Between t t₁ l)
    (h' : Between t₁ t' l') : Between t t' (l ++ l') := by
  refine ⟨le_trans h.le h'.le, List.pairwise_append.mpr ⟨h.sorted, h'.sorted, ?_⟩, ?_⟩
  · intro x hx y hy
    exact le_trans (h.bounds x hx).2 (h'.bounds y hy).1
  · intro x hx
    rcases List.mem_append.mp hx with hx | hx
    · exact ⟨(h.bounds x hx).1, le_trans (h.bounds x hx).2 h'.le⟩
    · exact ⟨le_trans h.le (h'.bounds x hx).1, (h'.bounds x hx).2⟩

theorem check_clock (Out : Fn → Type) (ε : Type) {admitted : Bool}
    (hcheck : s.check cfg now = (admitted, s')) :
    (readings (s.checkSeen Out ε cfg now) = [] ∧ s'.clock = s.clock ∨
      readings (s.checkSeen Out ε cfg now) = [now] ∧ s'.clock = now) ∧ s'.env = s.env := by
  cases hstate : s.state with
  | stateClosed | stateHalfOpen =>
    simp only [Shared.check, Shared.checkSeen, hstate] at hcheck ⊢
    obtain ⟨-, rfl⟩ := Prod.mk.inj hcheck
    exact ⟨.inl ⟨rfl, rfl⟩, rfl⟩
  | stateOpen =>
    simp only [Shared.check, Shared.checkSeen, hstate] at hcheck ⊢
    split_ifs at hcheck ⊢ with hlate
    · obtain ⟨-, rfl⟩ := Prod.mk.inj hcheck
      exact ⟨.inr ⟨rfl, rfl⟩, rfl⟩
    · obtain ⟨-, rfl⟩ := Prod.mk.inj hcheck
      exact ⟨.inr ⟨rfl, rfl⟩, rfl⟩

theorem record_clock (Out : Fn → Type) (ε : Type) (cfg : Config) (s : Shared τ) (failed : Bool)
    (now : Time) :
    readings (s.recordSeen Out ε cfg failed now) = (if failed then [now] else []) ∧
      (s.record cfg failed now).clock = if failed then now else s.clock := by
  cases failed with
  | true =>
    simp only [Shared.recordSeen, Shared.record, if_true]
    split <;> exact ⟨rfl, rfl⟩
  | false =>
    simp only [Shared.recordSeen, Shared.record, Bool.false_eq_true, if_false]
    constructor
    · split <;> rfl
    · split
      · split <;> rfl
      · rfl

theorem check_between (Out : Fn → Type) (ε : Type) {admitted : Bool}
    (hcheck : s.check cfg now = (admitted, s')) (hnow : s.clock ≤ now) :
    Between s.clock s'.clock (readings (s.checkSeen Out ε cfg now)) := by
  rcases (check_clock Out ε hcheck).1 with ⟨hread, hclock⟩ | ⟨hread, hclock⟩
  · rw [hread, hclock]
    exact .nil (le_refl _)
  · rw [hread, hclock]
    exact .single hnow

theorem record_between (Out : Fn → Type) (ε : Type) (cfg : Config) (s : Shared τ) (failed : Bool)
    (hnow : s.clock ≤ now) : Between s.clock (s.record cfg failed now).clock
      (readings (s.recordSeen Out ε cfg failed now)) := by
  obtain ⟨hread, hclock⟩ := record_clock Out ε cfg s failed now
  rw [hread, hclock]
  cases failed with
  | true => exact .single hnow
  | false => exact .nil (le_refl _)

theorem checkSeen_not_called : ∀ e ∈ s.checkSeen Out ε cfg now, e.isCalled = false := by
  unfold Shared.checkSeen
  cases s.state with
  | stateClosed | stateHalfOpen => simp
  | stateOpen =>
    dsimp only
    split <;> simp [Seen.isCalled]

theorem recordSeen_not_called {failed : Bool} :
    ∀ e ∈ s.recordSeen Out ε cfg failed now, e.isCalled = false := by
  unfold Shared.recordSeen
  split
  · split <;> simp [Seen.isCalled]
  · split <;> simp [Seen.isCalled]

theorem called_mem_served {now' : Time} {failed : Bool} {f f' : Fn} {outcome : Outcome ε (Out f)}
    {outcome' : Outcome ε (Out f')} (h : Seen.called f' outcome' ∈ s.checkSeen Out ε cfg now ++
      .called f outcome :: s'.recordSeen Out ε cfg failed now') :
    Seen.called f' outcome' = Seen.called f outcome := by
  rcases List.mem_append.mp h with h | h
  · cases checkSeen_not_called _ h
  · rcases List.mem_cons.mp h with h | h
    · exact h
    · cases recordSeen_not_called _ h

/-- In the attempt of a call that went ahead, what was recorded comes after the call. -/
theorem recorded_served {f : Fn} {outcome : Outcome ε (Out f)} {rest : List (Seen Out ε)}
    {result : Except (Fault ε) (Out f)} :
    Attempt.recorded ⟨f, s.checkSeen Out ε cfg now ++ .called f outcome :: rest, result⟩ =
      readings rest := by
  unfold Attempt.recorded
  rw [List.dropWhile_append_of_pos]
  · rfl
  · intro e he
    rw [checkSeen_not_called e he]
    rfl

theorem readings_served {f : Fn} {outcome : Outcome ε (Out f)} {seen seen' : List (Seen Out ε)} :
    readings (seen ++ .called f outcome :: seen') = readings seen ++ readings seen' := by
  simp only [readings, List.filterMap_append]
  rfl

/-- **The clock does not go back** during a call. -/
theorem execute_between {f : Fn} {result : Except (Fault ε) (Out f)}
    {seen : List (Seen Out ε)}
    (hrun : (execute Out ε cfg f).Shows (sem fn) see s result s' seen) :
    Between s.clock s'.clock (readings seen) := by
  rcases execute_shows.mp hrun with ⟨-, now, hnow, hcheck, rfl⟩ |
    ⟨now, s₁, outcome, env, now₁, now₂, hnow, hcheck, -, hnow₁, hnow₂, -, rfl, rfl⟩
  · exact check_between Out ε hcheck hnow
  · rw [readings_served]
    have hrecord := record_between Out ε cfg (s₁.answered now₁ env)
      (!outcome.result.isOk) hnow₂
    exact (check_between Out ε hcheck hnow).append ((Between.nil hnow₁).append hrecord)

/-- The functions do what they may do. -/
theorem execute_possible {f f' : Fn} {result : Except (Fault ε) (Out f)}
    {seen : List (Seen Out ε)} {outcome : Outcome ε (Out f')}
    (hrun : (execute Out ε cfg f).Shows (sem fn) see s result s' seen)
    (hcalled : Seen.called f' outcome ∈ seen) : ∃ env env', fn f' env outcome env' := by
  rcases execute_shows.mp hrun with ⟨-, now, hnow, hcheck, rfl⟩ |
    ⟨now, s₁, outcome, env, now₁, now₂, hnow, hcheck, hfn, hnow₁, hnow₂, -, rfl, rfl⟩
  · cases checkSeen_not_called _ hcalled
  · cases called_mem_served hcalled
    exact ⟨_, _, hfn⟩

/-! ## 4. Every history of the breaker is one of the machine -/

/-- **One call.** -/
theorem Agrees.call (h : Agrees cfg s m) (hmax : 1 ≤ cfg.maxFailures) {f : Fn}
    {result : Except (Fault ε) (Out f)} {seen : List (Seen Out ε)}
    (hrun : (execute Out ε cfg f).Shows (sem fn) see s result s' seen)
    (hfits : ∀ t ∈ Attempt.recorded ⟨f, seen, result⟩, Fits cfg t) :
    ∃ m', m.Step cfg ⟨f, seen, result⟩ m' ∧ Agrees cfg s' m' := by
  rcases execute_shows.mp hrun with ⟨rfl, now, hnow, hcheck, rfl⟩ |
    ⟨now, s₁, outcome, env, now₁, now₂, hnow, hcheck, hfn, hnow₁, hnow₂, rfl, rfl, rfl⟩
  · obtain ⟨hm, hagrees⟩ := h.rejected Out ε hcheck
    exact ⟨m, .rejected hm, hagrees⟩
  · obtain ⟨m₁, hm, hagrees, hstate⟩ := h.admitted Out ε hcheck
    have hanswered : Agrees cfg (s₁.answered now₁ env) m₁ := hagrees.frame rfl rfl rfl rfl
    obtain ⟨hseen, hrecord⟩ := hanswered.record Out ε hmax hstate (!outcome.result.isOk) now₂
    have hnow₂fits : (!outcome.result.isOk) = true → Fits cfg now₂ := by
      intro hfailed
      refine hfits now₂ ?_
      rw [recorded_served, (record_clock Out ε cfg _ _ now₂).1, if_pos hfailed]
      exact List.mem_singleton_self _
    refine ⟨_, .served hm (Prod.ext hseen rfl), ?_⟩
    exact (hrecord hnow₂fits).frame rfl rfl rfl rfl

theorem OneByOne.between {t₀ : Time} {env : τ} {history : List (Attempt Out ε)}
    (h : OneByOne cfg fn (.new t₀ env) history s) :
    Between t₀ s.clock (instants t₀ history) := by
  induction h with
  | start => exact .single (le_refl _)
  | call _ harrived hrun ih =>
    exact ih.append ((Between.nil harrived).append (execute_between hrun))

theorem OneByOne.possible {history : List (Attempt Out ε)} (h : OneByOne cfg fn s₀ history s) :
    Possible fn history := by
  induction h with
  | start => exact fun a ha => by cases ha
  | call _ _ hrun ih =>
    intro a ha f outcome hcalled
    rcases List.mem_cons.mp ha with rfl | ha
    · exact execute_possible hrun hcalled
    · exact ih a ha f outcome hcalled

theorem OneByOne.agrees (hmax : 1 ≤ cfg.maxFailures) {t₀ : Time} {env : τ}
    {history : List (Attempt Out ε)} (h : OneByOne cfg fn (.new t₀ env) history s)
    (hfits : ∀ a ∈ history, ∀ t ∈ a.recorded, Fits cfg t) :
    ∃ m, Machine.Runs cfg history m ∧ Agrees cfg s m := by
  induction h with
  | start => exact ⟨.closed 0, .start, rfl, rfl, by push_cast; omega⟩
  | call _ _ hrun ih =>
    obtain ⟨m, hm, hagrees⟩ := ih (fun a ha => hfits a (List.mem_cons_of_mem _ ha))
    obtain ⟨m', hstep, hagrees'⟩ := Agrees.call (by exact hagrees.frame rfl rfl rfl rfl) hmax hrun
      (hfits _ List.mem_cons_self)
    exact ⟨m', .call hm hstep, hagrees'⟩

/-! ## 5. Every history of the machine is one of the breaker

The machine does not say when the clock is read where nothing depends on it. A run of the breaker
is built along a history, with the readings the history has and any others in between. -/

/-- The machine looks at the time of a check if the check reads it. -/
theorem Machine.check_time {seen : List (Seen Out ε)} {r : Option Machine}
    (h : m.check Out ε cfg now = (seen, r)) {t : Time} (ht : ∀ x ∈ readings seen, t ≤ x) :
    ∃ now', t ≤ now' ∧ m.check Out ε cfg now' = (seen, r) ∧
      (now' = t ∨ now' ∈ readings seen) := by
  cases m with
  | closed n | halfOpen k => exact ⟨t, le_refl _, h, .inl rfl⟩
  | opened since =>
    have hread : now ∈ readings seen := by
      have hseen : (check Out ε cfg now (opened since)).1 = seen := congrArg Prod.fst h
      rw [← hseen]
      simp only [check]
      split <;> exact List.mem_cons_self
    exact ⟨now, ht now hread, h, .inr hread⟩

theorem Machine.record_time {seen : List (Seen Out ε)} {failed : Bool}
    (h : m.record Out ε cfg failed now = (seen, m')) {t : Time} (ht : ∀ x ∈ readings seen, t ≤ x) :
    ∃ now', t ≤ now' ∧ m.record Out ε cfg failed now' = (seen, m') ∧
      (now' = t ∨ now' ∈ readings seen) := by
  cases failed with
  | false =>
    refine ⟨t, le_refl _, ?_, .inl rfl⟩
    rw [← h]
    cases m <;> simp [record]
  | true =>
    cases m with
    | opened since => exact ⟨t, le_refl _, h, .inl rfl⟩
    | closed n =>
      have hread : now ∈ readings seen := by
        have hseen : (record Out ε cfg true now (closed n)).1 = seen := congrArg Prod.fst h
        rw [← hseen]
        simp only [record, if_true]
        split <;> exact List.mem_cons_self
      exact ⟨now, ht now hread, h, .inr hread⟩
    | halfOpen k =>
      have hread : now ∈ readings seen := by
        have hseen : (record Out ε cfg true now (halfOpen k)).1 = seen := congrArg Prod.fst h
        rw [← hseen]
        exact List.mem_cons_self
      exact ⟨now, ht now hread, h, .inr hread⟩

/-- A call that the machine turns away. -/
theorem OneByOne.follow_rejected {history : List (Attempt Out ε)} {f : Fn}
    {readAt : Time} {seen : List (Seen Out ε)}
    (h : OneByOne cfg fn s₀ history s) (hagrees : Agrees cfg s m)
    (hcheck : m.check Out ε cfg readAt = (seen, none))
    (hclock : ∀ t ∈ readings seen, s.clock ≤ t) :
    ∃ s', OneByOne cfg fn s₀ (⟨f, seen, .error .errOpen⟩ :: history) s' ∧
      (s'.clock = s.clock ∨ s'.clock ∈ readings seen) := by
  obtain ⟨now, hnow, hcheck, hread⟩ := Machine.check_time hcheck hclock
  cases hs : s.check cfg now with
  | mk admitted s' =>
    cases admitted with
    | true =>
      obtain ⟨m₁, hm, -, -⟩ := hagrees.admitted Out ε hs
      rw [hcheck] at hm
      cases (Prod.mk.inj hm).2
    | false =>
      obtain ⟨hm, -⟩ := hagrees.rejected Out ε hs
      rw [hcheck] at hm
      have hrun : (execute Out ε cfg f).Shows (sem fn) see { s with clock := s.clock }
          (.error .errOpen) s' seen :=
        execute_shows.mpr (.inl ⟨rfl, now, hnow, hs, (Prod.mk.inj hm).1⟩)
      refine ⟨s', h.call (le_refl _) hrun, ?_⟩
      rcases (check_clock Out ε hs).1 with ⟨-, hclock'⟩ | ⟨-, hclock'⟩
      · exact .inl hclock'
      · rw [hclock']
        exact hread

/-- The check of a call that the machine lets in: the breaker lets it in as well, and its clock
has moved, if at all, to a reading of the check. -/
theorem Agrees.follow_check {readAt : Time} {seen : List (Seen Out ε)} {m₁ : Machine}
    (hagrees : Agrees cfg s m) (hcheck : m.check Out ε cfg readAt = (seen, some m₁))
    (hclock : ∀ t ∈ readings seen, s.clock ≤ t) :
    ∃ now s₁, s.clock ≤ now ∧ s.check cfg now = (true, s₁) ∧ seen = s.checkSeen Out ε cfg now ∧
      Agrees cfg s₁ m₁ ∧ s₁.state ≠ .stateOpen ∧ s₁.env = s.env ∧
      (s₁.clock = s.clock ∨ s₁.clock ∈ readings seen) := by
  obtain ⟨now, hnow, hcheck, hread⟩ := Machine.check_time hcheck hclock
  cases hs : s.check cfg now with
  | mk admitted s₁ =>
    cases admitted with
    | false =>
      obtain ⟨hm, -⟩ := hagrees.rejected Out ε hs
      rw [hcheck] at hm
      cases (Prod.mk.inj hm).2
    | true =>
      obtain ⟨_, hm, hagrees₁, hstate⟩ := hagrees.admitted Out ε hs
      rw [hcheck] at hm
      obtain ⟨hseen, hm₁⟩ := Prod.mk.inj hm
      cases hm₁
      obtain ⟨hclock₁, henv⟩ := check_clock Out ε hs
      refine ⟨now, s₁, hnow, hs, hseen, hagrees₁, hstate, henv, ?_⟩
      rcases hclock₁ with ⟨-, hclock₁⟩ | ⟨-, hclock₁⟩
      · exact .inl hclock₁
      · rw [hclock₁]
        exact hread

/-- **One call.** -/
theorem OneByOne.follow {history : List (Attempt Out ε)} {a : Attempt Out ε}
    (h : OneByOne cfg fn s₀ history s) (hagrees : Agrees cfg s m) (hmax : 1 ≤ cfg.maxFailures)
    (hstep : m.Step cfg a m') (hclock : ∀ t ∈ readings a.seen, s.clock ≤ t)
    (hsorted : (readings a.seen).Pairwise (· ≤ ·))
    (hpossible : ∀ f outcome, Seen.called f outcome ∈ a.seen → ∃ env env', fn f env outcome env') :
    ∃ s', OneByOne cfg fn s₀ (a :: history) s' ∧
      (s'.clock = s.clock ∨ s'.clock ∈ readings a.seen) := by
  cases hstep with
  | rejected hcheck => exact h.follow_rejected hagrees hcheck hclock
  | @served f _ _ seen seen' m₁ _ outcome hcheck hrecord =>
    obtain ⟨env, env', hfn⟩ := hpossible f outcome (by simp)
    simp only [readings_served] at hclock hsorted ⊢
    have hbegun : Agrees cfg { s with env } m := hagrees.frame rfl rfl rfl rfl
    obtain ⟨now, s₁, hnow, hs, hseen, hagrees₁, hstate, henv, hmem₁⟩ :=
      hbegun.follow_check hcheck (fun t ht => hclock t (List.mem_append_left _ ht))
    have hafter : ∀ t ∈ readings seen', s₁.clock ≤ t := by
      intro t ht
      rcases hmem₁ with heq | hmem
      · rw [heq]
        exact hclock t (List.mem_append_right _ ht)
      · exact (List.pairwise_append.mp hsorted).2.2 _ hmem t ht
    obtain ⟨now₂, hnow₂, hrecord, hread₂⟩ := Machine.record_time hrecord hafter
    have hanswered : Agrees cfg (s₁.answered s₁.clock env') m₁ :=
      hagrees₁.frame rfl rfl rfl rfl
    have hseen' := (hanswered.record Out ε hmax hstate (!outcome.result.isOk) now₂).1
    rw [hrecord] at hseen'
    have hrun : (execute Out ε cfg f).Shows (sem fn) see { s with clock := s.clock, env }
        outcome.result ((s₁.answered s₁.clock env').record cfg (!outcome.result.isOk)
          now₂) (seen ++ .called f outcome :: seen') := by
      refine execute_shows.mpr (.inr ⟨now, s₁, outcome, env', s₁.clock, now₂, hnow, hs, ?_,
        le_refl _, hnow₂, rfl, rfl, ?_⟩)
      · rw [henv]
        exact hfn
      · rw [hseen, ← hseen']
    refine ⟨_, h.call (le_refl _) hrun, ?_⟩
    have hclock₂ := (record_clock Out ε cfg (s₁.answered s₁.clock env')
      (!outcome.result.isOk) now₂).2
    simp only [hclock₂, List.mem_append]
    split
    · rcases hread₂ with rfl | hread₂
      · exact hmem₁.imp_right .inl
      · exact .inr (.inr hread₂)
    · exact hmem₁.imp_right .inl

/-! ## 6. The history tells the machine

The machine is not deterministic, the functions may answer anything. But what was seen of a call
determines the next state, so a history has one machine. -/

theorem Machine.check_unique {now' : Time} {seen seen' : List (Seen Out ε)} {m₁ m₂ : Machine}
    (h : m.check Out ε cfg now = (seen, some m₁)) (h' : m.check Out ε cfg now' = (seen', some m₂)) :
    m₁ = m₂ ∧ seen.length = seen'.length := by
  cases m with
  | closed n | halfOpen k =>
    cases h
    cases h'
    exact ⟨rfl, rfl⟩
  | opened since =>
    simp only [check] at h h'
    split_ifs at h h'
    · cases h
      cases h'
      exact ⟨rfl, rfl⟩
    · cases (Prod.mk.inj h').2
    · cases (Prod.mk.inj h).2
    · cases (Prod.mk.inj h).2

theorem Machine.check_rejected {seen : List (Seen Out ε)}
    (h : m.check Out ε cfg now = (seen, none)) : seen = [.time now] := by
  cases m with
  | closed n | halfOpen k => cases (Prod.mk.inj h).2
  | opened since =>
    simp only [check] at h
    split_ifs at h
    · cases (Prod.mk.inj h).2
    · exact (Prod.mk.inj h).1.symm

theorem Machine.record_unique {now' : Time} {seen : List (Seen Out ε)} {failed : Bool}
    {m₁ m₂ : Machine} (h : m.record Out ε cfg failed now = (seen, m₁))
    (h' : m.record Out ε cfg failed now' = (seen, m₂)) : m₁ = m₂ := by
  cases m with
  | closed n =>
    simp only [record] at h h'
    split_ifs at h h' <;> cases h <;> cases h' <;> rfl
  | opened since =>
    cases h
    cases h'
    rfl
  | halfOpen k =>
    simp only [record] at h h'
    split_ifs at h h' <;> cases h <;> cases h' <;> rfl

theorem Machine.Step.seen_cases {a : Attempt Out ε} (h : m.Step cfg a m') :
    (∃ now, m.check Out ε cfg now = (a.seen, none) ∧ m' = m) ∨
      ∃ now now' seen seen' m₁ f, ∃ outcome : Outcome ε (Out f),
        a.seen = seen ++ .called f outcome :: seen' ∧
        m.check Out ε cfg now = (seen, some m₁) ∧
        m₁.record Out ε cfg (!outcome.result.isOk) now' = (seen', m') := by
  cases h with
  | rejected hcheck => exact .inl ⟨_, hcheck, rfl⟩
  | served hcheck hrecord => exact .inr ⟨_, _, _, _, _, _, _, rfl, hcheck, hrecord⟩

/-- What is seen of a call says what becomes of the machine. -/
theorem Machine.Step.unique {a : Attempt Out ε} {m₁ m₂ : Machine} (h : m.Step cfg a m₁)
    (h' : m.Step cfg a m₂) : m₁ = m₂ := by
  rcases h.seen_cases with ⟨now, hcheck, rfl⟩ |
    ⟨now, now₁, seen, seen₁, n, f, outcome, hseen, hcheck, hrecord⟩ <;>
  rcases h'.seen_cases with ⟨now', hcheck', rfl⟩ |
    ⟨now', now₁', seen', seen₁', n', f', outcome', hseen', hcheck', hrecord'⟩
  · rfl
  · rw [check_rejected hcheck] at hseen'
    have hmem : Seen.called f' outcome' ∈ [Seen.time now] := by simp [hseen']
    simp at hmem
  · rw [check_rejected hcheck'] at hseen
    have hmem : Seen.called f outcome ∈ [Seen.time now'] := by simp [hseen]
    simp at hmem
  · obtain ⟨rfl, hlength⟩ := check_unique hcheck hcheck'
    rw [hseen] at hseen'
    obtain ⟨-, hrest⟩ := List.append_inj hseen' hlength
    obtain ⟨hcalled, rfl⟩ := List.cons.inj hrest
    cases hcalled
    exact record_unique hrecord hrecord'

theorem Machine.Runs.unique {history : List (Attempt Out ε)} {m₁ m₂ : Machine}
    (h : Machine.Runs cfg history m₁) (h' : Machine.Runs cfg history m₂) : m₁ = m₂ := by
  induction h generalizing m₂ with
  | start =>
    cases h'
    rfl
  | call _ hstep ih =>
    cases h' with
    | call hruns' hstep' =>
      obtain rfl := ih hruns'
      exact hstep.unique hstep'

/-! ## 7. The failures of a closed breaker -/

theorem failuresSince_reset {a : Attempt Out ε} (h : a.resets = true)
    (history : List (Attempt Out ε)) : failuresSince (a :: history) = 0 := by
  simp [failuresSince, h]

theorem failuresSince_failed {a : Attempt Out ε} (hresets : a.resets = false)
    (hfailed : a.failed = true) (history : List (Attempt Out ε)) :
    failuresSince (a :: history) = failuresSince history + 1 := by
  simp [failuresSince, hresets, hfailed]

theorem Machine.check_closed {seen : List (Seen Out ε)} {n : Nat}
    (h : m.check Out ε cfg now = (seen, some (closed n))) : m = closed n ∧ seen = [] := by
  cases m with
  | closed k =>
    cases h
    exact ⟨rfl, rfl⟩
  | opened since =>
    simp only [check] at h
    split_ifs at h <;> cases (Prod.mk.inj h).2
  | halfOpen k => cases (Prod.mk.inj h).2

/-- A machine is closed by a success, or it stays closed for one failure more. -/
theorem Machine.record_closed {seen : List (Seen Out ε)} {failed : Bool} {n : Nat}
    (h : m.record Out ε cfg failed now = (seen, closed n)) :
    failed = false ∧ n = 0 ∨
      failed = true ∧ ∃ k, m = closed k ∧ n = k + 1 ∧ seen = [.time now] := by
  cases m with
  | closed k =>
    simp only [record] at h
    split_ifs at h with hfailed
    · cases (Prod.mk.inj h).2
    · cases h
      exact .inr ⟨hfailed, k, rfl, rfl, rfl⟩
    · cases h
      exact .inl ⟨Bool.eq_false_of_not_eq_true hfailed, rfl⟩
  | opened since => cases (Prod.mk.inj h).2
  | halfOpen k =>
    simp only [record] at h
    split_ifs at h with hfailed
    · cases (Prod.mk.inj h).2
    · cases h
      exact .inl ⟨Bool.eq_false_of_not_eq_true hfailed, rfl⟩
    · cases (Prod.mk.inj h).2

/-- **The count of a closed machine.** -/
theorem Machine.Runs.failures {history : List (Attempt Out ε)} {n : Nat}
    (h : Machine.Runs cfg history (closed n)) : n = failuresSince history := by
  generalize hm : closed n = m at h
  induction h generalizing n with
  | start =>
    cases hm
    rfl
  | @call history a m m' hruns hstep ih =>
    subst hm
    cases hstep with
    | rejected hcheck => cases (Prod.mk.inj hcheck).2
    | served hcheck hrecord =>
      rcases record_closed hrecord with ⟨hok, rfl⟩ | ⟨hfailed, k, rfl, rfl, rfl⟩
      · refine (failuresSince_reset ?_ history).symm
        simp only [Attempt.resets]
        simp_all
      · obtain ⟨rfl, rfl⟩ := check_closed hcheck
        rw [failuresSince_failed, ih rfl]
        · simp_all [Attempt.resets, Seen.isClosing]
        · simp_all [Attempt.failed, Seen.isCalled]

/-! ## 8. Lock-step -/

theorem OneByOne.exists_of_runs (hmax : 1 ≤ cfg.maxFailures) {t₀ : Time} {env : τ}
    {history : List (Attempt Out ε)} (h : Machine.Runs cfg history m)
    (hfits : ∀ a ∈ history, ∀ t ∈ a.recorded, Fits cfg t) (htimely : Timely t₀ history)
    (hpossible : Possible fn history) :
    ∃ s, OneByOne cfg fn (.new t₀ env) history s ∧ s.clock ∈ instants t₀ history := by
  induction h with
  | start => exact ⟨_, .start, List.mem_singleton_self _⟩
  | @call history a m m' hruns hstep ih =>
    have hfits' : ∀ b ∈ history, ∀ t ∈ b.recorded, Fits cfg t :=
      fun b hb => hfits b (List.mem_cons_of_mem _ hb)
    obtain ⟨hbefore, hsorted, hlater⟩ := List.pairwise_append.mp htimely
    obtain ⟨s, hs, hclock⟩ := ih hfits' hbefore
      (fun b hb => hpossible b (List.mem_cons_of_mem _ hb))
    obtain ⟨m₁, hruns₁, hagrees⟩ := hs.agrees hmax hfits'
    obtain rfl := hruns.unique hruns₁
    obtain ⟨s', hs', hclock'⟩ := hs.follow hagrees hmax hstep (hlater _ hclock) hsorted
      (hpossible a List.mem_cons_self)
    refine ⟨s', hs', List.mem_append.mpr ?_⟩
    rcases hclock' with hclock' | hclock'
    · rw [hclock']
      exact .inl hclock
    · exact .inr hclock'

/-- **A sequential breaker is the three-state machine.**  Attempts are a history of a new breaker
exactly if they are a history of the machine, with readings of a clock that does not go back and
answers that the functions may give; after it the two agree, so that in the closed state the
failures are counted from the last success or closing, and stay below the maximum. -/
theorem breaker_lockstep {cfg : Config} (hmax : 1 ≤ cfg.maxFailures)
    (fn : (f : Fn) → τ → Outcome ε (Out f) → τ → Prop) (t₀ : Time) (env : τ)
    {history : List (Attempt Out ε)} (hfits : ∀ a ∈ history, ∀ t ∈ a.recorded, Fits cfg t) :
    ((∃ s, OneByOne cfg fn (.new t₀ env) history s) ↔
      (∃ m, Machine.Runs cfg history m) ∧ Timely t₀ history ∧ Possible fn history) ∧
    ∀ s, OneByOne cfg fn (.new t₀ env) history s →
      (∀ m, Machine.Runs cfg history m → Agrees cfg s m) ∧
      (s.state = .stateClosed →
        s.failures < cfg.maxFailures ∧ s.failures = failuresSince history) := by
  refine ⟨⟨?_, ?_⟩, ?_⟩
  · rintro ⟨s, hs⟩
    obtain ⟨m, hm, -⟩ := hs.agrees hmax hfits
    exact ⟨⟨m, hm⟩, hs.between.sorted, hs.possible⟩
  · rintro ⟨⟨m, hm⟩, htimely, hpossible⟩
    obtain ⟨s, hs, -⟩ := OneByOne.exists_of_runs hmax hm hfits htimely hpossible
    exact ⟨s, hs⟩
  · intro s hs
    obtain ⟨m, hm, hagrees⟩ := hs.agrees hmax hfits
    refine ⟨?_, ?_⟩
    · intro m' hm'
      exact hm.unique hm' ▸ hagrees
    · intro hclosed
      cases m with
      | closed n =>
        obtain ⟨-, hfailures, hlt⟩ := hagrees
        obtain rfl := hm.failures
        exact ⟨hfailures.symm ▸ hlt, hfailures⟩
      | opened since => cases hclosed.symm.trans hagrees.1
      | halfOpen k => cases hclosed.symm.trans hagrees.1

end Histories

/-! A breaker that opens at its first failure: a call runs into the timeout, the next one comes too
early and is refused, and the one after that succeeds and closes the breaker. -/

section Trip

def tripHistory : List (Attempt (fun _ : Unit => Unit) Unit) :=
  [⟨(), [.time (8 * second), .changed .stateOpen .stateHalfOpen, .called () (.returned (.ok ())),
      .changed .stateHalfOpen .stateClosed], .ok ()⟩,
    ⟨(), [.time (4 * second)], .error .errOpen⟩,
    ⟨(), [.called () .deadlineExceeded, .time (2 * second), .changed .stateClosed .stateOpen],
      .error .errTimeout⟩]

theorem runs_tripHistory : Machine.Runs downConfig tripHistory (.closed 0) := by
  have hbegin : (Machine.closed 0).check (fun _ : Unit => Unit) Unit downConfig 0 =
      ([], some (.closed 0)) := rfl
  have hopen : (Machine.closed 0).record (fun _ : Unit => Unit) Unit downConfig
      (!(Outcome.deadlineExceeded : Outcome Unit Unit).result.isOk) (2 * second) =
      ([.time (2 * second), .changed .stateClosed .stateOpen], .opened (2 * second)) := rfl
  have hwait : (Machine.opened (2 * second)).check (fun _ : Unit => Unit) Unit downConfig
      (4 * second) = ([.time (4 * second)], none) := rfl
  have hprobe : (Machine.opened (2 * second)).check (fun _ : Unit => Unit) Unit downConfig
      (8 * second) = ([.time (8 * second), .changed .stateOpen .stateHalfOpen],
        some (.halfOpen 0)) := rfl
  have hclose : (Machine.halfOpen 0).record (fun _ : Unit => Unit) Unit downConfig
      (!(Outcome.returned (.ok ()) : Outcome Unit Unit).result.isOk) (8 * second) =
      ([.changed .stateHalfOpen .stateClosed], .closed 0) := rfl
  exact .call (.call (.call .start (.served hbegin hopen)) (.rejected hwait))
    (.served hprobe hclose)

theorem breaker_lockstep_trip :
    1 ≤ downConfig.maxFailures ∧ (∀ a ∈ tripHistory, ∀ t ∈ a.recorded, Fits downConfig t) ∧
      ∃ s, OneByOne downConfig (fun _ _ _ _ => True) (.new 0 ()) tripHistory s ∧
        Agrees downConfig s (.closed 0) := by
  have hmax : 1 ≤ downConfig.maxFailures := by decide
  have hfits : ∀ a ∈ tripHistory, ∀ t ∈ a.recorded, Fits downConfig t := by
    simp [tripHistory, Attempt.recorded, readings, Seen.isCalled, Seen.time?, Fits, IsInt64,
      downConfig, Config.new, second]
  have htimely : Timely 0 tripHistory := by
    have hinstants : instants 0 tripHistory = [0, 2 * second, 4 * second, 8 * second] := rfl
    unfold Timely
    rw [hinstants]
    decide
  have hpossible : Possible (fun _ _ _ _ => True : (f : Unit) → Unit → Outcome Unit Unit → Unit →
      Prop) tripHistory := by
    intro a ha f outcome hcalled
    exact ⟨(), (), trivial⟩
  obtain ⟨hiff, hagrees⟩ := breaker_lockstep hmax (fun _ _ _ _ => True) 0 () hfits
  obtain ⟨s, hs⟩ := hiff.mpr ⟨⟨_, runs_tripHistory⟩, htimely, hpossible⟩
  exact ⟨hmax, hfits, s, hs, (hagrees s hs).1 _ runs_tripHistory⟩

end Trip

end CircuitBreaker

end Polykey
