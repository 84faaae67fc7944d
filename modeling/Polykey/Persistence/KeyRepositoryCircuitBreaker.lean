/-
# The repository behind a circuit breaker

`KeyRepositoryCircuitBreaker` makes each of the sixteen methods of `domain.KeyRepository` a call of
`Execute` on ONE breaker.  The breaker counts every error, so an answer such as `ErrKeyNotFound`,
which says nothing about the health of the database, counts as a failure like any other: after
`maxFailures` of them in a row every method of every caller is refused until the reset timeout has
passed (`absent_keys_open_breaker`).

How far the wrapper is transparent is then a matter of when the calls come, and nothing else:
`transparent_iff_spaced` says exactly when each answer is the wrapped repository's own, and that a
call that comes too early is refused without a question to the repository.  "Too early" is what
`canExecute` makes of it: it adds the reset timeout to the time of the last error as an `int64`,
which may wrap, and compares the sum with its own reading of the clock.  Calls are made one after
the other; a history lists them with the newest FIRST, since what the breaker does next depends on
its head.
-/
import Polykey.Domain.Uuid
import Polykey.Patterns.CircuitBreaker
import Polykey.Persistence.PSQLAdapter

namespace Polykey

open Lib

namespace KeyRepositoryCircuitBreaker

open CircuitBreaker

/-! ## 1. Calls and their histories -/

/-- The breaker of `NewKeyRepositoryCircuitBreaker`. -/
def config (maxFailures : Int) (resetTimeout : Duration) : Config :=
  Config.new maxFailures [.withResetTimeout resetTimeout]

/-- A method of the wrapper: `Execute` around the wrapped repository's method. -/
def method (cfg : Config) (op : RepoOp) :
    Prog (Atomics RepoOp.Result Err) (Except (Fault Err) op.Result) :=
  execute RepoOp.Result Err cfg op

/-- A wrapped repository that answers before the call timeout.  `wrapped op t a t'`: on the contents
`t` it may answer `a` and leave `t'`. -/
def answering {τ : Type} (wrapped : (op : RepoOp) → τ → op.Answer → τ → Prop) (op : RepoOp) (t : τ)
    (outcome : Outcome Err op.Result) (t' : τ) : Prop :=
  ∃ a, outcome = .returned a ∧ wrapped op t a t'

/-- A call that has been made: what it returned, and when. -/
structure Served where
  op : RepoOp
  result : Except (Fault Err) op.Result
  returned : Time

section

variable {τ : Type} (cfg : Config) (wrapped : (op : RepoOp) → τ → op.Answer → τ → Prop)

/-- Calls made through the breaker one after the other, with any time between them. -/
inductive Session : Shared τ → List Served → Shared τ → Prop
  | nil (s : Shared τ) : Session s [] s
  | call {s s₁ s₂ : Shared τ} {history : List Served} {op : RepoOp} {arrived : Time}
      {result : Except (Fault Err) op.Result} (h : Session s history s₁)
      (harrived : s₁.clock ≤ arrived)
      (hrun : (method cfg op).Runs (sem (answering wrapped)) { s₁ with clock := arrived } result
        s₂) :
      Session s (⟨op, result, s₂.clock⟩ :: history) s₂

/-- The same calls made on the wrapped repository itself, with the same answers. -/
def Transparent (t : τ) : List Served → τ → Prop
  | [], t' => t' = t
  | e :: before, t' => ∃ t₁ a, Transparent t before t₁ ∧ wrapped e.op t₁ a t' ∧
      e.result = a.mapError .err

/-- The errors since the last success; a refusal is neither. -/
def errorsInARow : List Served → Int
  | [] => 0
  | e :: before =>
    match e.result with
    | .ok _ => 0
    | .error .errOpen => errorsInARow before
    | .error _ => errorsInARow before + 1

/-- The time of the last error. -/
def lastError : List Served → Time
  | [] => 0
  | e :: before =>
    match e.result with
    | .ok _ | .error .errOpen => lastError before
    | .error _ => e.returned

/-- Each call made after `maxFailures` errors in a row is over later than the reset timeout after
the last of them, the sum being one of `int64`s.  A call that is refused is over at the reading of
the clock that it was refused for. -/
def Spaced : List Served → Prop
  | [] => True
  | e :: before => Spaced before ∧ (cfg.maxFailures ≤ errorsInARow before →
      int64 (lastError before + cfg.resetTimeout) < e.returned)

end

/-! ## 2. What the breaker knows of the history

Between two calls the breaker is never half-open: one probe decides, since one success is enough to
close it.  So its state is a function of the history. -/

section

variable {τ : Type} {cfg : Config} {wrapped : (op : RepoOp) → τ → op.Answer → τ → Prop}
  {s s' : Shared τ} {history : List Served}

/-- The counters are those of the history, and the breaker is open after `maxFailures` errors in a
row. -/
structure Tracks (cfg : Config) (history : List Served) (s : Shared τ) : Prop where
  failures : s.failures = errorsInARow history
  lastFailureTime : s.lastFailureTime = lastError history
  closed : errorsInARow history < cfg.maxFailures → s.state = .stateClosed
  opened : cfg.maxFailures ≤ errorsInARow history → s.state = .stateOpen

@[simp] theorem config_halfOpenRequests (maxFailures : Int) (resetTimeout : Duration) :
    (config maxFailures resetTimeout).halfOpenRequests = 1 := rfl

@[simp] theorem config_maxFailures (maxFailures : Int) (resetTimeout : Duration) :
    (config maxFailures resetTimeout).maxFailures = maxFailures := rfl

@[simp] theorem config_resetTimeout (maxFailures : Int) (resetTimeout : Duration) :
    (config maxFailures resetTimeout).resetTimeout = resetTimeout := rfl

theorem Tracks.wait (h : Tracks cfg history s) (now : Time) :
    Tracks cfg history { s with clock := now } :=
  ⟨h.failures, h.lastFailureTime, h.closed, h.opened⟩

theorem tracks_new {maxFailures : Int} (hmax : 1 ≤ maxFailures) (resetTimeout : Duration)
    (clock : Time) (t : τ) : Tracks (config maxFailures resetTimeout) [] (.new clock t) := by
  refine ⟨rfl, rfl, fun _ => rfl, ?_⟩
  intro hle
  simp only [config_maxFailures, errorsInARow] at hle
  omega

variable {maxFailures : Int} {resetTimeout : Duration} {op : RepoOp} {now returned : Time}

/-- A success closes the breaker and clears the count. -/
theorem tracks_ok {a : op.Result} (hmax : 1 ≤ maxFailures)
    (hlast : s.lastFailureTime = lastError history)
    (hstate : s.state = .stateClosed ∨ s.state = .stateHalfOpen ∧ s.successCount = 0) :
    Tracks (config maxFailures resetTimeout) (⟨op, .ok a, returned⟩ :: history)
      (s.record (config maxFailures resetTimeout) false now) := by
  have hopened : ¬ maxFailures ≤ 0 := by omega
  rcases hstate with hstate | ⟨hstate, hcount⟩
  · constructor <;> simp [Shared.record, hstate, errorsInARow, lastError, hlast, hopened]
  · constructor <;>
      simp [Shared.record, Shared.enter, hstate, hcount, errorsInARow, lastError, hlast, hopened]

/-- An error is counted, and reopens a breaker that was trying. -/
theorem tracks_error {e : Err} (hfailures : s.failures = errorsInARow history)
    (hstate : s.state = .stateClosed ∨
      s.state = .stateHalfOpen ∧ maxFailures ≤ errorsInARow history) :
    Tracks (config maxFailures resetTimeout) (⟨op, .error (.err e), now⟩ :: history)
      (s.record (config maxFailures resetTimeout) true now) := by
  rcases hstate with hstate | ⟨hstate, hle⟩
  · by_cases htrip : maxFailures ≤ errorsInARow history + 1
    · constructor <;>
        simp [Shared.record, Shared.enter, hstate, errorsInARow, lastError, hfailures, htrip]
    · constructor <;> simp [Shared.record, hstate, errorsInARow, lastError, hfailures, htrip]
  · constructor <;>
      simp [Shared.record, Shared.enter, hstate, errorsInARow, lastError, hfailures]
    omega

/-! ## 3. One call

With the calls one after the other, the breaker is the function `Shared.check` followed by
`Shared.record`, and `Tracks` says what its counters are. So a call is refused or not by the
history alone. -/

theorem record_env (failed : Bool) : (s.record cfg failed now).env = s.env := by
  unfold Shared.record Shared.enter
  split_ifs <;> rfl

theorem record_failed_clock : (s.record cfg true now).clock = now := by
  unfold Shared.record Shared.enter
  split_ifs <;> first | rfl | contradiction

theorem le_record_clock {failed : Bool} (hnow : s.clock ≤ now) :
    s.clock ≤ (s.record cfg failed now).clock := by
  unfold Shared.record Shared.enter
  split_ifs <;> first | exact hnow | exact le_refl _

/-- What `canExecute` does after a history. -/
theorem Tracks.check (h : Tracks cfg history s) :
    s.check cfg now =
      if cfg.maxFailures ≤ errorsInARow history then
        if int64 (lastError history + cfg.resetTimeout) < now then
          (true, { s with clock := now }.enter .stateHalfOpen)
        else (false, { s with clock := now })
      else (true, s) := by
  by_cases hle : cfg.maxFailures ≤ errorsInARow history
  · rw [if_pos hle, ← h.lastFailureTime]
    simp only [Shared.check, h.opened hle]
  · rw [if_neg hle]
    simp only [Shared.check, h.closed (not_le.mp hle)]

/-- **A call is refused** if the breaker is open and the reset timeout has not passed. -/
theorem Tracks.refused (h : Tracks cfg history s) (hcheck : s.check cfg now = (false, s')) :
    Tracks cfg (⟨op, .error .errOpen, s'.clock⟩ :: history) s' ∧
      cfg.maxFailures ≤ errorsInARow history ∧
      ¬ int64 (lastError history + cfg.resetTimeout) < s'.clock := by
  rw [h.check] at hcheck
  split_ifs at hcheck with hle hlate
  · cases (Prod.mk.inj hcheck).1
  · obtain ⟨-, rfl⟩ := Prod.mk.inj hcheck
    have hwait := h.wait now
    exact ⟨⟨hwait.failures, hwait.lastFailureTime, hwait.closed, hwait.opened⟩, hle, hlate⟩
  · cases (Prod.mk.inj hcheck).1

/-- A call that is let through finds the breaker closed, or makes it half-open once the reset
timeout has passed. -/
theorem Tracks.admitted (h : Tracks cfg history s) (hcheck : s.check cfg now = (true, s'))
    (hnow : s.clock ≤ now) :
    s'.env = s.env ∧ s.clock ≤ s'.clock ∧ s'.failures = errorsInARow history ∧
      s'.lastFailureTime = lastError history ∧
      (s'.state = .stateClosed ∧ ¬ cfg.maxFailures ≤ errorsInARow history ∨
        s'.state = .stateHalfOpen ∧ s'.successCount = 0 ∧
          cfg.maxFailures ≤ errorsInARow history ∧
          int64 (lastError history + cfg.resetTimeout) < s'.clock) := by
  rw [h.check] at hcheck
  split_ifs at hcheck with hle hlate
  · obtain ⟨-, rfl⟩ := Prod.mk.inj hcheck
    exact ⟨rfl, hnow, h.failures, h.lastFailureTime, .inr ⟨rfl, rfl, hle, hlate⟩⟩
  · cases (Prod.mk.inj hcheck).1
  · obtain ⟨-, rfl⟩ := Prod.mk.inj hcheck
    exact ⟨rfl, le_refl _, h.failures, h.lastFailureTime, .inl ⟨h.closed (not_le.mp hle), hle⟩⟩

/-- **One call** either is refused, or has the wrapped repository's answer. -/
theorem Tracks.call {arrived : Time} {result : Except (Fault Err) op.Result}
    (h : Tracks (config maxFailures resetTimeout) history s) (hmax : 1 ≤ maxFailures)
    (hrun : (method (config maxFailures resetTimeout) op).Runs (sem (answering wrapped))
      { s with clock := arrived } result s') :
    Tracks (config maxFailures resetTimeout) (⟨op, result, s'.clock⟩ :: history) s' ∧
      (result = .error .errOpen ∧ maxFailures ≤ errorsInARow history ∧
          ¬ int64 (lastError history + resetTimeout) < s'.clock ∨
        ∃ a, wrapped op s.env a s'.env ∧ result = a.mapError .err ∧
          (maxFailures ≤ errorsInARow history →
            int64 (lastError history + resetTimeout) < s'.clock)) := by
  have hwait := h.wait arrived
  rcases execute_runs.mp hrun with ⟨rfl, now, hnow, hcheck⟩ |
    ⟨now, s₁, outcome, t, now₁, now₂, hnow, hcheck, ⟨a, rfl, hwrapped⟩, hnow₁, hnow₂, rfl, rfl⟩
  · obtain ⟨htracks, hle, hlate⟩ := hwait.refused hcheck
    exact ⟨htracks, .inl ⟨rfl, hle, hlate⟩⟩
  · obtain ⟨henv, hclock, hfailures, hlast, hstate⟩ := hwait.admitted hcheck hnow
    have hreturned : s₁.clock ≤ ((s₁.answered now₁ t).record (config maxFailures resetTimeout)
        (!(Outcome.returned a).result.isOk) now₂).clock :=
      le_trans hnow₁ (le_record_clock (s := s₁.answered now₁ t) hnow₂)
    have hlate : maxFailures ≤ errorsInARow history →
        int64 (lastError history + resetTimeout) < ((s₁.answered now₁ t).record
          (config maxFailures resetTimeout) (!(Outcome.returned a).result.isOk) now₂).clock := by
      intro hle
      rcases hstate with ⟨-, hgt⟩ | ⟨-, -, -, hlt⟩
      · exact absurd hle hgt
      · exact lt_of_lt_of_le hlt hreturned
    have hanswer : wrapped op s.env a ((s₁.answered now₁ t).record
        (config maxFailures resetTimeout) (!(Outcome.returned a).result.isOk) now₂).env := by
      rw [record_env]
      exact henv ▸ hwrapped
    cases a with
    | ok v =>
      refine ⟨tracks_ok hmax hlast ?_, .inr ⟨.ok v, hanswer, rfl, hlate⟩⟩
      rcases hstate with ⟨hclosed, -⟩ | ⟨hhalf, hcount, -, -⟩
      · exact .inl hclosed
      · exact .inr ⟨hhalf, hcount⟩
    | error e =>
      have hclock₂ : ((s₁.answered now₁ t).record (config maxFailures resetTimeout) true
          now₂).clock = now₂ := record_failed_clock
      refine ⟨hclock₂.symm ▸ tracks_error hfailures ?_, .inr ⟨.error e, hanswer, rfl, hlate⟩⟩
      rcases hstate with ⟨hclosed, -⟩ | ⟨hhalf, -, hle, -⟩
      · exact .inl hclosed
      · exact .inr ⟨hhalf, hle⟩

theorem called_not_mem_checkSeen {Fn : Type} {Out : Fn → Type} {ε : Type} (f : Fn)
    (outcome : Outcome ε (Out f)) : .called f outcome ∉ s.checkSeen Out ε cfg now := by
  unfold Shared.checkSeen
  split
  · simp
  · simp
  · split <;> simp

/-- **A call that comes too early is refused**, and the repository is not asked. -/
theorem Tracks.refuses {arrived : Time} {result : Except (Fault Err) op.Result}
    {seen : List (Seen RepoOp.Result Err)}
    (h : Tracks (config maxFailures resetTimeout) history s) (hmax : 1 ≤ maxFailures)
    (hrun : (method (config maxFailures resetTimeout) op).Shows (sem (answering wrapped)) see
      { s with clock := arrived } result s' seen)
    (hle : maxFailures ≤ errorsInARow history)
    (hearly : ¬ int64 (lastError history + resetTimeout) < s'.clock) :
    result = .error .errOpen ∧ s'.env = s.env ∧ ∀ f outcome, .called f outcome ∉ seen := by
  have hruns : (method (config maxFailures resetTimeout) op).Runs (sem (answering wrapped))
      { s with clock := arrived } result s' := (Prog.runs_iff_shows see).mpr ⟨seen, hrun⟩
  have hresult : result = .error .errOpen := by
    rcases (h.call hmax hruns).2 with ⟨hrefused, -, -⟩ | ⟨-, -, -, hlate⟩
    · exact hrefused
    · exact absurd (hlate hle) hearly
  subst hresult
  rcases execute_shows.mp hrun with ⟨-, now, -, hcheck, rfl⟩ |
    ⟨-, -, outcome, -, -, -, -, -, ⟨a, rfl, -⟩, -, -, hanswer, -⟩
  · refine ⟨rfl, ?_, called_not_mem_checkSeen⟩
    rw [(h.wait arrived).check] at hcheck
    split_ifs at hcheck
    · cases (Prod.mk.inj hcheck).1
    · obtain ⟨-, rfl⟩ := Prod.mk.inj hcheck
      rfl
    · cases (Prod.mk.inj hcheck).1
  · cases a with
    | ok v => cases hanswer
    | error e => cases hanswer

/-! ## 4. Whole sessions

Both directions are by induction on the session. A refusal is an answer that no repository gives,
so transparency excludes it; and where it is excluded every answer is the repository's. -/

theorem Session.tracks (hmax : 1 ≤ maxFailures)
    (h : Session (config maxFailures resetTimeout) wrapped s history s')
    (hs : Tracks (config maxFailures resetTimeout) [] s) :
    Tracks (config maxFailures resetTimeout) history s' := by
  induction h with
  | nil => exact hs
  | call _ _ hrun ih => exact (ih.call hmax hrun).1

/-- Where the calls are spaced out, the answers are the wrapped repository's. -/
theorem Session.transparent (hmax : 1 ≤ maxFailures)
    (h : Session (config maxFailures resetTimeout) wrapped s history s')
    (hs : Tracks (config maxFailures resetTimeout) [] s)
    (hspaced : Spaced (config maxFailures resetTimeout) history) :
    Transparent wrapped s.env history s'.env := by
  induction h with
  | nil => rfl
  | call h _ hrun ih =>
    obtain ⟨hbefore, hlate⟩ := hspaced
    rcases ((h.tracks hmax hs).call hmax hrun).2 with ⟨-, hle, hearly⟩ | ⟨a, ha, hresult, -⟩
    · exact absurd (hlate hle) hearly
    · exact ⟨_, a, ih hbefore, ha, hresult⟩

/-- Where the answers are some repository's, the calls are spaced out: a refusal is nobody's. -/
theorem Session.spaced (hmax : 1 ≤ maxFailures)
    (h : Session (config maxFailures resetTimeout) wrapped s history s')
    (hs : Tracks (config maxFailures resetTimeout) [] s) {t t' : τ}
    (htransparent : Transparent wrapped t history t') :
    Spaced (config maxFailures resetTimeout) history := by
  induction h generalizing t' with
  | nil => trivial
  | call h _ hrun ih =>
    obtain ⟨t₁, a, hbefore, -, hanswer⟩ := htransparent
    refine ⟨ih hbefore, ?_⟩
    rcases ((h.tracks hmax hs).call hmax hrun).2 with ⟨hrefused, -, -⟩ | ⟨-, -, -, hlate⟩
    · rw [hrefused] at hanswer
      cases a with
      | ok v => cases hanswer
      | error e => cases hanswer
    · exact hlate

/-- A repository that answers lets the session go on. -/
theorem Session.continues (h : Session cfg wrapped s history s') {op : RepoOp} {arrived : Time}
    (harrived : s'.clock ≤ arrived) (hanswers : ∀ t, ∃ a t', wrapped op t a t') :
    ∃ result s'', Session cfg wrapped s (⟨op, result, s''.clock⟩ :: history) s'' := by
  cases hcheck : { s' with clock := arrived }.check cfg arrived with
  | mk admitted s₁ =>
    cases admitted with
    | false =>
      exact ⟨_, s₁, h.call harrived (execute_runs.mpr (.inl ⟨rfl, arrived, le_refl _, hcheck⟩))⟩
    | true =>
      obtain ⟨a, t, hanswer⟩ := hanswers s₁.env
      exact ⟨_, _, h.call harrived (execute_runs.mpr (.inr ⟨arrived, s₁, .returned a, t, s₁.clock,
        s₁.clock, le_refl _, hcheck, ⟨a, rfl, hanswer⟩, le_refl _, le_refl _, rfl, rfl⟩))⟩

/-- **When the breaker is transparent.**  Over a repository that answers in time, with any values
and errors, each call returns, and each answer is the repository's own exactly if each call made
after `maxFailures` errors in a row is over later than the reset timeout after the last of them.  A
call for which that is not so is answered `ErrOpen`, the repository is not asked and its contents
are what they were. -/
theorem transparent_iff_spaced {maxFailures : Int} (hmax : 1 ≤ maxFailures)
    (resetTimeout : Duration) (wrapped : (op : RepoOp) → τ → op.Answer → τ → Prop)
    (hanswers : ∀ op t, ∃ a t', wrapped op t a t') {clock : Time} {t : τ} {history : List Served}
    {s' : Shared τ}
    (h : Session (config maxFailures resetTimeout) wrapped (.new clock t) history s') :
    ((∃ t', Transparent wrapped t history t') ↔
      Spaced (config maxFailures resetTimeout) history) ∧
    (∀ op arrived, s'.clock ≤ arrived → ∃ result s'',
      Session (config maxFailures resetTimeout) wrapped (.new clock t)
        (⟨op, result, s''.clock⟩ :: history) s'') ∧
    ∀ op arrived result s'' seen, (method (config maxFailures resetTimeout) op).Shows
        (sem (answering wrapped)) see { s' with clock := arrived } result s'' seen →
      maxFailures ≤ errorsInARow history →
      ¬ int64 (lastError history + resetTimeout) < s''.clock →
      result = .error .errOpen ∧ s''.env = s'.env ∧ ∀ f outcome, .called f outcome ∉ seen := by
  have hnew := tracks_new hmax resetTimeout clock t
  refine ⟨⟨?_, ?_⟩, ?_, ?_⟩
  · rintro ⟨t', htransparent⟩
    exact h.spaced hmax hnew htransparent
  · intro hspaced
    exact ⟨_, h.transparent hmax hnew hspaced⟩
  · intro op arrived harrived
    exact h.continues harrived (hanswers op)
  · intro op arrived result s'' seen hrun hle hearly
    exact (h.tracks hmax hnew).refuses hmax hrun hle hearly

end

/-! ### A client that asks for keys that are not there -/

/-- The repository on PostgreSQL, on a database that works. -/
def psql (uuid : UUIDPkg) (op : RepoOp) (t : Table) (a : op.Answer) (t' : Table) : Prop :=
  ∃ now, PSQLAdapter.exec uuid now op t = (a, t')

theorem psql_answers (uuid : UUIDPkg) (op : RepoOp) (t : Table) : ∃ a t', psql uuid op t a t' :=
  ⟨_, _, 0, rfl⟩

/-- A question about an absent key. -/
def absent (returned : Time) : Served :=
  ⟨.getKey ⟨0⟩, .error (.err (.of .psqlErrKeyNotFound)), returned⟩

/-- The breaker after so many of them, the last at the given time. -/
def misses (state : State) (failures : Int) (now : Time) : Shared Table :=
  ⟨state, failures, now, 0, now, .empty⟩

/-- Another question, to a breaker that is closed. -/
theorem session_absent {uuid : UUIDPkg} {s : Shared Table} {history : List Served} {n : Int}
    {last now : Time} (hnow : last ≤ now)
    (h : Session (config 2 (5 * second)) (psql uuid) s history (misses .stateClosed n last)) :
    Session (config 2 (5 * second)) (psql uuid) s (absent now :: history)
      (misses (if 2 ≤ n + 1 then .stateOpen else .stateClosed) (n + 1) now) := by
  have hrun : (method (config 2 (5 * second)) (.getKey ⟨0⟩)).Runs (sem (answering (psql uuid)))
      { misses .stateClosed n last with clock := now } (.error (.err (.of .psqlErrKeyNotFound)))
      (misses (if 2 ≤ n + 1 then .stateOpen else .stateClosed) (n + 1) now) := by
    refine execute_runs.mpr (.inr ⟨now, _, .returned (.error (.of .psqlErrKeyNotFound)), .empty,
      now, now, le_refl _, rfl, ⟨_, rfl, 0, rfl⟩, le_refl _, le_refl _, rfl, ?_⟩)
    by_cases htrip : 2 ≤ n + 1 <;>
      simp [misses, Shared.record, Shared.enter, Shared.answered, Outcome.result,
        Except.isOk, Except.toBool, htrip]
  exact h.call hnow hrun

/-- A second question opens a breaker with `maxFailures = 2`. -/
theorem absent_session (uuid : UUIDPkg) :
    Session (config 2 (5 * second)) (psql uuid) (.new 0 .empty)
      [absent (2 * second), absent (1 * second)] (misses .stateOpen 2 (2 * second)) :=
  session_absent (n := 1) (by decide) (session_absent (n := 0) (by decide) (.nil _))

/-- The two questions come while the breaker is closed, and have the repository's answers.  A
third one, of any method, is refused until five seconds after the second. -/
theorem transparent_iff_spaced_absent :
    (∃ t', Transparent (psql googleUUID) .empty [absent (2 * second), absent (1 * second)] t') ∧
    ∀ op result s'' seen, (method (config 2 (5 * second)) op).Shows
        (sem (answering (psql googleUUID))) see
        { misses .stateOpen 2 (2 * second) with clock := 3 * second } result s'' seen →
      s''.clock ≤ 7 * second → result = .error .errOpen ∧ s''.env = .empty := by
  obtain ⟨hiff, -, hrefused⟩ := transparent_iff_spaced (by decide) (5 * second) (psql googleUUID)
    (psql_answers googleUUID) (absent_session googleUUID)
  refine ⟨hiff.mpr ⟨⟨trivial, fun h => ?_⟩, fun h => ?_⟩, ?_⟩
  · exact absurd h (by decide)
  · exact absurd h (by decide)
  · intro op result s'' seen hrun hclock
    have hsum : int64 (lastError [absent (2 * second), absent (1 * second)] + 5 * second) =
        7 * second := by decide
    obtain ⟨hresult, henv, -⟩ := hrefused op (3 * second) result s'' seen hrun (by decide)
      (by rw [hsum]; exact not_lt.mpr hclock)
    exact ⟨hresult, henv⟩

/-- **Absent keys open the breaker.**  Two answers `ErrKeyNotFound`, and the next call, whatever it
asks, is refused. -/
theorem absent_keys_open_breaker :
    ∃ s', Session (config 2 (5 * second)) (psql googleUUID) (.new 0 .empty)
      [⟨.exists ⟨0⟩, .error .errOpen, 3 * second⟩, absent (2 * second), absent (1 * second)] s' ∧
    ¬ ∃ t', Transparent (psql googleUUID) .empty
      [⟨.exists ⟨0⟩, .error .errOpen, 3 * second⟩, absent (2 * second),
        absent (1 * second)] t' := by
  refine ⟨{ misses .stateOpen 2 (2 * second) with clock := 3 * second }, ?_, ?_⟩
  · have hrun : (method (config 2 (5 * second)) (.exists ⟨0⟩)).Runs
        (sem (answering (psql googleUUID)))
        { misses .stateOpen 2 (2 * second) with clock := 3 * second } (.error .errOpen)
        { misses .stateOpen 2 (2 * second) with clock := 3 * second } :=
      execute_runs.mpr (.inl ⟨rfl, 3 * second, le_refl _, rfl⟩)
    exact (absent_session googleUUID).call (by decide) hrun
  · rintro ⟨t', t₁, a, -, -, hanswer⟩
    cases a with
    | ok v => cases hanswer
    | error e => cases hanswer

end KeyRepositoryCircuitBreaker

end Polykey
