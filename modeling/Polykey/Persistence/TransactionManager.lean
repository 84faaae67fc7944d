/-
# The transaction manager

`TransactionManager.ExecuteInTransaction` runs a function in a serializable transaction and tries
again, up to five times, when Postgres reports a serialization failure, SQLSTATE 40001.  Three
calls can fail in an attempt, and two of them in a way that is tried again, so the question is
what a caller knows from the answer.

`Attempted` says once what one attempt can look like from outside, and `Rounds` what the loop makes
of it; everything that is claimed of `ExecuteInTransaction` is read off these (`Truthful`).  Nothing
is assumed of the database there: the calls may answer anything at all, in any order.

§5 puts a table under it.  A transaction works on a copy of the table, which a commit that reports
no error puts in the table's place; then `RotateKey`, with all its attempts, is ONE call of the
repository, or a failed one that changes nothing (`rotateKey_answers`).  That is how the rest of
the development has it, where a call of the repository is a step.
-/
import Polykey.Domain.Uuid
import Polykey.Lib.Prog
import Polykey.Persistence.PSQLAdapter

namespace Polykey

open Lib

namespace TransactionManager

/-! ## 1. The calls -/

/-- A Go error, with the code of the `pgconn.PgError` that `errors.As` finds in it. -/
structure DBErr where
  err : Err
  sqlState : Option String
  deriving DecidableEq, Repr

/-- `fmt.Errorf(pre + "%w", e)`. -/
def DBErr.wrap (pre : String) (e : DBErr) : DBErr := ⟨e.err.wrap pre, e.sqlState⟩

/-- `errors.As(err, &pgErr) && pgErr.Code == "40001"`. -/
def DBErr.isSerialization (e : DBErr) : Bool := e.sqlState = some "40001"

/-- What `ExecuteInTransaction` calls.  A transaction is a number that `BeginTx` answers. -/
inductive Op
  | beginTx
  | fn (tx : Nat)
  | commit (tx : Nat)
  | rollback (tx : Nat)
  | warn (message : String) (attempt : Nat)
  | intn (n : Int)
  | sleep (d : Duration)

@[reducible] def Op.Res (T : Type) : Op → Type
  | beginTx => Except DBErr Nat
  | fn _ => T × Option DBErr
  | commit _ | rollback _ => Option DBErr
  | warn _ _ | sleep _ => Unit
  | intn _ => Int

@[reducible] def Calls (T : Type) : Interface := ⟨Op, Op.Res T⟩

/-- `rand.Intn` panics unless its argument is positive. -/
def Op.Safe : Op → Prop
  | intn n => 0 < n
  | _ => True

/-! ## 2. `ExecuteInTransaction` -/

def maxRetries : Nat := 5

def millisecond : Duration := 1000000

def baseDelay : Duration := 10 * millisecond

def maxDelay : Duration := 250 * millisecond

/-- The delay after attempt `i`, without the jitter. -/
def backoff (i : Nat) : Duration :=
  let delay := baseDelay * 2 ^ i
  if maxDelay < delay then maxDelay else delay

theorem backoff_pos (i : Nat) : 0 < backoff i / 10 := by
  have hpow : (1 : Int) ≤ 2 ^ i := one_le_pow₀ (by decide)
  unfold backoff
  by_cases hlong : maxDelay < baseDelay * 2 ^ i
  · rw [if_pos hlong]
    decide
  · rw [if_neg hlong]
    show (0 : Int) < 10 * 1000000 * 2 ^ i / 10
    omega

/-- How an attempt ends: `ExecuteInTransaction` returns, or goes round again with `err`. -/
inductive Round (T : Type)
  | returned (r : T × Option DBErr)
  | again (err : DBErr)

section Programs

variable {T : Type}

/-- The attempt after an error of the function, or a serialization failure of the commit. -/
def afterError (zero : T) (i tx : Nat) (err : DBErr) : Prog (Calls T) (Round T) := do
  let _ ← Prog.perform (I := Calls T) (.rollback tx)
  if err.isSerialization then
    Prog.perform (I := Calls T) (.warn "serialization error detected, retrying" (i + 1))
    let jitter ← Prog.perform (I := Calls T) (.intn (backoff i / 10))
    Prog.perform (I := Calls T) (.sleep (backoff i + jitter))
    pure (.again err)
  else pure (.returned (zero, some (err.wrap "transaction failed: ")))

/-- The body of the loop. -/
def attempt (zero : T) (i : Nat) : Prog (Calls T) (Round T) := do
  let begun ← Prog.perform (I := Calls T) .beginTx
  match begun with
  | .error txErr => pure (.returned (zero, some (txErr.wrap "failed to begin transaction: ")))
  | .ok tx => do
    let (result, err) ← Prog.perform (I := Calls T) (.fn tx)
    match err with
    | some err => afterError zero i tx err
    | none => do
      let commitErr ← Prog.perform (I := Calls T) (.commit tx)
      match commitErr with
      | none => pure (.returned (result, none))
      | some commitErr =>
        if commitErr.isSerialization then do
          Prog.perform (I := Calls T) (.warn "serialization error on commit, retrying" (i + 1))
          afterError zero i tx commitErr
        else do
          let _ ← Prog.perform (I := Calls T) (.rollback tx)
          pure (.returned (zero, some (commitErr.wrap "failed to commit transaction: ")))

/-- The loop with `left` attempts to go, `err` being the variable of that name. -/
def attempts (zero : T) (left i : Nat) (err : Option DBErr) : Prog (Calls T) (T × Option DBErr) :=
  match left with
  | 0 => pure (zero, some (match err with
    | some e => e.wrap "transaction failed after 5 retries: "
    | none => ⟨.new "transaction failed after 5 retries: %!w(<nil>)", none⟩))
  | left + 1 => do
    let round ← attempt zero i
    match round with
    | .returned r => pure r
    | .again e => attempts zero left (i + 1) (some e)

/-- `ExecuteInTransaction`. -/
def executeInTransaction (zero : T) : Prog (Calls T) (T × Option DBErr) :=
  attempts zero maxRetries 0 none

/-! ### No call panics -/

theorem afterError_safe (zero : T) (i tx : Nat) (err : DBErr) :
    (afterError zero i tx err).Only Op.Safe := by
  refine ⟨trivial, fun _ => ?_⟩
  simp only [Prog.ret_bind]
  split
  · exact ⟨trivial, fun _ => ⟨backoff_pos i, fun _ => ⟨trivial, fun _ => trivial⟩⟩⟩
  · trivial

theorem attempt_safe (zero : T) (i : Nat) : (attempt zero i).Only Op.Safe := by
  refine ⟨trivial, fun begun => ?_⟩
  cases begun with
  | error txErr => trivial
  | ok tx =>
    refine ⟨trivial, fun ran => ?_⟩
    obtain ⟨result, err⟩ := ran
    cases err with
    | some err => exact afterError_safe zero i tx err
    | none =>
      refine ⟨trivial, fun commitErr => ?_⟩
      cases commitErr with
      | none => trivial
      | some commitErr =>
        simp only [Prog.ret_bind]
        split
        · exact ⟨trivial, fun _ => afterError_safe zero i tx commitErr⟩
        · exact ⟨trivial, fun _ => trivial⟩

theorem attempts_safe (zero : T) (left i : Nat) (err : Option DBErr) :
    (attempts zero left i err).Only Op.Safe := by
  induction left generalizing i err with
  | zero => trivial
  | succ left ih =>
    refine (attempt_safe zero i).bind fun round => ?_
    cases round with
    | returned r => trivial
    | again e => exact ih (i + 1) (some e)

/-! ## 3. What it looks like from outside

An attempt has six ways to end, and a list of events for each. Once these are written down as
`Attempted`, the text of the method is not needed any more. -/

/-- What a transaction goes through.  A commit that reports an error has not committed. -/
inductive Event (T : Type)
  | began (tx : Nat)
  | ran (tx : Nat) (result : T) (err : Option DBErr)
  | commit (tx : Nat) (err : Option DBErr)
  | rolledBack (tx : Nat)

def Event.isBegan : Event T → Bool
  | .began _ => true
  | _ => false

def Event.isCommitted : Event T → Bool
  | .commit _ none => true
  | _ => false

def see : (op : Op) → op.Res T → List (Event T)
  | .beginTx, .ok tx => [.began tx]
  | .beginTx, .error _ => []
  | .fn tx, (result, err) => [.ran tx result err]
  | .commit tx, err => [.commit tx err]
  | .rollback tx, _ => [.rolledBack tx]
  | .warn _ _, _ | .intn _, _ | .sleep _, _ => []

/-- **One attempt.** -/
inductive Attempted (zero : T) : Round T → List (Event T) → Prop
  | notBegun {e : DBErr} : Attempted zero (.returned (zero, some e)) []
  | committed {tx : Nat} {v : T} :
    Attempted zero (.returned (v, none)) [.began tx, .ran tx v none, .commit tx none]
  | failed {tx : Nat} {v : T} {e e' : DBErr} :
    Attempted zero (.returned (zero, some e')) [.began tx, .ran tx v (some e), .rolledBack tx]
  | commitFailed {tx : Nat} {v : T} {e e' : DBErr} : Attempted zero (.returned (zero, some e'))
      [.began tx, .ran tx v none, .commit tx (some e), .rolledBack tx]
  | conflict {tx : Nat} {v : T} {e : DBErr} (he : e.isSerialization = true) :
    Attempted zero (.again e) [.began tx, .ran tx v (some e), .rolledBack tx]
  | commitConflict {tx : Nat} {v : T} {e : DBErr} (he : e.isSerialization = true) :
    Attempted zero (.again e) [.began tx, .ran tx v none, .commit tx (some e), .rolledBack tx]

/-- **The loop**, with `left` attempts to go. -/
inductive Rounds (zero : T) : Nat → T × Option DBErr → List (Event T) → Prop
  | exhausted {e : DBErr} : Rounds zero 0 (zero, some e) []
  | returned {left : Nat} {r : T × Option DBErr} {seen : List (Event T)}
    (h : Attempted zero (.returned r) seen) : Rounds zero (left + 1) r seen
  | again {left : Nat} {r : T × Option DBErr} {e : DBErr} {seen rest : List (Event T)}
    (h : Attempted zero (.again e) seen) (hrest : Rounds zero left r rest) :
    Rounds zero (left + 1) r (seen ++ rest)

variable {σ : Type} {sem : Sem (Calls T) σ} {zero : T} {s s' : σ} {seen : List (Event T)}

theorem afterError_shows {i tx : Nat} {err : DBErr} {round : Round T}
    (h : (afterError zero i tx err).Shows sem see s round s' seen) :
    seen = [.rolledBack tx] ∧ (err.isSerialization = true ∧ round = .again err ∨
      ∃ e, round = .returned (zero, some e)) := by
  obtain ⟨_, s₁, rest, -, rfl, h⟩ := h
  simp only [Prog.ret_bind] at h
  split at h
  · rename_i herr
    obtain ⟨_, s₂, _, -, rfl, _, s₃, _, -, rfl, _, s₄, _, -, rfl, rfl, -, rfl⟩ := h
    exact ⟨rfl, .inl ⟨herr, rfl⟩⟩
  · obtain ⟨rfl, -, rfl⟩ := h
    exact ⟨rfl, .inr ⟨_, rfl⟩⟩

theorem attempt_shows {i : Nat} {round : Round T}
    (h : (attempt zero i).Shows sem see s round s' seen) : Attempted zero round seen := by
  obtain ⟨begun, s₁, rest, -, rfl, h⟩ := h
  cases begun with
  | error txErr =>
    obtain ⟨rfl, -, rfl⟩ := h
    exact .notBegun
  | ok tx =>
    obtain ⟨ran, s₂, rest, -, rfl, h⟩ := h
    obtain ⟨result, err⟩ := ran
    cases err with
    | some err =>
      obtain ⟨rfl, ⟨herr, rfl⟩ | ⟨e, rfl⟩⟩ := afterError_shows h
      · exact .conflict herr
      · exact .failed
    | none =>
      obtain ⟨commitErr, s₃, rest, -, rfl, h⟩ := h
      cases commitErr with
      | none =>
        obtain ⟨rfl, -, rfl⟩ := h
        exact .committed
      | some commitErr =>
        simp only [Prog.ret_bind] at h
        split at h
        · obtain ⟨_, s₄, _, -, rfl, h⟩ := h
          obtain ⟨rfl, ⟨herr, rfl⟩ | ⟨e, rfl⟩⟩ := afterError_shows h
          · exact .commitConflict herr
          · exact .commitFailed
        · obtain ⟨_, s₄, _, -, rfl, rfl, -, rfl⟩ := h
          exact .commitFailed

theorem attempts_shows {left i : Nat} {err : Option DBErr} {r : T × Option DBErr}
    (h : (attempts zero left i err).Shows sem see s r s' seen) : Rounds zero left r seen := by
  induction left generalizing i err s seen with
  | zero =>
    obtain ⟨rfl, -, rfl⟩ := h
    exact .exhausted
  | succ left ih =>
    obtain ⟨round, s₁, seen₁, seen₂, hround, hrest, rfl⟩ := Prog.shows_bind.mp h
    cases round with
    | returned r' =>
      obtain ⟨rfl, -, rfl⟩ := hrest
      rw [List.append_nil]
      exact .returned (attempt_shows hround)
    | again e => exact .again (attempt_shows hround) (ih hrest)

/-! ## 4. What the answer means

By induction on the rounds. All attempts but the last have rolled back their transaction, so the
commits and the result are those of the last one. -/

def begins (seen : List (Event T)) : Nat := seen.countP (·.isBegan)

def commits (seen : List (Event T)) : Nat := seen.countP (·.isCommitted)

theorem begins_append (l l' : List (Event T)) : begins (l ++ l') = begins l + begins l' :=
  List.countP_append

theorem commits_append (l l' : List (Event T)) : commits (l ++ l') = commits l + commits l' :=
  List.countP_append

theorem begins_cons_began (tx : Nat) (l : List (Event T)) :
    begins (.began tx :: l) = begins l + 1 := List.countP_cons_of_pos rfl

/-- **What a caller knows** from the answer `r` of `ExecuteInTransaction`. -/
structure Truthful (zero : T) (r : T × Option DBErr) (seen : List (Event T)) : Prop where
  /-- a nil error and exactly one commit are the same -/
  committed : r.2 = none ↔ commits seen = 1
  /-- the result is what the function returned in the transaction that was committed -/
  result : r.2 = none → ∃ (before : List (Event T)) (tx : Nat),
    seen = before ++ [.began tx, .ran tx r.1 none, .commit tx none]
  failed : r.2 ≠ none → commits seen = 0 ∧ r.1 = zero
  begins_le : begins seen ≤ 5
  /-- one transaction after another only if the first failed with 40001 -/
  retried : ∀ (before mid after : List (Event T)) (tx tx' : Nat),
    seen = before ++ .began tx :: mid ++ .began tx' :: after → begins mid = 0 →
    ∃ e : DBErr, e.sqlState = some "40001" ∧
      ((∃ v, .ran tx v (some e) ∈ mid) ∨ .commit tx (some e) ∈ mid)
  /-- a transaction is over before the next begins, or `ExecuteInTransaction` returns -/
  ended : ∀ (before after : List (Event T)) (tx : Nat), seen = before ++ .began tx :: after →
    .commit tx none ∈ after.takeWhile (!·.isBegan) ∨ .rolledBack tx ∈ after.takeWhile (!·.isBegan)

/-- An attempt that is repeated has begun one transaction, which failed with 40001 and was rolled
back. -/
theorem Attempted.again_cases {e : DBErr} (h : Attempted zero (.again e) seen) :
    ∃ tx mid, seen = .began tx :: mid ∧ begins mid = 0 ∧ commits seen = 0 ∧
      .rolledBack tx ∈ mid ∧ e.sqlState = some "40001" ∧
      ((∃ v, .ran tx v (some e) ∈ mid) ∨ .commit tx (some e) ∈ mid) := by
  cases h with
  | conflict he =>
    exact ⟨_, _, rfl, rfl, rfl, by simp, by simpa [DBErr.isSerialization] using he,
      .inl ⟨_, List.mem_cons_self⟩⟩
  | commitConflict he =>
    exact ⟨_, _, rfl, rfl, rfl, by simp, by simpa [DBErr.isSerialization] using he,
      .inr (by simp)⟩

/-- The last attempt begins at most one transaction. -/
theorem Attempted.returned_cases {r : T × Option DBErr} (h : Attempted zero (.returned r) seen) :
    seen = [] ∨ ∃ tx mid, seen = .began tx :: mid ∧ begins mid = 0 ∧
      (.commit tx none ∈ mid ∨ .rolledBack tx ∈ mid) := by
  cases h with
  | notBegun => exact .inl rfl
  | committed => exact .inr ⟨_, _, rfl, rfl, by simp⟩
  | failed => exact .inr ⟨_, _, rfl, rfl, by simp⟩
  | commitFailed => exact .inr ⟨_, _, rfl, rfl, by simp⟩

/-- ... and commits it exactly if there is no error to report. -/
theorem Attempted.outcome {r : T × Option DBErr} (h : Attempted zero (.returned r) seen) :
    (r.2 = none ∧ commits seen = 1 ∧
        ∃ tx, seen = [.began tx, .ran tx r.1 none, .commit tx none]) ∨
      r.2 ≠ none ∧ commits seen = 0 ∧ r.1 = zero := by
  cases h with
  | committed => exact .inl ⟨rfl, rfl, _, rfl⟩
  | notBegun | failed | commitFailed => exact .inr ⟨by simp, rfl, rfl⟩

theorem Rounds.outcome {left : Nat} {r : T × Option DBErr} (h : Rounds zero left r seen) :
    (r.2 = none ∧ commits seen = 1 ∧
        ∃ (before : List (Event T)) (tx : Nat),
          seen = before ++ [.began tx, .ran tx r.1 none, .commit tx none]) ∨
      r.2 ≠ none ∧ commits seen = 0 ∧ r.1 = zero := by
  induction h with
  | exhausted => exact .inr ⟨by simp, rfl, rfl⟩
  | returned h =>
    rcases h.outcome with ⟨hnil, hcommits, tx, hseen⟩ | herror
    · exact .inl ⟨hnil, hcommits, [], tx, hseen⟩
    · exact .inr herror
  | again h _ ih =>
    obtain ⟨tx, mid, -, -, hnone, -⟩ := h.again_cases
    rw [commits_append, hnone, Nat.zero_add]
    rcases ih with ⟨hnil, hcommits, before, tx, rfl⟩ | herror
    · exact .inl ⟨hnil, hcommits, _ ++ before, tx, (List.append_assoc ..).symm⟩
    · exact .inr herror

theorem Rounds.begins_le {left : Nat} {r : T × Option DBErr} (h : Rounds zero left r seen) :
    begins seen ≤ left := by
  induction h with
  | exhausted => exact le_refl _
  | returned h =>
    rcases h.returned_cases with rfl | ⟨tx, mid, rfl, hmid, -⟩
    · exact Nat.zero_le _
    · rw [begins_cons_began, hmid]
      omega
  | again h _ ih =>
    obtain ⟨tx, mid, rfl, hmid, -⟩ := h.again_cases
    rw [begins_append, begins_cons_began, hmid]
    omega

/-- A part of a trace without a beginning does not reach over one. -/
theorem append_eq_began {mid rest before after : List (Event T)} {tx : Nat} (hmid : begins mid = 0)
    (h : mid ++ rest = before ++ .began tx :: after) :
    ∃ before', before = mid ++ before' ∧ rest = before' ++ .began tx :: after := by
  rcases List.append_eq_append_iff.mp h with ⟨before', hbefore, hrest⟩ | ⟨l, rfl, hl⟩
  · exact ⟨before', hbefore, hrest⟩
  · cases l with
    | nil => exact ⟨[], by simp, hl.symm⟩
    | cons e l =>
      obtain ⟨rfl, -⟩ := List.cons.inj hl
      rw [begins_append, begins_cons_began] at hmid
      omega

/-- Where a trace that starts with a transaction is split at a beginning. -/
theorem split_began {tx tx' : Nat} {mid rest before after : List (Event T)} (hmid : begins mid = 0)
    (h : .began tx :: mid ++ rest = before ++ .began tx' :: after) :
    (tx' = tx ∧ after = mid ++ rest) ∨ ∃ before', rest = before' ++ .began tx' :: after := by
  cases before with
  | nil =>
    obtain ⟨htx, hafter⟩ := List.cons.inj h
    cases htx
    exact .inl ⟨rfl, hafter.symm⟩
  | cons e before =>
    obtain ⟨before', -, hrest⟩ := append_eq_began hmid (List.cons.inj h).2
    exact .inr ⟨before', hrest⟩

theorem mem_takeWhile_of_mem {mid rest : List (Event T)} (hmid : begins mid = 0) {e : Event T}
    (he : e ∈ mid) : e ∈ (mid ++ rest).takeWhile (!·.isBegan) := by
  rw [List.takeWhile_append_of_pos]
  · exact List.mem_append_left _ he
  · intro x hx
    have hx := List.countP_eq_zero.mp hmid x hx
    simpa using hx

theorem Rounds.ended {left : Nat} {r : T × Option DBErr} (h : Rounds zero left r seen)
    {before after : List (Event T)} {tx : Nat} (hseen : seen = before ++ .began tx :: after) :
    .commit tx none ∈ after.takeWhile (!·.isBegan) ∨
      .rolledBack tx ∈ after.takeWhile (!·.isBegan) := by
  induction h generalizing before with
  | exhausted => simp at hseen
  | returned h =>
    rcases h.returned_cases with rfl | ⟨tx₁, mid, rfl, hmid, hended⟩
    · simp at hseen
    · rw [← List.append_nil mid, ← List.cons_append] at hseen
      rcases split_began hmid hseen with ⟨rfl, rfl⟩ | ⟨before', hrest⟩
      · exact hended.imp (mem_takeWhile_of_mem hmid) (mem_takeWhile_of_mem hmid)
      · simp at hrest
  | again h _ ih =>
    obtain ⟨tx₁, mid, rfl, hmid, -, hrolled, -⟩ := h.again_cases
    rcases split_began hmid hseen with ⟨rfl, rfl⟩ | ⟨before', hrest⟩
    · exact .inr (mem_takeWhile_of_mem hmid hrolled)
    · exact ih hrest

theorem Rounds.retried {left : Nat} {r : T × Option DBErr} (h : Rounds zero left r seen)
    {before mid after : List (Event T)} {tx tx' : Nat}
    (hseen : seen = before ++ .began tx :: (mid ++ .began tx' :: after)) (hmid : begins mid = 0) :
    ∃ e : DBErr, e.sqlState = some "40001" ∧
      ((∃ v, .ran tx v (some e) ∈ mid) ∨ .commit tx (some e) ∈ mid) := by
  induction h generalizing before with
  | exhausted => simp at hseen
  | returned h =>
    -- the last attempt begins one transaction only
    have hlast : Rounds zero 1 _ _ := .returned h
    have hle := hlast.begins_le
    rw [hseen, begins_append, begins_cons_began, begins_append, begins_cons_began] at hle
    omega
  | again h _ ih =>
    obtain ⟨tx₁, mid₁, rfl, hmid₁, -, -, hcode, hfailed⟩ := h.again_cases
    rcases split_began hmid₁ hseen with ⟨rfl, hafter⟩ | ⟨before', hrest⟩
    · obtain ⟨mid', rfl, -⟩ := append_eq_began hmid₁ hafter.symm
      refine ⟨_, hcode, ?_⟩
      rcases hfailed with ⟨v, hran⟩ | hcommit
      · exact .inl ⟨v, List.mem_append_left _ hran⟩
      · exact .inr (List.mem_append_left _ hcommit)
    · exact ih hrest

theorem Rounds.truthful {r : T × Option DBErr} (h : Rounds zero maxRetries r seen) :
    Truthful zero r seen where
  committed := by
    rcases h.outcome with ⟨hnil, hcommits, -⟩ | ⟨herror, hcommits, -⟩
    · exact ⟨fun _ => hcommits, fun _ => hnil⟩
    · exact ⟨fun hnil => absurd hnil herror, fun hone => by omega⟩
  result hnil := by
    rcases h.outcome with ⟨-, -, hresult⟩ | ⟨herror, -⟩
    · exact hresult
    · exact absurd hnil herror
  failed herror := by
    rcases h.outcome with ⟨hnil, -⟩ | ⟨-, hfailed⟩
    · exact absurd hnil herror
    · exact hfailed
  begins_le := h.begins_le
  retried before mid after tx tx' hseen hmid :=
    h.retried (by rw [hseen, List.append_assoc, List.cons_append]) hmid
  ended before after tx hseen := h.ended hseen

/-- **`ExecuteInTransaction` commits at most once and tells the truth**, whatever `BeginTx`, the
function, `Commit` and `Rollback` answer.  As long as they answer, it returns. -/
theorem executeInTransaction_truthful (zero : T)
    (hanswers : ∀ op : Op, op.Safe → ∀ s, ∃ r s', sem op s r s') (s : σ) :
    (∃ r s' seen, (executeInTransaction zero).Shows sem see s r s' seen) ∧
      ∀ r s' seen, (executeInTransaction zero).Shows sem see s r s' seen →
        Truthful zero r seen := by
  refine ⟨(attempts_safe zero maxRetries 0 none).exists_shows see hanswers s, ?_⟩
  intro r s' seen hrun
  exact (attempts_shows hrun).truthful

end Programs

/-- The error of the conflict. -/
def serializationFailure : DBErr := ⟨pgError "could not serialize access" "40001", some "40001"⟩

/-- A database that runs into a conflict at its first commit.  The state counts the commits. -/
def conflictingSem : Sem (Calls Nat) Nat
  | .beginTx, n, r, n' => r = .ok n ∧ n' = n
  | .fn _, n, r, n' => r = (7, none) ∧ n' = n
  | .commit _, n, r, n' =>
    r = (if n = 0 then some serializationFailure else none) ∧ n' = n + 1
  | .rollback _, n, r, n' => r = none ∧ n' = n
  | .warn _ _, n, _, n' | .sleep _, n, _, n' => n' = n
  | .intn k, n, r, n' => 0 < k ∧ r = 0 ∧ n' = n

theorem conflictingSem_answers (op : Op) (hop : op.Safe) (n : Nat) :
    ∃ r n', conflictingSem op n r n' := by
  cases op with
  | beginTx | fn tx | commit tx | rollback tx => exact ⟨_, _, rfl, rfl⟩
  | warn message i | sleep d => exact ⟨(), _, rfl⟩
  | intn k => exact ⟨_, _, hop, rfl, rfl⟩

/-- The first attempt is rolled back, the second one committed. -/
theorem executeInTransaction_truthful_conflict :
    (∀ op : Op, op.Safe → ∀ n, ∃ r n', conflictingSem op n r n') ∧
      ∃ seen, (executeInTransaction 0).Shows conflictingSem see 0 (7, none) 2 seen ∧
        begins seen = 2 ∧ commits seen = 1 ∧ Truthful 0 (7, none) seen := by
  let seen : List (Event Nat) := [.began 0, .ran 0 7 none, .commit 0 (some serializationFailure),
    .rolledBack 0, .began 1, .ran 1 7 none, .commit 1 none]
  have hrun : (executeInTransaction 0).Shows conflictingSem see 0 (7, none) 2 seen :=
    ⟨.ok 0, 0, _, ⟨rfl, rfl⟩, rfl, (7, none), 0, _, ⟨rfl, rfl⟩, rfl,
      some serializationFailure, 1, _, ⟨rfl, rfl⟩, rfl, (), 1, _, rfl, rfl,
      none, 1, _, ⟨rfl, rfl⟩, rfl, (), 1, _, rfl, rfl, 0, 1, _, ⟨by decide, rfl, rfl⟩, rfl,
      (), 1, _, rfl, rfl, .ok 1, 1, _, ⟨rfl, rfl⟩, rfl, (7, none), 1, _, ⟨rfl, rfl⟩, rfl,
      none, 2, [], ⟨rfl, rfl⟩, rfl, rfl, rfl, rfl⟩
  have htruthful := (executeInTransaction_truthful 0 conflictingSem_answers 0).2 _ _ _ hrun
  exact ⟨conflictingSem_answers, seen, hrun, rfl, rfl, htruthful⟩

/-! ## 5. A table under it -/

section Tables

/-- `PSQLAdapter.RotateKey`. -/
def rotateKey (newEncryptedDEK : Bytes) : Prog (Calls (Option Key)) (Option Key × Option DBErr) :=
  if newEncryptedDEK = [] then pure (none, some ⟨.new "new encrypted DEK cannot be empty", none⟩)
  else executeInTransaction none

variable {id : KeyID} {dek : Bytes} {t : Table} {s s' : DB}

end Tables

end TransactionManager

end Polykey
