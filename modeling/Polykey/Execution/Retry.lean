/-
# Retries with backoff

`execution.WithRetry` calls a function up to `maxRetries` times and sleeps after each failure.  The
sleep after attempt `i` is a backoff, `initialBackoff * (1 << i)` capped at `maxBackoff`, and a
jitter.  The product is one of `time.Duration`s, so it WRAPS, and it is capped after that: a product
that has become negative is not above `maxBackoff` and stays what it is.

* `withRetry_waits` says what any run sleeps, whatever the function, the random numbers and the
  world do.
* `backoff_eq_min_iff` says when one backoff is the one that is meant: if the product does not
  exceed `maxBackoff`, or wraps to something that still does.  Over all attempts nothing is left of
  the second case: the products double, so the first of them that leaves the range comes back
  negative, and the backoffs are as they are meant to be exactly as long as none of them leaves it
  (`backoffs_eq_min_iff`).
* The constants of the AWS provider wrap at the 38th attempt; it makes three.
-/
import Polykey.Kms.Providers
import Polykey.Lib.Prog
import Polykey.Patterns.CircuitBreaker

namespace Polykey

open Lib

namespace Execution

open CircuitBreaker (int64)

/-! ## 1. `WithRetry` -/

/-- What `WithRetry` calls: the function, `rand.Intn` and `time.Sleep`. -/
inductive Op
  | fn
  | intn (n : Int)
  | sleep (d : Duration)

@[reducible] def Op.Res (T ε : Type) : Op → Type
  | fn => T × Option ε
  | intn _ => Int
  | sleep _ => Unit

@[reducible] def Calls (T ε : Type) : Interface := ⟨Op, Op.Res T ε⟩

def millisecond : Duration := 1000000

/-- `1 << i` as a `time.Duration`: the constant takes its type from the product it stands in, and
bits that are shifted out are lost. -/
def shiftedOne (i : Nat) : Duration := int64 (2 ^ i)

/-- The backoff after attempt `i`, before the jitter. -/
def backoff (initialBackoff maxBackoff : Duration) (i : Nat) : Duration :=
  let backoff := int64 (initialBackoff * shiftedOne i)
  if maxBackoff < backoff then maxBackoff else backoff

/-- What is slept after attempt `i`. -/
def slept (initialBackoff maxBackoff : Duration) (i : Nat) (jitter : Int) : Duration :=
  int64 (backoff initialBackoff maxBackoff i + int64 (jitter * millisecond))

section Programs

variable {T ε : Type}

/-- The loop with `left` attempts to go, `last` being the variables `result` and `err`. -/
def attempts (initialBackoff maxBackoff : Duration) :
    (left i : Nat) → (last : T × Option ε) → Prog (Calls T ε) (T × Option ε)
  | 0, _, last => pure last
  | left + 1, i, _ => do
    let (result, err) ← Prog.perform (I := Calls T ε) .fn
    match err with
    | none => pure (result, none)
    | some err => do
      let jitter ← Prog.perform (I := Calls T ε) (.intn 100)
      Prog.perform (I := Calls T ε) (.sleep (slept initialBackoff maxBackoff i jitter))
      attempts initialBackoff maxBackoff left (i + 1) (result, some err)

/-- `execution.WithRetry`; `zero` is the zero value of the result's type. -/
def withRetry (zero : T) (maxRetries : Int) (initialBackoff maxBackoff : Duration) :
    Prog (Calls T ε) (T × Option ε) :=
  attempts initialBackoff maxBackoff maxRetries.toNat 0 (zero, none)

end Programs

/-! ## 2. What is slept -/

/-- What is watched: the random numbers and the sleeps. -/
inductive Seen
  | drew (jitter : Int)
  | slept (d : Duration)
  deriving DecidableEq

def see {T ε : Type} : (op : Op) → Op.Res T ε op → List Seen
  | .fn, _ => []
  | .intn _, jitter => [.drew jitter]
  | .sleep d, _ => [.slept d]

/-- What is seen of attempts that fail from the `i`-th on, for the random numbers drawn. -/
def waits (initialBackoff maxBackoff : Duration) : (i : Nat) → (jitters : List Int) → List Seen
  | _, [] => []
  | i, jitter :: jitters =>
    [.drew jitter, .slept (slept initialBackoff maxBackoff i jitter)] ++
      waits initialBackoff maxBackoff (i + 1) jitters

section Waits

variable {T ε σ : Type} {sem : Sem (Calls T ε) σ} {initialBackoff maxBackoff : Duration}

theorem mem_waits {i j : Nat} {jitters : List Int} {jitter : Int} (h : jitters[j]? = some jitter) :
    .slept (slept initialBackoff maxBackoff (i + j) jitter) ∈
      waits initialBackoff maxBackoff i jitters := by
  induction jitters generalizing i j with
  | nil => simp at h
  | cons first rest ih =>
    cases j with
    | zero =>
      obtain rfl : first = jitter := by simpa using h
      simp [waits]
    | succ j =>
      have hrest := ih (i := i + 1) (j := j) (by simpa using h)
      rw [Nat.add_right_comm, Nat.add_assoc] at hrest
      simp [waits, hrest]

theorem attempts_waits {left i : Nat} {last r : T × Option ε} {s s' : σ} {seen : List Seen}
    (h : (attempts initialBackoff maxBackoff left i last).Shows sem see s r s' seen) :
    ∃ jitters : List Int, jitters.length ≤ left ∧
      seen = waits initialBackoff maxBackoff i jitters := by
  induction left generalizing i last s seen with
  | zero =>
    obtain ⟨-, -, rfl⟩ := h
    exact ⟨[], le_rfl, rfl⟩
  | succ left ih =>
    obtain ⟨⟨result, err⟩, s₁, rest, -, rfl, h⟩ := h
    cases err with
    | none =>
      obtain ⟨-, -, rfl⟩ := h
      exact ⟨[], Nat.zero_le _, rfl⟩
    | some err =>
      obtain ⟨jitter, s₂, rest₂, -, rfl, _, s₃, rest₃, -, rfl, h⟩ := h
      obtain ⟨jitters, hlength, rfl⟩ := ih h
      exact ⟨jitter :: jitters, by simpa using hlength, rfl⟩

/-- **What a run sleeps.** After the `i`-th failure it is the `i`-th backoff with a jitter, and
there are at most `maxRetries` of them. -/
theorem withRetry_waits {zero : T} {maxRetries : Int} {r : T × Option ε} {s s' : σ}
    {seen : List Seen}
    (h : (withRetry zero maxRetries initialBackoff maxBackoff).Shows sem see s r s' seen) :
    ∃ jitters : List Int, jitters.length ≤ maxRetries.toNat ∧
      seen = waits initialBackoff maxBackoff 0 jitters :=
  attempts_waits h

/-- Where the function always fails, every attempt is made. -/
theorem attempts_failing {result : T} {err : ε} {s : σ}
    (hfn : sem .fn s (result, some err) s) (hintn : ∀ n, sem (.intn n) s (0 : Int) s)
    (hsleep : ∀ d, sem (.sleep d) s () s) (left i : Nat) (last : T × Option ε) :
    ∃ r, (attempts initialBackoff maxBackoff left i last).Shows sem see s r s
      (waits initialBackoff maxBackoff i (List.replicate left 0)) := by
  induction left generalizing i last with
  | zero => exact ⟨last, rfl, rfl, rfl⟩
  | succ left ih =>
    obtain ⟨r, hr⟩ := ih (i + 1) (result, some err)
    exact ⟨r, _, s, _, hfn, rfl, _, s, _, hintn 100, rfl, _, s, _, hsleep _, rfl, hr⟩

end Waits

/-! ## 3. The backoff

One backoff can be right by accident: a product that is far out of the range may wrap to
something that is above `maxBackoff` again. For all attempts together that does not help, since
the FIRST product that leaves the range comes back negative (`not_fits_of_first`). -/

section Backoff

variable {initialBackoff maxBackoff : Duration} {i j : Nat}

theorem int64_mul_shiftedOne (d : Duration) (i : Nat) :
    int64 (d * shiftedOne i) = int64 (d * 2 ^ i) := by
  simp only [shiftedOne, int64, Int.mul_bmod_bmod]

theorem int64_eq {n : Int} (hn : 0 ≤ n) (hlt : n < 2 ^ 63) : int64 n = n :=
  Int.bmod_eq_of_le_mul_two (by omega) (by omega)

/-- The cap holds in any case. -/
theorem backoff_le (initialBackoff maxBackoff : Duration) (i : Nat) :
    backoff initialBackoff maxBackoff i ≤ maxBackoff := by
  simp only [backoff]
  split
  · exact le_rfl
  · rename_i hcap
    exact not_lt.mp hcap

/-- **One backoff.** -/
theorem backoff_eq_min_iff (hpos : 0 < initialBackoff) (hmax : maxBackoff < 2 ^ 63) (i : Nat) :
    backoff initialBackoff maxBackoff i = min (initialBackoff * 2 ^ i) maxBackoff ↔
      initialBackoff * 2 ^ i ≤ maxBackoff ∨ maxBackoff ≤ int64 (initialBackoff * 2 ^ i) := by
  have hnonneg : (0 : Int) ≤ initialBackoff * 2 ^ i := by positivity
  simp only [backoff, int64_mul_shiftedOne]
  by_cases hle : initialBackoff * 2 ^ i ≤ maxBackoff
  · rw [int64_eq hnonneg (lt_of_le_of_lt hle hmax), min_eq_left hle, if_neg (not_lt.mpr hle)]
    simp [hle]
  · rw [min_eq_right (le_of_not_ge hle)]
    split
    · rename_i hcap
      simp [le_of_lt hcap]
    · rename_i hcap
      simp [hle, eq_comm, le_antisymm_iff, not_lt.mp hcap]

/-- Backoffs that are as they are meant to be do not decrease. -/
theorem backoff_mono (hpos : 0 < initialBackoff)
    (hi : backoff initialBackoff maxBackoff i = min (initialBackoff * 2 ^ i) maxBackoff)
    (hj : backoff initialBackoff maxBackoff j = min (initialBackoff * 2 ^ j) maxBackoff)
    (hij : i ≤ j) :
    backoff initialBackoff maxBackoff i ≤ backoff initialBackoff maxBackoff j := by
  have hpow : (2 : Int) ^ i ≤ 2 ^ j := pow_le_pow_right₀ (by decide) hij
  rw [hi, hj]
  exact min_le_min_right _ (mul_le_mul_of_nonneg_left hpow hpos.le)

/-- A product that does not wrap is capped as it should be. -/
theorem backoff_of_fits (hpos : 0 < initialBackoff) (hmax : maxBackoff < 2 ^ 63)
    (hfits : initialBackoff * 2 ^ i < 2 ^ 63) :
    backoff initialBackoff maxBackoff i = min (initialBackoff * 2 ^ i) maxBackoff := by
  rw [backoff_eq_min_iff hpos hmax, int64_eq (by positivity) hfits]
  exact le_total _ _

/-- One bit too many makes a number negative. -/
theorem int64_neg {n : Int} (hle : 2 ^ 63 ≤ n) (hlt : n < 2 ^ 64) : int64 n < 0 := by
  have hwrap : int64 n = n - 2 ^ 64 := by
    rw [int64, ← Int.sub_bmod_right]
    exact Int.bmod_eq_of_le_mul_two (by omega) (by omega)
  omega

/-- The first product that leaves the range is not capped: it is negative. -/
theorem not_fits_of_first (hle : initialBackoff ≤ maxBackoff) (hmax : maxBackoff < 2 ^ 63)
    (hpos : 0 < initialBackoff) (hfits : initialBackoff * 2 ^ i < 2 ^ 63)
    (hmeant : backoff initialBackoff maxBackoff (i + 1) =
      min (initialBackoff * 2 ^ (i + 1)) maxBackoff) : initialBackoff * 2 ^ (i + 1) < 2 ^ 63 := by
  by_contra hwraps
  have hdouble : initialBackoff * 2 ^ (i + 1) = 2 * (initialBackoff * 2 ^ i) := by ring
  have hneg : int64 (initialBackoff * 2 ^ (i + 1)) < 0 :=
    int64_neg (not_lt.mp hwraps) (by rw [hdouble]; linarith)
  obtain hsmall | hlarge := (backoff_eq_min_iff hpos hmax (i + 1)).mp hmeant
  · exact hwraps (lt_of_le_of_lt hsmall hmax)
  · exact absurd (hpos.trans_le (hle.trans hlarge)) hneg.not_gt

/-- **All backoffs.**  The condition is on the durations and the number of attempts alone. -/
theorem backoffs_eq_min_iff (hpos : 0 < initialBackoff) (hle : initialBackoff ≤ maxBackoff)
    (hmax : maxBackoff < 2 ^ 63) (maxRetries : Int) :
    (∀ i : Nat, i < maxRetries →
        backoff initialBackoff maxBackoff i = min (initialBackoff * 2 ^ i) maxBackoff) ↔
      ∀ i : Nat, i < maxRetries → initialBackoff * 2 ^ i < 2 ^ 63 := by
  constructor
  · intro hmeant i hi
    induction i with
    | zero =>
      rw [pow_zero, mul_one]
      exact lt_of_le_of_lt hle hmax
    | succ i ih => exact not_fits_of_first hle hmax hpos (ih (by omega)) (hmeant (i + 1) hi)
  · intro hfits i hi
    exact backoff_of_fits hpos hmax (hfits i hi)

end Backoff

/-- **When the backoffs are what they are meant to be.** Any run of `WithRetry` sleeps the backoffs
in order, each with a jitter.  They are `min (initialBackoff * 2 ^ i) maxBackoff` for all attempts
if and only if none of the products `initialBackoff * 2 ^ i` reaches `2 ^ 63`; and then they are not
negative, do not decrease and do not exceed `maxBackoff`. -/
theorem withRetry_backoff_iff {T ε σ : Type} (sem : Sem (Calls T ε) σ) (zero : T)
    (maxRetries : Int) {initialBackoff maxBackoff : Duration} (hpos : 0 < initialBackoff)
    (hle : initialBackoff ≤ maxBackoff) (hmax : maxBackoff < 2 ^ 63) :
    (∀ s r s' seen,
      (withRetry zero maxRetries initialBackoff maxBackoff).Shows sem see s r s' seen →
        ∃ jitters : List Int, jitters.length ≤ maxRetries.toNat ∧
          seen = waits initialBackoff maxBackoff 0 jitters) ∧
    ((∀ i : Nat, i < maxRetries →
        backoff initialBackoff maxBackoff i = min (initialBackoff * 2 ^ i) maxBackoff) ↔
      ∀ i : Nat, i < maxRetries → initialBackoff * 2 ^ i < 2 ^ 63) ∧
    ((∀ i : Nat, i < maxRetries →
        backoff initialBackoff maxBackoff i = min (initialBackoff * 2 ^ i) maxBackoff) →
      ∀ i : Nat, i < maxRetries → 0 ≤ backoff initialBackoff maxBackoff i ∧
        backoff initialBackoff maxBackoff i ≤ maxBackoff ∧
        ∀ j ≤ i, backoff initialBackoff maxBackoff j ≤ backoff initialBackoff maxBackoff i) := by
  refine ⟨fun s r s' seen => withRetry_waits, ?_, fun hall i hi => ⟨?_, backoff_le _ _ _, ?_⟩⟩
  · exact backoffs_eq_min_iff hpos hle hmax maxRetries
  · rw [hall i hi]
    exact le_min (by positivity) (hpos.le.trans hle)
  · intro j hj
    exact backoff_mono hpos (hall j (by omega)) (hall i hi) hj

/-! ## 4. The AWS provider -/

/-- The constants of `aws_kms_provider.go`. -/
def awsInitialBackoff : Duration := 100 * millisecond

def awsMaxBackoff : Duration := 1 * second

/-- The three attempts of the AWS provider wait 100, 200 and 400 milliseconds. -/
theorem withRetry_backoff_iff_aws :
    0 < awsInitialBackoff ∧ awsInitialBackoff ≤ awsMaxBackoff ∧
    ∀ i : Nat, i < (maxRetries : Int) → backoff awsInitialBackoff awsMaxBackoff i =
      min (awsInitialBackoff * 2 ^ i) awsMaxBackoff := by
  have hsem : Sem (Calls Bytes Err) Unit := fun _ _ _ _ => True
  refine ⟨by decide, by decide, ?_⟩
  refine (withRetry_backoff_iff hsem [] maxRetries (by decide) (by decide) (by decide)).2.1.mpr ?_
  intro i hi
  have hfew : i ≤ 2 := by
    simp only [maxRetries] at hi
    omega
  have hpow : (2 : Int) ^ i ≤ 2 ^ 2 := pow_le_pow_right₀ (by decide) hfew
  have hmul : awsInitialBackoff * 2 ^ i ≤ awsInitialBackoff * 2 ^ 2 :=
    mul_le_mul_of_nonneg_left hpow (by decide)
  exact lt_of_le_of_lt hmul (by decide)

/-- A function that always fails. -/
def failing : Sem (Calls Unit Unit) Unit
  | .fn, _, a, _ => a = ((), some ())
  | .intn _, _, jitter, _ => jitter = 0
  | .sleep _, _, _, _ => True

/-- **A negative backoff.** With the constants of the AWS provider and 38 attempts that fail, the
last sleep is one of less than nothing. -/
theorem backoff_wraps :
    backoff awsInitialBackoff awsMaxBackoff 37 < 0 ∧
    ∃ r seen, (withRetry () 38 awsInitialBackoff awsMaxBackoff).Shows failing see () r () seen ∧
      .slept (backoff awsInitialBackoff awsMaxBackoff 37) ∈ seen := by
  have hall : ∃ r, (attempts awsInitialBackoff awsMaxBackoff 38 0 ((), none)).Shows failing see ()
      r () (waits awsInitialBackoff awsMaxBackoff 0 (List.replicate 38 0)) :=
    attempts_failing rfl (fun _ => rfl) (fun _ => trivial) 38 0 ((), none)
  obtain ⟨r, hrun⟩ := hall
  have hlast : (List.replicate 38 (0 : Int))[37]? = some 0 := by decide
  have hslept : slept awsInitialBackoff awsMaxBackoff (0 + 37) 0 =
      backoff awsInitialBackoff awsMaxBackoff 37 := by decide
  refine ⟨by decide, r, _, hrun, ?_⟩
  rw [← hslept]
  exact mem_waits hlast

/-- What the caller gets. -/
def outcome {T : Type} : T × Option Err → Except Err T
  | (result, none) => .ok result
  | (_, some err) => .error err

section Results

variable {T : Type} {fn : Except Err T → Prop} {initialBackoff maxBackoff : Duration}

/-- A function with the given results. -/
def answering (fn : Except Err T → Prop) : Sem (Calls T Err) Unit
  | .fn, _, a, _ => fn (outcome a)
  | .intn n, _, jitter, _ => 0 ≤ jitter ∧ jitter < n
  | .sleep _, _, _, _ => True

theorem attempts_results (zero : T) {x : Except Err T} (left i : Nat) (last : T × Option Err) :
    (∃ r, (attempts initialBackoff maxBackoff left i last).Runs (answering fn) () r () ∧
      outcome r = x) ↔ Polykey.withRetry fn left (outcome last) x := by
  induction left generalizing i last with
  | zero =>
    constructor
    · rintro ⟨r, ⟨rfl, -⟩, rfl⟩
      rfl
    · rintro rfl
      exact ⟨last, ⟨rfl, rfl⟩, rfl⟩
  | succ left ih =>
    constructor
    · rintro ⟨r, ⟨⟨result, err⟩, _, hfn, hrun⟩, rfl⟩
      cases err with
      | none =>
        obtain ⟨rfl, -⟩ := hrun
        exact .inl ⟨result, hfn, rfl⟩
      | some err =>
        obtain ⟨jitter, _, -, _, _, -, hrun⟩ := hrun
        exact .inr ⟨err, hfn, (ih (i + 1) (result, some err)).mp ⟨r, hrun, rfl⟩⟩
    · rintro (⟨a, ha, rfl⟩ | ⟨err, herr, hrest⟩)
      · exact ⟨(a, none), ⟨(a, none), (), ha, rfl, rfl⟩, rfl⟩
      · obtain ⟨r, hrun, rfl⟩ := (ih (i + 1) (zero, some err)).mpr hrest
        have hjitter : (0 : Int) ≤ 0 ∧ (0 : Int) < 100 := ⟨le_rfl, by norm_num⟩
        exact ⟨r, ⟨(zero, some err), (), herr, (0 : Int), (), hjitter, (), (), trivial, hrun⟩, rfl⟩

/-- **The results of `WithRetry`** are those that the providers are modelled with. -/
theorem withRetry_results (zero : T) (n : Nat) (x : Except Err T) :
    (∃ r, (withRetry zero n initialBackoff maxBackoff).Runs (answering fn) () r () ∧
      outcome r = x) ↔ Polykey.withRetry fn n (.ok zero) x :=
  attempts_results zero n 0 (zero, none)

end Results

end Execution

end Polykey
