/-
# The worker pool

`concurrency.WorkerPool`: `Submit` puts a job into a bounded channel or reports that there is no
room, the workers take jobs out, process them and send the results into a second channel of the same
size, and `Stop` closes the first channel, waits for the workers, and closes the second.

What the pool promises is that no job is lost and none is processed twice, and `Stop` says that it
"waits for all submitted jobs to be processed".  Three things are proved:

* In every state, whatever the callers, the workers and the readers have been doing, the accepted
  jobs are those still in the channel and those taken out of it, in the order of their submission,
  and each job taken out has at most one result, which is in a worker's hands, in the second
  channel, or has been read (`jobs_conserved`).  No worker sends into the closed channel.
* When `Stop` has returned, every job that was taken out has its result, and a job was left in the
  channel only if the context was cancelled or there was no worker (`stop_drains`).
* A worker blocks on a full second channel.  So `Stop` returns by itself exactly if the results that
  are still to come fit into what is left of that channel; if they do not, it waits forever for a
  reader (`stop_returns_iff`).

`accepted`, `rejected`, `taken`, `processed`, `received`, `interrupted` and `panics` record what has
happened; no step looks at them.
-/
import Mathlib.Data.List.Perm.Basic
import Mathlib.Data.Multiset.AddSub
import Polykey.Domain.Types
import Polykey.Lib.Progress

namespace Polykey

namespace WorkerPool

open Relation Lib

/-! ## 1. The pool -/

/-- `NewWorkerPool`'s numbers. -/
structure Config where
  workerCount : Nat
  queueDepth : Nat

/-- `Result`. -/
structure Result (R : Type) where
  value : R
  err : Option Err

/-- `Processor`: the results it can return for a job.  It is handed the context too, so there may be
more than one. -/
abbrev Processor (T R : Type) := T → Result R → Prop

/-- Where a worker stands. -/
inductive Worker (T R : Type)
  /-- at the `select` -/
  | selecting
  /-- in the processor -/
  | processing (data : T)
  /-- at the send of its result -/
  | sending (result : Result R)
  | exited

variable {T R : Type}

/-- The job a worker is at, and the result it has in its hands. -/
def Worker.job : Worker T R → List T
  | processing data => [data]
  | selecting | sending _ | exited => []

def Worker.result : Worker T R → List (Result R)
  | sending result => [result]
  | selecting | processing _ | exited => []

/-- Has it not left? -/
def Worker.present : Worker T R → Bool
  | selecting | processing _ | sending _ => true
  | exited => false

@[simp] theorem job_selecting : (Worker.selecting : Worker T R).job = [] := rfl
@[simp] theorem job_processing (data : T) :
    (Worker.processing data : Worker T R).job = [data] := rfl
@[simp] theorem job_sending (r : Result R) : (Worker.sending r : Worker T R).job = [] := rfl
@[simp] theorem job_exited : (Worker.exited : Worker T R).job = [] := rfl
@[simp] theorem result_selecting : (Worker.selecting : Worker T R).result = [] := rfl
@[simp] theorem result_processing (data : T) :
    (Worker.processing data : Worker T R).result = [] := rfl
@[simp] theorem result_sending (r : Result R) : (Worker.sending r : Worker T R).result = [r] := rfl
@[simp] theorem result_exited : (Worker.exited : Worker T R).result = [] := rfl
@[simp] theorem present_selecting : (Worker.selecting : Worker T R).present = true := rfl
@[simp] theorem present_processing (data : T) :
    (Worker.processing data : Worker T R).present = true := rfl
@[simp] theorem present_sending (r : Result R) :
    (Worker.sending r : Worker T R).present = true := rfl
@[simp] theorem present_exited : (Worker.exited : Worker T R).present = false := rfl

/-- How far `Stop` has come. -/
inductive Lifecycle
  | running
  /-- the jobs' channel is closed and `Stop` waits for the workers -/
  | waiting
  /-- the results' channel is closed too, and `Stop` has returned -/
  | stopped
  deriving DecidableEq

/-- Who runs into a closed channel. -/
inductive Panic
  | submit
  | stop
  | worker
  deriving DecidableEq

structure State (T R : Type) where
  lifecycle : Lifecycle
  cancelled : Bool
  jobs : List T
  results : List (Result R)
  workers : List (Worker T R)
  accepted : List T
  rejected : List T
  taken : List T
  processed : List (T × Result R)
  received : List (Result R)
  /-- the parent's context was cancelled before `Stop` returned -/
  interrupted : Bool
  panics : List Panic

namespace State

/-- `NewWorkerPool`. -/
def new : State T R := ⟨.running, false, [], [], [], [], [], [], [], [], false, []⟩

/-- The jobs in the workers' hands, and the results in their hands. -/
def inHand (st : State T R) : List T := st.workers.flatMap Worker.job

def unsent (st : State T R) : List (Result R) := st.workers.flatMap Worker.result

/-- How many results are still to be sent. -/
def outstanding (st : State T R) : Nat := st.jobs.length + st.inHand.length + st.unsent.length

end State

/-- Who takes a step. -/
inductive Actor
  | caller
  | reader
  | worker
  | stop
  deriving DecidableEq

/-- One step of the pool. -/
inductive Step (cfg : Config) (processor : Processor T R) : Actor → State T R → State T R → Prop
  /-- `Start`, before `Stop` is called -/
  | start {st : State T R} (h : st.lifecycle = .running) :
    Step cfg processor .caller st
      { st with workers := st.workers ++ List.replicate cfg.workerCount .selecting }
  /-- `Submit` puts the job into the buffer -/
  | enqueue {st : State T R} (data : T) (hopen : st.lifecycle = .running)
    (hroom : st.jobs.length < cfg.queueDepth) :
    Step cfg processor .caller st
      { st with jobs := st.jobs ++ [data], accepted := st.accepted ++ [data] }
  /-- `Submit` hands the job to a worker that is waiting at an empty channel -/
  | handOff {st : State T R} {before after : List (Worker T R)} (data : T)
    (hopen : st.lifecycle = .running) (hempty : st.jobs = [])
    (hworkers : st.workers = before ++ .selecting :: after) :
    Step cfg processor .caller st
      { st with
        workers := before ++ .processing data :: after
        accepted := st.accepted ++ [data]
        taken := st.taken ++ [data] }
  /-- `Submit` finds no room -/
  | reject {st : State T R} (data : T) (hopen : st.lifecycle = .running)
    (hfull : cfg.queueDepth ≤ st.jobs.length) :
    Step cfg processor .caller st { st with rejected := st.rejected ++ [data] }
  /-- `Submit` after `Stop` -/
  | submitClosed {st : State T R} (hclosed : st.lifecycle ≠ .running) :
    Step cfg processor .caller st { st with panics := st.panics ++ [.submit] }
  /-- the parent's context is cancelled -/
  | cancel {st : State T R} (h : st.lifecycle ≠ .stopped) :
    Step cfg processor .caller st { st with cancelled := true, interrupted := true }
  /-- `Stop` closes the jobs' channel -/
  | stop {st : State T R} (hopen : st.lifecycle = .running) :
    Step cfg processor .caller st { st with lifecycle := .waiting }
  /-- a second `Stop` -/
  | stopClosed {st : State T R} (hclosed : st.lifecycle ≠ .running) :
    Step cfg processor .caller st { st with panics := st.panics ++ [.stop] }
  /-- a worker takes the first job -/
  | receive {st : State T R} {before after : List (Worker T R)} {data : T} {rest : List T}
    (hjobs : st.jobs = data :: rest) (hworkers : st.workers = before ++ .selecting :: after) :
    Step cfg processor .worker st
      { st with
        jobs := rest
        workers := before ++ .processing data :: after
        taken := st.taken ++ [data] }
  /-- a worker finds the channel closed and empty -/
  | finish {st : State T R} {before after : List (Worker T R)} (hclosed : st.lifecycle ≠ .running)
    (hempty : st.jobs = []) (hworkers : st.workers = before ++ .selecting :: after) :
    Step cfg processor .worker st { st with workers := before ++ .exited :: after }
  /-- a worker finds the context cancelled -/
  | quit {st : State T R} {before after : List (Worker T R)} (hcancelled : st.cancelled = true)
    (hworkers : st.workers = before ++ .selecting :: after) :
    Step cfg processor .worker st { st with workers := before ++ .exited :: after }
  | process {st : State T R} {before after : List (Worker T R)} {data : T} {result : Result R}
    (hworkers : st.workers = before ++ .processing data :: after)
    (hresult : processor data result) :
    Step cfg processor .worker st
      { st with
        workers := before ++ .sending result :: after
        processed := st.processed ++ [(data, result)] }
  /-- a worker puts its result into the buffer -/
  | send {st : State T R} {before after : List (Worker T R)} {result : Result R}
    (hworkers : st.workers = before ++ .sending result :: after)
    (hopen : st.lifecycle ≠ .stopped) (hroom : st.results.length < cfg.queueDepth) :
    Step cfg processor .worker st
      { st with
        workers := before ++ .selecting :: after
        results := st.results ++ [result] }
  /-- a worker sends into the closed channel -/
  | sendClosed {st : State T R} {before after : List (Worker T R)} {result : Result R}
    (hworkers : st.workers = before ++ .sending result :: after)
    (hclosed : st.lifecycle = .stopped) :
    Step cfg processor .worker st
      { st with
        workers := before ++ .exited :: after
        panics := st.panics ++ [.worker] }
  /-- a reader takes the first result out of the buffer -/
  | read {st : State T R} {result : Result R} {rest : List (Result R)}
    (hresults : st.results = result :: rest) :
    Step cfg processor .reader st { st with results := rest, received := st.received ++ [result] }
  /-- a reader that is waiting at an empty channel takes a result from a worker -/
  | rendezvous {st : State T R} {before after : List (Worker T R)} {result : Result R}
    (hworkers : st.workers = before ++ .sending result :: after)
    (hopen : st.lifecycle ≠ .stopped) (hempty : st.results = []) :
    Step cfg processor .reader st
      { st with
        workers := before ++ .selecting :: after
        received := st.received ++ [result] }
  /-- the workers have left: `Stop` closes the results' channel, cancels the context and returns -/
  | returned {st : State T R} (hwaiting : st.lifecycle = .waiting)
    (hworkers : ∀ w ∈ st.workers, w = .exited) :
    Step cfg processor .stop st { st with lifecycle := .stopped, cancelled := true }

/-- The states a pool can come to. -/
abbrev Reachable (cfg : Config) (processor : Processor T R) (st : State T R) : Prop :=
  ReflTransGen (fun s s' => ∃ actor, Step cfg processor actor s s') .new st

/-- A step of a pool that is left alone: of a worker, or the return of `Stop`. -/
def Alone (cfg : Config) (processor : Processor T R) (st st' : State T R) : Prop :=
  ∃ actor, (actor = .worker ∨ actor = .stop) ∧ Step cfg processor actor st st'

/-! ## 2. What every step keeps

Most steps are the turn of one worker, with the others as they were. `Kept.of_turn` says what has
to balance in such a turn, so that in each case of the step there is only the worker itself to
look at. -/

section Steps

variable {cfg : Config} {processor : Processor T R} {actor : Actor} {st st' : State T R}
  {before after : List (Worker T R)} {w w' : Worker T R}

/-- **Conservation.** Jobs leave the channel in the order in which they came; a job that was taken
is in a worker's hands or has a result, and a result is in a worker's hands, in the channel or has
been read. -/
structure Kept (processor : Processor T R) (st : State T R) : Prop where
  order : st.accepted = st.taken ++ st.jobs
  taken : st.taken.Perm (st.inHand ++ st.processed.map Prod.fst)
  results : (st.processed.map Prod.snd).Perm (st.unsent ++ (st.received ++ st.results))
  processed : ∀ x ∈ st.processed, processor x.1 x.2

/-- The channels do not overflow, and workers leave when they should. -/
structure Manned (cfg : Config) (st : State T R) : Prop where
  jobs_le : st.jobs.length ≤ cfg.queueDepth
  results_le : st.results.length ≤ cfg.queueDepth
  returned : st.lifecycle = .stopped → ∀ w ∈ st.workers, w = .exited
  leaving : st.interrupted = false → .exited ∈ st.workers →
    st.lifecycle ≠ .running ∧ st.jobs = []
  cancelled : st.cancelled = true → st.interrupted = true ∨ st.lifecycle = .stopped
  noPanic : Panic.worker ∉ st.panics

/-- While there is another worker than those that have left, `Stop` has not returned. -/
theorem Manned.not_stopped (h : Manned cfg st) (hworkers : st.workers = before ++ w :: after)
    (hw : w ≠ .exited) : st.lifecycle ≠ .stopped := by
  intro hstopped
  exact hw (h.returned hstopped w (by simp [hworkers]))

theorem flatMap_replicate_selecting {α : Type} (n : Nat) {f : Worker T R → List α}
    (hf : f .selecting = []) :
    (List.replicate n (Worker.selecting : Worker T R)).flatMap f = [] := by
  rw [List.flatMap_eq_nil_iff]
  intro w hw
  rw [List.eq_of_mem_replicate hw, hf]

/-- The counts in the workers' hands, one worker apart from the others. -/
theorem count_flatMap_turn {α : Type} [BEq α] (f : Worker T R → List α) (a : α) :
    ((before ++ w :: after).flatMap f).count a =
      (f w).count a + ((before ++ after).flatMap f).count a := by
  simp only [List.flatMap_append, List.flatMap_cons, List.count_append]
  omega

/-- One worker takes a step.  It is enough that the step balances: the job that the worker gets is
the one that is taken or was in its hands, and so for its result. -/
theorem Kept.of_turn (hst : Kept processor st) (hworkers : st.workers = before ++ w :: after)
    (hworkers' : st'.workers = before ++ w' :: after) (jobs : List T)
    (done : List (T × Result R)) (sent : List (Result R))
    (horder : st'.accepted = st'.taken ++ st'.jobs) (htaken : st'.taken = st.taken ++ jobs)
    (hprocessed : st'.processed = st.processed ++ done) (hdone : ∀ x ∈ done, processor x.1 x.2)
    (hsent : (st'.received ++ st'.results).Perm (st.received ++ st.results ++ sent))
    (hjob : (w.job ++ jobs).Perm (w'.job ++ done.map Prod.fst))
    (hresult : (w.result ++ done.map Prod.snd).Perm (w'.result ++ sent)) :
    Kept processor st' := by
  classical
  have htakenAll := hst.taken
  have hresultsAll := hst.results
  rw [List.perm_iff_count] at htakenAll hresultsAll hsent hjob hresult
  refine ⟨horder, ?_, ?_, ?_⟩
  · rw [List.perm_iff_count]
    intro a
    have hall := htakenAll a
    have hone := hjob a
    simp only [State.inHand, hworkers, hworkers', htaken, hprocessed, count_flatMap_turn,
      List.map_append, List.count_append] at hall hone ⊢
    omega
  · rw [List.perm_iff_count]
    intro a
    have hall := hresultsAll a
    have hone := hresult a
    have hout := hsent a
    simp only [State.unsent, hworkers, hworkers', hprocessed, count_flatMap_turn, List.map_append,
      List.count_append] at hall hone hout ⊢
    omega
  · intro x hx
    rw [hprocessed] at hx
    rcases List.mem_append.mp hx with hx | hx
    · exact hst.processed x hx
    · exact hdone x hx

theorem Step.kept (h : Step cfg processor actor st st') (hmanned : Manned cfg st)
    (hst : Kept processor st) : Kept processor st' := by
  have hkeep : (st.received ++ st.results).Perm (st.received ++ st.results ++ []) := by
    rw [List.append_nil]
  cases h with
  | start h =>
    have hinHand := flatMap_replicate_selecting (T := T) (R := R) cfg.workerCount job_selecting
    have hunsent := flatMap_replicate_selecting (T := T) (R := R) cfg.workerCount result_selecting
    refine ⟨hst.order, ?_, ?_, hst.processed⟩
    · simpa only [State.inHand, List.flatMap_append, hinHand, List.append_nil] using hst.taken
    · simpa only [State.unsent, List.flatMap_append, hunsent, List.append_nil] using hst.results
  | enqueue data hopen hroom => exact ⟨by simp [hst.order], hst.taken, hst.results, hst.processed⟩
  | reject _ _ _ | submitClosed _ | cancel _ | stop _ | stopClosed _ | returned _ _ =>
    exact ⟨hst.order, hst.taken, hst.results, hst.processed⟩
  | handOff data hopen hempty hworkers =>
    exact hst.of_turn hworkers rfl [data] [] [] (by simp [hst.order, hempty]) rfl (by simp)
      (by simp) hkeep (by simp) (by simp)
  | @receive _ before after data rest hjobs hworkers =>
    exact hst.of_turn hworkers rfl [data] [] [] (by simp [hst.order, hjobs]) rfl (by simp)
      (by simp) hkeep (by simp) (by simp)
  | finish hclosed hempty hworkers =>
    exact hst.of_turn hworkers rfl [] [] [] hst.order (by simp) (by simp) (by simp) hkeep
      (by simp) (by simp)
  | quit hcancelled hworkers =>
    exact hst.of_turn hworkers rfl [] [] [] hst.order (by simp) (by simp) (by simp) hkeep
      (by simp) (by simp)
  | @process _ before after data result hworkers hresult =>
    exact hst.of_turn hworkers rfl [] [(data, result)] [] hst.order (by simp) rfl
      (by simpa using hresult) hkeep (by simp) (by simp)
  | @send _ before after result hworkers hopen hroom =>
    exact hst.of_turn hworkers rfl [] [] [result] hst.order (by simp) (by simp) (by simp)
      (by simp) (by simp) (by simp)
  | sendClosed hworkers hclosed =>
    -- there is no worker left when the channel is closed
    exact absurd hclosed (hmanned.not_stopped hworkers (by simp))
  | read hresults =>
    refine ⟨hst.order, hst.taken, ?_, hst.processed⟩
    simpa [State.unsent, hresults] using hst.results
  | @rendezvous _ before after result hworkers hopen hempty =>
    exact hst.of_turn hworkers rfl [] [] [result] hst.order (by simp) (by simp) (by simp)
      (by simp [hempty]) (by simp) (by simp)

/-- One worker takes a step that leaves the rest of the pool as it is. -/
theorem exited_of_mem_turn (hw' : w' ≠ .exited) (h : .exited ∈ before ++ w' :: after) :
    .exited ∈ before ++ w :: after := by
  simp only [List.mem_append, List.mem_cons] at h ⊢
  rcases h with h | h | h
  · exact .inl h
  · exact absurd h.symm hw'
  · exact .inr (.inr h)

theorem Step.manned (h : Step cfg processor actor st st') (hst : Manned cfg st) :
    Manned cfg st' := by
  have ⟨hjobs_le, hresults_le, hreturned, hleaving, hcancelled, hnoPanic⟩ := hst
  cases h with
  | start h =>
    refine ⟨hjobs_le, hresults_le, by simp [h], ?_, hcancelled, hnoPanic⟩
    intro hi hexited
    refine hleaving hi ?_
    rcases List.mem_append.mp hexited with hmem | hmem
    · exact hmem
    · cases List.eq_of_mem_replicate hmem
  | enqueue data hopen hroom =>
    refine ⟨by simp; omega, hresults_le, hreturned, ?_, hcancelled, hnoPanic⟩
    intro hi hexited
    exact absurd hopen (hleaving hi hexited).1
  | handOff data hopen hempty hworkers =>
    refine ⟨hjobs_le, hresults_le, by simp [hopen], ?_, hcancelled, hnoPanic⟩
    intro hi hexited
    exact hleaving hi (hworkers ▸ exited_of_mem_turn (by simp) hexited)
  | reject data hopen hfull =>
    exact ⟨hjobs_le, hresults_le, hreturned, hleaving, hcancelled, hnoPanic⟩
  | submitClosed hclosed | stopClosed hclosed =>
    exact ⟨hjobs_le, hresults_le, hreturned, hleaving, hcancelled, by simp [hnoPanic]⟩
  | cancel h => exact ⟨hjobs_le, hresults_le, hreturned, by simp, by simp, hnoPanic⟩
  | stop hopen =>
    refine ⟨hjobs_le, hresults_le, by simp, ?_, ?_, hnoPanic⟩
    · intro hi hexited
      exact absurd hopen (hleaving hi hexited).1
    · intro hc
      exact (hcancelled hc).imp_right fun hstopped => by simp [hopen] at hstopped
  | receive hjobs hworkers =>
    refine ⟨?_, hresults_le, fun h => absurd h (hst.not_stopped hworkers (by simp)), ?_,
      hcancelled, hnoPanic⟩
    · simp only [hjobs, List.length_cons] at hjobs_le ⊢
      omega
    · intro hi hexited
      have hempty := (hleaving hi (hworkers ▸ exited_of_mem_turn (by simp) hexited)).2
      simp [hjobs] at hempty
  | finish hclosed hempty hworkers =>
    exact ⟨hjobs_le, hresults_le, fun h => absurd h (hst.not_stopped hworkers (by simp)),
      fun _ _ => ⟨hclosed, hempty⟩, hcancelled, hnoPanic⟩
  | quit hc hworkers =>
    refine ⟨hjobs_le, hresults_le, fun h => absurd h (hst.not_stopped hworkers (by simp)), ?_,
      hcancelled, hnoPanic⟩
    intro hi _
    -- only the parent can have cancelled the context while there is a worker
    rcases hcancelled hc with hi' | hstopped
    · cases hi.symm.trans hi'
    · exact absurd hstopped (hst.not_stopped hworkers (by simp))
  | process hworkers hresult =>
    refine ⟨hjobs_le, hresults_le, fun h => absurd h (hst.not_stopped hworkers (by simp)), ?_,
      hcancelled, hnoPanic⟩
    intro hi hexited
    exact hleaving hi (hworkers ▸ exited_of_mem_turn (by simp) hexited)
  | send hworkers hopen hroom =>
    refine ⟨hjobs_le, by simp; omega, fun hstopped => absurd hstopped hopen, ?_, hcancelled,
      hnoPanic⟩
    intro hi hexited
    exact hleaving hi (hworkers ▸ exited_of_mem_turn (by simp) hexited)
  | sendClosed hworkers hclosed => exact absurd hclosed (hst.not_stopped hworkers (by simp))
  | read hresults =>
    refine ⟨hjobs_le, ?_, hreturned, hleaving, hcancelled, hnoPanic⟩
    simp only [hresults, List.length_cons] at hresults_le ⊢
    omega
  | rendezvous hworkers hopen hempty =>
    refine ⟨hjobs_le, hresults_le, fun hstopped => absurd hstopped hopen, ?_, hcancelled, hnoPanic⟩
    intro hi hexited
    exact hleaving hi (hworkers ▸ exited_of_mem_turn (by simp) hexited)
  | returned hwaiting hworkers =>
    refine ⟨hjobs_le, hresults_le, fun _ => hworkers, ?_, by simp, hnoPanic⟩
    intro hi hexited
    exact ⟨by simp, (hleaving hi hexited).2⟩

end Steps

/-! ## 3. Runs -/

section Runs

variable {cfg : Config} {processor : Processor T R} {st st' : State T R}

theorem Reachable.sound (h : Reachable cfg processor st) :
    Kept processor st ∧ Manned cfg st := by
  refine run_invariant (P := fun s => Kept processor s ∧ Manned cfg s) ?_ ?_ h
  · rintro s s' ⟨hkept, hmanned⟩ ⟨actor, hstep⟩
    exact ⟨hstep.kept hmanned hkept, hstep.manned hmanned⟩
  · exact ⟨⟨rfl, .refl _, .refl _, by simp [State.new]⟩,
      ⟨Nat.zero_le _, Nat.zero_le _, by simp [State.new], by simp [State.new],
        by simp [State.new], by simp [State.new]⟩⟩

/-- **No job is lost and none is processed twice.**  Whatever callers, workers and readers have been
doing: the accepted jobs are the ones taken out of the channel followed by the ones in it, in the
order of their submission; each job taken out is being processed or has one result, which the
processor gave for it; each result is about to be sent, in the channel, or has been read; and no
worker has sent into the closed channel. -/
theorem jobs_conserved (h : Reachable cfg processor st) :
    st.accepted = st.taken ++ st.jobs ∧
    st.taken.Perm (st.inHand ++ st.processed.map Prod.fst) ∧
    (st.processed.map Prod.snd).Perm (st.unsent ++ (st.received ++ st.results)) ∧
    (∀ x ∈ st.processed, processor x.1 x.2) ∧
    st.jobs.length ≤ cfg.queueDepth ∧ st.results.length ≤ cfg.queueDepth ∧
    Panic.worker ∉ st.panics := by
  obtain ⟨hkept, hmanned⟩ := h.sound
  exact ⟨hkept.order, hkept.taken, hkept.results, hkept.processed, hmanned.jobs_le,
    hmanned.results_le, hmanned.noPanic⟩

theorem flatMap_exited {α : Type} {f : Worker T R → List α} (hf : f .exited = [])
    {workers : List (Worker T R)} (h : ∀ w ∈ workers, w = .exited) : workers.flatMap f = [] := by
  rw [List.flatMap_eq_nil_iff]
  intro w hw
  rw [h w hw, hf]

/-- **When `Stop` has returned**, every job that was taken out of the channel has its result, in the
channel or read; and if a job was left behind, the context had been cancelled or the pool had no
worker. -/
theorem stop_drains (h : Reachable cfg processor st) (hstopped : st.lifecycle = .stopped) :
    st.taken.Perm (st.processed.map Prod.fst) ∧
    (st.processed.map Prod.snd).Perm (st.received ++ st.results) ∧
    (st.interrupted = false → st.workers ≠ [] →
      st.accepted.Perm (st.processed.map Prod.fst)) := by
  obtain ⟨hkept, hmanned⟩ := h.sound
  have hexited := hmanned.returned hstopped
  have hinHand : st.inHand = [] := flatMap_exited job_exited hexited
  have hunsent : st.unsent = [] := flatMap_exited result_exited hexited
  have htaken := hkept.taken
  have hresults := hkept.results
  rw [hinHand, List.nil_append] at htaken
  rw [hunsent, List.nil_append] at hresults
  refine ⟨htaken, hresults, ?_⟩
  intro hi hworkers
  obtain ⟨w, hw⟩ := List.exists_mem_of_ne_nil _ hworkers
  have hempty := (hmanned.leaving hi (hexited w hw ▸ hw)).2
  rw [hkept.order, hempty, List.append_nil]
  exact htaken

end Runs

/-! ## 4. A pool that is left alone

Every step lowers `work`, so the pool comes to rest. What does not change on the way is the
number of results that there will be, and that number decides in which state it comes to rest. -/

section Alone

variable {cfg : Config} {processor : Processor T R} {st st' : State T R}

/-- How much there is left to do: three turns for a job in the channel, two for one in a worker's
hands, one for a result, one for each worker to leave and one for `Stop`. -/
def State.work (st : State T R) : Nat :=
  3 * st.jobs.length + 2 * st.inHand.length + st.unsent.length + st.workers.countP Worker.present +
    if st.lifecycle = .waiting then 1 else 0

theorem Alone.work_lt (h : Alone cfg processor st st') : st'.work < st.work := by
  obtain ⟨actor, hactor, hstep⟩ := h
  cases hstep with
  | receive hjobs hworkers =>
    simp [State.work, State.inHand, State.unsent, hworkers, hjobs, List.countP_cons]
    omega
  | finish _ _ hworkers | quit _ hworkers | send hworkers _ _ =>
    simp [State.work, State.inHand, State.unsent, hworkers, List.countP_cons]
  | process hworkers _ | sendClosed hworkers _ =>
    simp [State.work, State.inHand, State.unsent, hworkers, List.countP_cons]
    omega
  | returned hwaiting hworkers => simp [State.work, State.inHand, State.unsent, hwaiting]
  | start _ | enqueue _ _ _ | handOff _ _ _ _ | reject _ _ _ | submitClosed _ | cancel _ | stop _
  | stopClosed _ | read _ | rendezvous _ _ _ => simp at hactor

/-- What a pool that is left alone does not change. -/
structure SameLoad (st st' : State T R) : Prop where
  closed : st'.lifecycle ≠ .running
  interrupted : st'.interrupted = st.interrupted
  workers : st'.workers.length = st.workers.length
  load : st'.outstanding + st'.results.length = st.outstanding + st.results.length

/-- Without a reader, a result that is sent stays in the channel. -/
theorem Alone.sameLoad (h : Alone cfg processor st st') (hmanned : Manned cfg st)
    (hclosed : st.lifecycle ≠ .running) : SameLoad st st' := by
  obtain ⟨actor, hactor, hstep⟩ := h
  cases hstep with
  | receive hjobs hworkers =>
    refine ⟨hclosed, rfl, by simp [hworkers], ?_⟩
    simp [State.outstanding, State.inHand, State.unsent, hworkers, hjobs]
    omega
  | finish _ _ hworkers | quit _ hworkers =>
    refine ⟨hclosed, rfl, by simp [hworkers], ?_⟩
    simp [State.outstanding, State.inHand, State.unsent, hworkers]
  | process hworkers _ | send hworkers _ _ =>
    refine ⟨hclosed, rfl, by simp [hworkers], ?_⟩
    simp [State.outstanding, State.inHand, State.unsent, hworkers]
    omega
  | sendClosed hworkers hstopped => exact absurd hstopped (hmanned.not_stopped hworkers (by simp))
  | returned hwaiting hworkers => exact ⟨by simp, rfl, rfl, rfl⟩
  | start _ | enqueue _ _ _ | handOff _ _ _ _ | reject _ _ _ | submitClosed _ | cancel _ | stop _
  | stopClosed _ | read _ | rendezvous _ _ _ => simp at hactor

theorem Alone.reachable (h : ReflTransGen (Alone cfg processor) st st')
    (hst : Reachable cfg processor st) : Reachable cfg processor st' := by
  refine hst.trans (ReflTransGen.mono ?_ _ _ h)
  rintro s s' ⟨actor, -, hstep⟩
  exact ⟨actor, hstep⟩

theorem SameLoad.of_run (hst : Reachable cfg processor st) (hclosed : st.lifecycle ≠ .running)
    (h : ReflTransGen (Alone cfg processor) st st') : SameLoad st st' := by
  induction h with
  | refl => exact ⟨hclosed, rfl, rfl, rfl⟩
  | tail hrun hstep ih =>
    have hnext := hstep.sameLoad (Alone.reachable hrun hst).sound.2 ih.closed
    exact ⟨hnext.closed, hnext.interrupted.trans ih.interrupted, hnext.workers.trans ih.workers,
      hnext.load.trans ih.load⟩

/-- A worker that has not left can take a step, unless it has a result to send and the channel is
full. -/
theorem exists_alone (hproc : ∀ data, ∃ result, processor data result)
    (hwaiting : st.lifecycle = .waiting) {w : Worker T R} (hw : w ∈ st.workers)
    (hroom : ∀ result, w = .sending result → st.results.length < cfg.queueDepth)
    (hpresent : w ≠ .exited) : ∃ st', Alone cfg processor st st' := by
  obtain ⟨before, after, hworkers⟩ := List.append_of_mem hw
  cases w with
  | selecting =>
    cases hjobs : st.jobs with
    | nil => exact ⟨_, .worker, .inl rfl, .finish (by simp [hwaiting]) hjobs hworkers⟩
    | cons data rest => exact ⟨_, .worker, .inl rfl, .receive hjobs hworkers⟩
  | processing data =>
    obtain ⟨result, hresult⟩ := hproc data
    exact ⟨_, .worker, .inl rfl, .process hworkers hresult⟩
  | sending result =>
    exact ⟨_, .worker, .inl rfl, .send hworkers (by simp [hwaiting]) (hroom result rfl)⟩
  | exited => exact absurd rfl hpresent

/-- If the results fit, a pool that waits for its workers is never stuck. -/
theorem stopped_of_stuck (hproc : ∀ data, ∃ result, processor data result)
    (hclosed : st.lifecycle ≠ .running)
    (hfits : st.outstanding + st.results.length ≤ cfg.queueDepth)
    (hstuck : Stuck (Alone cfg processor) st) : st.lifecycle = .stopped := by
  by_contra hnot
  have hwaiting : st.lifecycle = .waiting := by
    cases hl : st.lifecycle <;> simp_all
  by_cases hexited : ∀ w ∈ st.workers, w = .exited
  · exact hstuck _ ⟨.stop, .inr rfl, .returned hwaiting hexited⟩
  · obtain ⟨w, hw, hpresent⟩ : ∃ w ∈ st.workers, w ≠ .exited := by simpa using hexited
    refine not_stuck.mpr (exists_alone hproc hwaiting hw ?_ hpresent) hstuck
    rintro result rfl
    have hunsent : result ∈ st.unsent := List.mem_flatMap.mpr ⟨_, hw, by simp⟩
    have hpos := List.length_pos_of_mem hunsent
    simp only [State.outstanding] at hfits
    omega

/-- **When `Stop` returns by itself.**  From the moment `Stop` waits, and as long as nobody reads a
result and nobody cancels the context, the pool comes to rest after finitely many steps.  Where it
comes to rest, `Stop` has returned exactly if the results that were still to be sent fit into the
channel next to those in it, or there was no worker to wait for.  Otherwise it waits for a
reader. -/
theorem stop_returns_iff (hproc : ∀ data, ∃ result, processor data result)
    (h : Reachable cfg processor st) (hwaiting : st.lifecycle = .waiting)
    (hi : st.interrupted = false) :
    (¬ ∃ f : Nat → State T R, f 0 = st ∧ ∀ n, Alone cfg processor (f n) (f (n + 1))) ∧
    ∀ st', ReflTransGen (Alone cfg processor) st st' → Stuck (Alone cfg processor) st' →
      (st'.lifecycle = .stopped ↔
        st.workers = [] ∨ st.outstanding + st.results.length ≤ cfg.queueDepth) := by
  refine ⟨not_exists_infinite (fun _ _ h => h.work_lt) st, ?_⟩
  intro st' hrun hstuck
  have hclosed : st.lifecycle ≠ .running := by simp [hwaiting]
  have hsame := SameLoad.of_run h hclosed hrun
  obtain ⟨-, hmanned⟩ := (Alone.reachable hrun h).sound
  constructor
  · intro hstopped
    by_cases hnone : st.workers = []
    · exact .inl hnone
    right
    have hexited := hmanned.returned hstopped
    have hworkers : st'.workers ≠ [] := by
      rw [← List.length_pos_iff, hsame.workers, List.length_pos_iff]
      exact hnone
    obtain ⟨w, hw⟩ := List.exists_mem_of_ne_nil _ hworkers
    have hempty := (hmanned.leaving (hsame.interrupted.trans hi) (hexited w hw ▸ hw)).2
    have hinHand : st'.inHand = [] := flatMap_exited job_exited hexited
    have hunsent : st'.unsent = [] := flatMap_exited result_exited hexited
    rw [← hsame.load]
    simpa [State.outstanding, hempty, hinHand, hunsent] using hmanned.results_le
  · rintro (hnone | hfits)
    · have hworkers : st'.workers = [] := by
        rw [← List.length_eq_zero_iff, hsame.workers, hnone, List.length_nil]
      by_contra hnot
      have hwaiting' : st'.lifecycle = .waiting := by
        have hclosed' := hsame.closed
        cases hl : st'.lifecycle <;> simp_all
      exact hstuck _ ⟨.stop, .inr rfl, .returned hwaiting' (by simp [hworkers])⟩
    · exact stopped_of_stuck hproc hsame.closed (hsame.load ▸ hfits) hstuck

end Alone

/-! ### Three jobs, one worker and channels of one place -/

def sampleConfig : Config := ⟨1, 1⟩

/-- Doubling never fails. -/
def doubles : Processor Nat Nat := fun n r => r = ⟨2 * n, none⟩

/-- The first result is in the channel, the worker is at the send of the second, the third job is in
its channel, and `Stop` waits. -/
def sampleWaiting : State Nat Nat where
  lifecycle := .waiting
  cancelled := false
  jobs := [3]
  results := [⟨2, none⟩]
  workers := [.sending ⟨4, none⟩]
  accepted := [1, 2, 3]
  rejected := []
  taken := [1, 2]
  processed := [(1, ⟨2, none⟩), (2, ⟨4, none⟩)]
  received := []
  interrupted := false
  panics := []

theorem sampleWaiting_reachable : Reachable sampleConfig doubles sampleWaiting := by
  have hstart : Reachable sampleConfig doubles
      ⟨.running, false, [], [], [.selecting], [], [], [], [], [], false, []⟩ :=
    .single ⟨_, .start rfl⟩
  have hfirst : Reachable sampleConfig doubles
      ⟨.running, false, [], [], [.sending ⟨2, none⟩], [1], [], [1], [(1, ⟨2, none⟩)], [], false,
        []⟩ :=
    (hstart.tail ⟨_, @Step.handOff _ _ _ _ _ [] [] 1 rfl rfl rfl⟩).tail
      ⟨_, @Step.process _ _ _ _ _ [] [] 1 ⟨2, none⟩ rfl rfl⟩
  have hsecond : Reachable sampleConfig doubles
      ⟨.running, false, [], [⟨2, none⟩], [.sending ⟨4, none⟩], [1, 2], [], [1, 2],
        [(1, ⟨2, none⟩), (2, ⟨4, none⟩)], [], false, []⟩ :=
    ((hfirst.tail ⟨_, @Step.send _ _ _ _ _ [] [] _ rfl (by simp) (by decide)⟩).tail
      ⟨_, @Step.handOff _ _ _ _ _ [] [] 2 rfl rfl rfl⟩).tail
      ⟨_, @Step.process _ _ _ _ _ [] [] 2 ⟨4, none⟩ rfl rfl⟩
  exact (hsecond.tail ⟨_, .enqueue 3 rfl (by decide)⟩).tail ⟨_, .stop rfl⟩

/-- One of the three results is out of reach of everybody but the worker. -/
theorem jobs_conserved_sample : sampleWaiting.accepted = [1, 2] ++ sampleWaiting.jobs ∧
    (sampleWaiting.processed.map Prod.snd).Perm
      (sampleWaiting.unsent ++ (sampleWaiting.received ++ sampleWaiting.results)) :=
  ⟨(jobs_conserved sampleWaiting_reachable).1, (jobs_conserved sampleWaiting_reachable).2.2.1⟩

/-- Two results are still to come and there is no room for either: `Stop` does not return. -/
theorem stop_returns_iff_sample : sampleWaiting.outstanding = 2 ∧
    ∀ st', ReflTransGen (Alone sampleConfig doubles) sampleWaiting st' →
      Stuck (Alone sampleConfig doubles) st' → st'.lifecycle ≠ .stopped := by
  refine ⟨rfl, fun st' hrun hstuck hstopped => ?_⟩
  have hdoubles : ∀ n, ∃ r, doubles n r := fun n => ⟨⟨2 * n, none⟩, rfl⟩
  have hiff := (stop_returns_iff hdoubles sampleWaiting_reachable rfl rfl).2 st' hrun hstuck
  exact absurd (hiff.mp hstopped) (by decide)

/-- Two readers come, the worker does what is left, and `Stop` returns. -/
theorem stop_drains_sample : ∃ st, Reachable sampleConfig doubles st ∧ st.lifecycle = .stopped ∧
    st.received = [⟨2, none⟩, ⟨4, none⟩] ∧ st.accepted.Perm (st.processed.map Prod.fst) := by
  have hread : Reachable sampleConfig doubles
      ⟨.waiting, false, [3], [], [.selecting], [1, 2, 3], [], [1, 2],
        [(1, ⟨2, none⟩), (2, ⟨4, none⟩)], [⟨2, none⟩, ⟨4, none⟩], false, []⟩ :=
    (sampleWaiting_reachable.tail ⟨_, .read rfl⟩).tail
      ⟨_, @Step.rendezvous _ _ _ _ _ [] [] _ rfl (by simp [sampleWaiting]) rfl⟩
  have hthird : Reachable sampleConfig doubles
      ⟨.waiting, false, [], [⟨6, none⟩], [.selecting], [1, 2, 3], [], [1, 2, 3],
        [(1, ⟨2, none⟩), (2, ⟨4, none⟩), (3, ⟨6, none⟩)], [⟨2, none⟩, ⟨4, none⟩], false, []⟩ :=
    ((hread.tail ⟨_, @Step.receive _ _ _ _ _ [] [] 3 [] rfl rfl⟩).tail
      ⟨_, @Step.process _ _ _ _ _ [] [] 3 ⟨6, none⟩ rfl rfl⟩).tail
      ⟨_, @Step.send _ _ _ _ _ [] [] _ rfl (by simp) (by decide)⟩
  have hstopped : Reachable sampleConfig doubles
      ⟨.stopped, true, [], [⟨6, none⟩], [.exited], [1, 2, 3], [], [1, 2, 3],
        [(1, ⟨2, none⟩), (2, ⟨4, none⟩), (3, ⟨6, none⟩)], [⟨2, none⟩, ⟨4, none⟩], false, []⟩ :=
    (hthird.tail ⟨_, @Step.finish _ _ _ _ _ [] [] (by simp) rfl rfl⟩).tail
      ⟨_, .returned rfl (by simp)⟩
  exact ⟨_, hstopped, rfl, rfl, (stop_drains hstopped rfl).2.2 rfl (by simp)⟩

end WorkerPool

end Polykey
