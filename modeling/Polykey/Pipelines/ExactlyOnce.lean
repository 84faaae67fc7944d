/-
# How often an accepted rotation is executed

The ticket of an accepted request goes from the queue to a worker, from there to the results
channel and from there to whoever receives the result.  What one step does to the tickets is said
once (`PipelineStep.flow`); from it follows, for every interleaving, that the accepted requests are
the disjoint union of those in the four places, and that each request that has left the queue was
given to `processRotation` once (`Accounted`).

Whether a request EVER leaves the queue is another matter.  A caller that leaves before it has
received a result leaves a result behind that nobody is there for, and nobody drains the channel.
The results of 105 such callers are enough to fill the channel and the hands of the workers; the
results of 205 fill the queue too, and nothing in the pipeline moves again
(`rotation_never_executed`).  As long as not more than 105 callers have left, every request is
executed (`rotation_exactly_once`).
-/
import Polykey.Pipelines.KeyRotation

namespace Polykey

open Lib

/-! ## 1. The places of a ticket -/

/-- Has the caller left before it received a result? -/
def Caller.isGone (c : Caller) : Bool :=
  match c.phase with
  | .cancelled _ => true
  | _ => false

namespace PipelineState

/-- The tickets of the requests that `Enqueue` has accepted. -/
def accepted (st : PipelineState) : List Nat :=
  (List.range st.callers.length).filter fun i => (st.request i).isSome

/-- The tickets of the results that callers have received. -/
def received (st : PipelineState) : List Nat :=
  st.callers.filterMap fun c => c.receipt.map fun receipt => receipt.2.1

/-- The tickets of the requests that have left the queue: in a worker's hand, in the results
channel, or received. -/
def past (st : PipelineState) : List Nat :=
  st.workers.map Worker.ticket ++ (st.answered ++ st.received)

/-- How many callers have left. -/
def gone (st : PipelineState) : Nat := st.callers.countP Caller.isGone

/-- The tickets for which `processRotation` is called in a step: those of the workers it adds. -/
def begun (st st' : PipelineState) : List Nat :=
  (st'.workers.drop st.workers.length).map Worker.ticket

end PipelineState

/-- A run, and the tickets for which `processRotation` has been called in it. -/
inductive PipelineRun (step : PipelineState → PipelineState → Prop) (st : PipelineState) :
    List Nat → PipelineState → Prop
  | refl : PipelineRun step st [] st
  | tail {log : List Nat} {st₁ st₂ : PipelineState} (hrun : PipelineRun step st log st₁)
      (hstep : step st₁ st₂) : PipelineRun step st (log ++ st₁.begun st₂) st₂

/-! ## 2. What a step does to the tickets

`Flow` is the summary of a step: which tickets are accepted, which leave the queue. Everything
about where the tickets are follows from it, and the steps are not looked at again. -/

section Flow

variable {s : KeyService} {kms : KMS} {cond : PipelineState → Prop} {st st' : PipelineState}
  {i : Nat} {item : RotateKeyItem} {phase : Phase} {c : Caller} {w' : World}

theorem mem_accepted {ticket : Nat} :
    ticket ∈ st.accepted ↔ (st.request ticket).isSome = true := by
  refine List.mem_filter.trans ⟨fun h => h.2, fun h => ⟨List.mem_range.mpr ?_, h⟩⟩
  obtain ⟨req, hreq⟩ := Option.isSome_iff_exists.mp h
  obtain ⟨c, hc, -⟩ := Option.bind_eq_some_iff.mp hreq
  exact (List.getElem?_eq_some_iff.mp hc).1

theorem nodup_accepted (st : PipelineState) : st.accepted.Nodup := List.nodup_range.filter _

/-- The same requests are accepted. -/
theorem accepted_perm (h : ∀ ticket, (st'.request ticket).isSome = (st.request ticket).isSome) :
    st'.accepted.Perm st.accepted := by
  refine (List.perm_ext_iff_of_nodup (nodup_accepted _) (nodup_accepted _)).mpr fun ticket => ?_
  rw [mem_accepted, mem_accepted, h]

theorem request_setPhase (hcaller : st.callers[i]? = some c) (ticket : Nat) :
    (st.setPhase w' i item phase).request ticket =
      if ticket = i then (Caller.mk item phase).accepted else st.request ticket := by
  obtain ⟨hlt, -⟩ := List.getElem?_eq_some_iff.mp hcaller
  unfold PipelineState.request PipelineState.setPhase
  split
  · rename_i hi
    rw [hi, List.getElem?_set_self hlt]
    rfl
  · rename_i hi
    rw [List.getElem?_set_ne (Ne.symm hi)]

/-- A caller moves on and its request stays accepted, or not accepted. -/
theorem accepted_setPhase (hcaller : st.callers[i]? = some c)
    (hsame : (Caller.mk item phase).accepted.isSome = c.accepted.isSome) :
    (st.setPhase w' i item phase).accepted.Perm st.accepted := by
  refine accepted_perm fun ticket => ?_
  rw [request_setPhase hcaller]
  split
  · rename_i hi
    rw [hsame, hi, PipelineState.request, hcaller]
    rfl
  · rfl

/-- What is picked out of a list after one element has been replaced that was not picked. -/
theorem filterMap_set_perm {α β : Type} {f : α → Option β} {l : List α} {a : α}
    (ha : l[i]? = some a) (hf : f a = none) (b : α) :
    ((l.set i b).filterMap f).Perm ((f b).toList ++ l.filterMap f) := by
  induction l generalizing i with
  | nil => cases ha
  | cons x xs ih =>
    cases i with
    | zero =>
      cases ha
      rw [List.set_cons_zero, List.filterMap_cons_none hf]
      cases hb : f b with
      | none => rw [List.filterMap_cons_none hb]; rfl
      | some y => rw [List.filterMap_cons_some hb]; rfl
    | succ i =>
      have hrest := ih (i := i) ha
      rw [List.set_cons_succ]
      cases hx : f x with
      | none =>
        rw [List.filterMap_cons_none hx, List.filterMap_cons_none hx]
        exact hrest
      | some y =>
        rw [List.filterMap_cons_some hx, List.filterMap_cons_some hx]
        exact (hrest.cons y).trans List.perm_middle.symm

theorem received_setPhase (w' : World) (item : RotateKeyItem) (phase : Phase)
    (hcaller : st.callers[i]? = some c) (hc : c.receipt = none) :
    (st.setPhase w' i item phase).received.Perm
      (((Caller.mk item phase).receipt.map fun receipt => receipt.2.1).toList ++ st.received) :=
  filterMap_set_perm hcaller (by rw [hc]; rfl) _

/-- What a step does to the tickets: `new` are accepted and go to the end of the queue, and those
for which `processRotation` is called come from its front. -/
structure Flow (st st' : PipelineState) (new : List Nat) : Prop where
  accepted : st'.accepted.Perm (st.accepted ++ new)
  queue : st.queued ++ new = st.begun st' ++ st'.queued
  past : st'.past.Perm (st.past ++ st.begun st')

theorem begun_nil (h : st'.workers.length ≤ st.workers.length) : st.begun st' = [] := by
  unfold PipelineState.begun
  rw [List.drop_eq_nil_of_le h, List.map_nil]

/-- No request is accepted, and none leaves the queue. -/
theorem Flow.still (haccepted : st'.accepted.Perm st.accepted) (hqueue : st'.queued = st.queued)
    (hpast : st'.past.Perm st.past) (hworkers : st'.workers.length ≤ st.workers.length) :
    Flow st st' [] := by
  have hbegun := begun_nil hworkers
  refine ⟨?_, ?_, ?_⟩
  · rw [List.append_nil]
    exact haccepted
  · rw [hbegun, hqueue]
    exact List.append_nil _
  · rw [hbegun, List.append_nil]
    exact hpast

/-- A caller moves on and nothing moves in the pipeline. -/
theorem flow_setPhase (hcaller : st.callers[i]? = some c) (hreceipt : c.receipt = none)
    (hreceipt' : (Caller.mk item phase).receipt = none)
    (hsame : (Caller.mk item phase).accepted.isSome = c.accepted.isSome) :
    Flow st (st.setPhase w' i item phase) [] := by
  have hreceived := received_setPhase w' item phase hcaller hreceipt
  rw [hreceipt'] at hreceived
  refine .still (accepted_setPhase hcaller hsame) rfl ?_ le_rfl
  exact (hreceived.append_left _).append_left _

theorem flow_accept {currentKey : Key} {req : KeyRotationRequest}
    {todo : Prog Effect (Except Err (Key × KeyRotationRequest))}
    (hcaller : st.callers[i]? = some ⟨item, .preparing todo⟩) :
    Flow st { st.setPhase w' i item (.waiting currentKey req) with queued := st.queued ++ [i] }
      [i] := by
  have hbegun : st.begun
      { st.setPhase w' i item (.waiting currentKey req) with queued := st.queued ++ [i] } = [] :=
    begun_nil le_rfl
  have hreceived := received_setPhase w' item (.waiting currentKey req) hcaller rfl
  have hfresh : i ∉ st.accepted := by
    rw [mem_accepted, PipelineState.request, hcaller]
    exact Bool.false_ne_true
  refine ⟨?_, ?_, ?_⟩
  · have hnodup : (st.accepted ++ [i]).Nodup :=
      (nodup_accepted st).append (List.nodup_singleton i) (by simpa using hfresh)
    refine (List.perm_ext_iff_of_nodup (nodup_accepted _) hnodup).mpr fun ticket => ?_
    have hrequest : PipelineState.request
        { st.setPhase w' i item (.waiting currentKey req) with queued := st.queued ++ [i] } ticket
          = if ticket = i then some req else st.request ticket :=
      @request_setPhase st i item (.waiting currentKey req) _ w' hcaller ticket
    rw [mem_accepted, hrequest, List.mem_append, mem_accepted, List.mem_singleton]
    by_cases hi : ticket = i
    · simp [hi]
    · simp [hi]
  · rw [hbegun]
    rfl
  · rw [hbegun, List.append_nil]
    exact (hreceived.append_left _).append_left _

/-- **What one step does to the tickets.** -/
theorem PipelineStep.flow (hstep : PipelineStep s kms cond st st') : ∃ new, Flow st st' new := by
  cases hstep with
  | call item =>
    refine ⟨[], .still (accepted_perm fun ticket => ?_) rfl ?_ le_rfl⟩
    · unfold PipelineState.request
      rcases Nat.lt_or_ge ticket st.callers.length with hlt | hge
      · rw [List.getElem?_append_left hlt]
      · rw [List.getElem?_append_right hge, List.getElem?_eq_none hge]
        cases ticket - st.callers.length with
        | zero => rfl
        | succ n => rfl
    · unfold PipelineState.past PipelineState.received
      rw [List.filterMap_append]
      exact .of_eq (congrArg _ (congrArg _ (List.append_nil _)))
  | prepare hcaller hop => exact ⟨[], flow_setPhase hcaller rfl rfl rfl⟩
  | accept hcaller hcond hop => exact ⟨[_], flow_accept hcaller⟩
  | refuse hcaller hop => exact ⟨[], flow_setPhase hcaller rfl rfl rfl⟩
  | @take req ticket rest w' hidle hqueued hop =>
    have hbegun : st.begun { st with
        world := w'
        queued := rest
        workers := st.workers ++ [⟨ticket, req, KeyService.pipelineRotation req⟩] } = [ticket] := by
      unfold PipelineState.begun
      rw [List.drop_left]
      rfl
    refine ⟨[], ?_, ?_, ?_⟩
    · rw [List.append_nil]
      exact accepted_perm fun _ => rfl
    · rw [hbegun, hqueued, List.append_nil]
      rfl
    · rw [hbegun]
      refine List.perm_iff_count.mpr fun x => ?_
      simp only [PipelineState.past, PipelineState.received, List.map_append, List.count_append,
        List.map_cons, List.map_nil]
      omega
  | @work pre post ticket req op k r w' hworkers hop =>
    have hsame : (pre ++ ⟨ticket, req, k r⟩ :: post).map Worker.ticket
        = st.workers.map Worker.ticket := by simp [hworkers]
    refine ⟨[], .still (accepted_perm fun _ => rfl) rfl ?_ (by simp [hworkers])⟩
    exact .of_eq (congrArg (· ++ (st.answered ++ st.received)) hsame)
  | @send pre post ticket req out w' hworkers hop =>
    refine ⟨[], .still (accepted_perm fun _ => rfl) rfl ?_ (by simp [hworkers])⟩
    refine List.perm_iff_count.mpr fun x => ?_
    simp only [PipelineState.past, PipelineState.received, hworkers, List.map_append,
      List.count_append, List.map_cons, List.count_cons, List.count_nil]
    omega
  | @receive i item currentKey req ticket rest result w' hcaller hanswered hop =>
    have hreceived := received_setPhase w' item (.received currentKey req ticket result) hcaller rfl
    have hpast : (rest ++ (st.setPhase w' i item
        (.received currentKey req ticket result)).received).Perm (st.answered ++ st.received) := by
      rw [hanswered]
      exact (hreceived.append_left rest).trans List.perm_middle
    have haccepted : (st.setPhase w' i item
        (.received currentKey req ticket result)).accepted.Perm st.accepted :=
      accepted_setPhase hcaller rfl
    exact ⟨[], .still haccepted rfl (hpast.append_left _) le_rfl⟩
  | cancel hcaller hop => exact ⟨[], flow_setPhase hcaller rfl rfl rfl⟩
  | other hrequests hresults =>
    exact ⟨[], .still (accepted_perm fun _ => rfl) rfl (.refl _) le_rfl⟩

end Flow

/-! ## 3. What holds in every run -/

/-- The channels hold no more than they have room for, and there are no more workers than were
started. -/
structure Capacity (st : PipelineState) : Prop where
  requests : st.world.requests.length ≤ queueDepth
  results : st.world.results.length ≤ queueDepth
  workers : st.workers.length ≤ workerCount

/-- The books of the pipeline: where the tickets are, and for which `processRotation` was called. -/
structure Balanced (log : List Nat) (st : PipelineState) : Prop where
  accepted : st.accepted.Perm (st.queued ++ st.past)
  executed : log.Perm st.past

/-- What every run keeps. -/
structure RunInv (s : KeyService) (kms : KMS) (log : List Nat) (st : PipelineState) : Prop where
  traced : Traced s kms st
  balanced : Balanced log st
  capacity : Capacity st
  brief : ∀ wk ∈ st.workers, wk.todo.Within 4

section Invariant

variable {s : KeyService} {kms : KMS} {cond : PipelineState → Prop} {st st' : PipelineState}
  {log : List Nat}

theorem Balanced.step (h : Balanced log st) {new : List Nat} (hflow : Flow st st' new) :
    Balanced (log ++ st.begun st') st' := by
  refine ⟨?_, (h.executed.append_right _).trans hflow.past.symm⟩
  refine List.perm_iff_count.mpr fun x => ?_
  have haccepted := hflow.accepted.count_eq x
  have hold := h.accepted.count_eq x
  have hpast := hflow.past.count_eq x
  have hcount : (st.queued ++ new).count x = (st.begun st' ++ st'.queued).count x := by
    rw [hflow.queue]
  simp only [List.count_append] at haccepted hold hpast hcount ⊢
  omega

/-- What a step does to the lengths of the channels and to the workers. -/
theorem Capacity.step (h : Capacity st) (htraced : Traced s kms st)
    (hstep : PipelineStep s kms cond st st') : Capacity st' := by
  cases hstep with
  | call item => exact ⟨h.requests, h.results, h.workers⟩
  | prepare hcaller hop =>
    have hquiet := (htraced.callers _ (List.mem_of_getElem? hcaller)).2
    obtain ⟨-, hrequests, hresults⟩ := Quiet.call hquiet hop
    exact ⟨hrequests ▸ h.requests, hresults ▸ h.results, h.workers⟩
  | accept hcaller hcond hop =>
    obtain ⟨now, -, hop⟩ := hop
    simp only [stepAt] at hop
    split at hop
    · rename_i hroom
      obtain ⟨-, rfl⟩ := hop
      refine ⟨?_, h.results, h.workers⟩
      change (st.world.requests ++ [_]).length ≤ queueDepth
      rw [List.length_append, List.length_singleton]
      exact hroom
    · cases hop.1
  | refuse hcaller hop =>
    obtain ⟨now, -, hop⟩ := hop
    simp only [stepAt] at hop
    split at hop
    · cases hop.1
    · obtain ⟨-, rfl⟩ := hop
      exact ⟨h.requests, h.results, h.workers⟩
  | take hidle hqueued hop =>
    obtain ⟨now, -, rest, hrequests, rfl⟩ := hop
    have hlength := h.requests
    rw [hrequests, List.length_cons] at hlength
    refine ⟨Nat.le_of_succ_le hlength, h.results, ?_⟩
    rw [List.length_append, List.length_singleton]
    exact hidle
  | @work pre post ticket req op k r w' hworkers hop =>
    have hmem : ⟨ticket, req, .call op k⟩ ∈ st.workers := by simp [hworkers]
    obtain ⟨-, hrequests, hresults⟩ := Quiet.call (htraced.working _ hmem).2 hop
    have hlength := h.workers
    rw [hworkers] at hlength
    exact ⟨hrequests ▸ h.requests, hresults ▸ h.results, by simpa using hlength⟩
  | send hworkers hop =>
    obtain ⟨now, -, hroom, rfl⟩ := hop
    have hlength := h.workers
    rw [hworkers, List.length_append, List.length_cons] at hlength
    refine ⟨h.requests, ?_, ?_⟩
    · rw [List.length_append, List.length_singleton]
      exact hroom
    · rw [List.length_append]
      omega
  | receive hcaller hanswered hop =>
    obtain ⟨now, -, hop⟩ := hop
    rcases hop with ⟨res, rest, hresults, -, rfl⟩ | ⟨hnone, -⟩
    · have hlength := h.results
      rw [hresults, List.length_cons] at hlength
      exact ⟨h.requests, Nat.le_of_succ_le hlength, h.workers⟩
    · cases hnone
  | cancel hcaller hop =>
    obtain ⟨now, -, hop⟩ := hop
    rcases hop with ⟨res, rest, -, hsome, -⟩ | ⟨-, rfl⟩
    · cases hsome
    · exact ⟨h.requests, h.results, h.workers⟩
  | other hrequests hresults =>
    exact ⟨hrequests ▸ h.requests, hresults ▸ h.results, h.workers⟩

/-- A rotation makes at most four calls: it reads the key and some random bytes, encrypts, and
rotates. -/
theorem pipelineRotation_within (req : KeyRotationRequest) :
    Prog.Within (KeyService.pipelineRotation req) 4 := by
  intro r
  cases r with
  | error e => trivial
  | ok currentKey =>
    intro r
    cases r with
    | error e => trivial
    | ok newDEK =>
      intro r
      cases r with
      | error e => trivial
      | ok dek => exact fun r => trivial

theorem brief_step (h : ∀ wk ∈ st.workers, wk.todo.Within 4)
    (hstep : PipelineStep s kms cond st st') : ∀ wk ∈ st'.workers, wk.todo.Within 4 := by
  cases hstep with
  | call _ | prepare _ _ | accept _ _ _ | refuse _ _ | receive _ _ _ | cancel _ _ | other _ _ =>
    exact h
  | take hidle hqueued hop =>
    intro wk hwk
    rcases List.mem_append.mp hwk with hold | hnew
    · exact h wk hold
    · rw [List.mem_singleton.mp hnew]
      exact pipelineRotation_within _
  | @work pre post ticket req op k r w' hworkers hop =>
    rw [hworkers] at h
    intro wk hwk
    rcases List.mem_append.mp hwk with hpre | hmore
    · exact h wk (List.mem_append_left _ hpre)
    · rcases List.mem_cons.mp hmore with rfl | hpost
      · have hcall : ∀ r, (k r).Within 3 := h ⟨ticket, req, .call op k⟩ (by simp)
        exact (hcall r).mono (by decide)
      · exact h wk (by simp [hpost])
  | @send pre post ticket req out w' hworkers hop =>
    rw [hworkers] at h
    intro wk hwk
    rcases List.mem_append.mp hwk with hpre | hpost
    · exact h wk (by simp [hpre])
    · exact h wk (by simp [hpost])

theorem RunInv.step (h : RunInv s kms log st) (hstep : PipelineStep s kms cond st st') :
    RunInv s kms (log ++ st.begun st') st' := by
  obtain ⟨new, hflow⟩ := hstep.flow
  exact ⟨h.traced.step hstep, h.balanced.step hflow, h.capacity.step h.traced hstep,
    brief_step h.brief hstep⟩

theorem runInv_start (s : KeyService) (kms : KMS) (w : World) : RunInv s kms [] (.start w) where
  traced := traced_start w
  balanced := ⟨.refl _, .refl _⟩
  capacity := ⟨Nat.zero_le _, Nat.zero_le _, Nat.zero_le _⟩
  brief _ hwk := by cases hwk

theorem PipelineRun.mono {step step' : PipelineState → PipelineState → Prop}
    (h : ∀ st st', step st st' → step' st st') {st₀ : PipelineState}
    (hrun : PipelineRun step st₀ log st) : PipelineRun step' st₀ log st := by
  induction hrun with
  | refl => exact .refl
  | tail _ hstep ih => exact .tail ih (h _ _ hstep)

theorem PipelineRun.inv {w : World}
    (hrun : PipelineRun (PipelineStep s kms cond) (.start w) log st) : RunInv s kms log st := by
  induction hrun with
  | refl => exact runInv_start s kms w
  | tail _ hstep ih => exact ih.step hstep

end Invariant

/-- **The account of a run.** A request is known by its ticket, since two calls may ask for the
same rotation. -/
structure Accounted (s : KeyService) (log : List Nat) (st : PipelineState) : Prop where
  /-- the accepted requests are those in the four places -/
  union : st.accepted.Perm
    (st.queued ++ (st.workers.map Worker.ticket ++ (st.answered ++ st.received)))
  /-- and none is in two of them, or twice in one -/
  disjoint :
    (st.queued ++ (st.workers.map Worker.ticket ++ (st.answered ++ st.received))).Nodup
  queued : List.Forall₂ (fun req ticket => st.request ticket = some req) st.world.requests st.queued
  held : ∀ wk ∈ st.workers, st.request wk.ticket = some wk.req
  answered : List.Forall₂
    (fun result ticket => ∃ req, st.request ticket = some req ∧ AnswersRequest s.uuid req result)
    st.world.results st.answered
  /-- what has left the queue was given to `processRotation` once, what is in it was not -/
  executed : ∀ ticket, log.count ticket = if ticket ∈ st.accepted ∧ ticket ∉ st.queued then 1 else 0
  refused : ∀ (i : Nat) (c : Caller), st.callers[i]? = some c → c.phase = .refused → i ∉ log
  receivedOnce : st.received.Nodup
  requests_le : st.world.requests.length ≤ queueDepth
  results_le : st.world.results.length ≤ queueDepth

theorem Balanced.nodup {log : List Nat} {st : PipelineState} (h : Balanced log st) :
    (st.queued ++ st.past).Nodup := h.accepted.nodup_iff.mp (nodup_accepted st)

theorem RunInv.accounted {s : KeyService} {kms : KMS} {log : List Nat} {st : PipelineState}
    (h : RunInv s kms log st) : Accounted s log st := by
  obtain ⟨-, hpast, hdisjoint⟩ := List.nodup_append.mp h.balanced.nodup
  have hexecuted : ∀ ticket, ticket ∈ log ↔ ticket ∈ st.accepted ∧ ticket ∉ st.queued := by
    intro ticket
    rw [h.balanced.executed.mem_iff, h.balanced.accepted.mem_iff, List.mem_append]
    constructor
    · intro hin
      exact ⟨.inr hin, fun hqueued => hdisjoint ticket hqueued ticket hin rfl⟩
    · rintro ⟨hqueued | hin, hnot⟩
      · exact absurd hqueued hnot
      · exact hin
  exact {
    union := h.balanced.accepted
    disjoint := h.balanced.nodup
    queued := h.traced.queued
    held := fun wk hwk => (h.traced.working wk hwk).1
    answered := h.traced.answered
    executed := by
      intro ticket
      have hlog : log.Nodup := h.balanced.executed.nodup_iff.mpr hpast
      rw [hlog.count]
      simp only [hexecuted]
    refused := by
      intro i c hc hphase hin
      obtain ⟨haccepted, -⟩ := (hexecuted i).mp hin
      rw [mem_accepted, PipelineState.request, hc, Option.bind_some, Caller.accepted, hphase]
        at haccepted
      cases haccepted
    receivedOnce := (List.nodup_append.mp (List.nodup_append.mp hpast).2.1).2.1
    requests_le := h.capacity.requests
    results_le := h.capacity.results }

/-! ## 4. The pipeline at work

A step of the pipeline itself moves something behind the queue: a worker takes a request, goes on
with it or sends a result, or a result is received.  Each such step brings a request in the queue
closer to its turn, and no other step puts it back. -/

/-- A step of the pipeline itself. -/
def OwnStep (s : KeyService) (kms : KMS) (st st' : PipelineState) : Prop :=
  PipelineStep s kms (fun _ => True) st st' ∧
    ¬ (st'.workers = st.workers ∧ st'.answered = st.answered)

/-- A run in which the steps of the pipeline itself are counted. -/
inductive CountedRun (s : KeyService) (kms : KMS) (st : PipelineState) :
    Nat → PipelineState → Prop
  | refl : CountedRun s kms st 0 st
  | own {n : Nat} {st₁ st₂ : PipelineState} (hrun : CountedRun s kms st n st₁)
      (hstep : OwnStep s kms st₁ st₂) : CountedRun s kms st (n + 1) st₂
  | idle {n : Nat} {st₁ st₂ : PipelineState} (hrun : CountedRun s kms st n st₁)
      (hstep : PipelineStep s kms (fun _ => True) st₁ st₂) (hworkers : st₂.workers = st₁.workers)
      (hanswered : st₂.answered = st₁.answered) : CountedRun s kms st n st₂

/-- **Every request in the queue will be executed.** As long as it is in the queue, the pipeline
can make a step of its own, and it is not in the queue any more after so many of them, whatever
else happens. -/
def Executes (s : KeyService) (kms : KMS) (st : PipelineState) : Prop :=
  ∀ ticket ∈ st.queued, (∃ st', OwnStep s kms st st') ∧
    ∀ n st', CountedRun s kms st n st' → ticket ∈ st'.queued →
      n ≤ 8 * queueDepth + 6 * workerCount

/-- The steps that can come before a request is taken: seven for it and for each request before it,
and what the workers and the results channel have left. -/
noncomputable def PipelineState.ahead (st : PipelineState) (ticket : Nat) : Nat :=
  7 * (st.queued.idxOf ticket + 1) + (st.workers.map fun wk => wk.todo.depth + 2).sum +
    st.answered.length

section Progress

variable {s : KeyService} {kms : KMS} {cond : PipelineState → Prop} {st st' : PipelineState}
  {log : List Nat} {ticket : Nat}

/-- What a step does to the requests before a ticket. -/
theorem ahead_step (h : RunInv s kms log st) (hstep : PipelineStep s kms cond st st')
    (hold : ticket ∈ st.queued) (hnew : ticket ∈ st'.queued) :
    st'.ahead ticket < st.ahead ticket ∨ st'.ahead ticket = st.ahead ticket ∧
      st'.workers = st.workers ∧ st'.answered = st.answered := by
  unfold PipelineState.ahead
  cases hstep with
  | call _ | prepare _ _ | refuse _ _ | cancel _ _ | other _ _ => exact .inr ⟨rfl, rfl, rfl⟩
  | @accept i item currentKey req w' hcaller hcond hop =>
    refine .inr ⟨?_, rfl, rfl⟩
    rw [show (st.queued ++ [i]).idxOf ticket = st.queued.idxOf ticket from
      List.idxOf_append_of_mem hold]
    rfl
  | @take req first rest w' hidle hqueued hop =>
    have hnodup : (first :: rest).Nodup := by
      rw [← hqueued]
      exact (List.nodup_append.mp h.balanced.nodup).1
    have hne : first ≠ ticket := by
      rintro rfl
      exact (List.nodup_cons.mp hnodup).1 hnew
    have hdepth := Prog.depth_le (pipelineRotation_within req)
    refine .inl ?_
    rw [hqueued, List.idxOf_cons_ne _ hne]
    simp only [List.map_append, List.map_cons, List.map_nil, List.sum_append, List.sum_cons,
      List.sum_nil]
    omega
  | @work pre post taken req op k r w' hworkers hop =>
    have hbrief : (Prog.call (I := Effect) op k).Within 4 := by
      refine h.brief ⟨taken, req, .call op k⟩ ?_
      rw [hworkers]
      exact List.mem_append_right _ List.mem_cons_self
    have hdepth := Prog.depth_lt hbrief r
    refine .inl ?_
    rw [hworkers]
    simp only [List.map_append, List.map_cons, List.sum_append, List.sum_cons]
    omega
  | @send pre post _ req out w' hworkers hop =>
    refine .inl ?_
    rw [hworkers]
    simp only [List.map_append, List.map_cons, List.sum_append, List.sum_cons, List.length_append,
      List.length_singleton]
    omega
  | @receive i item currentKey req _ rest result w' hcaller hanswered hop =>
    refine .inl ?_
    rw [hanswered, List.length_cons]
    exact Nat.lt_succ_self _

/-- An accepted request does not come back to the queue. -/
theorem queued_of_step (h : RunInv s kms log st) (hstep : PipelineStep s kms cond st st')
    (haccepted : ticket ∈ st.accepted) (hnew : ticket ∈ st'.queued) : ticket ∈ st.queued := by
  obtain ⟨new, hflow⟩ := hstep.flow
  rcases List.mem_append.mp (h.balanced.accepted.mem_iff.mp haccepted) with hin | hpast
  · exact hin
  · have hpast' := hflow.past.mem_iff.mpr (List.mem_append_left _ hpast)
    exact absurd rfl ((List.nodup_append.mp (h.step hstep).balanced.nodup).2.2 _ hnew _ hpast')

theorem accepted_of_step (hstep : PipelineStep s kms cond st st') (h : ticket ∈ st.accepted) :
    ticket ∈ st'.accepted := by
  obtain ⟨new, hflow⟩ := hstep.flow
  exact hflow.accepted.mem_iff.mpr (List.mem_append_left _ h)

/-- **Steps of the pipeline bring a request closer to its turn**, and others do not put it back. -/
theorem CountedRun.le_ahead {n : Nat} (hrun : CountedRun s kms st n st') (h : RunInv s kms log st)
    (hold : ticket ∈ st.queued) :
    (∃ log', RunInv s kms log' st') ∧ ticket ∈ st'.accepted ∧
      (ticket ∈ st'.queued → n + st'.ahead ticket ≤ st.ahead ticket) := by
  induction hrun with
  | refl =>
    refine ⟨⟨log, h⟩, h.balanced.accepted.mem_iff.mpr (List.mem_append_left _ hold), fun _ => ?_⟩
    exact (Nat.zero_add _).le
  | @own n st₁ st₂ _ hstep ih =>
    obtain ⟨⟨log₁, h₁⟩, haccepted, hahead⟩ := ih
    refine ⟨⟨_, h₁.step hstep.1⟩, accepted_of_step hstep.1 haccepted, fun hq => ?_⟩
    have hq₁ := queued_of_step h₁ hstep.1 haccepted hq
    have hle := hahead hq₁
    rcases ahead_step h₁ hstep.1 hq₁ hq with hlt | ⟨-, hstill⟩
    · omega
    · exact absurd hstill hstep.2
  | @idle n st₁ st₂ _ hstep _ _ ih =>
    obtain ⟨⟨log₁, h₁⟩, haccepted, hahead⟩ := ih
    refine ⟨⟨_, h₁.step hstep⟩, accepted_of_step hstep haccepted, fun hq => ?_⟩
    have hq₁ := queued_of_step h₁ hstep haccepted hq
    have hle := hahead hq₁
    rcases ahead_step h₁ hstep hq₁ hq with hlt | ⟨heq, -⟩
    · omega
    · omega

theorem sum_le_of_depth {workers : List Worker} (h : ∀ wk ∈ workers, wk.todo.Within 4) :
    (workers.map fun wk => wk.todo.depth + 2).sum ≤ 6 * workers.length := by
  induction workers with
  | nil => exact Nat.zero_le _
  | cons wk workers ih =>
    have hfirst := Prog.depth_le (h wk List.mem_cons_self)
    have hrest := ih fun wk' hwk' => h wk' (List.mem_cons_of_mem _ hwk')
    simp only [List.map_cons, List.sum_cons, List.length_cons]
    omega

theorem RunInv.ahead_le (h : RunInv s kms log st) (hold : ticket ∈ st.queued) :
    st.ahead ticket ≤ 8 * queueDepth + 6 * workerCount := by
  have hindex := List.idxOf_lt_length_of_mem hold
  have hqueued := h.traced.queued.length_eq
  have hanswered := h.traced.answered.length_eq
  have hsum := sum_le_of_depth h.brief
  have hrequests := h.capacity.requests
  have hresults := h.capacity.results
  have hworkers := h.capacity.workers
  unfold PipelineState.ahead
  omega

/-! ### There is always a step, unless too many callers have left -/

/-- Who has an accepted request is waiting, has received a result, or has left. -/
theorem countP_accepted {callers : List Caller}
    (h : ∀ c ∈ callers, ∀ currentKey req, c.phase ≠ .waiting currentKey req) :
    callers.countP (·.accepted.isSome) =
      (callers.filterMap fun c => c.receipt.map fun receipt => receipt.2.1).length +
        callers.countP Caller.isGone := by
  induction callers with
  | nil => rfl
  | cons c callers ih =>
    have hrest := ih fun c' hc' => h c' (List.mem_cons_of_mem _ hc')
    obtain ⟨item, phase⟩ := c
    rw [List.countP_cons, List.countP_cons, hrest]
    cases phase with
    | preparing _ | refused => rfl
    | waiting currentKey req => exact absurd rfl (h _ List.mem_cons_self currentKey req)
    | received currentKey req ticket result =>
      have hsome : (Caller.mk item (.received currentKey req ticket result)).receipt.map
          (fun receipt => receipt.2.1) = some ticket := rfl
      rw [List.filterMap_cons_some (f := fun c : Caller => c.receipt.map fun receipt => receipt.2.1)
        hsome, List.length_cons]
      change _ + _ + 1 = _ + 1 + (_ + 0)
      omega
    | cancelled req => rfl

theorem length_accepted (st : PipelineState) :
    st.accepted.length = st.callers.countP (·.accepted.isSome) := by
  have hcallers : (List.range st.callers.length).map (fun i => st.callers[i]?)
      = st.callers.map some := by
    refine List.ext_getElem? fun i => ?_
    rcases Nat.lt_or_ge i st.callers.length with hlt | hge
    · simp [hlt]
    · simp [hge]
  have hcount : (st.callers.map some).countP (fun c : Option Caller =>
      (c.bind Caller.accepted).isSome)
      = st.callers.countP (·.accepted.isSome) := by
    rw [List.countP_map]
    rfl
  rw [← hcount, ← hcallers, List.countP_map, List.countP_eq_length_filter]
  rfl

/-- Where more requests are outstanding than callers have left, somebody waits. -/
theorem exists_waiting (h : Balanced log st) (hgone : st.gone < st.outstanding.length) :
    ∃ (i : Nat) (item : RotateKeyItem) (currentKey : Key) (req : KeyRotationRequest),
      st.callers[i]? = some ⟨item, .waiting currentKey req⟩ := by
  by_contra hnone
  have hwaiting : ∀ c ∈ st.callers, ∀ currentKey req, c.phase ≠ .waiting currentKey req := by
    rintro ⟨item, phase⟩ hc currentKey req rfl
    obtain ⟨i, hi⟩ := List.mem_iff_getElem?.mp hc
    exact hnone ⟨i, item, currentKey, req, hi⟩
  have hcount := countP_accepted hwaiting
  have hlength := h.accepted.length_eq
  rw [length_accepted, hcount] at hlength
  simp only [PipelineState.past, PipelineState.received, PipelineState.outstanding,
    PipelineState.gone, List.length_append] at hlength hgone
  omega

/-- The KMS providers come back from an encryption, if only with an error. -/
def KMS.Answers (kms : KMS) : Prop := ∀ provider dek key, ∃ r, kms.encrypts provider dek key r

/-- A worker can go on with its rotation. -/
theorem exists_answer (hkms : kms.Answers) {op : EffectOp} (hop : op.usesChannels = false)
    (w : World) : ∃ r w', worldSem s.uuid kms op w r w' := by
  by_cases hblock : op.mayBlock = false
  · exact worldSem_returns s.uuid kms hblock w
  · cases op with
    | encryptDEK provider dek key =>
      obtain ⟨r, hr⟩ := hkms provider dek key
      exact ⟨r, _, w.clock, le_rfl, hr, rfl⟩
    | takeRequest | sendResult _ => cases hop
    | repo _ | decryptDEK _ _ | timeNow | newKeyID | randRead _ | auditLog _ | enqueue _
    | awaitResult | policyGet _ | policySet _ _ _ => exact absurd rfl hblock

/-- **The pipeline can make a step of its own** while a request is in the queue, unless more callers
have left than the results channel and the workers have room for. -/
theorem exists_ownStep (hkms : kms.Answers) (h : RunInv s kms log st)
    (hgone : st.gone ≤ queueDepth + workerCount) (hqueued : st.queued ≠ []) :
    ∃ st', OwnStep s kms st st' := by
  obtain ⟨first, rest, hfirst⟩ := List.exists_cons_of_ne_nil hqueued
  by_cases hidle : st.workers.length < workerCount
  · -- a worker is free and takes the first request
    have hrequests := h.traced.queued
    rw [hfirst] at hrequests
    obtain ⟨req, reqs, -, -, hreqs⟩ := List.forall₂_cons_right_iff.mp hrequests
    refine ⟨_, .take hidle hfirst ⟨st.world.clock, le_rfl, reqs, hreqs, rfl⟩, fun hsame => ?_⟩
    have hlength := congrArg List.length hsame.1
    rw [List.length_append, List.length_singleton] at hlength
    omega
  · have hpos : st.workers ≠ [] := by
      intro hnil
      rw [hnil] at hidle
      exact hidle (by decide)
    obtain ⟨wk, post, hwk⟩ := List.exists_cons_of_ne_nil hpos
    obtain ⟨taken, req, todo⟩ := wk
    have hworkers : st.workers = [] ++ ⟨taken, req, todo⟩ :: post := hwk
    have hquiet := (h.traced.working ⟨taken, req, todo⟩ (by simp [hwk])).2
    cases todo with
    | call op k =>
      -- the first worker goes on with its rotation
      obtain ⟨hchannels, -⟩ := hquiet st.world st.world trivial trivial
      obtain ⟨r, w', hop⟩ := exists_answer (s := s) hkms hchannels st.world
      refine ⟨_, .work hworkers hop, fun hsame => ?_⟩
      have hhead := hsame.1.trans hworkers
      exact Prog.call_ne op k r (congrArg Worker.todo (List.cons.inj hhead).1)
    | ret out =>
      by_cases hroom : st.world.results.length < queueDepth
      · -- it has a result, and the channel has room for it
        refine ⟨_, .send hworkers ⟨st.world.clock, le_rfl, hroom, rfl⟩, fun hsame => ?_⟩
        have hlength := congrArg List.length hsame.1
        rw [hworkers] at hlength
        simp at hlength
      · -- the channel is full, and somebody is there for its first result
        have hanswered := h.traced.answered.length_eq
        have hmany : st.gone < st.outstanding.length := by
          simp only [PipelineState.outstanding, List.length_append, List.length_map, hfirst,
            List.length_cons]
          omega
        obtain ⟨i, item, currentKey, req', hi⟩ := exists_waiting h.balanced hmany
        have hdepth : 0 < queueDepth := by decide
        have hne : st.answered ≠ [] := by
          intro hnil
          rw [hnil, List.length_nil] at hanswered
          omega
        obtain ⟨ticket, tickets, htickets⟩ := List.exists_cons_of_ne_nil hne
        have hresults := h.traced.answered
        rw [htickets] at hresults
        obtain ⟨result, results, -, -, hres⟩ := List.forall₂_cons_right_iff.mp hresults
        refine ⟨_, .receive hi htickets
          ⟨st.world.clock, le_rfl, .inl ⟨result, results, hres, rfl, rfl⟩⟩, fun hsame => ?_⟩
        have hlength := congrArg List.length hsame.2
        rw [htickets, List.length_cons] at hlength
        exact absurd hlength (Nat.ne_of_lt (Nat.lt_succ_self _))

theorem RunInv.executes (hkms : kms.Answers) (h : RunInv s kms log st)
    (hgone : st.gone ≤ queueDepth + workerCount) : Executes s kms st := by
  intro ticket hticket
  refine ⟨exists_ownStep hkms h hgone (List.ne_nil_of_mem hticket), fun n st' hrun hq => ?_⟩
  obtain ⟨-, -, hahead⟩ := hrun.le_ahead h hticket
  have hle := hahead hq
  have hbound := h.ahead_le hticket
  omega

end Progress

/-! ## 5. A pipeline that stands still

Full channels, workers with a result in hand and nobody to receive one: no step of the pipeline
is possible, and the callers that still come are refused. This is kept by every step, so it is
for ever. -/

/-- The channels are full, each worker has a result in hand, and nobody waits for one. -/
structure Stuck (st : PipelineState) : Prop where
  requests : st.world.requests.length = queueDepth
  results : st.world.results.length = queueDepth
  workers : st.workers.length = workerCount
  finished : ∀ wk ∈ st.workers, ∃ out, wk.todo = .ret out
  nobody : ∀ c ∈ st.callers, ∀ currentKey req, c.phase ≠ .waiting currentKey req

section Stuck

variable {s : KeyService} {kms : KMS} {cond : PipelineState → Prop} {st st' : PipelineState}

/-- Callers come and are refused; nobody of those who wait is new. -/
theorem nobody_setPhase {i : Nat} {item : RotateKeyItem} {phase : Phase} {w' : World}
    (h : ∀ c ∈ st.callers, ∀ currentKey req, c.phase ≠ .waiting currentKey req)
    (hphase : ∀ currentKey req, phase ≠ .waiting currentKey req) :
    ∀ c ∈ (st.setPhase w' i item phase).callers, ∀ currentKey req,
      c.phase ≠ .waiting currentKey req := by
  intro c hc
  rcases List.mem_or_eq_of_mem_set hc with hold | rfl
  · exact h c hold
  · exact hphase

/-- **Nothing moves any more**: the steps that are left are those of callers who come and are
refused. -/
theorem Stuck.step (h : Stuck st) (htraced : Traced s kms st)
    (hstep : PipelineStep s kms cond st st') :
    Stuck st' ∧ st'.queued = st.queued ∧ st.begun st' = [] := by
  cases hstep with
  | call item =>
    refine ⟨⟨h.requests, h.results, h.workers, h.finished, fun c hc => ?_⟩, rfl, begun_nil le_rfl⟩
    rcases List.mem_append.mp hc with hold | hnew
    · exact h.nobody c hold
    · rw [List.mem_singleton.mp hnew]
      intro currentKey req hphase
      cases hphase
  | prepare hcaller hop =>
    have hquiet := (htraced.callers _ (List.mem_of_getElem? hcaller)).2
    obtain ⟨-, hrequests, hresults⟩ := Quiet.call hquiet hop
    refine ⟨⟨hrequests ▸ h.requests, hresults ▸ h.results, h.workers, h.finished, ?_⟩, rfl,
      begun_nil le_rfl⟩
    exact nobody_setPhase h.nobody fun _ _ hphase => by cases hphase
  | accept hcaller hcond hop =>
    obtain ⟨now, -, hop⟩ := hop
    simp only [stepAt, h.requests, lt_irrefl, if_false] at hop
    cases hop.1
  | refuse hcaller hop =>
    obtain ⟨now, -, hop⟩ := hop
    simp only [stepAt, h.requests, lt_irrefl, if_false] at hop
    obtain ⟨-, rfl⟩ := hop
    refine ⟨⟨h.requests, h.results, h.workers, h.finished, ?_⟩, rfl, begun_nil le_rfl⟩
    exact nobody_setPhase h.nobody fun _ _ hphase => by cases hphase
  | take hidle hqueued hop =>
    rw [h.workers] at hidle
    exact absurd hidle (lt_irrefl _)
  | work hworkers hop =>
    obtain ⟨out, hout⟩ := h.finished _ (hworkers ▸ List.mem_append_right _ List.mem_cons_self)
    cases hout
  | send hworkers hop =>
    obtain ⟨now, -, hroom, -⟩ := hop
    rw [h.results] at hroom
    exact absurd hroom (lt_irrefl _)
  | receive hcaller hanswered hop =>
    exact absurd rfl (h.nobody _ (List.mem_of_getElem? hcaller) _ _)
  | cancel hcaller hop => exact absurd rfl (h.nobody _ (List.mem_of_getElem? hcaller) _ _)
  | other hrequests hresults =>
    exact ⟨⟨hrequests ▸ h.requests, hresults ▸ h.results, h.workers, h.finished, h.nobody⟩, rfl,
      begun_nil le_rfl⟩

theorem Stuck.forever {log : List Nat} (h : Stuck st) (htraced : Traced s kms st)
    (hrun : PipelineRun (PipelineStep s kms cond) st log st') :
    log = [] ∧ st'.queued = st.queued := by
  have hall : Stuck st' ∧ Traced s kms st' ∧ log = [] ∧ st'.queued = st.queued := by
    induction hrun with
    | refl => exact ⟨h, htraced, rfl, rfl⟩
    | tail _ hstep ih =>
      obtain ⟨hstuck, htraced', rfl, hqueued⟩ := ih
      obtain ⟨hstuck', hqueued', hbegun⟩ := hstuck.step htraced' hstep
      exact ⟨hstuck', htraced'.step hstep, by rw [hbegun]; rfl, hqueued'.trans hqueued⟩
  exact hall.2.2

end Stuck

/-! ### How a pipeline comes to a stand

Callers that leave fill it: their requests are served, or wait in the queue, and the results stay.
-/

/-- A state that the sample deployment can come to. -/
def Sampled (st : PipelineState) : Prop :=
  ∃ log, PipelineRun (PipelineStep sampleService sampleKMS fun _ => True) (.start twoKeys) log st

theorem Sampled.step {st st' : PipelineState} (h : Sampled st)
    (hstep : PipelineStep sampleService sampleKMS (fun _ => True) st st') : Sampled st' := by
  obtain ⟨log, hrun⟩ := h
  exact ⟨_, hrun.tail hstep⟩

theorem Sampled.traced {st : PipelineState} (h : Sampled st) :
    Traced sampleService sampleKMS st := by
  obtain ⟨log, hrun⟩ := h
  exact hrun.inv.traced

/-- So many requests in the queue, workers with a result and results in the channel; nobody waits.
-/
structure Filled (queued working answered : Nat) (st : PipelineState) : Prop where
  table : st.world.table = twoKeys.table
  requests : st.world.requests.length = queued
  results : st.world.results.length = answered
  workers : st.workers.length = working
  finished : ∀ wk ∈ st.workers, ∃ out, wk.todo = .ret out
  nobody : ∀ c ∈ st.callers, ∀ currentKey req, c.phase ≠ .waiting currentKey req

def Fills (queued working answered : Nat) : Prop :=
  ∃ st, Sampled st ∧ Filled queued working answered st

/-- What `RotateKey` does before it enqueues: it reads the key, and makes the request of what it has
read. -/
theorem rotationRequest_eq {s : KeyService} {item : RotateKeyItem} {id : KeyID}
    (hid : keyIDFromString s.uuid item.keyId = .ok id) :
    ∃ todo, s.rotationRequest item = Prog.call (I := Effect) (.repo (.getKey id)) todo ∧
      ∀ key provider size, s.getKMSProvider key.storageType = .ok provider →
        dekPool key.keyType = .ok size →
          todo (.ok key) = .ret (.ok (key, ⟨id, provider, size⟩)) := by
  unfold KeyService.rotationRequest
  rw [hid]
  refine ⟨_, rfl, fun key provider size hprovider hsize => ?_⟩
  change Act.andThen (Act.ofExcept (s.getKMSProvider key.storageType)) _ = _
  rw [hprovider]
  change Act.andThen (Act.ofExcept (dekPool key.keyType)) _ = _
  rw [hsize]
  rfl

theorem ok_of_isOk {ε α : Type} {x : Except ε α} (h : x.isOk = true) : ∃ a, x = .ok a := by
  cases x with
  | error e => cases h
  | ok a => exact ⟨a, rfl⟩

/-- The first key can be rotated. -/
theorem rotateFirst_ready : ∃ key provider size,
    PSQLAdapter.getKey twoKeys.table sampleID = .ok key ∧
      sampleService.getKMSProvider key.storageType = .ok provider ∧
      dekPool key.keyType = .ok size := by
  have hready : (PSQLAdapter.getKey twoKeys.table sampleID).toOption.any (fun key =>
      (sampleService.getKMSProvider key.storageType).isOk && (dekPool key.keyType).isOk) =
        true := by
    decide +kernel
  cases hkey : PSQLAdapter.getKey twoKeys.table sampleID with
  | error e =>
    rw [hkey] at hready
    cases hready
  | ok key =>
    rw [hkey] at hready
    obtain ⟨hprovider, hsize⟩ := Bool.and_eq_true_iff.mp hready
    obtain ⟨provider, hprovider⟩ := ok_of_isOk hprovider
    obtain ⟨size, hsize⟩ := ok_of_isOk hsize
    exact ⟨key, provider, size, rfl, hprovider, hsize⟩

/-- The state with one more caller. -/
def PipelineState.withLast (st : PipelineState) (w : World) (phase : Phase) : PipelineState :=
  { st with world := w, callers := st.callers ++ [⟨rotateFirst, phase⟩] }

theorem withLast_caller (st : PipelineState) (w : World) (phase : Phase) :
    (st.withLast w phase).callers[st.callers.length]? = some ⟨rotateFirst, phase⟩ :=
  List.getElem?_concat_length

theorem withLast_setPhase (st : PipelineState) (w w' : World) (phase phase' : Phase) :
    (st.withLast w phase).setPhase w' st.callers.length rotateFirst phase' =
      st.withLast w' phase' := by
  simp [PipelineState.withLast, PipelineState.setPhase]

/-- A caller comes, and its request is accepted. -/
theorem request_steps {st : PipelineState} (htable : st.world.table = twoKeys.table)
    (hroom : st.world.requests.length < queueDepth) :
    ∃ todo todo' key req, PipelineStep sampleService sampleKMS (fun _ => True) st
        (st.withLast st.world (.preparing todo)) ∧
      PipelineStep sampleService sampleKMS (fun _ => True) (st.withLast st.world (.preparing todo))
        (st.withLast st.world (.preparing todo')) ∧
      PipelineStep sampleService sampleKMS (fun _ => True) (st.withLast st.world (.preparing todo'))
        ({ st with queued := st.queued ++ [st.callers.length] }.withLast
          { st.world with requests := st.world.requests ++ [req] } (.waiting key req)) := by
  obtain ⟨key, provider, size, hkey, hprovider, hsize⟩ := rotateFirst_ready
  obtain ⟨todo, hprog, htodo⟩ := @rotationRequest_eq sampleService rotateFirst sampleID
    (by decide +kernel)
  have hdone := htodo key provider size hprovider hsize
  have hread : worldSem googleUUID sampleKMS (.repo (.getKey sampleID)) st.world (.ok key)
      st.world := by
    refine ⟨st.world.clock, le_rfl, st.world.table, .inl ?_, rfl⟩
    rw [htable]
    exact congrArg (·, twoKeys.table) hkey
  have henqueue : worldSem googleUUID sampleKMS (.enqueue ⟨sampleID, provider, size⟩) st.world true
      { st.world with requests := st.world.requests ++ [⟨sampleID, provider, size⟩] } := by
    refine ⟨st.world.clock, le_rfl, ?_⟩
    simp only [stepAt, hroom, if_true]
    trivial
  have hcall : PipelineStep sampleService sampleKMS (fun _ => True) st (st.withLast st.world
      (.preparing (sampleService.rotationRequest rotateFirst))) := .call rotateFirst
  rw [hprog] at hcall
  have hprepare : PipelineStep sampleService sampleKMS (fun _ => True)
      (st.withLast st.world (.preparing (.call (.repo (.getKey sampleID)) todo))) _ :=
    .prepare (withLast_caller st st.world _) hread
  rw [withLast_setPhase, hdone] at hprepare
  have haccept : PipelineStep sampleService sampleKMS (fun _ => True)
      (st.withLast st.world (.preparing (.ret (.ok (key, ⟨sampleID, provider, size⟩))))) _ :=
    .accept (withLast_caller st st.world _) trivial henqueue
  rw [withLast_setPhase] at haccept
  exact ⟨_, _, key, _, hcall, hprepare, haccept⟩

/-- A caller comes, its request is accepted, and it leaves. -/
theorem Fills.request {q k r : Nat} (h : Fills q k r) (hq : q < queueDepth) :
    Fills (q + 1) k r := by
  obtain ⟨st, hrun, hfilled⟩ := h
  obtain ⟨todo, todo', key, req, hcall, hprepare, haccept⟩ :=
    request_steps hfilled.table (hfilled.requests ▸ hq)
  have hwaiting := ((hrun.step hcall).step hprepare).step haccept
  have hleft := hwaiting.step (.cancel (withLast_caller _ _ _)
    ⟨st.world.clock, le_rfl, .inr ⟨rfl, rfl⟩⟩)
  rw [withLast_setPhase] at hleft
  refine ⟨_, hleft, hfilled.table, ?_, hfilled.results, hfilled.workers, hfilled.finished, ?_⟩
  · change (st.world.requests ++ [req]).length = q + 1
    rw [List.length_append, List.length_singleton, hfilled.requests]
  · intro c hc
    rcases List.mem_append.mp hc with hold | hnew
    · exact hfilled.nobody c hold
    · rw [List.mem_singleton.mp hnew]
      intro currentKey req' hphase
      cases hphase

/-- A worker takes a request; the key cannot be read, and it has its result. -/
theorem Fills.take {q k r : Nat} (h : Fills (q + 1) k r) (hk : k < workerCount) :
    Fills q (k + 1) r := by
  obtain ⟨st, hrun, hfilled⟩ := h
  obtain ⟨req, reqs, hreqs⟩ := List.exists_cons_of_length_eq_add_one hfilled.requests
  have hqueued := hrun.traced.queued
  rw [hreqs] at hqueued
  obtain ⟨ticket, tickets, -, -, htickets⟩ := List.forall₂_cons_left_iff.mp hqueued
  have hidle : st.workers.length < workerCount := hfilled.workers ▸ hk
  let w' : World := { st.world with requests := reqs }
  have htake : worldSem googleUUID sampleKMS .takeRequest st.world req w' :=
    ⟨st.world.clock, le_rfl, reqs, hreqs, rfl⟩
  have hread : worldSem googleUUID sampleKMS (.repo (.getKey req.keyID)) w'
      (.error Err.nilPointer) w' := ⟨st.world.clock, le_rfl, w'.table, .inr ⟨⟨_, rfl⟩, rfl⟩, rfl⟩
  have hworked := (hrun.step (.take hidle htickets htake)).step (.work rfl hread)
  refine ⟨_, hworked, hfilled.table, ?_, hfilled.results, ?_, ?_, hfilled.nobody⟩
  · have hlength := hfilled.requests
    rw [hreqs] at hlength
    exact Nat.succ.inj hlength
  · rw [List.length_append, List.length_singleton, hfilled.workers]
  · intro wk hwk
    rcases List.mem_append.mp hwk with hold | hnew
    · exact hfilled.finished wk hold
    · rw [List.mem_singleton.mp hnew]
      exact ⟨_, rfl⟩

/-- A worker sends its result. -/
theorem Fills.send {q k r : Nat} (h : Fills q (k + 1) r) (hr : r < queueDepth) :
    Fills q k (r + 1) := by
  obtain ⟨st, hrun, hfilled⟩ := h
  obtain ⟨⟨ticket, req, todo⟩, rest, hworkers⟩ :=
    List.exists_cons_of_length_eq_add_one hfilled.workers
  have hfinished := hfilled.finished
  rw [hworkers] at hfinished
  obtain ⟨out, rfl⟩ := hfinished _ List.mem_cons_self
  have hroom : st.world.results.length < queueDepth := hfilled.results ▸ hr
  have hfirst : st.workers = [] ++ ⟨ticket, req, .ret out⟩ :: rest := hworkers
  have hsent := hrun.step (.send hfirst ⟨st.world.clock, le_rfl, hroom, rfl⟩)
  refine ⟨_, hsent, hfilled.table, hfilled.requests, ?_, ?_, fun wk hwk => ?_, hfilled.nobody⟩
  · change (st.world.results ++ [_]).length = r + 1
    rw [List.length_append, List.length_singleton, hfilled.results]
  · have hlength := hfilled.workers
    rw [hworkers] at hlength
    exact Nat.succ.inj hlength
  · exact hfinished wk (List.mem_cons_of_mem _ hwk)

theorem fills_start : Fills 0 0 0 := by
  refine ⟨.start twoKeys, ⟨[], .refl⟩, rfl, rfl, rfl, rfl, fun _ hwk => ?_, fun _ hc => ?_⟩
  · cases hwk
  · cases hc

theorem fills_all : Fills queueDepth workerCount queueDepth := by
  have hresults : ∀ r, r ≤ queueDepth → Fills 0 0 r := by
    intro r
    induction r with
    | zero => exact fun _ => fills_start
    | succ r ih =>
      intro hr
      exact (((ih (by omega)).request (by decide)).take (by decide)).send hr
  have hworkers : ∀ k, k ≤ workerCount → Fills 0 k queueDepth := by
    intro k
    induction k with
    | zero => exact fun _ => hresults queueDepth le_rfl
    | succ k ih => exact fun hk => ((ih (by omega)).request (by decide)).take hk
  have hqueue : ∀ q, q ≤ queueDepth → Fills q workerCount queueDepth := by
    intro q
    induction q with
    | zero => exact fun _ => hworkers workerCount le_rfl
    | succ q ih => exact fun hq => (ih (by omega)).request hq
  exact hqueue queueDepth le_rfl

/-! ## 6. Exactly once -/

/-- A step after which no more callers have left than the results channel and the workers have room
for. -/
def PatientStep (s : KeyService) (kms : KMS) (st st' : PipelineState) : Prop :=
  PipelineStep s kms (fun _ => True) st st' ∧ st'.gone ≤ queueDepth + workerCount

/-- **Accepted requests are executed exactly once.** The account of every run is in order: an
accepted request is in one place, once, and has been executed once if it has left the queue.  In a
run in which at most 105 callers leave before they have received a result, each request does leave
the queue, unless an encryption never comes back. -/
theorem rotation_exactly_once (s : KeyService) (kms : KMS) (w : World) :
    (∀ log st, PipelineRun (PipelineStep s kms fun _ => True) (.start w) log st →
      Accounted s log st) ∧
    (kms.Answers → ∀ log st, PipelineRun (PatientStep s kms) (.start w) log st →
      Accounted s log st ∧ Executes s kms st) := by
  refine ⟨fun log st hrun => hrun.inv.accounted, fun hkms log st hrun => ?_⟩
  have hinv : RunInv s kms log st := (hrun.mono fun _ _ hstep => hstep.1).inv
  have hgone : st.gone ≤ queueDepth + workerCount := by
    cases hrun with
    | refl => exact Nat.zero_le _
    | tail _ hstep => exact hstep.2
  exact ⟨hinv.accounted, hinv.executes hkms hgone⟩

/-- A caller waits: its request is in the queue and will be executed. -/
theorem rotation_exactly_once_waiting :
    sampleKMS.Answers ∧ ∃ log st, PipelineRun (PatientStep sampleService sampleKMS) (.start twoKeys)
      log st ∧ st.queued = [0] ∧ Accounted sampleService log st ∧
        Executes sampleService sampleKMS st := by
  have hkms : sampleKMS.Answers := fun _ _ _ => ⟨_, rfl⟩
  obtain ⟨todo, todo', key, req, hcall, hprepare, haccept⟩ :=
    @request_steps (.start twoKeys) rfl (by decide)
  have hcalled : PipelineRun (PatientStep sampleService sampleKMS) (.start twoKeys) _ _ :=
    .tail .refl ⟨hcall, Nat.zero_le _⟩
  have hrun := (hcalled.tail ⟨hprepare, Nat.zero_le _⟩).tail ⟨haccept, Nat.zero_le _⟩
  have hresult := (rotation_exactly_once sampleService sampleKMS twoKeys).2 hkms _ _ hrun
  exact ⟨hkms, _, _, hrun, rfl, hresult⟩

/-- **An accepted request that is never executed.** When 205 callers have left without a result,
the requests of the last hundred of them are in the queue and stay there: whatever happens next,
`processRotation` is not called again, and every other request is refused. -/
theorem rotation_never_executed :
    ∃ log st, PipelineRun (PipelineStep sampleService sampleKMS fun _ => True)
      (.start twoKeys) log st ∧
      st.queued.length = queueDepth ∧ (∀ ticket ∈ st.queued, ticket ∈ st.accepted ∧ ticket ∉ log) ∧
      ∀ more st', PipelineRun (PipelineStep sampleService sampleKMS fun _ => True) st more st' →
        more = [] ∧ st'.queued = st.queued := by
  obtain ⟨st, ⟨log, hrun⟩, hfilled⟩ := fills_all
  have hinv := hrun.inv
  have hstuck : Stuck st := ⟨hfilled.requests, hfilled.results, hfilled.workers, hfilled.finished,
    hfilled.nobody⟩
  refine ⟨log, st, hrun, hinv.traced.queued.length_eq.symm.trans hfilled.requests, ?_, ?_⟩
  · intro ticket hticket
    refine ⟨hinv.balanced.accepted.mem_iff.mpr (List.mem_append_left _ hticket), fun hlog => ?_⟩
    have hpast := hinv.balanced.executed.mem_iff.mp hlog
    exact (List.nodup_append.mp hinv.balanced.nodup).2.2 _ hticket _ hpast rfl
  · exact fun more st' hmore => hstuck.forever hinv.traced hmore

end Polykey
