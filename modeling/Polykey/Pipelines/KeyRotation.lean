/-
# The rotation pipeline

`pipelines/key_rotation.go` and the callers in `keyServiceImpl.RotateKey`: any number of callers,
two channels, five workers.  A caller prepares a request, enqueues it and then takes WHATEVER
RESULT COMES NEXT out of the one results channel; nothing in a result says whose it is.

The model is the world of the service with tickets beside it.  Every step is a call on the world,
as the programs of the service make it; the ticket of a request is the index of the caller that
enqueued it, and it follows the request through the channel, the worker and the results channel.
The code has no tickets, and no step looks at one.

* In every run a result is about the request its ticket names (`Traced`).
* In a run where a request is only ever enqueued into an idle pipeline, a caller receives its own
  result (`rotation_result_own`).
* Two callers at once are enough to swap results (`rotation_results_swapped`).
-/
import Polykey.Service.Scenario

namespace Polykey

open Lib

/-! ## 1. Callers, workers and the pipeline -/

/-- Where a call of `RotateKey` stands. -/
inductive Phase
  /-- what is left of the part up to `Enqueue` -/
  | preparing (todo : Prog Effect (Except Err (Key × KeyRotationRequest)))
  | refused
  | waiting (currentKey : Key) (req : KeyRotationRequest)
  /-- it took this result, of the request with this ticket -/
  | received (currentKey : Key) (req : KeyRotationRequest) (ticket : Nat)
    (result : KeyRotationResult)
  | cancelled (req : KeyRotationRequest)

structure Caller where
  item : RotateKeyItem
  phase : Phase

/-- The request that the caller got into the channel. -/
def Caller.accepted (c : Caller) : Option KeyRotationRequest :=
  match c.phase with
  | .preparing _ | .refused => none
  | .waiting _ req | .received _ req _ _ | .cancelled req => some req

/-- What the caller has received: its own request, the result's ticket and the result. -/
def Caller.receipt (c : Caller) : Option (KeyRotationRequest × Nat × KeyRotationResult) :=
  match c.phase with
  | .received _ req ticket result => some (req, ticket, result)
  | _ => none

/-- A worker with a request in hand, and what is left of its rotation. -/
structure Worker where
  ticket : Nat
  req : KeyRotationRequest
  todo : Prog Effect (Except Err Key)

structure PipelineState where
  world : World
  /-- the tickets of the requests in the channel -/
  queued : List Nat
  workers : List Worker
  /-- the tickets of the results in the channel -/
  answered : List Nat
  callers : List Caller

namespace PipelineState

/-- Nothing in the pipeline, nobody waiting. -/
def start (w : World) : PipelineState := ⟨{ w with requests := [], results := [] }, [], [], [], []⟩

/-- The request with a ticket. -/
def request (st : PipelineState) (ticket : Nat) : Option KeyRotationRequest :=
  st.callers[ticket]?.bind Caller.accepted

/-- The tickets of the requests that have been accepted and whose result nobody has received. -/
def outstanding (st : PipelineState) : List Nat :=
  st.queued ++ (st.workers.map Worker.ticket ++ st.answered)

def setPhase (st : PipelineState) (w : World) (i : Nat) (item : RotateKeyItem) (phase : Phase) :
    PipelineState :=
  { st with world := w, callers := st.callers.set i ⟨item, phase⟩ }

end PipelineState

/-- One step.  `cond` is asked of the state in which a request is accepted. -/
inductive PipelineStep (s : KeyService) (kms : KMS) (cond : PipelineState → Prop) :
    PipelineState → PipelineState → Prop
  | call {st : PipelineState} (item : RotateKeyItem) :
    PipelineStep s kms cond st
      { st with callers := st.callers ++ [⟨item, .preparing (s.rotationRequest item)⟩] }
  | prepare {st : PipelineState} {i : Nat} {item : RotateKeyItem} {op : EffectOp}
    {k : op.Res → Prog Effect (Except Err (Key × KeyRotationRequest))} {r : op.Res} {w' : World}
    (hcaller : st.callers[i]? = some ⟨item, .preparing (.call op k)⟩)
    (hop : worldSem s.uuid kms op st.world r w') :
    PipelineStep s kms cond st (st.setPhase w' i item (.preparing (k r)))
  | accept {st : PipelineState} {i : Nat} {item : RotateKeyItem} {currentKey : Key}
    {req : KeyRotationRequest} {w' : World}
    (hcaller : st.callers[i]? = some ⟨item, .preparing (.ret (.ok (currentKey, req)))⟩)
    (hcond : cond st) (hop : worldSem s.uuid kms (.enqueue req) st.world true w') :
    PipelineStep s kms cond st
      { st.setPhase w' i item (.waiting currentKey req) with queued := st.queued ++ [i] }
  | refuse {st : PipelineState} {i : Nat} {item : RotateKeyItem} {currentKey : Key}
    {req : KeyRotationRequest} {w' : World}
    (hcaller : st.callers[i]? = some ⟨item, .preparing (.ret (.ok (currentKey, req)))⟩)
    (hop : worldSem s.uuid kms (.enqueue req) st.world false w') :
    PipelineStep s kms cond st (st.setPhase w' i item .refused)
  | take {st : PipelineState} {req : KeyRotationRequest} {ticket : Nat} {rest : List Nat}
    {w' : World} (hidle : st.workers.length < workerCount) (hqueued : st.queued = ticket :: rest)
    (hop : worldSem s.uuid kms .takeRequest st.world req w') :
    PipelineStep s kms cond st
      { st with
        world := w'
        queued := rest
        workers := st.workers ++ [⟨ticket, req, KeyService.pipelineRotation req⟩] }
  | work {st : PipelineState} {pre post : List Worker} {ticket : Nat} {req : KeyRotationRequest}
    {op : EffectOp} {k : op.Res → Prog Effect (Except Err Key)} {r : op.Res} {w' : World}
    (hworkers : st.workers = pre ++ ⟨ticket, req, .call op k⟩ :: post)
    (hop : worldSem s.uuid kms op st.world r w') :
    PipelineStep s kms cond st
      { st with world := w', workers := pre ++ ⟨ticket, req, k r⟩ :: post }
  | send {st : PipelineState} {pre post : List Worker} {ticket : Nat} {req : KeyRotationRequest}
    {out : Except Err Key} {w' : World}
    (hworkers : st.workers = pre ++ ⟨ticket, req, .ret out⟩ :: post)
    (hop : worldSem s.uuid kms (.sendResult ⟨req.keyID, out⟩) st.world () w') :
    PipelineStep s kms cond st
      { st with world := w', workers := pre ++ post, answered := st.answered ++ [ticket] }
  | receive {st : PipelineState} {i : Nat} {item : RotateKeyItem} {currentKey : Key}
    {req : KeyRotationRequest} {ticket : Nat} {rest : List Nat} {result : KeyRotationResult}
    {w' : World} (hcaller : st.callers[i]? = some ⟨item, .waiting currentKey req⟩)
    (hanswered : st.answered = ticket :: rest)
    (hop : worldSem s.uuid kms .awaitResult st.world (some result) w') :
    PipelineStep s kms cond st
      { st.setPhase w' i item (.received currentKey req ticket result) with answered := rest }
  | cancel {st : PipelineState} {i : Nat} {item : RotateKeyItem} {currentKey : Key}
    {req : KeyRotationRequest} {w' : World}
    (hcaller : st.callers[i]? = some ⟨item, .waiting currentKey req⟩)
    (hop : worldSem s.uuid kms .awaitResult st.world none w') :
    PipelineStep s kms cond st (st.setPhase w' i item (.cancelled req))
  /-- another call of the service -/
  | other {st : PipelineState} {w' : World} (hrequests : w'.requests = st.world.requests)
    (hresults : w'.results = st.world.results) :
    PipelineStep s kms cond st { st with world := w' }

/-- What `RotateKey` does with what it received. -/
def rotationReply (item : RotateKeyItem) (currentKey : Key) :
    Option KeyRotationResult → Svc RotateKeyResponse
  | none => Act.throw (.of .contextCanceled)
  | some result =>
    match result.rotatedKey with
    | .error e => Act.throw e
    | .ok rotatedKey => do
      let now ← Act.call (I := Effect) .timeNow
      pure (KeyService.rotationResponse item currentKey rotatedKey now)

/-- **`RotateKey` is what the phases of a caller say**: prepare, enqueue, take a result, reply. -/
theorem rotateKey_eq (s : KeyService) (req : RotateKeyRequest) :
    s.rotateKey req = (do
      let prepared ← s.rotationRequest req.item
      let accepted ← Act.call (I := Effect) (.enqueue prepared.2)
      if !accepted then Act.throw (.new ("rpc error: code = ResourceExhausted desc = " ++
        "key rotation queue is full, please try again later"))
      else do
        let received ← Act.call (I := Effect) .awaitResult
        rotationReply req.item prepared.1 received) := by
  rfl

/-! ## 2. What the programs between the channels do -/

/-- Does the call go to one of the two channels? -/
def EffectOp.usesChannels : EffectOp → Bool
  | enqueue _ | awaitResult | takeRequest | sendResult _ => true
  | _ => false

/-- Other calls leave the channels alone. -/
theorem worldSem_channels {uuid : UUIDPkg} {kms : KMS} {op : EffectOp} {w w' : World} {r : op.Res}
    (h : worldSem uuid kms op w r w') (hop : op.usesChannels = false) :
    w'.requests = w.requests ∧ w'.results = w.results := by
  obtain ⟨now, -, h⟩ := h
  cases op with
  | enqueue _ | awaitResult | takeRequest | sendResult _ => cases hop
  | repo rop =>
    obtain ⟨t', -, rfl⟩ := h
    exact ⟨rfl, rfl⟩
  | encryptDEK _ _ _ | decryptDEK _ _ | timeNow | randRead _ | policyGet _ =>
    obtain ⟨-, rfl⟩ := h
    exact ⟨rfl, rfl⟩
  | newKeyID | auditLog _ | policySet _ _ _ =>
    cases h
    exact ⟨rfl, rfl⟩

/-- Programs that stay away from the channels; nothing else is asked of them or of the world. -/
def quietDiscipline (uuid : UUIDPkg) (kms : KMS) : Discipline Effect World where
  sem := worldSem uuid kms
  promise op _ := op.usesChannels = false
  inv _ := True
  rely _ _ := True
  refl _ := trivial
  trans _ _ := trivial

/-- The program stays away from the channels, and its result is one of these. -/
def Quiet (uuid : UUIDPkg) (kms : KMS) {α : Type} (Q : α → Prop) (p : Prog Effect α) : Prop :=
  ∀ w, p.Meets (quietDiscipline uuid kms) (fun a _ => Q a) w

variable {s : KeyService} {uuid : UUIDPkg} {kms : KMS} {w w' : World}

/-- One call of such a program. -/
theorem Quiet.call {α : Type} {Q : α → Prop} {op : EffectOp} {k : op.Res → Prog Effect α}
    (h : Quiet uuid kms Q (.call op k)) {r : op.Res} (hop : worldSem uuid kms op w r w') :
    Quiet uuid kms Q (k r) ∧ w'.requests = w.requests ∧ w'.results = w.results := by
  obtain ⟨hquiet, hstep⟩ := h w w trivial trivial
  refine ⟨fun w₁ => ?_, worldSem_channels hop hquiet⟩
  exact ((hstep r w' hop).2.2).stable (fun _ _ _ _ hQ => hQ) trivial

theorem Quiet.ret {α : Type} {Q : α → Prop} {a : α} (h : Quiet uuid kms Q (.ret a)) (w : World) :
    Q a := h w

/-- What a rotation of the request's key returned, or an error. -/
def Produced (uuid : UUIDPkg) (req : KeyRotationRequest) (out : Except Err Key) : Prop :=
  ∀ key, out = .ok key →
    ∃ now dek t t', PSQLAdapter.rotateKey uuid now t req.keyID dek = (.ok key, t')

theorem Produced.id {req : KeyRotationRequest} {key : Key} (h : Produced uuid req (.ok key)) :
    key.id = req.keyID := by
  obtain ⟨now, dek, t, t', hrot⟩ := h key rfl
  obtain ⟨old, m, hrotation, rfl⟩ := PSQLAdapter.rotateKey_eq_ok.mp hrot
  exact (Table.latest_eq_some.mp hrotation.latest).2.1

/-- A call of the interface, in a specification that says nothing about the world. -/
theorem quiet_tryCall {α : Type} {op : EffectOp} {k : op.Res → Except Err α} {Q : α → World → Prop}
    (hop : op.usesChannels = false)
    (hQ : ∀ w r w', worldSem uuid kms op w r w' → ∀ a, k r = .ok a → Q a w') :
    Act.Spec (quietDiscipline uuid kms) (fun _ => True) (Act.tryCall (I := Effect) op k) Q :=
  Act.Spec.tryCall (fun _ _ _ _ => trivial) fun w _ _ =>
    ⟨hop, fun r w' h => ⟨trivial, trivial, hQ w r w' h⟩⟩

theorem quiet_any {α : Type} {op : EffectOp} {k : op.Res → Except Err α}
    (hop : op.usesChannels = false) :
    Act.Spec (quietDiscipline uuid kms) (fun _ => True) (Act.tryCall (I := Effect) op k)
      fun _ _ => True :=
  quiet_tryCall hop fun _ _ _ _ _ _ => trivial

/-- **A worker's rotation** stays away from the channels and returns a rotation of its key. -/
theorem quiet_pipelineRotation (req : KeyRotationRequest) :
    Quiet uuid kms (Produced uuid req) (KeyService.pipelineRotation req) := by
  have hspec : Act.Spec (quietDiscipline uuid kms) (fun _ => True)
      (KeyService.pipelineRotation req) fun key _ => Produced uuid req (.ok key) := by
    refine .bind (.mapError (quiet_any rfl)) fun currentKey => ?_
    refine .bind (.mapError (quiet_any rfl)) fun newDEK => ?_
    refine .bind (.mapError (quiet_any rfl)) fun dek => ?_
    refine .mapError (quiet_tryCall rfl ?_)
    rintro w r w' ⟨now, -, t', hans, rfl⟩ key rfl key' hkey'
    cases hkey'
    rcases hans with hexec | ⟨⟨e, he⟩, -⟩
    · exact ⟨now, dek, w.table, t', hexec⟩
    · cases he
  intro w
  refine (hspec.meets w trivial).mono fun out _ h key hkey => ?_
  exact h key hkey key rfl

/-- The first half of `RotateKey` stays away from the channels, and its request is about the key
that the call names. -/
theorem quiet_rotationRequest (item : RotateKeyItem) :
    Quiet s.uuid kms (fun out => ∀ currentKey req, out = .ok (currentKey, req) →
      keyIDFromString s.uuid item.keyId = .ok req.keyID) (s.rotationRequest item) := by
  have hspec : Act.Spec (quietDiscipline s.uuid kms) (fun _ => True) (s.rotationRequest item)
      fun prepared _ => keyIDFromString s.uuid item.keyId = .ok prepared.2.keyID := by
    refine .bind (Q := fun id _ => keyIDFromString s.uuid item.keyId = .ok id)
      (.ofExcept fun id hid _ _ => hid) fun id => ?_
    refine (Act.Spec.assume fun hid => ?_).pre (P := fun _ => _ ∧ True) fun _ hid => ⟨hid, trivial⟩
    refine .bind (.mapError (quiet_any rfl)) fun currentKey => ?_
    refine .bind (.ofExcept (Q := fun _ _ => True) fun _ _ _ _ => trivial) fun provider => ?_
    refine .bind (.ofExcept (Q := fun _ _ => True) fun _ _ _ _ => trivial) fun size => ?_
    exact .pure fun _ _ => hid
  intro w
  refine (hspec.meets w trivial).mono fun out _ h currentKey req hout => ?_
  exact h _ hout

/-! ## 3. Every result is about the request its ticket names

The invariant follows a request through its places. One lemma for each kind of step: whoever
moves carries its facts along, and the others keep theirs since no accepted request is forgotten. -/

/-- The result answers the request: it names its key, and it comes from a rotation of it. -/
structure AnswersRequest (uuid : UUIDPkg) (req : KeyRotationRequest) (result : KeyRotationResult) :
    Prop where
  keyID : result.keyID = req.keyID
  produced : Produced uuid req result.rotatedKey

/-- What is known of a caller in its phase. -/
def Caller.Traced (s : KeyService) (kms : KMS) (st : PipelineState) (c : Caller) : Prop :=
  (∀ req, c.accepted = some req → keyIDFromString s.uuid c.item.keyId = .ok req.keyID) ∧
  match c.phase with
  | .preparing todo => Quiet s.uuid kms (fun out => ∀ currentKey req, out = .ok (currentKey, req) →
      keyIDFromString s.uuid c.item.keyId = .ok req.keyID) todo
  | .received _ _ ticket result =>
    ∃ req, st.request ticket = some req ∧ AnswersRequest s.uuid req result
  | _ => True

/-- Tickets tell the truth. -/
structure Traced (s : KeyService) (kms : KMS) (st : PipelineState) : Prop where
  queued : List.Forall₂ (fun req ticket => st.request ticket = some req) st.world.requests st.queued
  working : ∀ wk ∈ st.workers, st.request wk.ticket = some wk.req ∧
    Quiet s.uuid kms (Produced s.uuid wk.req) wk.todo
  answered : List.Forall₂
    (fun result ticket => ∃ req, st.request ticket = some req ∧ AnswersRequest s.uuid req result)
    st.world.results st.answered
  callers : ∀ c ∈ st.callers, c.Traced s kms st

/-- No accepted request is forgotten. -/
def Remembers (st st' : PipelineState) : Prop :=
  ∀ ticket req, st.request ticket = some req → st'.request ticket = some req

section Steps

variable {st st' : PipelineState} {cond : PipelineState → Prop} {i : Nat}

theorem remembers_append (st : PipelineState) (c : Caller) :
    Remembers st { st with callers := st.callers ++ [c] } := by
  intro ticket req h
  obtain ⟨c₀, hc₀, hreq⟩ := Option.bind_eq_some_iff.mp h
  obtain ⟨hlt, -⟩ := List.getElem?_eq_some_iff.mp hc₀
  refine Option.bind_eq_some_iff.mpr ⟨c₀, ?_, hreq⟩
  exact (List.getElem?_append_left hlt).trans hc₀

/-- A caller whose request stays what it was. -/
theorem remembers_setPhase {item : RotateKeyItem} {phase : Phase} (phase' : Phase)
    (hcaller : st.callers[i]? = some ⟨item, phase⟩)
    (hkeep : ∀ req, (Caller.mk item phase).accepted = some req →
      (Caller.mk item phase').accepted = some req) (w' : World) :
    Remembers st (st.setPhase w' i item phase') := by
  intro ticket req h
  obtain ⟨c₀, hc₀, hreq⟩ := Option.bind_eq_some_iff.mp h
  by_cases hi : i = ticket
  · subst hi
    obtain rfl := Option.some.inj (hcaller.symm.trans hc₀)
    obtain ⟨hlt, -⟩ := List.getElem?_eq_some_iff.mp hc₀
    exact Option.bind_eq_some_iff.mpr ⟨_, List.getElem?_set_self hlt, hkeep req hreq⟩
  · exact Option.bind_eq_some_iff.mpr ⟨c₀, (List.getElem?_set_ne hi).trans hc₀, hreq⟩

theorem Caller.Traced.mono {c : Caller} (h : c.Traced s kms st) (hr : Remembers st st') :
    c.Traced s kms st' := by
  refine ⟨h.1, ?_⟩
  have h₂ := h.2
  split at h₂
  · exact h₂
  · obtain ⟨req, hreq, hans⟩ := h₂
    exact ⟨req, hr _ _ hreq, hans⟩
  · trivial

/-- The callers after one of them has moved on. -/
theorem Traced.callers_setPhase (h : Traced s kms st) (hr : Remembers st st') {c : Caller}
    (hset : st'.callers = st.callers.set i c) (hc : c.Traced s kms st') :
    ∀ c' ∈ st'.callers, c'.Traced s kms st' := by
  intro c' hc'
  rw [hset] at hc'
  rcases List.mem_or_eq_of_mem_set hc' with hmem | rfl
  · exact (h.callers c' hmem).mono hr
  · exact hc

theorem Traced.queued_mono (h : Traced s kms st) (hr : Remembers st st') :
    List.Forall₂ (fun req ticket => st'.request ticket = some req) st.world.requests st.queued :=
  h.queued.imp fun _ _ hreq => hr _ _ hreq

theorem Traced.working_mono (h : Traced s kms st) (hr : Remembers st st') :
    ∀ wk ∈ st.workers, st'.request wk.ticket = some wk.req ∧
      Quiet s.uuid kms (Produced s.uuid wk.req) wk.todo :=
  fun wk hwk => ⟨hr _ _ (h.working wk hwk).1, (h.working wk hwk).2⟩

theorem Traced.answered_mono (h : Traced s kms st) (hr : Remembers st st') :
    List.Forall₂
      (fun result ticket => ∃ req, st'.request ticket = some req ∧ AnswersRequest s.uuid req result)
      st.world.results st.answered :=
  h.answered.imp fun _ _ ⟨req, hreq, hans⟩ => ⟨req, hr _ _ hreq, hans⟩

/-- A caller moves on and the channels stay as they are. -/
theorem Traced.setPhase (h : Traced s kms st) {item : RotateKeyItem} {phase phase' : Phase}
    (hcaller : st.callers[i]? = some ⟨item, phase⟩)
    (hkeep : ∀ req, (Caller.mk item phase).accepted = some req →
      (Caller.mk item phase').accepted = some req)
    (hrequests : w'.requests = st.world.requests) (hresults : w'.results = st.world.results)
    (hc : (Caller.mk item phase').Traced s kms (st.setPhase w' i item phase')) :
    Traced s kms (st.setPhase w' i item phase') := by
  have hr := remembers_setPhase phase' hcaller hkeep w'
  refine ⟨?_, h.working_mono hr, ?_, h.callers_setPhase hr rfl hc⟩
  · exact hrequests ▸ h.queued_mono hr
  · exact hresults ▸ h.answered_mono hr

theorem Traced.accept (h : Traced s kms st) {item : RotateKeyItem} {currentKey : Key}
    {req : KeyRotationRequest}
    (hcaller : st.callers[i]? = some ⟨item, .preparing (.ret (.ok (currentKey, req)))⟩)
    (hrequests : w'.requests = st.world.requests ++ [req])
    (hresults : w'.results = st.world.results) :
    Traced s kms
      { st.setPhase w' i item (.waiting currentKey req) with queued := st.queued ++ [i] } := by
  have hr := remembers_setPhase (.waiting currentKey req) hcaller (fun _ hreq => by cases hreq) w'
  obtain ⟨hlt, -⟩ := List.getElem?_eq_some_iff.mp hcaller
  have hnew : (st.setPhase w' i item (.waiting currentKey req)).request i = some req :=
    Option.bind_eq_some_iff.mpr ⟨_, List.getElem?_set_self hlt, rfl⟩
  have hkeyID := (h.callers _ (List.mem_of_getElem? hcaller)).2.ret w' currentKey req rfl
  refine ⟨?_, h.working_mono hr, hresults ▸ h.answered_mono hr, h.callers_setPhase hr rfl ?_⟩
  · change List.Forall₂ _ w'.requests _
    rw [hrequests]
    exact List.rel_append (h.queued_mono hr) (.cons hnew .nil)
  · refine ⟨fun req' hreq' => ?_, trivial⟩
    cases hreq'
    exact hkeyID

theorem Traced.take (h : Traced s kms st) {req : KeyRotationRequest} {ticket : Nat}
    {rest : List Nat} (hqueued : st.queued = ticket :: rest)
    (hop : worldSem s.uuid kms .takeRequest st.world req w') :
    Traced s kms { st with
      world := w'
      queued := rest
      workers := st.workers ++ [⟨ticket, req, KeyService.pipelineRotation req⟩] } := by
  obtain ⟨now, -, rest, hrequests, rfl⟩ := hop
  have hfirst := h.queued
  rw [hrequests, hqueued] at hfirst
  obtain ⟨hreq, hrest⟩ := List.forall₂_cons.mp hfirst
  refine ⟨hrest, fun wk hwk => ?_, h.answered, h.callers⟩
  rcases List.mem_append.mp hwk with hwk | hwk
  · exact h.working wk hwk
  · obtain rfl := List.mem_singleton.mp hwk
    exact ⟨hreq, quiet_pipelineRotation _⟩

theorem Traced.work (h : Traced s kms st) {pre post : List Worker} {ticket : Nat}
    {req : KeyRotationRequest} {op : EffectOp} {k : op.Res → Prog Effect (Except Err Key)}
    {r : op.Res} (hworkers : st.workers = pre ++ ⟨ticket, req, .call op k⟩ :: post)
    (hop : worldSem s.uuid kms op st.world r w') :
    Traced s kms { st with world := w', workers := pre ++ ⟨ticket, req, k r⟩ :: post } := by
  have hmem : ⟨ticket, req, .call op k⟩ ∈ st.workers := by simp [hworkers]
  obtain ⟨hreq, hquiet⟩ := h.working _ hmem
  obtain ⟨hnext, hrequests, hresults⟩ := Quiet.call hquiet hop
  refine ⟨hrequests ▸ h.queued, fun wk hwk => ?_, hresults ▸ h.answered, h.callers⟩
  rcases List.mem_append.mp hwk with hwk | hwk
  · exact h.working wk (by simp [hworkers, hwk])
  · rcases List.mem_cons.mp hwk with rfl | hwk
    · exact ⟨hreq, hnext⟩
    · exact h.working wk (by simp [hworkers, hwk])

theorem Traced.send (h : Traced s kms st) {pre post : List Worker} {ticket : Nat}
    {req : KeyRotationRequest} {out : Except Err Key}
    (hworkers : st.workers = pre ++ ⟨ticket, req, .ret out⟩ :: post)
    (hop : worldSem s.uuid kms (.sendResult ⟨req.keyID, out⟩) st.world () w') :
    Traced s kms { st with
      world := w', workers := pre ++ post, answered := st.answered ++ [ticket] } := by
  obtain ⟨now, -, -, rfl⟩ := hop
  have hmem : ⟨ticket, req, .ret out⟩ ∈ st.workers := by simp [hworkers]
  obtain ⟨hreq, hquiet⟩ := h.working _ hmem
  refine ⟨h.queued, fun wk hwk => ?_, ?_, h.callers⟩
  · refine h.working wk ?_
    rcases List.mem_append.mp hwk with hwk | hwk <;> simp [hworkers, hwk]
  · exact List.rel_append h.answered (.cons ⟨req, hreq, rfl, hquiet.ret st.world⟩ .nil)

theorem Traced.receive (h : Traced s kms st) {item : RotateKeyItem} {currentKey : Key}
    {req : KeyRotationRequest} {ticket : Nat} {rest : List Nat} {result : KeyRotationResult}
    (hcaller : st.callers[i]? = some ⟨item, .waiting currentKey req⟩)
    (hanswered : st.answered = ticket :: rest)
    (hop : worldSem s.uuid kms .awaitResult st.world (some result) w') :
    Traced s kms { st.setPhase w' i item (.received currentKey req ticket result) with
      answered := rest } := by
  obtain ⟨now, -, ⟨res, rest', hresults, hres, rfl⟩ | ⟨hnone, -⟩⟩ := hop
  · obtain rfl := Option.some.inj hres
    have hr := remembers_setPhase (.received currentKey req ticket result) hcaller
      (fun _ hreq => hreq) { st.world with results := rest', clock := now }
    have hfirst := h.answered_mono hr
    rw [hresults, hanswered] at hfirst
    obtain ⟨hown, hrest⟩ := List.forall₂_cons.mp hfirst
    refine ⟨h.queued_mono hr, h.working_mono hr, hrest, h.callers_setPhase hr rfl ?_⟩
    exact ⟨(h.callers _ (List.mem_of_getElem? hcaller)).1, hown⟩
  · cases hnone

/-- What one step keeps. -/
theorem Traced.step (h : Traced s kms st) (hstep : PipelineStep s kms cond st st') :
    Traced s kms st' := by
  cases hstep with
  | call item =>
    have hr := remembers_append st ⟨item, .preparing (s.rotationRequest item)⟩
    refine ⟨h.queued_mono hr, h.working_mono hr, h.answered_mono hr, fun c hc => ?_⟩
    rcases List.mem_append.mp hc with hc | hc
    · exact (h.callers c hc).mono hr
    · obtain rfl := List.mem_singleton.mp hc
      exact ⟨fun _ hreq => (by cases hreq), quiet_rotationRequest item⟩
  | prepare hcaller hop =>
    have htraced := h.callers _ (List.mem_of_getElem? hcaller)
    obtain ⟨hquiet, hrequests, hresults⟩ := Quiet.call htraced.2 hop
    exact h.setPhase hcaller (fun _ hreq => hreq) hrequests hresults
      ⟨fun _ hreq => (by cases hreq), hquiet⟩
  | accept hcaller hcond hop =>
    obtain ⟨now, -, hop⟩ := hop
    simp only [stepAt] at hop
    split at hop
    · obtain ⟨-, rfl⟩ := hop
      exact h.accept hcaller rfl rfl
    · cases hop.1
  | refuse hcaller hop =>
    obtain ⟨now, -, hop⟩ := hop
    simp only [stepAt] at hop
    split at hop
    · cases hop.1
    · obtain ⟨-, rfl⟩ := hop
      exact h.setPhase hcaller (fun _ hreq => by cases hreq) rfl rfl
        ⟨fun _ hreq => (by cases hreq), trivial⟩
  | take hidle hqueued hop => exact h.take hqueued hop
  | work hworkers hop => exact h.work hworkers hop
  | send hworkers hop => exact h.send hworkers hop
  | receive hcaller hanswered hop => exact h.receive hcaller hanswered hop
  | cancel hcaller hop =>
    obtain ⟨now, -, ⟨res, rest', -, hsome, -⟩ | ⟨-, rfl⟩⟩ := hop
    · cases hsome
    · exact h.setPhase hcaller (fun _ hreq => hreq) rfl rfl
        ⟨(h.callers _ (List.mem_of_getElem? hcaller)).1, trivial⟩
  | other hrequests hresults =>
    exact ⟨hrequests ▸ h.queued, h.working, hresults ▸ h.answered, h.callers⟩

theorem traced_start (w : World) : Traced s kms (.start w) :=
  ⟨.nil, fun _ hwk => (by cases hwk), .nil, fun _ hc => (by cases hc)⟩

/-! ## 4. Whose result a caller receives

Where requests are accepted by an idle pipeline only, at most one is outstanding. The next result
in the channel is then the one of the only caller that waits. -/

/-- Nothing is outstanding. -/
def Idle (st : PipelineState) : Prop := st.outstanding = []

/-- Whoever waits has a request outstanding, and whoever has received a result has received its
own. -/
def Caller.Own (outstanding : List Nat) (i : Nat) (c : Caller) : Prop :=
  match c.phase with
  | .waiting _ _ => i ∈ outstanding
  | .received _ _ ticket _ => ticket = i
  | _ => True

/-- At most one request is outstanding. -/
structure Exclusive (st : PipelineState) : Prop where
  single : st.outstanding.length ≤ 1
  own : ∀ (i : Nat) (c : Caller), st.callers[i]? = some c → c.Own st.outstanding i

/-- The same requests are outstanding, and a caller that has moved on neither waits nor has
received a result of another. -/
theorem Exclusive.of_perm (h : Exclusive st) (hperm : st'.outstanding.Perm st.outstanding)
    (hcallers : ∀ (i : Nat) (c : Caller), st'.callers[i]? = some c →
      st.callers[i]? = some c ∨ c.Own st'.outstanding i) : Exclusive st' := by
  refine ⟨hperm.length_eq ▸ h.single, fun i c hi => ?_⟩
  rcases hcallers i c hi with hi | hown
  · have hown := h.own i c hi
    unfold Caller.Own at hown ⊢
    split at hown
    · exact hperm.mem_iff.mpr hown
    · exact hown
    · trivial
  · exact hown

/-- An element after one of them has been replaced. -/
theorem getElem?_set_cases {α : Type} {cs : List α} {c c' : α} {j : Nat}
    (h : (cs.set i c)[j]? = some c') : j ≠ i ∧ cs[j]? = some c' ∨ j = i ∧ c' = c := by
  by_cases hij : i = j
  · subst hij
    obtain ⟨hlt, -⟩ := List.getElem?_eq_some_iff.mp h
    rw [List.length_set] at hlt
    rw [List.getElem?_set_self hlt] at h
    exact .inr ⟨rfl, (Option.some.inj h).symm⟩
  · exact .inl ⟨Ne.symm hij, (List.getElem?_set_ne hij).symm.trans h⟩

/-- A caller moves on to a phase in which it neither waits nor has received a result. -/
theorem Exclusive.setPhase (h : Exclusive st) {item : RotateKeyItem} {phase : Phase}
    (hphase : ∀ outstanding, (Caller.mk item phase).Own outstanding i) :
    Exclusive (st.setPhase w' i item phase) := by
  refine h.of_perm (.refl _) fun j c hj => ?_
  rcases getElem?_set_cases hj with ⟨-, hj⟩ | ⟨rfl, rfl⟩
  · exact .inl hj
  · exact .inr (hphase _)

/-- An idle pipeline accepts a request. -/
theorem Exclusive.accept (h : Exclusive st) (hidle : Idle st) {item : RotateKeyItem}
    {currentKey : Key} {req : KeyRotationRequest} :
    Exclusive
      { st.setPhase w' i item (.waiting currentKey req) with queued := st.queued ++ [i] } := by
  obtain ⟨hqueued, hrest⟩ := List.append_eq_nil_iff.mp hidle
  have hone : (st.queued ++ [i]) ++ (st.workers.map Worker.ticket ++ st.answered) = [i] := by
    rw [hqueued, hrest]
    rfl
  refine ⟨(congrArg List.length hone).le, fun j c hj => ?_⟩
  rcases getElem?_set_cases hj with ⟨-, hj⟩ | ⟨rfl, rfl⟩
  · have hown := h.own j c hj
    unfold Caller.Own at hown ⊢
    split at hown
    · rw [hidle] at hown
      cases hown
    · exact hown
    · trivial
  · have hmem : j ∈ (st.queued ++ [j]) ++ (st.workers.map Worker.ticket ++ st.answered) := by
      rw [hone]
      exact List.mem_singleton_self j
    exact hmem

/-- The one outstanding request is the receiver's. -/
theorem Exclusive.receive (h : Exclusive st) {item : RotateKeyItem} {currentKey : Key}
    {req : KeyRotationRequest} {ticket : Nat} {rest : List Nat} {result : KeyRotationResult}
    (hcaller : st.callers[i]? = some ⟨item, .waiting currentKey req⟩)
    (hanswered : st.answered = ticket :: rest) :
    Exclusive
      { st.setPhase w' i item (.received currentKey req ticket result) with answered := rest } := by
  have hlen := h.single
  simp only [PipelineState.outstanding, hanswered, List.length_append, List.length_map,
    List.length_cons] at hlen
  have hqueued : st.queued = [] := List.length_eq_zero_iff.mp (by omega)
  have hworkers : st.workers = [] := List.length_eq_zero_iff.mp (by omega)
  have hrest : rest = [] := List.length_eq_zero_iff.mp (by omega)
  have hone : st.outstanding = [ticket] := by
    simp [PipelineState.outstanding, hqueued, hworkers, hanswered, hrest]
  have howner : ∀ (j : Nat) item currentKey req,
      st.callers[j]? = some ⟨item, .waiting currentKey req⟩ → j = ticket := by
    intro j item currentKey req hj
    exact List.mem_singleton.mp (hone ▸ h.own j _ hj)
  refine ⟨?_, fun j c hj => ?_⟩
  · simp [PipelineState.outstanding, PipelineState.setPhase, hqueued, hworkers, hrest]
  rcases getElem?_set_cases hj with ⟨hne, hj⟩ | ⟨rfl, rfl⟩
  · have hown := h.own j c hj
    obtain ⟨item', phase⟩ := c
    cases phase with
    | waiting currentKey' req' =>
      -- there is one ticket, and it cannot be that of two callers
      exact absurd ((howner j _ _ _ hj).trans (howner i _ _ _ hcaller).symm) hne
    | received _ _ _ _ => exact hown
    | preparing _ | refused | cancelled _ => trivial
  · exact (howner j _ _ _ hcaller).symm

/-- What one step keeps, when requests are accepted by an idle pipeline only. -/
theorem Exclusive.step (h : Exclusive st) (hstep : PipelineStep s kms Idle st st') :
    Exclusive st' := by
  cases hstep with
  | call item =>
    refine h.of_perm (.refl _) fun j c hj => ?_
    rcases Nat.lt_or_ge j st.callers.length with hlt | hge
    · exact .inl ((List.getElem?_append_left hlt).symm.trans hj)
    · rw [List.getElem?_append_right hge] at hj
      obtain rfl := List.mem_singleton.mp (List.mem_of_getElem? hj)
      exact .inr trivial
  | prepare hcaller hop => exact h.setPhase fun _ => trivial
  | accept hcaller hcond hop => exact h.accept hcond
  | refuse hcaller hop => exact h.setPhase fun _ => trivial
  | take hidle hqueued hop =>
    refine h.of_perm ?_ fun _ _ hj => .inl hj
    simp only [PipelineState.outstanding, hqueued, List.map_append, List.map_cons, List.map_nil,
      List.append_assoc, List.cons_append, List.nil_append]
    rw [← List.append_assoc, ← List.append_assoc]
    exact List.perm_middle
  | work hworkers hop =>
    refine h.of_perm ?_ fun _ _ hj => .inl hj
    simp [PipelineState.outstanding, hworkers]
  | send hworkers hop =>
    refine h.of_perm ?_ fun _ _ hj => .inl hj
    rename_i pre post ticket req out w'
    simp only [PipelineState.outstanding, hworkers, List.map_append, List.map_cons]
    refine List.Perm.append_left _ ?_
    calc (pre.map Worker.ticket ++ post.map Worker.ticket) ++ (st.answered ++ [ticket])
      _ = ((pre.map Worker.ticket ++ post.map Worker.ticket) ++ st.answered) ++ [ticket] :=
          (List.append_assoc _ _ _).symm
      _ |>.Perm (ticket :: ((pre.map Worker.ticket ++ post.map Worker.ticket) ++ st.answered)) :=
          List.perm_append_singleton _ _
      _ |>.Perm ((pre.map Worker.ticket ++ ticket :: post.map Worker.ticket) ++ st.answered) :=
          List.perm_middle.symm.append_right _
  | receive hcaller hanswered hop => exact h.receive hcaller hanswered
  | cancel hcaller hop => exact h.setPhase fun _ => trivial
  | other hrequests hresults => exact h.of_perm (.refl _) fun _ _ hj => .inl hj

end Steps

/-- What every run keeps. -/
theorem pipeline_invariant {w : World} {st : PipelineState}
    (hrun : Relation.ReflTransGen (PipelineStep s kms Idle) (.start w) st) :
    Traced s kms st ∧ Exclusive st := by
  induction hrun with
  | refl => exact ⟨traced_start w, Nat.zero_le _, fun _ _ hj => by cases hj⟩
  | tail _ hstep ih => exact ⟨ih.1.step hstep, ih.2.step hstep⟩

theorem receipt_eq_some {c : Caller} {req : KeyRotationRequest} {ticket : Nat}
    {result : KeyRotationResult} (h : c.receipt = some (req, ticket, result)) :
    ∃ currentKey, c.phase = .received currentKey req ticket result := by
  unfold Caller.receipt at h
  split at h
  · cases h
    exact ⟨_, ‹_›⟩
  · cases h

/-- **A caller receives its own result**, in every run in which requests are accepted by an idle
pipeline only: the result comes from its own request, names the key that the call names, and
carries a rotation of that key or the error of its own rotation. -/
theorem rotation_result_own {w : World} {st : PipelineState} {i : Nat} {c : Caller}
    {req : KeyRotationRequest} {ticket : Nat} {result : KeyRotationResult}
    (hrun : Relation.ReflTransGen (PipelineStep s kms Idle) (.start w) st)
    (hi : st.callers[i]? = some c) (hreceipt : c.receipt = some (req, ticket, result)) :
    ticket = i ∧ keyIDFromString s.uuid c.item.keyId = .ok req.keyID ∧ result.keyID = req.keyID ∧
      ∀ key, result.rotatedKey = .ok key → key.id = req.keyID ∧
        ∃ now dek t t', PSQLAdapter.rotateKey s.uuid now t req.keyID dek = (.ok key, t') := by
  obtain ⟨htraced, hexclusive⟩ := pipeline_invariant hrun
  obtain ⟨item, phase⟩ := c
  obtain ⟨currentKey, rfl⟩ := receipt_eq_some hreceipt
  obtain rfl : ticket = i := hexclusive.own i _ hi
  obtain ⟨hkeyID, req', hreq', hanswers⟩ := htraced.callers _ (List.mem_of_getElem? hi)
  have hreq : st.request ticket = some req := Option.bind_eq_some_iff.mpr ⟨_, hi, rfl⟩
  obtain rfl : req = req' := Option.some.inj (hreq.symm.trans hreq')
  refine ⟨rfl, hkeyID req rfl, hanswers.keyID, fun key hkey => ?_⟩
  have hproduced : Produced s.uuid req (.ok key) := hkey ▸ hanswers.produced
  exact ⟨hproduced.id, hproduced key rfl⟩

/-! ### Runs that can be evaluated -/

/-- A step in the sample deployment; workers take their turns in order. -/
inductive PipelineMove
  | call (item : RotateKeyItem)
  | prepare (i : Nat)
  | accept (i : Nat)
  | take
  | work
  | send
  | receive (i : Nat)
  | cancel (i : Nat)

namespace PipelineState

/-- The state after a move, if it can be made; `ok` is asked before a request is accepted. -/
def move (ok : PipelineState → Bool) (st : PipelineState) : PipelineMove → Option PipelineState
  | .call item =>
    some { st with
      callers := st.callers ++ [⟨item, .preparing (sampleService.rotationRequest item)⟩] }
  | .prepare i =>
    match st.callers[i]? with
    | some ⟨item, .preparing (.call op k)⟩ =>
      (sampleStep op st.world).map fun out => st.setPhase out.2 i item (.preparing (k out.1))
    | _ => none
  | .accept i =>
    match st.callers[i]? with
    | some ⟨item, .preparing (.ret (.ok (currentKey, req)))⟩ =>
      match ok st, sampleStep (.enqueue req) st.world with
      | true, some (true, w') =>
        some { st.setPhase w' i item (.waiting currentKey req) with queued := st.queued ++ [i] }
      | _, _ => none
    | _ => none
  | .take =>
    match st.queued, sampleStep .takeRequest st.world with
    | ticket :: rest, some (req, w') =>
      if st.workers.length < workerCount then
        some { st with
          world := w'
          queued := rest
          workers := st.workers ++ [⟨ticket, req, KeyService.pipelineRotation req⟩] }
      else none
    | _, _ => none
  | .work =>
    match st.workers with
    | ⟨ticket, req, .call op k⟩ :: post =>
      (sampleStep op st.world).map fun out =>
        { st with world := out.2, workers := ⟨ticket, req, k out.1⟩ :: post }
    | _ => none
  | .send =>
    match st.workers with
    | ⟨ticket, req, .ret out⟩ :: post =>
      (sampleStep (.sendResult ⟨req.keyID, out⟩) st.world).map fun sent =>
        { st with world := sent.2, workers := post, answered := st.answered ++ [ticket] }
    | _ => none
  | .receive i =>
    match st.callers[i]?, st.answered, sampleStep .awaitResult st.world with
    | some ⟨item, .waiting currentKey req⟩, ticket :: rest, some (some result, w') =>
      some { st.setPhase w' i item (.received currentKey req ticket result) with answered := rest }
    | _, _, _ => none
  | .cancel i =>
    match st.callers[i]? with
    | some ⟨item, .waiting _ req⟩ => some (st.setPhase st.world i item (.cancelled req))
    | _ => none

/-- The state after some moves; the same state, when one of them cannot be made. -/
def afterMoves (ok : PipelineState → Bool) (moves : List PipelineMove) (st : PipelineState) :
    PipelineState :=
  (moves.foldlM (move ok) st).getD st

theorem move_run {ok : PipelineState → Bool} {cond : PipelineState → Prop}
    (hok : ∀ st, ok st = true → cond st) {st st' : PipelineState} {m : PipelineMove}
    (h : st.move ok m = some st') : PipelineStep sampleService sampleKMS cond st st' := by
  cases m with
  | call item =>
    cases h
    exact .call item
  | prepare i =>
    simp only [move] at h
    split at h
    · rename_i item op k hi
      obtain ⟨out, hout, rfl⟩ := Option.map_eq_some_iff.mp h
      exact .prepare hi (sampleStep_sound _ _ _ _ hout)
    · cases h
  | accept i =>
    simp only [move] at h
    split at h
    · rename_i item currentKey req hi
      split at h
      · rename_i w' hcond hop
        cases h
        exact .accept hi (hok _ hcond) (sampleStep_sound _ _ _ _ hop)
      · cases h
    · cases h
  | take =>
    simp only [move] at h
    split at h
    · rename_i ticket rest req w' hqueued hop
      split at h
      · rename_i hidle
        cases h
        exact .take hidle hqueued (sampleStep_sound _ _ _ _ hop)
      · cases h
    · cases h
  | work =>
    simp only [move] at h
    split at h
    · rename_i ticket req op k post hworkers
      obtain ⟨out, hout, rfl⟩ := Option.map_eq_some_iff.mp h
      have hfirst : st.workers = [] ++ ⟨ticket, req, .call op k⟩ :: post := hworkers
      exact .work hfirst (sampleStep_sound _ _ _ _ hout)
    · cases h
  | send =>
    simp only [move] at h
    split at h
    · rename_i ticket req out post hworkers
      obtain ⟨sent, hsent, rfl⟩ := Option.map_eq_some_iff.mp h
      have hfirst : st.workers = [] ++ ⟨ticket, req, .ret out⟩ :: post := hworkers
      exact .send hfirst (sampleStep_sound _ _ _ _ hsent)
    · cases h
  | receive i =>
    simp only [move] at h
    split at h
    · rename_i item currentKey req ticket rest result w' hi hanswered hop
      cases h
      exact .receive hi hanswered (sampleStep_sound _ _ _ _ hop)
    · cases h
  | cancel i =>
    simp only [move] at h
    split at h
    · rename_i item currentKey req hi
      cases h
      exact .cancel hi ⟨_, le_rfl, .inr ⟨rfl, rfl⟩⟩
    · cases h

theorem afterMoves_run {ok : PipelineState → Bool} {cond : PipelineState → Prop}
    (hok : ∀ st, ok st = true → cond st) (moves : List PipelineMove) (st : PipelineState) :
    Relation.ReflTransGen (PipelineStep sampleService sampleKMS cond) st
      (st.afterMoves ok moves) := by
  have hrun : ∀ (moves : List PipelineMove) (st st' : PipelineState),
      moves.foldlM (move ok) st = some st' →
        Relation.ReflTransGen (PipelineStep sampleService sampleKMS cond) st st' := by
    intro moves
    induction moves with
    | nil =>
      intro st st' h
      cases h
      exact .refl
    | cons m moves ih =>
      intro st st' h
      obtain ⟨st₁, hm, hrest⟩ := Option.bind_eq_some_iff.mp h
      exact .head (move_run hok hm) (ih st₁ st' hrest)
  unfold afterMoves
  cases hm : moves.foldlM (move ok) st with
  | none => exact .refl
  | some st' => exact hrun moves st st' hm

end PipelineState

/-- A world with two keys, made one after the other. -/
def twoKeys : World :=
  (samplePool [.start sampleCreate, .finish 0, .start sampleCreate, .finish 1]).state

/-- The id of the second key. -/
def otherID : KeyID := ⟨8000⟩

def rotateFirst : RotateKeyItem := ⟨sampleText, 0⟩

def rotateSecond : RotateKeyItem := ⟨otherID.string googleUUID, 0⟩

/-- A caller comes, and its request is accepted. -/
def request (item : RotateKeyItem) (i : Nat) : List PipelineMove :=
  [.call item, .prepare i, .accept i]

/-- A worker serves the next request. -/
def serve : List PipelineMove := [.take, .work, .work, .work, .work, .send]

/-- One caller after the other. -/
def oneByOne : PipelineState :=
  (PipelineState.start twoKeys).afterMoves (fun st => st.outstanding = [])
    (request rotateFirst 0 ++ serve ++ .receive 0 :: request rotateSecond 1 ++ serve ++
      [.receive 1])

/-- The second caller gets the result of its own request. -/
theorem rotation_result_own_oneByOne :
    ∃ req result, oneByOne.callers[1]?.bind Caller.receipt = some (req, 1, result) ∧
      result.keyID = req.keyID := by
  have hrun : Relation.ReflTransGen (PipelineStep sampleService sampleKMS Idle) (.start twoKeys)
      oneByOne :=
    PipelineState.afterMoves_run (fun st h => (of_decide_eq_true h : st.outstanding = [])) _ _
  have hreceived : (oneByOne.callers[1]?.bind Caller.receipt).isSome = true := by decide +kernel
  obtain ⟨⟨req, ticket, result⟩, h⟩ := Option.isSome_iff_exists.mp hreceived
  obtain ⟨c, hi, hreceipt⟩ := Option.bind_eq_some_iff.mp h
  obtain ⟨rfl, -, hkeyID, -⟩ := rotation_result_own hrun hi hreceipt
  exact ⟨req, result, h, hkeyID⟩

/-- The state in which the pipeline is after some moves, with no condition. -/
def afterAny (moves : List PipelineMove) : PipelineState :=
  (PipelineState.start twoKeys).afterMoves (fun _ => true) moves

theorem afterAny_run (moves : List PipelineMove) :
    Relation.ReflTransGen (PipelineStep sampleService sampleKMS fun _ => True) (.start twoKeys)
      (afterAny moves) :=
  PipelineState.afterMoves_run (fun _ _ => trivial) _ _

/-- Two callers at a time: the second takes the result that comes first. -/
def twoAtATime : PipelineState := afterAny
  (request rotateFirst 0 ++ request rotateSecond 1 ++ serve ++ [.receive 1])

/-- The first caller has left before the second one comes. -/
def leftBehind : PipelineState := afterAny
  (request rotateFirst 0 ++ .cancel 0 :: serve ++ request rotateSecond 1 ++ [.receive 1])

/-- The caller of the second key has been given the first key, which is the result of the first
caller's request. -/
def Misdelivered (st : PipelineState) : Prop :=
  st.callers[1]?.map (fun c => c.item.keyId) = some (otherID.string googleUUID) ∧
    (st.callers[1]?.bind Caller.receipt).map
      (fun receipt => (receipt.2.1, receipt.2.2.rotatedKey.toOption.map Key.id)) =
        some (0, some sampleID)

/-- **Results go to whoever asks next**, be it one of two callers at a time or the next one after
a caller that has left. -/
theorem rotation_results_swapped :
    (Relation.ReflTransGen (PipelineStep sampleService sampleKMS fun _ => True)
      (.start twoKeys) twoAtATime ∧ Misdelivered twoAtATime) ∧
    Relation.ReflTransGen (PipelineStep sampleService sampleKMS fun _ => True)
      (.start twoKeys) leftBehind ∧ Misdelivered leftBehind := by
  refine ⟨⟨afterAny_run _, ?_⟩, afterAny_run _, ?_⟩
  all_goals
    unfold Misdelivered
    decide +kernel

end Polykey
