/-
# The asynchronous audit logger

`AsyncAuditLogger` takes the database write out of the request: `AuditLog` puts the event into a
bounded channel, or drops it if there is no room, and `WorkerCount` goroutines take events out and
write them in batches.  A batch is written when it is full, when the worker's ticker fires, and
when the channel has been closed and is empty.

An event is a pointer, so two events with the same contents are still two; here the number of the
call that made it tells them apart.  `accepted`, `dropped` and `lost` only record what became of
each event; no step looks at them.

The result is conservation (`audit_events_conserved`): what has been accepted is in the channel, in
a worker's hands or written, each event once (`Kept`), and when `Stop` returns there is nothing in
the channel and nothing in anybody's hands.
-/
import Mathlib.Data.List.Perm.Basic
import Mathlib.Logic.Relation
import Polykey.Domain.Types

namespace Polykey

namespace AsyncAuditLogger

/-! ## 1. Events, workers and the logger -/

/-- `AsyncAuditLoggerConfig`; when the tickers fire is left open. -/
structure Config where
  channelBufferSize : Nat
  workerCount : Nat
  batchSize : Nat

/-- `domain.AuditEvent`, as `AuditLog` fills it, with the number of the call. -/
structure Event where
  call : Nat
  id : String
  clientIdentity : String
  operation : String
  keyID : String
  authDecisionID : String
  success : Bool
  error : String
  timestamp : Time
  deriving DecidableEq

/-- The event that a call of `AuditLog` makes. -/
def Event.new (call : Nat) (id clientIdentity operation keyID authDecisionID : String)
    (success : Bool) (err : Option Err) (now : Time) : Event where
  call := call
  id := id
  clientIdentity := clientIdentity
  operation := operation
  keyID := keyID
  authDecisionID := authDecisionID
  success := success
  error := err.elim "" Err.text
  timestamp := now

/-- Where a worker stands. -/
inductive Worker
  /-- at the `select`, with its batch -/
  | selecting (batch : List Event)
  /-- about to write a batch and go on -/
  | writing (batch : List Event)
  /-- about to write its last batch and return -/
  | closing (batch : List Event)
  | exited
  deriving DecidableEq

/-- The events in the worker's hands. -/
def Worker.batch : Worker → List Event
  | selecting batch | writing batch | closing batch => batch
  | exited => []

@[simp] theorem batch_selecting (batch : List Event) : (Worker.selecting batch).batch = batch := rfl
@[simp] theorem batch_writing (batch : List Event) : (Worker.writing batch).batch = batch := rfl
@[simp] theorem batch_closing (batch : List Event) : (Worker.closing batch).batch = batch := rfl
@[simp] theorem batch_exited : Worker.exited.batch = [] := rfl

/-- Has the worker seen that the channel is closed? -/
def Worker.isLeaving : Worker → Bool
  | selecting _ | writing _ => false
  | closing _ | exited => true

/-- `writeBatchToDB`: the calls of `CreateAuditEventsBatch` it makes.  An error is logged. -/
def writeBatchToDB (batch : List Event) : List (List Event) := if batch = [] then [] else [batch]

/-- One turn of a worker's loop, or the write it has come to: what becomes of the worker and of the
channel, and what it passes to `CreateAuditEventsBatch`. -/
inductive Turn (cfg : Config) (isClosed : Bool) :
    Worker → List Event → Worker → List Event → List (List Event) → Prop
  | receive (batch : List Event) (e : Event) (rest : List Event) :
    Turn cfg isClosed (.selecting batch) (e :: rest)
      (if cfg.batchSize ≤ (batch ++ [e]).length then .writing (batch ++ [e])
        else .selecting (batch ++ [e])) rest []
  | tick (batch channel : List Event) :
    Turn cfg isClosed (.selecting batch) channel
      (if 0 < batch.length then .writing batch else .selecting batch) channel []
  | finish (batch : List Event) (hclosed : isClosed = true) :
    Turn cfg isClosed (.selecting batch) []
      (if 0 < batch.length then .closing batch else .exited) [] []
  | write (batch channel : List Event) :
    Turn cfg isClosed (.writing batch) channel (.selecting []) channel (writeBatchToDB batch)
  | writeLast (batch channel : List Event) :
    Turn cfg isClosed (.closing batch) channel .exited channel (writeBatchToDB batch)

/-- How far `Start` and `Stop` have come. -/
inductive Lifecycle
  | created
  | running
  /-- `Stop` has started -/
  | stopping
  /-- the channel is closed and `Stop` waits for the workers -/
  | waiting
  | stopped
  deriving DecidableEq

structure State where
  lifecycle : Lifecycle
  /-- how many calls of `AuditLog` there have been -/
  calls : Nat
  /-- the events of the calls that have not come to their `select` -/
  pending : List Event
  channel : List Event
  workers : List Worker
  /-- the batches passed to `CreateAuditEventsBatch` -/
  written : List (List Event)
  accepted : List Event
  dropped : List Event
  /-- the events of calls that panicked on the closed channel -/
  lost : List Event

/-- `NewAsyncAuditLogger`. -/
def State.new : State := ⟨.created, 0, [], [], [], [], [], [], []⟩

/-- Has the channel been closed? -/
def State.isClosed (st : State) : Bool :=
  match st.lifecycle with
  | .created | .running | .stopping => false
  | .waiting | .stopped => true

/-- One step of the logger. -/
inductive Step (cfg : Config) : State → State → Prop
  /-- `Start` -/
  | start {st : State} (h : st.lifecycle = .created) :
    Step cfg st
      { st with
        lifecycle := .running
        workers := List.replicate cfg.workerCount (.selecting []) }
  /-- a call of `AuditLog` starts, before `Stop` does, and makes its event -/
  | auditLog {st : State} (h : st.lifecycle = .created ∨ st.lifecycle = .running)
    (id clientIdentity operation keyID authDecisionID : String) (success : Bool)
    (err : Option Err) (now : Time) :
    Step cfg st
      { st with
        calls := st.calls + 1
        pending := st.pending ++ [.new st.calls id clientIdentity operation keyID authDecisionID
          success err now] }
  /-- the event is put into the buffer -/
  | enqueue {st : State} {pre post : List Event} {e : Event}
    (hpending : st.pending = pre ++ e :: post)
    (hopen : st.isClosed = false) (hroom : st.channel.length < cfg.channelBufferSize) :
    Step cfg st
      { st with
        pending := pre ++ post
        channel := st.channel ++ [e]
        accepted := st.accepted ++ [e] }
  /-- the event goes to a worker that is waiting at an empty channel -/
  | handOff {st : State} {pre post : List Event} {e : Event} {before after : List Worker}
    {w w' : Worker} (hpending : st.pending = pre ++ e :: post) (hopen : st.isClosed = false)
    (hempty : st.channel = []) (hworkers : st.workers = before ++ w :: after)
    (hturn : Turn cfg false w [e] w' [] []) :
    Step cfg st
      { st with
        pending := pre ++ post
        workers := before ++ w' :: after
        accepted := st.accepted ++ [e] }
  /-- the channel is full -/
  | drop {st : State} {pre post : List Event} {e : Event} (hpending : st.pending = pre ++ e :: post)
    (hopen : st.isClosed = false) (hfull : cfg.channelBufferSize ≤ st.channel.length) :
    Step cfg st { st with pending := pre ++ post, dropped := st.dropped ++ [e] }
  /-- the call started before `Stop` and comes to its `select` after the channel was closed -/
  | panic {st : State} {pre post : List Event} {e : Event}
    (hpending : st.pending = pre ++ e :: post)
    (hclosed : st.isClosed = true) :
    Step cfg st { st with pending := pre ++ post, lost := st.lost ++ [e] }
  | work {st : State} {before after : List Worker} {w w' : Worker} {channel : List Event}
    {out : List (List Event)} (hworkers : st.workers = before ++ w :: after)
    (hturn : Turn cfg st.isClosed w st.channel w' channel out) :
    Step cfg st
      { st with
        channel := channel
        workers := before ++ w' :: after
        written := st.written ++ out }
  | stop {st : State} (h : st.lifecycle = .running) : Step cfg st { st with lifecycle := .stopping }
  | close {st : State} (h : st.lifecycle = .stopping) :
    Step cfg st { st with lifecycle := .waiting }
  /-- `Stop` returns -/
  | stopped {st : State} (h : st.lifecycle = .waiting) (hworkers : ∀ w ∈ st.workers, w = .exited) :
    Step cfg st { st with lifecycle := .stopped }

/-- The states a logger can come to. -/
abbrev Reachable (cfg : Config) (st : State) : Prop := Relation.ReflTransGen (Step cfg) .new st

/-! ## 2. What one turn of a worker does

A worker touches the channel, its own batch and the calls it makes, and nothing else. So what is
needed of it is said once about a turn: the events it moves (`Turn.count`), the size of its
batch, and when it leaves. -/

section

variable {cfg : Config} {isClosed : Bool} {w w' : Worker} {channel channel' : List Event}
  {out : List (List Event)}

/-- The batch is never empty when it is about to be written, and never longer than `BatchSize`. -/
def Worker.Fits (cfg : Config) : Worker → Prop
  | .selecting batch => batch.length < cfg.batchSize
  | .writing batch | .closing batch => batch ≠ [] ∧ batch.length ≤ cfg.batchSize
  | .exited => True

@[simp] theorem flatten_writeBatchToDB (batch : List Event) :
    (writeBatchToDB batch).flatten = batch := by
  unfold writeBatchToDB
  split <;> simp_all

/-- **A turn moves events, and loses none.** -/
theorem Turn.count (h : Turn cfg isClosed w channel w' channel' out) (e : Event) :
    channel'.count e + w'.batch.count e + out.flatten.count e =
      channel.count e + w.batch.count e := by
  cases h with
  | receive batch e' =>
    have hbatch : (if cfg.batchSize ≤ (batch ++ [e']).length then Worker.writing (batch ++ [e'])
        else .selecting (batch ++ [e'])).batch = batch ++ [e'] := by
      split <;> rfl
    rw [hbatch]
    simp only [batch_selecting, List.count_append, List.count_cons, List.count_nil,
      List.flatten_nil]
    omega
  | tick batch => split <;> simp
  | finish batch => cases batch <;> simp
  | write batch | writeLast batch => simp

theorem Turn.fits (h : Turn cfg isClosed w channel w' channel' out) (hbatch : 0 < cfg.batchSize)
    (hw : w.Fits cfg) :
    w'.Fits cfg ∧ ∀ b ∈ out, b ≠ [] ∧ b.length ≤ cfg.batchSize := by
  cases h with
  | receive batch e =>
    simp only [Worker.Fits] at hw
    refine ⟨?_, by simp⟩
    split
    · refine ⟨by simp, ?_⟩
      simp only [List.length_append, List.length_singleton]
      omega
    · simp only [Worker.Fits]
      omega
  | tick batch =>
    simp only [Worker.Fits] at hw
    refine ⟨?_, by simp⟩
    split
    · exact ⟨List.length_pos_iff.mp ‹_›, by omega⟩
    · exact hw
  | finish batch =>
    simp only [Worker.Fits] at hw
    refine ⟨?_, by simp⟩
    split
    · exact ⟨List.length_pos_iff.mp ‹_›, by omega⟩
    · trivial
  | write batch =>
    refine ⟨hbatch, ?_⟩
    intro b hb
    simp only [writeBatchToDB, hw.1, if_false, List.mem_singleton] at hb
    exact hb ▸ hw
  | writeLast batch =>
    refine ⟨trivial, ?_⟩
    intro b hb
    simp only [writeBatchToDB, hw.1, if_false, List.mem_singleton] at hb
    exact hb ▸ hw

/-- A worker that has returned makes no turn. -/
theorem Turn.not_exited (h : Turn cfg isClosed w channel w' channel' out) : w ≠ .exited := by
  cases h <;> simp

/-- A worker leaves only at a closed and empty channel. -/
theorem Turn.leaving (h : Turn cfg isClosed w channel w' channel' out)
    (hw : w.isLeaving = true → isClosed = true ∧ channel = []) (hw' : w'.isLeaving = true) :
    isClosed = true ∧ channel' = [] := by
  cases h with
  | receive batch e =>
    split at hw' <;> cases hw'
  | tick batch =>
    split at hw' <;> cases hw'
  | finish batch hclosed => exact ⟨hclosed, rfl⟩
  | write batch => cases hw'
  | writeLast batch => exact hw rfl

/-- An empty channel stays empty. -/
theorem Turn.channel_nil (h : Turn cfg isClosed w [] w' channel' out) : channel' = [] := by
  cases h <;> rfl

end

/-! ## 3. What every step keeps

Four invariants, each with its step lemma. Conservation (`Kept`) is a permutation, so that "once"
and "not lost" are one statement; `Numbered` makes the events different from each other, which is
what turns it into one about each event. -/

section

variable {cfg : Config} {st st' : State}

/-- Every event there is. -/
def State.known (st : State) : List Event := st.pending ++ (st.accepted ++ (st.dropped ++ st.lost))

/-- The events in the workers' hands. -/
def State.inHand (st : State) : List Event := st.workers.flatMap Worker.batch

/-- Each event has the number of its call. -/
structure Numbered (st : State) : Prop where
  distinct : (st.known.map Event.call).Nodup
  older : ∀ e ∈ st.known, e.call < st.calls

/-- **Conservation**: an accepted event is in the channel, in somebody's hands or written. -/
def Kept (st : State) : Prop :=
  ∀ e, st.accepted.count e = st.channel.count e + st.inHand.count e + st.written.flatten.count e

/-- Batches have the size they should have. -/
structure Sized (cfg : Config) (st : State) : Prop where
  workers : ∀ w ∈ st.workers, w.Fits cfg
  written : ∀ b ∈ st.written, b ≠ [] ∧ b.length ≤ cfg.batchSize

/-- The workers are there once they have been started, and leave in the right order. -/
structure Manned (cfg : Config) (st : State) : Prop where
  idle : st.lifecycle = .created → st.workers = []
  crew : st.lifecycle ≠ .created → st.workers.length = cfg.workerCount
  leaving : ∀ w ∈ st.workers, w.isLeaving = true → st.isClosed = true ∧ st.channel = []
  returned : st.lifecycle = .stopped → ∀ w ∈ st.workers, w = .exited

/-- A call that comes to its `select` changes only what its event is known as. -/
theorem Numbered.of_perm (h : Numbered st) (hperm : st'.known.Perm st.known)
    (hcalls : st'.calls = st.calls) : Numbered st' := by
  refine ⟨(hperm.map Event.call).nodup_iff.mpr h.distinct, ?_⟩
  intro e he
  rw [hcalls]
  exact h.older e (hperm.mem_iff.mp he)

/-- A new call has a new number. -/
theorem Numbered.of_cons (h : Numbered st) {e : Event} (hperm : st'.known.Perm (e :: st.known))
    (he : e.call = st.calls) (hcalls : st'.calls = st.calls + 1) : Numbered st' := by
  constructor
  · rw [(hperm.map Event.call).nodup_iff, List.map_cons, List.nodup_cons]
    refine ⟨?_, h.distinct⟩
    intro hmem
    obtain ⟨e', he', hcall⟩ := List.mem_map.mp hmem
    have holder := h.older e' he'
    omega
  · intro e' he'
    rcases List.mem_cons.mp (hperm.mem_iff.mp he') with rfl | he'
    · omega
    · have holder := h.older e' he'
      omega

theorem Step.numbered (h : Step cfg st st') (hst : Numbered st) : Numbered st' := by
  cases h with
  | start h | stop h | close h | stopped h hworkers | work hworkers hturn =>
    exact ⟨hst.distinct, hst.older⟩
  | auditLog h id clientIdentity operation keyID authDecisionID success err now =>
    refine hst.of_cons (e := .new st.calls id clientIdentity operation keyID authDecisionID success
      err now) ?_ rfl rfl
    simp only [State.known, List.append_assoc, List.singleton_append]
    exact List.perm_middle
  | enqueue hpending hopen hroom | handOff hpending hopen hempty hworkers hturn
  | drop hpending hopen hfull | panic hpending hclosed =>
    refine hst.of_perm ?_ rfl
    rw [List.perm_iff_count]
    intro e
    simp only [State.known, hpending, List.count_append, List.count_cons, List.count_nil]
    omega

theorem Step.kept (h : Step cfg st st') (hmanned : Manned cfg st) (hst : Kept st) : Kept st' := by
  intro e
  have hkept := hst e
  cases h with
  | start h =>
    have hempty : (List.replicate cfg.workerCount (Worker.selecting [])).flatMap Worker.batch =
        [] := by
      rw [List.flatMap_eq_nil_iff]
      intro w hw
      rw [List.eq_of_mem_replicate hw, batch_selecting]
    simp only [State.inHand, hmanned.idle h, hempty] at hkept ⊢
    exact hkept
  | auditLog _ | drop _ _ _ | panic _ _ | stop _ | close _ | stopped _ _ => exact hkept
  | enqueue hpending hopen hroom =>
    simp only [State.inHand, List.count_append, List.count_cons, List.count_nil] at hkept ⊢
    omega
  | handOff hpending hopen hempty hworkers hturn =>
    have hmoved := hturn.count e
    simp only [State.inHand, hworkers, List.flatMap_append, List.flatMap_cons, List.count_append,
      List.count_cons, List.count_nil, List.flatten_nil] at hkept hmoved ⊢
    omega
  | work hworkers hturn =>
    have hmoved := hturn.count e
    simp only [State.inHand, hworkers, List.flatMap_append, List.flatMap_cons, List.count_append,
      List.flatten_append] at hkept hmoved ⊢
    omega

/-- A worker among the others, before and after its turn. -/
theorem forall_mem_turn {P : Worker → Prop} {before after : List Worker} {w w' : Worker}
    (h : ∀ v ∈ before ++ w :: after, P v) (hw' : P w') : ∀ v ∈ before ++ w' :: after, P v := by
  intro v hv
  rcases List.mem_append.mp hv with hv | hv
  · exact h v (by simp [hv])
  rcases List.mem_cons.mp hv with rfl | hv
  · exact hw'
  · exact h v (by simp [hv])

theorem Step.sized (h : Step cfg st st') (hbatch : 0 < cfg.batchSize) (hst : Sized cfg st) :
    Sized cfg st' := by
  cases h with
  | start h =>
    refine ⟨?_, hst.written⟩
    intro w hw
    rw [List.eq_of_mem_replicate hw]
    exact hbatch
  | auditLog _ | enqueue _ _ _ | drop _ _ _ | panic _ _ | stop _ | close _ | stopped _ _ =>
    exact ⟨hst.workers, hst.written⟩
  | handOff hpending hopen hempty hworkers hturn =>
    have hworkers' := hworkers ▸ hst.workers
    obtain ⟨hfits, -⟩ := hturn.fits hbatch (hworkers' _ (by simp))
    exact ⟨forall_mem_turn hworkers' hfits, hst.written⟩
  | work hworkers hturn =>
    have hworkers' := hworkers ▸ hst.workers
    obtain ⟨hfits, hout⟩ := hturn.fits hbatch (hworkers' _ (by simp))
    refine ⟨forall_mem_turn hworkers' hfits, ?_⟩
    intro b hb
    rcases List.mem_append.mp hb with hb | hb
    · exact hst.written b hb
    · exact hout b hb

/-- While the channel is open no worker leaves. -/
theorem Manned.staying (h : Manned cfg st) (hopen : st.isClosed = false) {w : Worker}
    (hw : w ∈ st.workers) : ¬ w.isLeaving = true := by
  intro hleaving
  have hclosed := (h.leaving w hw hleaving).1
  rw [hopen] at hclosed
  cases hclosed

/-- After the turn of one worker. -/
theorem Manned.of_turn (h : Manned cfg st) {before after : List Worker} {w w' : Worker}
    (hworkers : st.workers = before ++ w :: after) (hw : w ≠ .exited)
    (hlifecycle : st'.lifecycle = st.lifecycle) (hworkers' : st'.workers = before ++ w' :: after)
    (hleaving : ∀ v ∈ st'.workers, v.isLeaving = true → st'.isClosed = true ∧ st'.channel = []) :
    Manned cfg st' := by
  have hmem : w ∈ st.workers := by simp [hworkers]
  refine ⟨?_, ?_, hleaving, ?_⟩
  · intro hcreated
    simp [h.idle (hlifecycle ▸ hcreated)] at hmem
  · intro hstarted
    have hcrew := h.crew (hlifecycle ▸ hstarted)
    rw [hworkers] at hcrew
    rw [hworkers']
    simpa using hcrew
  · intro hstopped
    exact absurd (h.returned (hlifecycle ▸ hstopped) w hmem) hw

theorem Step.manned (h : Step cfg st st') (hst : Manned cfg st) : Manned cfg st' := by
  cases h with
  | start h =>
    refine ⟨by simp, by simp, ?_, by simp⟩
    intro w hw hleaving
    rw [List.eq_of_mem_replicate hw] at hleaving
    cases hleaving
  | auditLog _ | drop _ _ _ | panic _ _ => exact ⟨hst.idle, hst.crew, hst.leaving, hst.returned⟩
  | enqueue hpending hopen hroom =>
    refine ⟨hst.idle, hst.crew, ?_, hst.returned⟩
    intro w hw hleaving
    exact absurd hleaving (hst.staying hopen hw)
  | @handOff pre post e before after w w' hpending hopen hempty hworkers hturn =>
    have hmem : w ∈ st.workers := by simp [hworkers]
    refine hst.of_turn hworkers hturn.not_exited rfl rfl ?_
    refine forall_mem_turn (hworkers ▸ hst.leaving) ?_
    intro hleaving
    have hw : w.isLeaving = true → false = true ∧ [e] = [] := fun hw =>
      absurd hw (hst.staying hopen hmem)
    cases (hturn.leaving hw hleaving).1
  | @work before after w w' channel out hworkers hturn =>
    have hmem : w ∈ st.workers := by simp [hworkers]
    refine hst.of_turn hworkers hturn.not_exited rfl rfl ?_
    refine forall_mem_turn (w := w) ?_ (hturn.leaving (hst.leaving w hmem))
    intro v hv hleaving
    obtain ⟨hclosed, hempty⟩ := hst.leaving v (hworkers ▸ hv) hleaving
    exact ⟨hclosed, Turn.channel_nil (hempty ▸ hturn)⟩
  | stop h =>
    refine ⟨by simp, fun _ => hst.crew (by simp [h]), ?_, by simp⟩
    intro w hw hleaving
    exact absurd hleaving (hst.staying (by simp [State.isClosed, h]) hw)
  | close h =>
    refine ⟨by simp, fun _ => hst.crew (by simp [h]), ?_, by simp⟩
    intro w hw hleaving
    exact absurd hleaving (hst.staying (by simp [State.isClosed, h]) hw)
  | stopped h hworkers =>
    refine ⟨by simp, fun _ => hst.crew (by simp [h]), ?_, fun _ => hworkers⟩
    intro w hw hleaving
    exact ⟨rfl, (hst.leaving w hw hleaving).2⟩

/-! ## 4. Runs -/

/-- What holds of every logger. -/
structure Sound (cfg : Config) (st : State) : Prop where
  numbered : Numbered st
  kept : Kept st
  sized : Sized cfg st
  manned : Manned cfg st

theorem sound_new (cfg : Config) : Sound cfg .new where
  numbered := ⟨by simp [State.known, State.new], by simp [State.known, State.new]⟩
  kept := by intro e; simp [State.new, State.inHand]
  sized := ⟨by simp [State.new], by simp [State.new]⟩
  manned := ⟨fun _ => rfl, by simp [State.new], by simp [State.new], by simp [State.new]⟩

theorem Reachable.sound (hbatch : 0 < cfg.batchSize) (h : Reachable cfg st) : Sound cfg st := by
  induction h with
  | refl => exact sound_new cfg
  | tail _ hstep ih =>
    exact ⟨hstep.numbered ih.numbered, hstep.kept ih.manned ih.kept, hstep.sized hbatch ih.sized,
      hstep.manned ih.manned⟩

/-- An event is accepted at most once, and not if it was dropped. -/
theorem Numbered.accepted (h : Numbered st) :
    st.accepted.Nodup ∧ ∀ e ∈ st.dropped, e ∉ st.accepted := by
  have hknown : st.known.Nodup := h.distinct.of_map Event.call
  obtain ⟨-, hrest, -⟩ := List.nodup_append.mp hknown
  obtain ⟨haccepted, -, hdisjoint⟩ := List.nodup_append.mp hrest
  refine ⟨haccepted, ?_⟩
  intro e hdropped hmem
  exact hdisjoint e hmem e (List.mem_append_left _ hdropped) rfl

/-- When `Stop` has returned, nothing is left to write. -/
theorem Sound.stopped (h : Sound cfg st) (hworkers : 0 < cfg.workerCount)
    (hstopped : st.lifecycle = .stopped) (e : Event) :
    st.accepted.count e = st.written.flatten.count e := by
  have hexited := h.manned.returned hstopped
  have hinHand : st.inHand = [] := by
    unfold State.inHand
    rw [List.flatMap_eq_nil_iff]
    intro w hw
    rw [hexited w hw, batch_exited]
  have hchannel : st.channel = [] := by
    have hcrew := h.manned.crew (by simp [hstopped])
    obtain ⟨w, hw⟩ := List.exists_mem_of_length_pos (by omega : 0 < st.workers.length)
    refine (h.manned.leaving w hw ?_).2
    rw [hexited w hw]
    rfl
  have hkept := h.kept e
  simp only [hinHand, hchannel, List.count_nil] at hkept
  omega

/-- **No queued audit event is lost or duplicated.**  In every state a logger can come to, an event
has been passed to `CreateAuditEventsBatch` at most once, and not if it was dropped; no batch was
empty or longer than `BatchSize`; and once `Stop` has returned, every event accepted into the
channel has been passed exactly once. -/
theorem audit_events_conserved (cfg : Config) (hworkers : 1 ≤ cfg.workerCount)
    (hbatch : 1 ≤ cfg.batchSize) {st : State} (h : Reachable cfg st) :
    (∀ e, st.written.flatten.count e ≤ 1) ∧ (∀ e ∈ st.dropped, e ∉ st.written.flatten) ∧
      (∀ b ∈ st.written, b ≠ [] ∧ b.length ≤ cfg.batchSize) ∧
      (st.lifecycle = .stopped → ∀ e ∈ st.accepted, st.written.flatten.count e = 1) := by
  have hsound := Reachable.sound hbatch h
  obtain ⟨hnodup, hdropped⟩ := hsound.numbered.accepted
  have honce : ∀ e, st.accepted.count e ≤ 1 := List.nodup_iff_count_le_one.mp hnodup
  refine ⟨?_, ?_, hsound.sized.written, ?_⟩
  · intro e
    have hkept := hsound.kept e
    have hle := honce e
    omega
  · intro e he hwritten
    have hkept := hsound.kept e
    have hpos : 0 < st.written.flatten.count e := List.count_pos_iff.mpr hwritten
    have hzero : st.accepted.count e = 0 := List.count_eq_zero.mpr (hdropped e he)
    omega
  · intro hstopped e he
    rw [← hsound.stopped hworkers hstopped e]
    exact List.count_eq_one_of_mem hnodup he

end

/-! ### Four events -/

def sampleConfig : Config := ⟨2, 2, 2⟩

def sampleEvent (n : Nat) : Event := .new n "" "alice" "GetKey" "" "" true none 0

/-- Four events are logged.  Two are in the channel when the last one comes, which is dropped; a
worker takes the two and writes them, and the other one has the third until `Stop` closes the
channel. -/
def sampleStopped : State where
  lifecycle := .stopped
  calls := 4
  pending := []
  channel := []
  workers := [.exited, .exited]
  written := [[sampleEvent 0, sampleEvent 1], [sampleEvent 2]]
  accepted := [sampleEvent 0, sampleEvent 1, sampleEvent 2]
  dropped := [sampleEvent 3]
  lost := []

/-- The events are logged, and the channel is full. -/
theorem sampleLogged_reachable : Reachable sampleConfig
    ⟨.running, 4, [sampleEvent 2], [sampleEvent 0, sampleEvent 1], [.selecting [], .selecting []],
      [], [sampleEvent 0, sampleEvent 1], [sampleEvent 3], []⟩ := by
  let log (n : Nat) (st : State) : State :=
    { st with calls := n + 1, pending := st.pending ++ [sampleEvent n] }
  let st : State := ⟨.running, 0, [], [], [.selecting [], .selecting []], [], [], [], []⟩
  have hstart : Reachable sampleConfig st := .single (.start rfl)
  have hlog : ∀ n st, Reachable sampleConfig st → st.lifecycle = .running → st.calls = n →
      Reachable sampleConfig (log n st) := by
    rintro _ st hst hrunning rfl
    exact hst.tail (.auditLog (.inr hrunning) "" "alice" "GetKey" "" "" true none 0)
  have hlogged : Reachable sampleConfig (log 3 (log 2 (log 1 (log 0 st)))) :=
    hlog 3 _ (hlog 2 _ (hlog 1 _ (hlog 0 _ hstart rfl rfl) rfl rfl) rfl rfl) rfl rfl
  have hfirst : Reachable sampleConfig
      ⟨.running, 4, [sampleEvent 1, sampleEvent 2, sampleEvent 3], [sampleEvent 0],
        [.selecting [], .selecting []], [], [sampleEvent 0], [], []⟩ :=
    hlogged.tail (@Step.enqueue _ _ [] _ (sampleEvent 0) rfl rfl (by decide))
  have hfull : Reachable sampleConfig
      ⟨.running, 4, [sampleEvent 2, sampleEvent 3], [sampleEvent 0, sampleEvent 1],
        [.selecting [], .selecting []], [], [sampleEvent 0, sampleEvent 1], [], []⟩ :=
    hfirst.tail (@Step.enqueue _ _ [] _ (sampleEvent 1) rfl rfl (by decide))
  exact hfull.tail (@Step.drop _ _ [sampleEvent 2] [] (sampleEvent 3) rfl rfl (by decide))

/-- The first worker has written, and the second one has the third event. -/
theorem sampleWritten_reachable : Reachable sampleConfig
    ⟨.running, 4, [], [], [.selecting [], .selecting [sampleEvent 2]],
      [[sampleEvent 0, sampleEvent 1]], [sampleEvent 0, sampleEvent 1, sampleEvent 2],
      [sampleEvent 3], []⟩ := by
  have hone : Reachable sampleConfig
      ⟨.running, 4, [sampleEvent 2], [sampleEvent 1], [.selecting [sampleEvent 0], .selecting []],
        [], [sampleEvent 0, sampleEvent 1], [sampleEvent 3], []⟩ :=
    sampleLogged_reachable.tail (@Step.work _ _ [] _ _ _ _ _ rfl (.receive [] (sampleEvent 0) _))
  have htwo : Reachable sampleConfig
      ⟨.running, 4, [sampleEvent 2], [], [.writing [sampleEvent 0, sampleEvent 1], .selecting []],
        [], [sampleEvent 0, sampleEvent 1], [sampleEvent 3], []⟩ :=
    hone.tail (@Step.work _ _ [] _ _ _ _ _ rfl (.receive [sampleEvent 0] (sampleEvent 1) []))
  have hthird : Reachable sampleConfig
      ⟨.running, 4, [], [], [.writing [sampleEvent 0, sampleEvent 1], .selecting [sampleEvent 2]],
        [], [sampleEvent 0, sampleEvent 1, sampleEvent 2], [sampleEvent 3], []⟩ :=
    htwo.tail (@Step.handOff _ _ [] [] (sampleEvent 2) [.writing [sampleEvent 0, sampleEvent 1]] []
      (.selecting []) _ rfl rfl rfl rfl (.receive [] (sampleEvent 2) []))
  exact hthird.tail (@Step.work _ _ [] _ _ _ _ _ rfl (.write [sampleEvent 0, sampleEvent 1] []))

theorem sampleStopped_reachable : Reachable sampleConfig sampleStopped := by
  have hclosed : Reachable sampleConfig
      ⟨.waiting, 4, [], [], [.selecting [], .selecting [sampleEvent 2]],
        [[sampleEvent 0, sampleEvent 1]], [sampleEvent 0, sampleEvent 1, sampleEvent 2],
        [sampleEvent 3], []⟩ :=
    (sampleWritten_reachable.tail (.stop rfl)).tail (.close rfl)
  have hexited : Reachable sampleConfig
      ⟨.waiting, 4, [], [], [.exited, .selecting [sampleEvent 2]],
        [[sampleEvent 0, sampleEvent 1]], [sampleEvent 0, sampleEvent 1, sampleEvent 2],
        [sampleEvent 3], []⟩ :=
    hclosed.tail (@Step.work _ _ [] _ _ _ _ _ rfl (.finish [] rfl))
  have hleaving : Reachable sampleConfig
      ⟨.waiting, 4, [], [], [.exited, .closing [sampleEvent 2]],
        [[sampleEvent 0, sampleEvent 1]], [sampleEvent 0, sampleEvent 1, sampleEvent 2],
        [sampleEvent 3], []⟩ :=
    hexited.tail (@Step.work _ _ [.exited] [] _ _ _ _ rfl (.finish [sampleEvent 2] rfl))
  have hwritten : Reachable sampleConfig { sampleStopped with lifecycle := .waiting } :=
    hleaving.tail (@Step.work _ _ [.exited] [] _ _ _ _ rfl (.writeLast [sampleEvent 2] []))
  exact hwritten.tail (.stopped rfl (by simp [sampleStopped]))

/-- Each of the three events has been written once, in batches of at most two, and the dropped one
has not been written. -/
theorem audit_events_conserved_sample :
    sampleStopped.accepted = [sampleEvent 0, sampleEvent 1, sampleEvent 2] ∧
    (∀ e ∈ sampleStopped.accepted, sampleStopped.written.flatten.count e = 1) ∧
    (∀ e ∈ sampleStopped.dropped, e ∉ sampleStopped.written.flatten) ∧
    ∀ b ∈ sampleStopped.written, b ≠ [] ∧ b.length ≤ 2 := by
  obtain ⟨-, hdropped, hbatches, haccepted⟩ :=
    audit_events_conserved sampleConfig (by decide) (by decide) sampleStopped_reachable
  exact ⟨rfl, haccepted rfl, hdropped, hbatches⟩

end AsyncAuditLogger

end Polykey
