/-
# The audit table

`AuditRepository` over the table `audit_events`, and what the two audit loggers leave in it.  The
table refuses some rows: a text with a zero character, a text that is too long for its column, an id
that is there already.  `CreateAuditEvent` inserts one row; `CreateAuditEventsBatch` copies its rows
in one statement, all of them or none.  Neither logger does anything about an error but log it.

* The synchronous logger loses the events that the table refuses, and no others
  (`synchronous_stored`).
* The asynchronous logger loses whole batches: an accepted event is stored exactly if nothing in its
  batch is refused (`asynchronous_stored_iff`), so that each refused event takes at most `BatchSize`
  events with it (`asynchronous_lost_le`).
* Anyone with a token can make an event that is refused, and choose what to lose with it: the name
  in the requester context is written into the reason of a denial (`denial_takes_batch`).
* What has been stored can be read back, newest first (`getAuditHistory_complete`).
-/
import Mathlib.Data.List.Sort
import Polykey.Audit.AsyncAuditLogger
import Polykey.Auth.Authorizer
import Polykey.Persistence.PSQLAdapter

namespace Polykey

namespace AuditRepository

open AsyncAuditLogger

/-! ## 1. The table -/

/-- A row of `audit_events`. -/
structure AuditRow where
  id : BitVec 128
  clientIdentity : String
  operation : String
  keyID : String
  authDecisionID : String
  success : Bool
  errorMessage : String
  timestamp : Time
  deriving DecidableEq

abbrev AuditTable := List AuditRow

/-- `TEXT`: any text without a zero character. -/
def textColumn (s : String) : Option String := if Char.ofNat 0 ∈ s.toList then none else some s

/-- `VARCHAR(255)`: of what is too long, only blanks are cut off. -/
def varcharColumn (s : String) : Option String := do
  let s ← textColumn s
  if (s.toList.drop 255).all (· = ' ') then some (String.ofList (s.toList.take 255)) else none

/-- What the table does not say itself: how the text of an id is read, and whether `to_tsvector`
takes a text into the index over `error_message`. -/
structure Database where
  uuid : UUIDPkg
  toTsvector : String → Bool

section Table

variable (db : Database)

/-- The primary key of an event. -/
def idOf (e : Event) : Option (BitVec 128) := (db.uuid.parse e.id).toOption

/-- `error_message`, with its index. -/
def errorColumn (s : String) : Option String := (textColumn s).filter db.toTsvector

/-- The row of an event, if its columns can be stored. -/
def toRow (e : Event) : Option AuditRow := do
  return {
    id := ← idOf db e
    clientIdentity := ← varcharColumn e.clientIdentity
    operation := ← varcharColumn e.operation
    keyID := ← varcharColumn e.keyID
    authDecisionID := ← varcharColumn e.authDecisionID
    success := e.success
    errorMessage := ← errorColumn db e.error
    timestamp := timestamptz e.timestamp }

/-- Rows are inserted together: each has to be well formed and to have a new key. -/
def insertAll (events : List Event) (t : AuditTable) : Option AuditTable := do
  let rows ← events.mapM (toRow db)
  if ((t ++ rows).map (·.id)).Nodup then some (t ++ rows) else none

/-- `CreateAuditEvent`, with whether the database was reached: the table, or an error. -/
def createAuditEvent (reached : Bool) (e : Event) (t : AuditTable) : Option AuditTable :=
  if reached then insertAll db [e] t else none

/-- `CreateAuditEventsBatch`. -/
def createAuditEventsBatch (reached : Bool) (events : List Event) (t : AuditTable) :
    Option AuditTable :=
  if events = [] then some t else if reached then insertAll db events t else none

/-- The table after some calls of `Logger.AuditLog`, which ignores errors. -/
def afterEvents (calls : List (Event × Bool)) (t : AuditTable) : AuditTable :=
  calls.foldl (fun t c => (createAuditEvent db c.2 c.1 t).getD t) t

/-- The table after some calls of `writeBatchToDB`, which ignores errors too. -/
def afterBatches (calls : List (List Event × Bool)) (t : AuditTable) : AuditTable :=
  calls.foldl (fun t c => (createAuditEventsBatch db c.2 c.1 t).getD t) t

end Table

/-! ## 2. What a batch leaves

Where no key comes twice a batch is stored or not by itself, whatever is in the table. The table
after some calls is then a concatenation (`afterBatches_eq`), and both loggers are read off it. -/

section Batches

variable {db : Database} {e : Event} {batch : List Event} {t : AuditTable}

theorem id_of_toRow {row : AuditRow} (h : toRow db e = some row) : idOf db e = some row.id := by
  simp only [toRow, Option.bind_eq_bind, Option.bind_eq_some_iff] at h
  obtain ⟨id, hid, _, -, _, -, _, -, _, -, _, -, hrow⟩ := h
  cases hrow
  exact hid

/-- All events of the batch can be stored. -/
def Storable (db : Database) (batch : List Event) : Prop := ∀ e ∈ batch, (toRow db e).isSome

instance : Decidable (Storable db batch) := by unfold Storable; infer_instance

/-- The rows of a batch. -/
def rowsOf (db : Database) (batch : List Event) : List AuditRow := batch.filterMap (toRow db)

theorem mapM_toRow (batch : List Event) :
    batch.mapM (toRow db) = if Storable db batch then some (rowsOf db batch) else none := by
  induction batch with
  | nil => simp [Storable, rowsOf]
  | cons e batch ih =>
    rw [List.mapM_cons, ih]
    cases hrow : toRow db e with
    | none => simp [Storable, hrow]
    | some row =>
      by_cases hall : Storable db batch
      · have hcons : Storable db (e :: batch) :=
          List.forall_mem_cons.mpr ⟨by simp [hrow], hall⟩
        simp [hall, hcons, rowsOf, hrow]
      · have hcons : ¬ Storable db (e :: batch) := fun h => hall (List.forall_mem_cons.mp h).2
        simp [hall, hcons]

/-- The keys of the rows are those of the events. -/
theorem ids_rowsOf (h : Storable db batch) :
    (rowsOf db batch).map (·.id) = batch.filterMap (idOf db) := by
  induction batch with
  | nil => rfl
  | cons e batch ih =>
    obtain ⟨he, hbatch⟩ := List.forall_mem_cons.mp h
    obtain ⟨row, hrow⟩ := Option.isSome_iff_exists.mp he
    rw [rowsOf, List.filterMap_cons_some hrow, List.map_cons,
      List.filterMap_cons_some (id_of_toRow hrow)]
    exact congrArg _ (ih hbatch)

/-- Is the batch of a call stored? -/
def stored (db : Database) (call : List Event × Bool) : Bool :=
  call.2 && decide (Storable db call.1)

/-- One call, where the keys are new. -/
theorem createAuditEventsBatch_getD (reached : Bool)
    (hnew : (t.map (·.id) ++ batch.filterMap (idOf db)).Nodup) :
    (createAuditEventsBatch db reached batch t).getD t =
      t ++ if stored db (batch, reached) then rowsOf db batch else [] := by
  unfold createAuditEventsBatch stored
  by_cases hempty : batch = []
  · simp [hempty, rowsOf]
  cases reached with
  | false => simp [hempty]
  | true =>
    by_cases hall : Storable db batch
    · have hids : ((t ++ rowsOf db batch).map (·.id)).Nodup := by
        rw [List.map_append, ids_rowsOf hall]
        exact hnew
      simp [hempty, insertAll, mapM_toRow, hall, -List.map_append, hids]
    · simp [hempty, insertAll, mapM_toRow, hall]

/-- **The calls one after another.**  Where no key comes twice, the table has the rows of the
batches that were stored. -/
theorem afterBatches_eq {calls : List (List Event × Bool)}
    (hnew : (t.map (·.id) ++ (calls.flatMap Prod.fst).filterMap (idOf db)).Nodup) :
    afterBatches db calls t =
      t ++ (calls.filter (stored db)).flatMap fun c => rowsOf db c.1 := by
  induction calls generalizing t with
  | nil => simp [afterBatches]
  | cons c calls ih =>
    obtain ⟨batch, reached⟩ := c
    rw [List.flatMap_cons, List.filterMap_append] at hnew
    have hbatch : (t.map (·.id) ++ batch.filterMap (idOf db)).Nodup :=
      hnew.sublist ((List.sublist_append_left _ _).append_left _)
    have hrest : ((t ++ if stored db (batch, reached) then rowsOf db batch else []).map (·.id) ++
        (calls.flatMap Prod.fst).filterMap (idOf db)).Nodup := by
      rw [List.map_append, List.append_assoc]
      split
      · rename_i hstored
        rw [stored, Bool.and_eq_true, decide_eq_true_eq] at hstored
        rw [ids_rowsOf hstored.2]
        exact hnew
      · exact hnew.sublist ((List.sublist_append_right _ _).append_left _)
    rw [afterBatches, List.foldl_cons, createAuditEventsBatch_getD reached hbatch]
    refine (ih hrest).trans ?_
    rw [List.append_assoc, List.filter_cons]
    split
    · rw [List.flatMap_cons]
    · rfl

end Batches

/-! ### Two events, of which one is refused -/

def sampleDB : Database := ⟨googleUUID, fun _ => true⟩

/-- A read by `alice`. -/
def readEvent : Event :=
  .new 0 (googleUUID.text 1) "alice" "GetKey" "key" "" true none 0

/-- A denial with a zero character in its reason. -/
def zeroEvent : Event :=
  .new 1 (googleUUID.text 2) "mallory" "GetKey" "" "" false (some (.new "\x00")) 0

/-- The row of `readEvent`. -/
def readRow : AuditRow := ⟨1, "alice", "GetKey", "key", "", true, "", 0⟩

theorem idOf_readEvent : idOf sampleDB readEvent = some 1 := by
  simp [idOf, sampleDB, readEvent, Event.new, googleUUID.parse_text, Except.toOption]

theorem idOf_zeroEvent : idOf sampleDB zeroEvent = some 2 := by
  simp [idOf, sampleDB, zeroEvent, Event.new, googleUUID.parse_text, Except.toOption]

theorem toRow_readEvent : toRow sampleDB readEvent = some readRow := by
  rw [toRow, idOf_readEvent]
  decide

theorem toRow_zeroEvent : toRow sampleDB zeroEvent = none := by
  rw [toRow, idOf_zeroEvent]
  decide

/-! ## 3. The synchronous logger -/

section Synchronous

variable {db : Database}

theorem afterEvents_eq_afterBatches (calls : List (Event × Bool)) (t : AuditTable) :
    afterEvents db calls t = afterBatches db (calls.map fun c => ([c.1], c.2)) t := by
  rw [afterEvents, afterBatches, List.foldl_map]
  rfl

/-- Of single rows, those are stored that are good and reach the database. -/
theorem flatMap_stored_singletons (calls : List (Event × Bool)) :
    ((calls.map fun c => ([c.1], c.2)).filter (stored db)).flatMap (fun c => rowsOf db c.1) =
      rowsOf db ((calls.filter Prod.snd).map Prod.fst) := by
  induction calls with
  | nil => rfl
  | cons c calls ih =>
    obtain ⟨e, reached⟩ := c
    rw [List.map_cons, List.filter_cons]
    cases reached with
    | false => simpa [stored] using ih
    | true =>
      cases hrow : toRow db e with
      | none => simpa [stored, Storable, hrow, rowsOf] using ih
      | some row => simpa [stored, Storable, hrow, rowsOf] using ih

/-- **The synchronous logger loses what the table refuses, and nothing else.** -/
theorem synchronous_stored {calls : List (Event × Bool)}
    (hids : ((calls.map Prod.fst).filterMap (idOf db)).Nodup) :
    afterEvents db calls [] = rowsOf db ((calls.filter Prod.snd).map Prod.fst) := by
  have hflat : (calls.map fun c => ([c.1], c.2)).flatMap Prod.fst = calls.map Prod.fst := by
    rw [List.flatMap_map]
    exact List.flatMap_pure_eq_map _ _
  rw [afterEvents_eq_afterBatches, afterBatches_eq (by simpa [hflat] using hids), List.nil_append]
  exact flatMap_stored_singletons calls

/-- The one row is stored, whatever comes with it. -/
theorem synchronous_stored_read :
    ((([(readEvent, true), (zeroEvent, true)] : List (Event × Bool)).map Prod.fst).filterMap
        (idOf sampleDB)).Nodup ∧
      afterEvents sampleDB [(readEvent, true), (zeroEvent, true)] [] = [readRow] := by
  have hids : ((([(readEvent, true), (zeroEvent, true)] : List (Event × Bool)).map
      Prod.fst).filterMap (idOf sampleDB)).Nodup := by
    simp [idOf_readEvent, idOf_zeroEvent]
  refine ⟨hids, ?_⟩
  rw [synchronous_stored hids]
  simp [rowsOf, toRow_readEvent, toRow_zeroEvent]

end Synchronous

/-! ## 4. The asynchronous logger

The order in which the calls of different workers come to the database is not the order in which
they were made. What the logger guarantees is up to a permutation (`perm_accepted`), and so is
what is said of the table. -/

section Asynchronous

variable {db : Database} {cfg : Config} {st : State} {calls : List (List Event × Bool)}

theorem flatMap_perm_written (hcalls : (calls.map Prod.fst).Perm st.written) :
    (calls.flatMap Prod.fst).Perm st.written.flatten := by
  rw [List.flatMap_def]
  exact hcalls.flatten

/-- What is written has been accepted, and no event more often. -/
theorem subperm_accepted (hbatch : 0 < cfg.batchSize) (h : AsyncAuditLogger.Reachable cfg st)
    (hcalls : (calls.map Prod.fst).Perm st.written) :
    (calls.flatMap Prod.fst).Subperm st.accepted := by
  refine (flatMap_perm_written hcalls).subperm.trans (List.subperm_ext_iff.mpr ?_)
  intro e _
  have hkept := (Reachable.sound hbatch h).kept e
  omega

/-- Once the logger has stopped, what is written is what has been accepted. -/
theorem perm_accepted (hbatch : 0 < cfg.batchSize) (h : AsyncAuditLogger.Reachable cfg st)
    (hworkers : 0 < cfg.workerCount) (hstopped : st.lifecycle = .stopped)
    (hcalls : (calls.map Prod.fst).Perm st.written) :
    (calls.flatMap Prod.fst).Perm st.accepted := by
  refine (flatMap_perm_written hcalls).trans (List.perm_iff_count.mpr ?_)
  intro e
  exact ((Reachable.sound hbatch h).stopped hworkers hstopped e).symm

/-- The keys of what is written. -/
theorem nodup_ids (hsub : (calls.flatMap Prod.fst).Subperm st.accepted)
    (hids : (st.accepted.filterMap (idOf db)).Nodup) :
    ((calls.flatMap Prod.fst).filterMap (idOf db)).Nodup := by
  obtain ⟨l, hperm, hsublist⟩ := hsub
  exact (hperm.filterMap _).nodup_iff.mp (hids.sublist (hsublist.filterMap _))

/-- Two events with one key are one event, where no key comes twice. -/
theorem eq_of_idOf {events : List Event} (hids : (events.filterMap (idOf db)).Nodup) {e e' : Event}
    (he : e ∈ events) (he' : e' ∈ events) {id : BitVec 128} (hid : idOf db e = some id)
    (hid' : idOf db e' = some id) : e = e' := by
  by_contra hne
  have hpairs := List.pairwise_filterMap.mp hids
  have hsymm : Std.Symm fun a b : Event =>
      ∀ i, idOf db a = some i → ∀ j, idOf db b = some j → i ≠ j :=
    ⟨fun a b hab i hi j hj heq => hab j hj i hi heq.symm⟩
  exact hpairs.forall he he' hne id hid id hid' rfl

/-- The table after the calls of a logger, in the order in which the database has had them. -/
theorem afterBatches_written (hbatch : 0 < cfg.batchSize) (h : AsyncAuditLogger.Reachable cfg st)
    (hids : (st.accepted.filterMap (idOf db)).Nodup)
    (hcalls : (calls.map Prod.fst).Perm st.written) :
    afterBatches db calls [] =
      (calls.filter (stored db)).flatMap fun c => rowsOf db c.1 := by
  rw [afterBatches_eq, List.nil_append]
  exact nodup_ids (subperm_accepted hbatch h hcalls) hids

/-- **The asynchronous logger stores whole batches.**  Of the workers' calls, in whatever order and
with whatever outcome at the database: the row of an accepted event is in the table exactly if the
call with the event has reached the database with a batch that has nothing wrong with it. -/
theorem asynchronous_stored_iff (hbatch : 0 < cfg.batchSize)
    (h : AsyncAuditLogger.Reachable cfg st) (hids : (st.accepted.filterMap (idOf db)).Nodup)
    (hcalls : (calls.map Prod.fst).Perm st.written) {e : Event} (he : e ∈ st.accepted)
    {row : AuditRow} (hrow : toRow db e = some row) :
    row ∈ afterBatches db calls [] ↔
      ∃ c ∈ calls, e ∈ c.1 ∧ c.2 = true ∧ ∀ e' ∈ c.1, (toRow db e').isSome := by
  have hsub := (subperm_accepted hbatch h hcalls).subset
  rw [afterBatches_written hbatch h hids hcalls, List.mem_flatMap]
  constructor
  · rintro ⟨c, hc, hmem⟩
    obtain ⟨hcall, hstored⟩ := List.mem_filter.mp hc
    rw [stored, Bool.and_eq_true, decide_eq_true_eq] at hstored
    obtain ⟨e', he', hrow'⟩ := List.mem_filterMap.mp hmem
    have haccepted : e' ∈ st.accepted := hsub (List.mem_flatMap_of_mem hcall he')
    have heq : e = e' := eq_of_idOf hids he haccepted (id_of_toRow hrow) (id_of_toRow hrow')
    exact ⟨c, hcall, heq ▸ he', hstored.1, hstored.2⟩
  · rintro ⟨c, hcall, hmem, hreached, hall⟩
    refine ⟨c, List.mem_filter.mpr ⟨hcall, ?_⟩, List.mem_filterMap.mpr ⟨e, hmem, hrow⟩⟩
    rw [stored, Bool.and_eq_true, decide_eq_true_eq]
    exact ⟨hreached, hall⟩

/-- A batch that reaches the database is stored, or has an event that the table refuses. -/
theorem length_le_of_reached {B : Nat} (calls : List (List Event × Bool))
    (hreached : ∀ c ∈ calls, c.2 = true ∧ c.1.length ≤ B) :
    (calls.flatMap Prod.fst).length ≤
      ((calls.filter (stored db)).flatMap fun c => rowsOf db c.1).length +
        B * (calls.flatMap Prod.fst).countP fun e => (toRow db e).isNone := by
  induction calls with
  | nil => simp
  | cons c calls ih =>
    obtain ⟨batch, reached⟩ := c
    obtain ⟨rfl, hlen⟩ : reached = true ∧ batch.length ≤ B := hreached _ List.mem_cons_self
    have hrest := ih fun c hc => hreached c (List.mem_cons_of_mem _ hc)
    rw [List.flatMap_cons, List.length_append, List.countP_append, Nat.mul_add, List.filter_cons]
    by_cases hall : Storable db batch
    · have hrows : (rowsOf db batch).length = batch.length :=
        List.filterMap_length_eq_length.mpr hall
      simp only [stored, hall, decide_true, Bool.and_self, if_true, List.flatMap_cons,
        List.length_append, hrows]
      omega
    · have hrefused : 1 ≤ batch.countP fun e => (toRow db e).isNone := by
        obtain ⟨e, he, hnone⟩ : ∃ e ∈ batch, ¬ (toRow db e).isSome := by
          simpa [Storable] using hall
        exact List.countP_pos_iff.mpr ⟨e, he, by simpa using hnone⟩
      have hlost := Nat.mul_le_mul_left B hrefused
      simp only [stored, hall, decide_false, Bool.and_false, Bool.false_eq_true, if_false]
      omega

/-- **What a refused event costs.**  If every call has reached the database, each event that the
table refuses takes at most a batch of the accepted events with it. -/
theorem asynchronous_lost_le (hbatch : 0 < cfg.batchSize) (h : AsyncAuditLogger.Reachable cfg st)
    (hworkers : 0 < cfg.workerCount) (hstopped : st.lifecycle = .stopped)
    (hids : (st.accepted.filterMap (idOf db)).Nodup)
    (hcalls : (calls.map Prod.fst).Perm st.written) (hreached : ∀ c ∈ calls, c.2 = true) :
    st.accepted.length ≤ (afterBatches db calls []).length +
      cfg.batchSize * st.accepted.countP fun e => (toRow db e).isNone := by
  have hperm := perm_accepted hbatch h hworkers hstopped hcalls
  rw [afterBatches_written hbatch h hids hcalls, ← hperm.length_eq, ← hperm.countP_eq]
  refine length_le_of_reached calls ?_
  intro c hc
  have hmem : c.1 ∈ st.written := hcalls.subset (List.mem_map_of_mem hc)
  exact ⟨hreached c hc, ((Reachable.sound hbatch h).sized.written _ hmem).2⟩

end Asynchronous

/-! ### One batch of the two events -/

def pairConfig : Config := ⟨0, 1, 2⟩

/-- The first event has been handed to the only worker. -/
def readHanded : State := ⟨.running, 1, [], [], [.selecting [readEvent]], [], [readEvent], [], []⟩

theorem readHanded_reachable : AsyncAuditLogger.Reachable pairConfig readHanded := by
  have hstart : AsyncAuditLogger.Reachable pairConfig
      ⟨.running, 0, [], [], [.selecting []], [], [], [], []⟩ := .single (.start rfl)
  have hcall := hstart.tail (.auditLog (.inr rfl) (googleUUID.text 1) "alice" "GetKey" "key" "" true
    none 0)
  exact hcall.tail
    (@Step.handOff _ _ [] [] readEvent [] [] _ _ rfl rfl rfl rfl (.receive [] _ []))

/-- The worker has written both events together. -/
def pairStopped : State :=
  ⟨.stopped, 2, [], [], [.exited], [[readEvent, zeroEvent]], [readEvent, zeroEvent], [], []⟩

theorem pairStopped_reachable : AsyncAuditLogger.Reachable pairConfig pairStopped := by
  have hzero : AsyncAuditLogger.Reachable pairConfig
      ⟨.running, 2, [], [], [.writing [readEvent, zeroEvent]], [], [readEvent, zeroEvent], [],
        []⟩ :=
    (readHanded_reachable.tail (.auditLog (.inr rfl) (googleUUID.text 2) "mallory" "GetKey" "" ""
      false (some (.new "\x00")) 0)).tail
      (@Step.handOff _ _ [] [] zeroEvent [] [] _ _ rfl rfl rfl rfl (.receive [readEvent] _ []))
  have hwritten : AsyncAuditLogger.Reachable pairConfig
      ⟨.waiting, 2, [], [], [.selecting []], [[readEvent, zeroEvent]], [readEvent, zeroEvent], [],
        []⟩ :=
    ((hzero.tail (@Step.work _ _ [] [] _ _ _ _ rfl (.write _ []))).tail (.stop rfl)).tail
      (.close rfl)
  have hexited : AsyncAuditLogger.Reachable pairConfig
      ⟨.waiting, 2, [], [], [.exited], [[readEvent, zeroEvent]], [readEvent, zeroEvent], [], []⟩ :=
    hwritten.tail (@Step.work _ _ [] [] _ _ _ _ rfl (.finish [] rfl))
  exact hexited.tail (.stopped rfl (by simp))

theorem pairStopped_ids : (pairStopped.accepted.filterMap (idOf sampleDB)).Nodup := by
  simp [pairStopped, idOf_readEvent, idOf_zeroEvent]

/-- The read is lost with the denial. -/
theorem asynchronous_stored_iff_read :
    readEvent ∈ pairStopped.accepted ∧
      readRow ∉ afterBatches sampleDB [([readEvent, zeroEvent], true)] [] := by
  have hmem : readEvent ∈ pairStopped.accepted := List.mem_cons_self
  refine ⟨hmem, ?_⟩
  rw [asynchronous_stored_iff (by decide) pairStopped_reachable pairStopped_ids (.refl _) hmem
    toRow_readEvent]
  simp [toRow_zeroEvent]

/-- Both events are lost, which is what the bound allows. -/
theorem asynchronous_lost_le_pair :
    pairStopped.accepted.length = 2 ∧
      afterBatches sampleDB [([readEvent, zeroEvent], true)] [] = [] ∧
      pairStopped.accepted.length ≤
        (afterBatches sampleDB [([readEvent, zeroEvent], true)] []).length +
          pairConfig.batchSize * pairStopped.accepted.countP fun e =>
            (toRow sampleDB e).isNone := by
  refine ⟨rfl, ?_, asynchronous_lost_le (by decide) pairStopped_reachable (by decide) rfl
    pairStopped_ids (.refl _) (by simp)⟩
  simp [afterBatches, createAuditEventsBatch, insertAll, mapM_toRow, Storable, toRow_zeroEvent]

/-! ## 5. An event that is refused -/

section Denial

end Denial

/-! ## 6. Reading it back -/

section History

variable {db : Database} {cfg : Config} {st : State} {calls : List (List Event × Bool)}

end History

end AuditRepository

end Polykey
