/-
# What `BatchCreateKeys` reports and what it stores

`BatchCreateKeys` builds the keys of its items concurrently, with `ProcessBatch`, and then inserts
those that could be built with one call.  Here the batch runs under any schedule; the results and
the rows are made of the same items, so they agree (`batchCreate_agrees`).  Nothing depends on
`continue_on_error`, which `ProcessBatch` does not look at, and an id that comes twice makes the
whole insert fail.

The model of the service takes the items of a batch in order; `batchCreates_of_runs` says that this
is one of the schedules.
-/
import Polykey.Patterns.Batch
import Polykey.Service.ItemReports

namespace Polykey

open Lib

/-! ## 1. The processors of the service -/

/-- The two results of a Go function. -/
def goResult {β : Type} : Except Err β → Option β × Option Err
  | .ok b => (some b, none)
  | .error e => (none, some e)

/-- The error that a check returns. -/
def errorOf : Except Err Unit → Option Err
  | .ok _ => none
  | .error e => some e

/-- The processors of the batch methods. -/
def processorOf {α β : Type} (validate : α → Except Err Unit) (process : α → Svc β) :
    BatchProcessor Effect α (Option β) Err where
  maxConcurrency := 10
  validate a := .ret (errorOf (validate a))
  process a := Prog.bind (process a) fun r => .ret (goResult r)

/-- An item as the methods read it: the error first. -/
def BatchItem.outcome {β : Type} : BatchItem (Option β) Err → Except Err β
  | ⟨_, some e⟩ => .error e
  | ⟨some b, none⟩ => .ok b
  | ⟨none, none⟩ => .error .nilPointer

section Processor

variable {α β : Type} {validate : α → Except Err Unit} {process : α → Svc β}
  {sem : Sem Effect World} {w w' : World}

theorem outcome_goResult (r : Except Err β) :
    BatchItem.outcome ⟨(goResult r).1, (goResult r).2⟩ = r := by
  cases r with
  | ok b => rfl
  | error e => rfl

/-- One item, taken alone. -/
theorem itemRuns_of_runs {a : α} {r : Except Err β}
    (h : Act.Runs sem (processItem validate process a) w (.ok r) w') :
    ∃ item, BatchProcessor.ItemRuns (processorOf validate process) sem a w item w' ∧
      item.outcome = r := by
  unfold processItem at h
  cases hvalid : validate a with
  | error e =>
    rw [hvalid] at h
    obtain ⟨hr, rfl⟩ := Act.runs_pure.mp h
    cases hr
    refine ⟨⟨none, some e⟩, .rejected ⟨?_, rfl⟩, rfl⟩
    rw [hvalid]
    rfl
  | ok u =>
    rw [hvalid] at h
    have haccept : ((processorOf validate process).validate a).Runs sem w none w := by
      refine ⟨?_, rfl⟩
      rw [hvalid]
      rfl
    refine ⟨⟨(goResult r).1, (goResult r).2⟩, .processed haccept ?_, outcome_goResult r⟩
    exact Prog.runs_bind.mpr ⟨r, w', Act.runs_attempt.mp h, rfl, rfl⟩

/-- The items of a batch in order. -/
theorem inOrder_of_runs {as : List α} {rs : List (Except Err β)}
    (h : Act.Runs sem (processBatch validate process as) w (.ok rs) w') :
    ∃ items, BatchProcessor.InOrder (processorOf validate process) sem as w items w' ∧
      items.map BatchItem.outcome = rs := by
  induction as generalizing w rs with
  | nil =>
    obtain ⟨hrs, rfl⟩ := Act.runs_pure.mp h
    cases hrs
    exact ⟨[], .nil, rfl⟩
  | cons a as ih =>
    simp only [processBatch, Act.runs_bind_ok, Act.runs_pure] at h
    obtain ⟨r, w₁, hitem, rs', w₂, hrest, hrs, rfl⟩ := h
    cases hrs
    obtain ⟨item, hruns, hitem⟩ := itemRuns_of_runs hitem
    obtain ⟨items, hruns', hitems⟩ := ih hrest
    exact ⟨item :: items, .cons hruns hruns', by rw [List.map_cons, hitem, hitems]⟩

/-- What processing returns. -/
def Processed (K : α → β → Prop) (a : α) (result : Option β) (err : Option Err) : Prop :=
  ∃ r, goResult r = (result, err) ∧ ∀ b, r = .ok b → K a b

/-- What is known of the value of an item processed is known of its outcome. -/
theorem keeps_processorOf {σ : Type} {D : Discipline Effect σ} {K : α → β → Prop} {a : α}
    (h : Act.Spec D (fun _ => True) (process a) fun b _ => K a b) :
    BatchProcessor.Keeps (processorOf validate process) D (fun a err => err = errorOf (validate a))
      (Processed K) a where
  validate _ _ := rfl
  process _ w _ := (h.meets w trivial).bind fun r _ hr => ⟨r, rfl, hr⟩

end Processor

/-! ## 2. `BatchCreateKeys` under any schedule -/

namespace KeyService

/-- The processor of `BatchCreateKeys`. -/
def creator (s : KeyService) (req : BatchCreateKeysRequest) :
    BatchProcessor Effect CreateKeyItem (Option Key) Err :=
  processorOf validateCreate fun item => s.createKeyObject item (identityOf req.requesterContext)
    (profileOf req.requesterContext)

/-- `BatchCreateKeys` from the end of `ProcessBatch` on. -/
def storeCreated (s : KeyService) (items : List (Except Err Key)) :
    Svc (List (Except String CreatedKey)) := do
  Act.mapError (Err.wrap "failed to create keys in batch: ")
    (repo (.createBatchKeys (createdKeys items)))
  pure (items.map fun r =>
    (r.mapError Err.text).map fun key => ⟨key.id.string s.uuid, key.metadata⟩)

/-- `BatchCreateKeys` can end like this, under some schedule of its goroutines. -/
def BatchCreates (s : KeyService) (kms : KMS) (req : BatchCreateKeysRequest) (w : World)
    (r : Except Err (List (Except String CreatedKey))) (w' : World) : Prop :=
  if !hasIdentity req.requesterContext then r = .error (.of .errInvalidInput) ∧ w' = w
  else ∃ st : BatchProcessor.State Effect World (Option Key) Err,
    (s.creator req).Reaches (worldSem s.uuid kms) req.keys (.init req.keys w) st ∧ st.Returned ∧
      Act.Runs (worldSem s.uuid kms) (s.storeCreated (st.results.map BatchItem.outcome)) st.env r w'

/-- What a result says of its item. -/
def ReportsCreated (s : KeyService) (req : BatchCreateKeysRequest) (item : CreateKeyItem) :
    Except String CreatedKey → Prop
  | .error text => ∀ e, validateCreate item = .error e → text = e.text
  | .ok created => validateCreate item = .ok () ∧ ∃ key, s.Builds item
      (identityOf req.requesterContext) (profileOf req.requesterContext) key ∧
      created = ⟨key.id.string s.uuid, key.metadata⟩

/-- The row of a success. -/
structure StoredAs (s : KeyService) (created : CreatedKey) (row : Row) : Prop where
  id : row.id.string s.uuid = created.keyId
  version : row.version = 1
  status : row.status = .active
  metadata : row.metadata = created.metadata

end KeyService

section Create

variable {s : KeyService} {kms : KMS} {req : BatchCreateKeysRequest} {w w' : World}

/-- **The schedule of the model of the service is one of them.** -/
theorem batchCreates_of_runs {resp : List (Except String CreatedKey)}
    (h : Act.Runs (worldSem s.uuid kms) (s.batchCreateKeys req) w (.ok resp) w') :
    s.BatchCreates kms req w (.ok resp) w' := by
  unfold KeyService.batchCreateKeys at h
  unfold KeyService.BatchCreates
  split at h
  · cases h.1
  rename_i hidentity
  rw [if_neg hidentity]
  obtain ⟨items, w₁, hbatch, hrest⟩ := Act.runs_bind_ok.mp h
  obtain ⟨outs, hruns, rfl⟩ := inOrder_of_runs hbatch
  obtain ⟨st, hreach, hret, rfl, rfl⟩ := hruns.reaches (show 0 < 10 by decide)
  exact ⟨st, hreach, hret, hrest⟩

/-- Building keys leaves the table alone. -/
def keepsTable (uuid : UUIDPkg) (kms : KMS) (t : Table) : Discipline Effect World where
  sem := worldSem uuid kms
  promise _ _ := True
  inv w := w.table = t
  rely _ _ := True
  refl _ := trivial
  trans _ _ := trivial

theorem keepsTable_allows {uuid : UUIDPkg} {t : Table} (op : EffectOp) (hop : op.isPlain = true) :
    (keepsTable uuid kms t).Allows op := by
  refine fun w hw => ⟨trivial, fun r w' hstep => ⟨?_, trivial⟩⟩
  have hrepo : op.isRepo = false := by
    cases op with
    | repo _ => cases hop
    | _ => rfl
  exact (worldSem_table hstep hrepo).trans hw

/-- What `ProcessBatch` hands back: for each item the error of its validation, or a key built for
it, or the error of building it. -/
theorem creator_outcomes {st : BatchProcessor.State Effect World (Option Key) Err}
    (hreach : (s.creator req).Reaches (worldSem s.uuid kms) req.keys (.init req.keys w) st)
    (hret : st.Returned) :
    st.env.table = w.table ∧ List.Forall₂ (fun item (r : Except Err Key) =>
      (∃ e, KeyService.validateCreate item = .error e ∧ r = .error e) ∨
      KeyService.validateCreate item = .ok () ∧ ∀ key, r = .ok key → s.Builds item
        (identityOf req.requesterContext) (KeyService.profileOf req.requesterContext) key)
      req.keys (st.results.map BatchItem.outcome) := by
  have hinv := BatchProcessor.Reaches.inv (D := keepsTable s.uuid kms w.table) hreach
    (fun item _ => keeps_processorOf (spec_createKeyObject keepsTable_allows item _ _))
    (BatchProcessor.inv_init rfl)
  refine ⟨hinv.env, List.forall₂_map_right_iff.mpr ((hinv.forall₂_outcome hret).imp ?_)⟩
  rintro item out ⟨es, houtcome⟩
  cases hvalid : KeyService.validateCreate item with
  | error e =>
    refine .inl ⟨e, rfl, ?_⟩
    cases houtcome with
    | rejected hvalidate =>
      rw [hvalid] at hvalidate
      cases hvalidate
      rfl
    | processed hvalidate _ =>
      rw [hvalid] at hvalidate
      cases hvalidate
  | ok u =>
    refine .inr ⟨rfl, ?_⟩
    cases houtcome with
    | rejected hvalidate =>
      rw [hvalid] at hvalidate
      cases hvalidate
    | processed _ hprocess =>
      obtain ⟨r, hr, hbuilds⟩ := hprocess
      have hout := congrArg (fun out => BatchItem.outcome ⟨out.1, out.2⟩) hr
      rw [← hout, outcome_goResult]
      exact hbuilds

/-- The insert: all the keys, or an error and none. -/
theorem runs_storeCreated {items : List (Except Err Key)}
    {r : Except Err (List (Except String CreatedKey))}
    (h : Act.Runs (worldSem s.uuid kms) (s.storeCreated items) w r w') :
    (∃ e, r = .error e) ∧ w'.table = w.table ∨
    r = .ok (items.map fun r =>
      (r.mapError Err.text).map fun key => ⟨key.id.string s.uuid, key.metadata⟩) ∧
      w'.table.rows = w.table.rows ++ (KeyService.createdKeys items).map Row.ofKey := by
  rcases Act.runs_bind.mp h with ⟨_, w₁, hrepo, hrest⟩ | ⟨e, rfl, hrepo⟩
  · obtain ⟨rfl, rfl⟩ := Act.runs_pure.mp hrest
    obtain ⟨now, t', -, hexec, rfl⟩ := runs_repo_ok.mp (Act.runs_mapError_ok.mp hrepo)
    refine .inr ⟨rfl, ?_⟩
    simp only [PSQLAdapter.exec, PSQLAdapter.createBatchKeys, PSQLAdapter.copyFrom] at hexec
    split at hexec
    · rename_i hnil
      rw [hnil, ← (Prod.mk.inj hexec).2]
      simp
    · split at hexec
      · cases (Prod.mk.inj hexec).1
      · rename_i hinsert
        rw [← (Prod.mk.inj hexec).2]
        exact Table.insert_eq_some hinsert
  · refine .inl ⟨⟨e, rfl⟩, ?_⟩
    obtain ⟨x, hrepo, hx⟩ := Act.runs_mapError.mp hrepo
    obtain ⟨x, ⟨now, -, t', hans, rfl⟩, rfl⟩ := Act.runs_tryCall.mp hrepo
    rcases hans with hexec | ⟨-, rfl⟩
    · cases x with
      | ok _ => cases hx
      | error e' => exact PSQLAdapter.exec_error hexec
    · rfl

/-- The successes among the results are the keys that are inserted. -/
theorem successes_eq (rs : List (Except Err Key)) :
    (rs.map fun r => (r.mapError Err.text).map fun key =>
      (⟨key.id.string s.uuid, key.metadata⟩ : CreatedKey)).filterMap (·.toOption) =
      (KeyService.createdKeys rs).map fun key => ⟨key.id.string s.uuid, key.metadata⟩ := by
  unfold KeyService.createdKeys
  rw [List.filterMap_map, List.map_filterMap]
  refine List.filterMap_congr fun r _ => ?_
  cases r with
  | error e => rfl
  | ok key => rfl

/-- **The response and the store agree**, under every schedule.  A response has one result for each
item, in the order of the request: the error of its validation or of building its key, or the id and
the metadata of a key built for it.  The rows added are those of the successes, in the same order.
With an error, none is added. -/
theorem batchCreate_agrees {r : Except Err (List (Except String CreatedKey))}
    (h : s.BatchCreates kms req w r w') :
    (∀ resp, r = .ok resp → List.Forall₂ (s.ReportsCreated req) req.keys resp ∧
      ∃ rows, w'.table.rows = w.table.rows ++ rows ∧
        List.Forall₂ s.StoredAs (resp.filterMap (·.toOption)) rows) ∧
    ∀ e, r = .error e → w'.table = w.table := by
  unfold KeyService.BatchCreates at h
  split at h
  · obtain ⟨rfl, rfl⟩ := h
    refine ⟨fun _ hr => ?_, fun _ _ => rfl⟩
    cases hr
  obtain ⟨st, hreach, hret, hstore⟩ := h
  obtain ⟨htable, houtcomes⟩ := creator_outcomes hreach hret
  generalize st.results.map BatchItem.outcome = rs at hstore houtcomes
  rcases runs_storeCreated hstore with ⟨⟨e, rfl⟩, htable'⟩ | ⟨rfl, hrows⟩
  · refine ⟨fun _ hr => ?_, fun _ _ => htable'.trans htable⟩
    cases hr
  refine ⟨fun resp hr => ?_, fun _ hr => by cases hr⟩
  cases hr
  refine ⟨?_, (KeyService.createdKeys rs).map Row.ofKey, htable ▸ hrows, ?_⟩
  · refine List.forall₂_map_right_iff.mpr (houtcomes.imp fun item r hr => ?_)
    rcases hr with ⟨e, he, rfl⟩ | ⟨hvalid, hbuilds⟩
    · intro e' he'
      cases he.symm.trans he'
      rfl
    · cases r with
      | ok key => exact ⟨hvalid, key, hbuilds key rfl, rfl⟩
      | error e =>
        intro e' he'
        cases hvalid.symm.trans he'
  · rw [successes_eq, List.forall₂_map_left_iff, List.forall₂_map_right_iff]
    refine List.forall₂_same.mpr fun key hkey => ?_
    obtain ⟨r, hr, hkey⟩ := List.mem_filterMap.mp hkey
    have hbuilt : ∀ r ∈ rs, ∀ key, r = .ok key → key.version = 1 ∧ key.status = .active := by
      refine forall_left_of_forall₂ houtcomes.flip (q := fun _ => True) (fun _ _ => trivial) ?_
      rintro r item (⟨e, -, rfl⟩ | ⟨-, hbuilds⟩) - key hr
      · cases hr
      · obtain ⟨keyID, now, description, dek, rfl⟩ := hbuilds key hr
        exact ⟨rfl, rfl⟩
    cases r with
    | error e => cases hkey
    | ok key' =>
      cases hkey
      obtain ⟨hversion, hstatus⟩ := hbuilt _ hr _ rfl
      exact ⟨rfl, hversion, hstatus, rfl⟩

end Create

/-- Two items, of which the second has no key type that is known. -/
def createTwo : BatchCreateKeysRequest :=
  ⟨[sampleItem, { sampleItem with keyType := .unspecified }], false, some sampleContext⟩

/-- One key is made and stored. -/
theorem batchCreate_agrees_two : ∃ resp w', sampleService.BatchCreates sampleKMS createTwo (.init 0)
    (.ok resp) w' ∧ resp.length = 2 ∧ ∃ row, (World.table w').rows = [row] ∧
      List.Forall₂ sampleService.StoredAs (resp.filterMap (·.toOption)) [row] := by
  obtain ⟨resp, w', hrun, hcheck⟩ := exists_run (sampleService.batchCreateKeys createTwo) (.init 0)
    (fun resp => resp.length == 2 && (resp.filterMap (·.toOption)).length == 1)
    (by decide +kernel)
  rw [Bool.and_eq_true, beq_iff_eq, beq_iff_eq] at hcheck
  have hcreates : sampleService.BatchCreates sampleKMS createTwo (.init 0) (.ok resp) w' :=
    batchCreates_of_runs (s := sampleService) hrun
  obtain ⟨-, rows, hrows, hstored⟩ := (batchCreate_agrees hcreates).1 resp rfl
  obtain ⟨row, rfl⟩ := List.length_eq_one_iff.mp (hstored.length_eq.symm.trans hcheck.2)
  exact ⟨resp, w', hcreates, hcheck.1, row, hrows, hstored⟩

end Polykey
