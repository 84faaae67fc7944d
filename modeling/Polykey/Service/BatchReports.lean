/-
# What a batch of updates reports

`BatchUpdateKeyMetadata` writes the results of the items that failed before the write, and after
the write a result for EVERY item of the request.  An item that has failed is thus reported twice,
and the second time as a success when the write has succeeded.  The response is right if and only
if no item has failed (`truthful_iff_failed`), which is up to the items and the rows they name,
where these can be read (`batchUpdate_truthful_iff`).

Whether an item was part of the write is not in the response, so the method is restated here with
that knowledge, and the two run alike.
-/
import Polykey.Service.UpdateEffects

namespace Polykey

open Lib

/-! ## 1. The method, and what it has written -/

namespace KeyService

/-- The loop of `BatchUpdateKeyMetadata` that goes on after errors, and for each item whether it has
left a key to update. -/
def updateLoopTraced (s : KeyService) :
    List UpdateKeyMetadataItem → Svc (List Key × List (ItemResult Unit) × List Bool)
  | [] => pure ([], [], [])
  | item :: items => do
    let r ← s.updateItem item
    match r with
    | .error (text, _) => do
      let (keys, failed, prepared) ← s.updateLoopTraced items
      pure (keys, ⟨item.keyId, .error text⟩ :: failed, false :: prepared)
    | .ok key => do
      let (keys, failed, prepared) ← s.updateLoopTraced items
      pure (key :: keys, failed, true :: prepared)

/-- `BatchUpdateKeyMetadata` with `continueOnError`, and for each item whether its update was part
of a write that succeeded. -/
def batchUpdateTraced (s : KeyService) (req : BatchUpdateKeyMetadataRequest) :
    Svc (BatchResponse Unit × List Bool) :=
  if !hasIdentity req.requesterContext then Act.throw (.of .errInvalidRequest)
  else do
    let (keysToUpdate, failed, prepared) ← s.updateLoopTraced req.keys
    let updated ← Act.attempt (repo (.updateBatchKeyMetadata keysToUpdate))
    match updated with
    | .error e => do
      let now ← Act.call (I := Effect) .timeNow
      pure (⟨failed ++ req.keys.map fun item => ⟨item.keyId, .error e.text⟩, now, 0,
        failed.length + req.keys.length⟩, prepared.map fun _ => false)
    | .ok _ => do
      let now ← Act.call (I := Effect) .timeNow
      pure (⟨failed ++ req.keys.map fun item => ⟨item.keyId, .ok ()⟩, now, req.keys.length,
        failed.length⟩, prepared)

end KeyService

section Traced

variable {σ : Type} {sem : Sem Effect σ} {s : KeyService}

theorem updateLoopTraced_alike (items : List UpdateKeyMetadataItem) :
    Act.Alike sem (s.updateLoop true items) (s.updateLoopTraced items)
      fun out traced => out = (traced.1, traced.2.1) := by
  induction items with
  | nil => exact .pure rfl
  | cons item items ih =>
    refine Act.Alike.after _ fun r => ?_
    cases r with
    | error failure =>
      refine ih.bind fun out traced hout => .pure ?_
      rw [hout]
    | ok key =>
      refine ih.bind fun out traced hout => .pure ?_
      rw [hout]

/-- **The response is the one of the method.** -/
theorem batchUpdateTraced_alike {req : BatchUpdateKeyMetadataRequest}
    (hgo : req.continueOnError = true) :
    Act.Alike sem (s.batchUpdateKeyMetadata req) (s.batchUpdateTraced req)
      fun resp traced => traced.1 = resp := by
  unfold KeyService.batchUpdateKeyMetadata KeyService.batchUpdateTraced
  split
  · exact .throw _
  rw [hgo]
  refine (updateLoopTraced_alike req.keys).bind fun out traced hout => ?_
  subst hout
  refine Act.Alike.after _ fun updated => ?_
  cases updated with
  | error e => exact Act.Alike.after _ fun now => .pure rfl
  | ok _ => exact Act.Alike.after _ fun now => .pure rfl

end Traced

/-! ## 2. Responses that are right -/

/-- One result per item, in the order of the request and under its id; success is reported of what
was written; the counts are those of the results and add up. -/
structure Truthful (req : BatchUpdateKeyMetadataRequest) (resp : BatchResponse Unit)
    (written : List Bool) : Prop where
  ids : resp.results.map (·.keyId) = req.keys.map (·.keyId)
  verdicts : resp.results.map (·.result.isOk) = written
  successes : resp.successfulCount = resp.results.countP (·.result.isOk)
  failures : resp.failedCount = resp.results.countP (!·.result.isOk)
  total : resp.successfulCount + resp.failedCount = req.keys.length

/-- One result per item leaves no room for the results of items that failed. -/
theorem Truthful.failed_nil {req : BatchUpdateKeyMetadataRequest} {failed : List (ItemResult Unit)}
    {result : UpdateKeyMetadataItem → ItemResult Unit} {now : Time} {n m : Nat}
    {written : List Bool}
    (h : Truthful req ⟨failed ++ req.keys.map result, now, n, m⟩ written) : failed = [] := by
  have hlength := congrArg List.length h.ids
  simp only [List.length_map, List.length_append] at hlength
  exact List.length_eq_zero_iff.mp (by omega)

/-- The right response when all items have one verdict. -/
theorem truthful_uniform (req : BatchUpdateKeyMetadataRequest) (now : Time)
    (verdict : Except String Unit) :
    Truthful req ⟨req.keys.map fun item => ⟨item.keyId, verdict⟩, now,
      if verdict.isOk then req.keys.length else 0, if verdict.isOk then 0 else req.keys.length⟩
      (req.keys.map fun _ => verdict.isOk) := by
  refine ⟨?_, ?_, ?_, ?_, ?_⟩
  · exact List.map_map
  · exact List.map_map
  · cases hv : verdict.isOk with
    | true => simp [List.countP_map, Function.comp_def, hv]
    | false => simp [List.countP_map, Function.comp_def, hv]
  · cases hv : verdict.isOk with
    | true => simp [List.countP_map, Function.comp_def, hv]
    | false => simp [List.countP_map, Function.comp_def, hv]
  · split
    · exact Nat.add_zero _
    · exact Nat.zero_add _

section Loop

variable {s : KeyService} {kms : KMS} {kind : RepoOp → Prop} {w w' : World}
  {items : List UpdateKeyMetadataItem} {keys : List Key} {failed : List (ItemResult Unit)}
  {prepared : List Bool}

/-- The loop: the table stays, each item has its mark, and where none has failed all were prepared.
-/
theorem runs_updateLoopTraced
    (h : Act.Runs (worldSem s.uuid kms) (s.updateLoopTraced items) w (.ok (keys, failed, prepared))
      w') :
    w'.table = w.table ∧ (failed = [] → (∀ item ∈ items, Prepared s.uuid w.table item) ∧
      prepared = items.map fun _ => true) ∧ prepared.length = items.length := by
  induction items generalizing w keys failed prepared with
  | nil =>
    obtain ⟨hout, rfl⟩ := h
    cases hout
    refine ⟨rfl, fun _ => ⟨fun item hitem => ?_, rfl⟩, rfl⟩
    cases hitem
  | cons item items ih =>
    obtain ⟨r, w₁, hturn, hrest⟩ := Act.runs_bind_ok.mp h
    obtain ⟨htable, hprepares⟩ := runs_updateItem hturn
    cases r with
    | error failure =>
      obtain ⟨out, w₂, hloop, hout, rfl⟩ := Act.runs_bind_ok.mp hrest
      cases hout
      obtain ⟨htable', -, hlength⟩ := ih hloop
      refine ⟨htable'.trans htable, fun hnil => ?_, congrArg (· + 1) hlength⟩
      cases hnil
    | ok key =>
      obtain ⟨out, w₂, hloop, hout, rfl⟩ := Act.runs_bind_ok.mp hrest
      cases hout
      obtain ⟨htable', hnil, hlength⟩ := ih hloop
      refine ⟨htable'.trans htable, fun hfailed => ?_, congrArg (· + 1) hlength⟩
      obtain ⟨hitems, hmarks⟩ := hnil hfailed
      obtain ⟨id, row, m, now, hupdate, -⟩ := hprepares key rfl
      refine ⟨fun item' hitem' => ?_, congrArg (true :: ·) hmarks⟩
      rcases List.mem_cons.mp hitem' with rfl | hitem'
      · exact hupdate.prepared
      · have hprepared := hitems item' hitem'
        rwa [htable] at hprepared

/-- Where the rows can be read, items that are prepared do not fail. -/
theorem working_updateLoopTraced (hkind : ∀ id, kind (.getKey id))
    (hitems : ∀ item ∈ items, Prepared s.uuid w.table item)
    (h : Act.Runs (workingSem s.uuid kms kind) (s.updateLoopTraced items) w
      (.ok (keys, failed, prepared)) w') : failed = [] := by
  induction items generalizing w keys failed prepared with
  | nil =>
    cases h.1
    rfl
  | cons item items ih =>
    obtain ⟨r, w₁, hturn, hrest⟩ := Act.runs_bind_ok.mp h
    obtain ⟨key, hr⟩ := working_updateItem hkind (hitems item (List.mem_cons_self ..)) hturn
    cases hr
    obtain ⟨htable, -⟩ := runs_updateItem (hturn.mono worldSem_of_working)
    obtain ⟨out, w₂, hloop, hout, rfl⟩ := Act.runs_bind_ok.mp hrest
    cases hout
    refine ih (fun item' hitem' => ?_) hloop
    rw [htable]
    exact hitems item' (List.mem_cons_of_mem _ hitem')

end Loop

section Reports

variable {s : KeyService} {kms : KMS} {kind : RepoOp → Prop} {req : BatchUpdateKeyMetadataRequest}
  {w w' : World} {resp : BatchResponse Unit} {written : List Bool}

/-- **The response is right if no item has failed before the write**, in every run. -/
theorem truthful_iff_failed {sem : Sem Effect World}
    (hsem : ∀ op w r w', sem op w r w' → worldSem s.uuid kms op w r w')
    (h : Act.Runs sem (s.batchUpdateTraced req) w (.ok (resp, written)) w') :
    ∃ keys failed prepared w₁, Act.Runs sem (s.updateLoopTraced req.keys) w
      (.ok (keys, failed, prepared)) w₁ ∧ (Truthful req resp written ↔ failed = []) := by
  unfold KeyService.batchUpdateTraced at h
  split at h
  · cases h.1
  obtain ⟨out, w₁, hloop, hrest⟩ := Act.runs_bind_ok.mp h
  obtain ⟨keys, failed, prepared⟩ := out
  refine ⟨keys, failed, prepared, w₁, hloop, ?_⟩
  obtain ⟨-, hnil, hlength⟩ := runs_updateLoopTraced (hloop.mono hsem)
  obtain ⟨updated, w₂, -, hanswer⟩ := Act.runs_bind_ok.mp hrest
  cases updated with
  | error e =>
    obtain ⟨now, w₃, -, hout, -⟩ := Act.runs_bind_ok.mp hanswer
    cases hout
    constructor
    · exact Truthful.failed_nil
    · rintro rfl
      have hright := truthful_uniform req now (.error e.text)
      have hmarks : (prepared.map fun _ => false) = req.keys.map fun _ => false := by
        rw [List.map_const', List.map_const', hlength]
      rw [hmarks]
      simpa [Except.isOk, Except.toBool] using hright
  | ok _ =>
    obtain ⟨now, w₃, -, hout, -⟩ := Act.runs_bind_ok.mp hanswer
    cases hout
    constructor
    · exact Truthful.failed_nil
    · rintro rfl
      have hright := truthful_uniform req now (.ok ())
      rw [(hnil rfl).2]
      simpa [Except.isOk, Except.toBool] using hright

end Reports

/-- The repository calls that read the latest row. -/
def ReadsLatest (op : RepoOp) : Prop := ∃ id, op = .getKey id

/-- **When a batch of updates reports the truth.** A request that may go on after errors, and any
store.  Whatever calls fail, a response that is right is one to a request whose items are all
prepared: their ids parse, their descriptions are accepted, and their rows are there.  Where the
rows can be read, and whether the write succeeds or not, such a request is answered right. -/
theorem batchUpdate_truthful_iff {s : KeyService} {kms : KMS} {req : BatchUpdateKeyMetadataRequest}
    {w : World} (hgo : req.continueOnError = true) :
    (∀ sem : Sem Effect World, Act.Alike sem (s.batchUpdateKeyMetadata req)
      (s.batchUpdateTraced req) fun resp traced => traced.1 = resp) ∧
    (∀ resp written w', Act.Runs (worldSem s.uuid kms) (s.batchUpdateTraced req) w
      (.ok (resp, written)) w' → Truthful req resp written →
        ∀ item ∈ req.keys, Prepared s.uuid w.table item) ∧
    ∀ resp written w', Act.Runs (workingSem s.uuid kms ReadsLatest) (s.batchUpdateTraced req) w
      (.ok (resp, written)) w' →
        (Truthful req resp written ↔ ∀ item ∈ req.keys, Prepared s.uuid w.table item) := by
  have hnecessary : ∀ resp written w', Act.Runs (worldSem s.uuid kms) (s.batchUpdateTraced req) w
      (.ok (resp, written)) w' → Truthful req resp written →
        ∀ item ∈ req.keys, Prepared s.uuid w.table item := by
    intro resp written w' hrun htruthful
    obtain ⟨keys, failed, prepared, w₁, hloop, hiff⟩ :=
      truthful_iff_failed (fun _ _ _ _ hstep => hstep) hrun
    exact ((runs_updateLoopTraced hloop).2.1 (hiff.mp htruthful)).1
  refine ⟨fun sem => batchUpdateTraced_alike hgo, hnecessary, fun resp written w' hrun => ?_⟩
  constructor
  · exact hnecessary resp written w' (hrun.mono worldSem_of_working)
  · intro hitems
    obtain ⟨keys, failed, prepared, w₁, hloop, hiff⟩ :=
      truthful_iff_failed worldSem_of_working hrun
    exact hiff.mpr (working_updateLoopTraced (fun id => ⟨id, rfl⟩) hitems hloop)

/-! ### Two items, and one that is no key -/

/-- The tags, in a request that may go on. -/
def addTagsOn (tags : List String) : BatchUpdateKeyMetadataRequest :=
  { addTags tags with continueOnError := true }

/-- Both items are reported right. -/
theorem batchUpdate_truthful_iff_two :
    ∃ resp written w', Act.Runs (workingSem sampleService.uuid sampleKMS ReadsLatest)
        (sampleService.batchUpdateTraced (addTagsOn ["env", "team"])) MetadataUpdates.createdWorld
        (.ok (resp, written)) w' ∧ Truthful (addTagsOn ["env", "team"]) resp written ∧
      written = [true, true] := by
  obtain ⟨r, w', hrun, hcheck⟩ := Prog.exists_runs (sampleStep_working ReadsLatest)
    (sampleService.batchUpdateTraced (addTagsOn ["env", "team"])) MetadataUpdates.createdWorld
    (fun out => out.1.toOption.any fun traced => traced.2 = [true, true]) (by decide +kernel)
  cases r with
  | error e => cases hcheck
  | ok traced =>
    obtain ⟨-, -, hiff⟩ := @batchUpdate_truthful_iff sampleService sampleKMS
      (addTagsOn ["env", "team"]) MetadataUpdates.createdWorld rfl
    exact ⟨traced.1, traced.2, w', hrun, (hiff traced.1 traced.2 w' hrun).mpr
      (addTags_prepared ["env", "team"]), of_decide_eq_true hcheck⟩

/-- An item that adds a tag, and items without an id that parses. -/
def withInvalid (texts : List String) : BatchUpdateKeyMetadataRequest :=
  ⟨(MetadataUpdates.addTag "env").item :: texts.map fun text =>
    { (MetadataUpdates.addTag "env").item with keyId := text }, true, some sampleContext⟩

/-- **An item that has failed is reported as a success.** Of two items one has no id; there are
three results, two successes among them, and the one without an id is reported as both. -/
theorem failed_item_reported_twice :
    ∃ resp w', Act.Runs (worldSem sampleService.uuid sampleKMS)
        (sampleService.batchUpdateKeyMetadata (withInvalid ["not-a-key"]))
        MetadataUpdates.createdWorld (.ok resp) w' ∧
      (withInvalid ["not-a-key"]).keys.length = 2 ∧ resp.successfulCount = 2 ∧
      resp.failedCount = 1 ∧
      (resp.results.map fun r => (r.keyId, r.result.isOk)) =
        [("not-a-key", false), (sampleText, true), ("not-a-key", true)] ∧
      ∀ written, ¬ Truthful (withInvalid ["not-a-key"]) resp written := by
  obtain ⟨r, w', hrun, hcheck⟩ := Prog.exists_runs sampleStep_sound
    (sampleService.batchUpdateKeyMetadata (withInvalid ["not-a-key"])) MetadataUpdates.createdWorld
    (fun out => out.1.toOption.any fun resp => resp.successfulCount = 2 ∧ resp.failedCount = 1 ∧
      (resp.results.map fun r => (r.keyId, r.result.isOk)) =
        [("not-a-key", false), (sampleText, true), ("not-a-key", true)]) (by decide +kernel)
  cases r with
  | error e => cases hcheck
  | ok resp =>
    obtain ⟨hok, hfailed, hresults⟩ := of_decide_eq_true hcheck
    refine ⟨resp, w', hrun, rfl, hok, hfailed, hresults, fun written htruthful => ?_⟩
    have htotal := htruthful.total
    rw [hok, hfailed] at htotal
    cases htotal

end Polykey
