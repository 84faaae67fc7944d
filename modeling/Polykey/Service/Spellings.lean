/-
# Other spellings of an id

`KeyIDFromString` takes an id in several spellings.  The batch reads parse the texts of their items
and ask the repository for the ids, but they look its answer up by the TEXT: `BatchGetKeys` in a map
whose keys are canonical texts, `BatchGetKeyMetadata` in one whose keys are the ids that the
metadata name themselves.  An item in another spelling is thus not found, though its rows have been
fetched.

The result for a spelling is the one for the canonical text if and only if it is the canonical text,
or there is nothing to be found under either (`spelling_free_iff`).
-/
import Polykey.Service.ItemReports

namespace Polykey

open Lib

/-! ## 1. The results of an item -/

/-- A batch read with a place for the text of an id. -/
structure Asking where
  before : List KeyRequestItem
  version : Int
  skipMetadata : Bool
  after : List KeyRequestItem
  continueOnError : Bool
  requesterContext : Option RequesterContext

namespace Asking

def item (a : Asking) (keyId : String) : KeyRequestItem := ⟨keyId, a.version, a.skipMetadata⟩

def request (a : Asking) (keyId : String) : BatchGetRequest :=
  ⟨a.before ++ a.item keyId :: a.after, a.continueOnError, a.requesterContext⟩

/-- The result of the item: it has as many behind it as the item has.  (`BatchGetKeyMetadata` may
put further results in front.) -/
def result? {α : Type} (a : Asking) (resp : BatchResponse α) : Option (ItemResult α) :=
  resp.results.reverse[a.after.length]?

/-- What the item can be answered with: what a success carries, or nothing for an error. -/
def Outcomes {α β : Type} (uuid : UUIDPkg) (kms : KMS) (w : World)
    (method : BatchGetRequest → Svc (BatchResponse α)) (carries : α → β) (a : Asking)
    (keyId : String) : Set (Option β) :=
  { o | ∃ resp w' out, Act.Runs (worldSem uuid kms) (method (a.request keyId)) w (.ok resp) w' ∧
    a.result? resp = some out ∧ o = out.result.toOption.map carries }

/-- The item of `BatchGetKeys`: the material and the metadata. -/
def keyOutcomes (s : KeyService) (kms : KMS) (w : World) (a : Asking) (keyId : String) :
    Set (Option (KeyMaterial × Option KeyMetadata)) :=
  a.Outcomes s.uuid kms w s.batchGetKeys (fun g => (g.keyMaterial, g.metadata)) keyId

/-- The item of `BatchGetKeyMetadata`: the metadata. -/
def metadataOutcomes (s : KeyService) (kms : KMS) (w : World) (a : Asking) (keyId : String) :
    Set (Option (Option KeyMetadata)) :=
  a.Outcomes s.uuid kms w s.batchGetKeyMetadata (·.metadata) keyId

/-- What relates the items to the last results relates the item to its result. -/
theorem exists_result {α : Type} {R : KeyRequestItem → ItemResult α → Prop} {a : Asking}
    {keyId : String} {resp : BatchResponse α} {front outs : List (ItemResult α)}
    (hresults : resp.results = front ++ outs)
    (h : List.Forall₂ R (a.request keyId).keys outs) :
    ∃ out, a.result? resp = some out ∧ R (a.item keyId) out := by
  have hrest := List.forall₂_drop_append _ _ _ h.flip
  obtain ⟨out, back, hout, hback, hdrop⟩ := List.forall₂_cons_right_iff.mp hrest
  refine ⟨out, ?_, hout⟩
  rw [result?, hresults, ← List.take_append_drop a.before.length outs, hdrop,
    ← hback.length_eq]
  simp

end Asking

/-- No batch read depends on which of the two texts it is asked with. -/
def SpelledAlike (s : KeyService) (kms : KMS) (w : World) (text text' : String) : Prop :=
  ∀ a : Asking, a.keyOutcomes s kms w text = a.keyOutcomes s kms w text' ∧
    a.metadataOutcomes s kms w text = a.metadataOutcomes s kms w text'

/-- Nothing is to be found under either text: the row that `BatchGetKeys` would take cannot be
delivered, and no metadata name one of the texts. -/
def NothingFound (s : KeyService) (kms : KMS) (t : Table) (id : KeyID) (text : String) : Prop :=
  (∀ r, t.oldest id = some r → ¬ Deliverable s kms r.scan) ∧
    ∀ r ∈ t.rows, (PSQLAdapter.unmarshal r.metadata).keyId ≠ text ∧
      (PSQLAdapter.unmarshal r.metadata).keyId ≠ id.string s.uuid

section Spellings

variable {s : KeyService} {kms : KMS} {w w' : World} {a : Asking} {keyId : String}

/-! ## 2. `BatchGetKeys` -/

theorem oldest_of_batchRow {t : Table} {item : KeyRequestItem} {id : KeyID} {r : Row}
    (hid : keyIDFromString s.uuid item.keyId = .ok id) (h : batchRow s t item = some r) :
    t.oldest id = some r := by
  simp only [batchRow, hid] at h
  split at h
  · exact h
  · cases h

/-- An item for which nothing can be delivered has an error. -/
theorem keyResult_error {resp : BatchResponse GetKeyResponse}
    (hnone : ∀ r, batchRow s w.table (a.item keyId) = some r → ¬ Deliverable s kms r.scan)
    (hrun : Act.Runs (worldSem s.uuid kms) (s.batchGetKeys (a.request keyId)) w (.ok resp) w') :
    ∃ out, a.result? resp = some out ∧ out.result.toOption = none := by
  have hall : resp.results = [] ++ resp.results := rfl
  obtain ⟨out, hout, hspec⟩ := Asking.exists_result hall (batchGetKeys_ok hrun)
  refine ⟨out, hout, ?_⟩
  cases hresult : out.result with
  | error e => rfl
  | ok g =>
    obtain ⟨r, hrow, hdel, -⟩ := hspec g hresult
    exact absurd hdel (hnone r hrow)

/-- So there is no other outcome than an error, and that one wherever there is an answer. -/
theorem keyOutcomes_eq
    (hnone : ∀ r, batchRow s w.table (a.item keyId) = some r → ¬ Deliverable s kms r.scan) :
    a.keyOutcomes s kms w keyId = { o | o = none ∧ WellFormed s (a.request keyId) } := by
  ext o
  constructor
  · rintro ⟨resp, w', out, hrun, hout, rfl⟩
    obtain ⟨out', hout', herror⟩ := keyResult_error hnone hrun
    cases hout.symm.trans hout'
    exact ⟨by rw [herror]; rfl, batchGetKeys_wellFormed hrun⟩
  · rintro ⟨rfl, hform⟩
    obtain ⟨resp, w', hrun, -⟩ := batchGetKeys_runs kms hform w
    obtain ⟨out, hout, herror⟩ := keyResult_error hnone hrun
    exact ⟨resp, w', out, hrun, hout, by rw [herror]; rfl⟩

/-- A row that can be delivered is. -/
theorem some_mem_keyOutcomes (hform : WellFormed s (a.request keyId)) {r : Row}
    (hrow : batchRow s w.table (a.item keyId) = some r) (hdel : Deliverable s kms r.scan) :
    ∃ g, some g ∈ a.keyOutcomes s kms w keyId := by
  obtain ⟨resp, w', hrun, hdelivered⟩ := batchGetKeys_runs kms hform w
  have hall : resp.results = [] ++ resp.results := rfl
  obtain ⟨out, hout, hspec⟩ := Asking.exists_result hall hdelivered
  obtain ⟨g, hg⟩ := hspec r hrow hdel
  exact ⟨_, resp, w', out, hrun, hout, by rw [hg]; rfl⟩

/-- With the text of an id, it is up to the other items whether all texts are ids. -/
theorem forall_isID_request (h : s.IsID keyId) :
    (∀ item ∈ (a.request keyId).keys, s.IsID item.keyId) ↔
      ∀ item ∈ a.before ++ a.after, s.IsID item.keyId := by
  unfold Asking.request
  simp only [List.forall_mem_append, List.forall_mem_cons]
  exact and_congr_right fun _ => and_iff_right h

theorem wellFormed_congr {keyId' : String} (h : s.IsID keyId) (h' : s.IsID keyId') :
    WellFormed s (a.request keyId) ↔ WellFormed s (a.request keyId') :=
  and_congr_right fun _ => (forall_isID_request h).trans (forall_isID_request h').symm

/-! ## 3. `BatchGetKeyMetadata` -/

/-- A request that `BatchGetKeyMetadata` answers, when the repository does. -/
def Answerable (s : KeyService) (req : BatchGetRequest) : Prop :=
  hasIdentity req.requesterContext = true ∧
    (req.continueOnError = true ∨ ∀ item ∈ req.keys, s.IsID item.keyId)

/-- The metadata that the method finds under a text. -/
def found (s : KeyService) (t : Table) (req : BatchGetRequest) (text : String) :
    Option KeyMetadata :=
  (KeyService.metadataMap (PSQLAdapter.getBatchKeyMetadata t (s.idsOrZero req.keys))).lookup text

theorem answerable_of_runs {req : BatchGetRequest} {resp : BatchResponse GetKeyMetadataResponse}
    (hrun : Act.Runs (worldSem s.uuid kms) (s.batchGetKeyMetadata req) w (.ok resp) w') :
    Answerable s req := by
  unfold KeyService.batchGetKeyMetadata at hrun
  split at hrun
  · cases hrun.1
  rename_i hidentity
  split at hrun
  · cases hrun.1
  rename_i hmatch
  refine ⟨by simpa using hidentity, ?_⟩
  cases hinvalid : s.firstInvalid (req.keys.map (·.keyId)) with
  | none => exact .inr (List.forall_mem_map.mp (KeyService.firstInvalid_eq_none.mp hinvalid))
  | some e =>
    cases hgo : req.continueOnError with
    | true => exact .inl rfl
    | false => exact absurd hgo (hmatch e hinvalid)

/-- **What `BatchGetKeyMetadata` answers an item with**, whatever the texts of the request. -/
theorem metadataResult_ok {resp : BatchResponse GetKeyMetadataResponse}
    (hrun : Act.Runs (worldSem s.uuid kms) (s.batchGetKeyMetadata (a.request keyId)) w (.ok resp)
      w') : Answerable s (a.request keyId) ∧ ∃ out, a.result? resp = some out ∧
      ∀ g, out.result = .ok g → ∃ md, found s w.table (a.request keyId) keyId = some md ∧
        g.metadata = some md := by
  obtain ⟨rest, hresults, hrest⟩ := batchGetKeyMetadata_results hrun
  obtain ⟨out, hout, hspec⟩ := Asking.exists_result hresults hrest
  exact ⟨answerable_of_runs hrun, out, hout, fun g hg => (hspec g hg).2⟩

/-- It can answer, with a success for an item whose metadata it finds. -/
theorem metadataResult_runs (kms : KMS) (hreq : Answerable s (a.request keyId)) (w : World) :
    ∃ resp w', Act.Runs (worldSem s.uuid kms) (s.batchGetKeyMetadata (a.request keyId)) w
      (.ok resp) w' ∧ ∃ out, a.result? resp = some out ∧
        ∀ md, found s w.table (a.request keyId) keyId = some md →
          ∃ g, out.result = .ok g ∧ g.metadata = some md := by
  obtain ⟨resp, rest, hrun, hresults, hrest⟩ := batchGetKeyMetadata_answers (s := s) kms hreq.1
    hreq.2 w
  obtain ⟨out, hout, hspec⟩ := Asking.exists_result hresults hrest
  exact ⟨resp, w, hrun, out, hout, hspec⟩

/-- What is found under a text names that text. -/
theorem found_some {t : Table} {req : BatchGetRequest} {text : String} {md : KeyMetadata}
    (h : found s t req text = some md) :
    md.keyId = text ∧ ∃ r ∈ t.rows, (PSQLAdapter.unmarshal r.metadata).keyId = text := by
  rw [found, metadataMap_getBatchKeyMetadata] at h
  obtain ⟨r, hr, hkey, rfl, -⟩ := lookup_lastByKey (t.pairwise_selectBatch _) h
  exact ⟨hkey, r, (Table.mem_selectBatch.mp hr).1, hkey⟩

/-- A row of an id that is asked for is found under the text it names, or another row is. -/
theorem exists_found {t : Table} {req : BatchGetRequest} {r : Row} (hr : r ∈ t.rows)
    (hid : r.id ∈ s.idsOrZero req.keys) :
    ∃ md, found s t req (PSQLAdapter.unmarshal r.metadata).keyId = some md := by
  rw [found, metadataMap_getBatchKeyMetadata]
  exact lookup_lastByKey_some (fun r => (PSQLAdapter.unmarshal r.metadata).keyId) _
    (Table.mem_selectBatch.mpr ⟨hr, hid⟩)

theorem metadataOutcomes_eq
    (hnone : ∀ r ∈ w.table.rows, (PSQLAdapter.unmarshal r.metadata).keyId ≠ keyId) :
    a.metadataOutcomes s kms w keyId = { o | o = none ∧ Answerable s (a.request keyId) } := by
  have hfound : found s w.table (a.request keyId) keyId = none := by
    refine Option.eq_none_iff_forall_ne_some.mpr fun md hmd => ?_
    obtain ⟨-, r, hr, hname⟩ := found_some hmd
    exact hnone r hr hname
  have herror : ∀ resp w', Act.Runs (worldSem s.uuid kms) (s.batchGetKeyMetadata (a.request keyId))
      w (.ok resp) w' → ∃ out, a.result? resp = some out ∧ out.result.toOption = none := by
    intro resp w' hrun
    obtain ⟨-, out, hout, hspec⟩ := metadataResult_ok hrun
    refine ⟨out, hout, ?_⟩
    cases hresult : out.result with
    | error e => rfl
    | ok g =>
      obtain ⟨md, hmd, -⟩ := hspec g hresult
      cases hfound.symm.trans hmd
  ext o
  constructor
  · rintro ⟨resp, w', out, hrun, hout, rfl⟩
    obtain ⟨out', hout', herror⟩ := herror resp w' hrun
    cases hout.symm.trans hout'
    exact ⟨by rw [herror]; rfl, (metadataResult_ok hrun).1⟩
  · rintro ⟨rfl, hreq⟩
    obtain ⟨resp, w', hrun, -⟩ := metadataResult_runs kms hreq w
    obtain ⟨out, hout, herror⟩ := herror resp w' hrun
    exact ⟨resp, w', out, hrun, hout, by rw [herror]; rfl⟩

/-- A success carries metadata that name the text. -/
theorem keyId_of_mem_metadataOutcomes {o : Option KeyMetadata}
    (h : some o ∈ a.metadataOutcomes s kms w keyId) : ∃ md, o = some md ∧ md.keyId = keyId := by
  obtain ⟨resp, w', out, hrun, hout, ho⟩ := h
  obtain ⟨-, out', hout', hspec⟩ := metadataResult_ok hrun
  cases hout.symm.trans hout'
  cases hresult : out.result with
  | error e =>
    rw [hresult] at ho
    cases ho
  | ok g =>
    rw [hresult] at ho
    obtain ⟨md, hmd, hg⟩ := hspec g hresult
    exact ⟨md, (Option.some.inj ho).trans hg, (found_some hmd).1⟩

theorem answerable_congr {keyId' : String} (h : s.IsID keyId) (h' : s.IsID keyId') :
    Answerable s (a.request keyId) ↔ Answerable s (a.request keyId') :=
  and_congr_right fun _ => or_congr_right
    ((forall_isID_request h).trans (forall_isID_request h').symm)

/-! ## 4. When the spelling does not matter

Where it does not, nothing can be found under either text: a row that could be delivered, or
metadata that name one of the texts, would be found under one and not under the other. The
request that shows it asks for the item and one more id. -/

/-- A request that is answered, for the item and one more id. -/
def askingFor (keyId : String) : Asking :=
  ⟨[], 0, false, [⟨keyId, 0, false⟩], true, some ⟨"client", .free⟩⟩

/-- Where two texts are answered alike, no row names one of them. -/
theorem SpelledAlike.unnamed {text text' : String} (h : SpelledAlike s kms w text text')
    (hne : text ≠ text') :
    ∀ r ∈ w.table.rows, (PSQLAdapter.unmarshal r.metadata).keyId ≠ text := by
  rintro r hr rfl
  have hid : r.id ∈ s.idsOrZero ((askingFor (r.id.string s.uuid)).request
      (PSQLAdapter.unmarshal r.metadata).keyId).keys := by
    simp [askingFor, Asking.request, KeyService.idsOrZero, Except.toOption]
  obtain ⟨md, hmd⟩ := exists_found hr hid
  have hreq : Answerable s ((askingFor (r.id.string s.uuid)).request
      (PSQLAdapter.unmarshal r.metadata).keyId) := ⟨rfl, .inl rfl⟩
  obtain ⟨resp, w', hrun, out, hout, hspec⟩ := metadataResult_runs kms hreq w
  obtain ⟨g, hg, hgmd⟩ := hspec md hmd
  have hmem : some (some md) ∈ (askingFor (r.id.string s.uuid)).metadataOutcomes s kms w
      (PSQLAdapter.unmarshal r.metadata).keyId :=
    ⟨resp, w', out, hrun, hout, by rw [hg, ← hgmd]; rfl⟩
  rw [(h _).2] at hmem
  obtain ⟨md', hmd', hname⟩ := keyId_of_mem_metadataOutcomes hmem
  cases hmd'
  exact hne ((found_some hmd).1.symm.trans hname)

/-- Nor can the row that `BatchGetKeys` would take be delivered. -/
theorem SpelledAlike.undelivered {id : KeyID} {text : String}
    (h : SpelledAlike s kms w text (id.string s.uuid))
    (hid : keyIDFromString s.uuid text = .ok id) (hne : text ≠ id.string s.uuid) :
    ∀ r, w.table.oldest id = some r → ¬ Deliverable s kms r.scan := by
  intro r hr hdel
  let a := askingFor (id.string s.uuid)
  have hform : WellFormed s (a.request (id.string s.uuid)) := by
    refine ⟨rfl, fun item hitem => ⟨id, ?_⟩⟩
    rcases List.mem_pair.mp hitem with rfl | rfl <;> exact keyIDFromString_string _ _
  obtain ⟨g, hg⟩ := some_mem_keyOutcomes hform ((batchRow_string rfl).trans hr) hdel
  rw [← (h a).1, keyOutcomes_eq] at hg
  · cases hg.1
  · intro r' hr'
    simp [batchRow, Asking.item, hid, hne.symm] at hr'

/-- **A spelling of an id is answered as the canonical text is if and only if** it is the canonical
text, or nothing is to be found under either. -/
theorem spelling_free_iff {id : KeyID} {text : String}
    (hid : keyIDFromString s.uuid text = .ok id) :
    SpelledAlike s kms w text (id.string s.uuid) ↔
      text = id.string s.uuid ∨ NothingFound s kms w.table id text := by
  constructor
  · intro h
    by_cases hne : text = id.string s.uuid
    · exact .inl hne
    · have hsymm : SpelledAlike s kms w (id.string s.uuid) text :=
        fun a => ⟨(h a).1.symm, (h a).2.symm⟩
      exact .inr ⟨h.undelivered hid hne,
        fun r hr => ⟨h.unnamed hne r hr, hsymm.unnamed (Ne.symm hne) r hr⟩⟩
  · rintro (rfl | ⟨hundelivered, hunnamed⟩) a
    · exact ⟨rfl, rfl⟩
    have htext : s.IsID text := ⟨id, hid⟩
    have hcanon : s.IsID (id.string s.uuid) := KeyService.isID_string id
    constructor
    · rw [keyOutcomes_eq, keyOutcomes_eq, wellFormed_congr htext hcanon]
      · exact fun r hr => hundelivered r (oldest_of_batchRow (keyIDFromString_string _ id) hr)
      · exact fun r hr => hundelivered r (oldest_of_batchRow hid hr)
    · rw [metadataOutcomes_eq fun r hr => (hunnamed r hr).1,
        metadataOutcomes_eq fun r hr => (hunnamed r hr).2, answerable_congr htext hcanon]

end Spellings

/-- The id of the sample key, in upper case. -/
def sampleUpper : String := "00000000-0000-0000-0000-0000000007D0"

theorem sampleUpper_parses : keyIDFromString sampleService.uuid sampleUpper = .ok sampleID := by
  decide +kernel

/-- Where a key is stored, and another one is asked for, the two spellings of that one are answered
alike. -/
theorem spelling_free_iff_missing :
    oneKey.table.rows ≠ [] ∧
      SpelledAlike sampleService sampleKMS oneKey "00000000-0000-0000-0000-000000001F4A"
        "00000000-0000-0000-0000-000000001f4a" := by
  have hparse : keyIDFromString sampleService.uuid "00000000-0000-0000-0000-000000001F4A" =
      .ok ⟨8010⟩ := by decide +kernel
  have htext : KeyID.string sampleService.uuid ⟨8010⟩ = "00000000-0000-0000-0000-000000001f4a" := by
    decide +kernel
  have holdest : oneKey.table.oldest ⟨8010⟩ = none := by decide +kernel
  have hnames : ∀ r ∈ oneKey.table.rows,
      (PSQLAdapter.unmarshal r.metadata).keyId ≠ "00000000-0000-0000-0000-000000001F4A" ∧
        (PSQLAdapter.unmarshal r.metadata).keyId ≠ "00000000-0000-0000-0000-000000001f4a" := by
    decide +kernel
  rw [← htext] at hnames
  have hundelivered : ∀ r, oneKey.table.oldest ⟨8010⟩ = some r →
      ¬ Deliverable sampleService sampleKMS r.scan := by
    intro r hr
    cases holdest.symm.trans hr
  have halike := (@spelling_free_iff sampleService sampleKMS oneKey ⟨8010⟩ _ hparse).mpr
    (.inr ⟨hundelivered, hnames⟩)
  rw [htext] at halike
  exact ⟨by decide +kernel, halike⟩

/-- **The key is there, and only its canonical text finds it.** -/
theorem spelling_loses_key :
    keyIDFromString sampleService.uuid sampleUpper = .ok sampleID ∧
      ¬ SpelledAlike sampleService sampleKMS oneKey sampleUpper sampleText := by
  refine ⟨sampleUpper_parses, fun h => ?_⟩
  let a : Asking := ⟨[], 0, false, [], false, some sampleContext⟩
  obtain ⟨resp, w', hrun, hcheck⟩ := exists_run (sampleService.batchGetKeys (a.request sampleText))
    oneKey (fun resp => (a.result? resp).any (·.result.isOk)) (by decide +kernel)
  have hrow : batchRow sampleService oneKey.table (a.item sampleUpper) = none := by decide +kernel
  have hupper : a.keyOutcomes sampleService sampleKMS oneKey sampleUpper ⊆ {none} := by
    rw [keyOutcomes_eq fun r hr => by cases hrow.symm.trans hr]
    exact fun o ho => ho.1
  rw [(h a).1] at hupper
  cases hresult : a.result? resp with
  | none =>
    rw [hresult] at hcheck
    cases hcheck
  | some out =>
    have hout : out.result.toOption.map _ = none := hupper ⟨resp, w', out, hrun, hresult, rfl⟩
    rw [hresult] at hcheck
    cases hok : out.result with
    | error e => simp [hok, Except.isOk, Except.toBool] at hcheck
    | ok g => simp [hok, Except.toOption] at hout

end Polykey
