/-
# What a metadata update leaves

A request for an update has nine parts.  `UpdateKeyMetadata` carries out four of them: the
description, the expiry, the classification and the tags.  It does not look at the policies, and
nobody looks at the contexts to add and to remove (`update_appliesAll_iff`).

`BatchUpdateKeyMetadata` does carry out the policies.  It reads the keys of all its items before it
writes any of them, so of several items for one key the last one is made on the metadata from
before the batch, and what the others changed is overwritten.  It leaves what the single updates
would leave, one after another, if the last item for each key brings no new policy and says again
what the items before it have changed (`batchUpdate_eq_oneByOne_iff`).
-/
import Polykey.Lib.Edits
import Polykey.Service.MetadataUpdates
import Polykey.Service.Reads

namespace Polykey

open Lib MetadataUpdates

/-! ## 1. The edits of an item -/

/-- Copying changes nothing if everything is there already. -/
theorem mapsCopy_eq_iff (dst src : StringMap) :
    KeyService.mapsCopy dst src = dst ↔
      ∀ k v, src.lookup k = some v → dst.lookup k = some v := by
  constructor
  · intro h k v hv
    rw [← h, KeyService.lookup_mapsCopy_eq, hv]
    rfl
  · intro h
    refine Finmap.ext_lookup fun k => ?_
    rw [KeyService.lookup_mapsCopy_eq]
    cases hv : src.lookup k with
    | none => rfl
    | some v => exact (h k v hv).symm

namespace UpdateKeyMetadataItem

/-- The new description, once it is checked. -/
def descriptionEdit (item : UpdateKeyMetadataItem) : Option String :=
  (KeyService.checkDescription item).toOption.getD none

def expiresAtEdit (item : UpdateKeyMetadataItem) : Option (Option Time) := item.expiresAt.map some

/-- A tag that is added and removed is removed. -/
def tagEdit (tag : String) (item : UpdateKeyMetadataItem) : Option (Option String) :=
  if tag ∈ item.tagsToRemove then some none else (item.tagsToAdd.lookup tag).map some

/-- What a single update does to the metadata, apart from its time. -/
def change (m : KeyMetadata) (item : UpdateKeyMetadataItem) : KeyMetadata :=
  KeyService.applyChanges item item.descriptionEdit m

/-- What an item of a batch does to it. -/
def batchChange (m : KeyMetadata) (item : UpdateKeyMetadataItem) : KeyMetadata :=
  { change m item with
    accessPolicies := KeyService.mapsCopy m.accessPolicies item.policiesToUpdate }

variable (m : KeyMetadata) (item : UpdateKeyMetadataItem)

theorem change_description : (change m item).description =
    item.descriptionEdit.getD m.description := rfl

theorem change_expiresAt : (change m item).expiresAt = item.expiresAtEdit.getD m.expiresAt := by
  unfold change KeyService.applyChanges expiresAtEdit
  cases item.expiresAt with
  | none => rfl
  | some t => rfl

theorem change_dataClassification : (change m item).dataClassification =
    item.dataClassification.getD m.dataClassification := rfl

theorem change_tags (tag : String) : (change m item).tags.lookup tag =
    (item.tagEdit tag).getD (m.tags.lookup tag) := by
  unfold change KeyService.applyChanges tagEdit
  rw [KeyService.lookup_foldl_erase, KeyService.lookup_mapsCopy_eq]
  split
  · rfl
  · rfl

theorem batchChange_description : (batchChange m item).description =
    item.descriptionEdit.getD m.description := rfl

theorem batchChange_expiresAt : (batchChange m item).expiresAt =
    item.expiresAtEdit.getD m.expiresAt := change_expiresAt m item

theorem batchChange_dataClassification : (batchChange m item).dataClassification =
    item.dataClassification.getD m.dataClassification := rfl

theorem batchChange_tags (tag : String) : (batchChange m item).tags.lookup tag =
    (item.tagEdit tag).getD (m.tags.lookup tag) := change_tags m item tag

end UpdateKeyMetadataItem

open UpdateKeyMetadataItem

/-! ## 2. A single update -/

/-- The read of an update. -/
theorem runs_getKey_ok {uuid : UUIDPkg} {kms : KMS} {w w' : World} {id : KeyID} {key : Key}
    (h : Act.Runs (worldSem uuid kms) (repo (.getKey id)) w (.ok key) w') :
    ∃ r, w.table.latest id = some r ∧ key = r.scan ∧ w'.table = w.table := by
  obtain ⟨now, t', -, hexec, rfl⟩ := runs_repo_ok.mp h
  exact PSQLAdapter.exec_getKey.mp hexec

theorem timeNow_table {uuid : UUIDPkg} {kms : KMS} {w w' : World} {now : Time}
    (h : Act.Runs (worldSem uuid kms) (Act.call (I := Effect) .timeNow : Svc Time) w (.ok now) w') :
    w'.table = w.table :=
  worldSem_table (Act.runs_call.mp h) rfl

/-- The update of a key: `m` was the metadata of its latest row. -/
structure Update (uuid : UUIDPkg) (t : Table) (item : UpdateKeyMetadataItem) (id : KeyID) (r : Row)
    (m : KeyMetadata) : Prop where
  parses : keyIDFromString uuid item.keyId = .ok id
  latest : t.latest id = some r
  metadata : r.metadata = some m
  accepted : ∃ description, KeyService.checkDescription item = .ok description

/-- **A single update that succeeds** has read the metadata and written it back. -/
theorem runs_updateKeyMetadata {s : KeyService} {kms : KMS} {req : UpdateKeyMetadataRequest}
    {w w' : World}
    (h : Act.Runs (worldSem s.uuid kms) (s.updateKeyMetadata req) w (.ok ()) w') :
    ∃ id r m now ts, Update s.uuid w.table req.item id r m ∧
      w'.table = w.table.updateMetadata id (some (requested req now m)) ts := by
  obtain ⟨id, w₁, ⟨hid, rfl⟩, hread⟩ := Act.runs_bind_ok.mp h
  obtain ⟨key, w₂, hget, hedit⟩ := Act.runs_bind_ok.mp hread
  obtain ⟨r, hr, rfl, htable₂⟩ := runs_getKey_ok (Act.runs_mapError_ok.mp hget)
  obtain ⟨description, w₃, ⟨hdescription, rfl⟩, hstamp⟩ := Act.runs_bind_ok.mp hedit
  split at hstamp
  · obtain ⟨herr, -⟩ := hstamp
    cases herr
  rename_i m hm
  obtain ⟨now, w₄, hnow, hwrite⟩ := Act.runs_bind_ok.mp hstamp
  obtain ⟨ts, t', -, hexec, rfl⟩ := runs_repo_ok.mp (Act.runs_mapError_ok.mp hwrite)
  have htable : w₄.table = w₁.table := (timeNow_table hnow).trans htable₂
  have hupdate : Update s.uuid w₁.table req.item id r m :=
    ⟨hid.symm, hr, hm, description, hdescription.symm⟩
  have hrequested : { KeyService.applyChanges req.item description m with updatedAt := some now } =
      requested req now m := by
    simp [requested, ← hdescription, Except.toOption]
  rw [hrequested, htable] at hexec
  simp only [PSQLAdapter.exec, PSQLAdapter.updateKeyMetadata] at hexec
  split at hexec
  · cases (Prod.mk.inj hexec).1
  · exact ⟨id, r, m, now, timestamptz ts, hupdate, (Prod.mk.inj hexec).2.symm⟩

/-! ### All of the request -/

/-- All parts of the request are carried out, and nothing else. -/
structure AppliesAll (item : UpdateKeyMetadataItem) (m m' : KeyMetadata) : Prop where
  description : m'.description = (item.description.map trimSpace).getD m.description
  expiresAt : m'.expiresAt = (item.expiresAt.map some).getD m.expiresAt
  dataClassification : m'.dataClassification = item.dataClassification.getD m.dataClassification
  tags : ∀ tag, m'.tags.lookup tag = if tag ∈ item.tagsToRemove then none
    else ((item.tagsToAdd.lookup tag).map some).getD (m.tags.lookup tag)
  authorizedContexts : ∀ c, c ∈ m'.authorizedContexts ↔
    (c ∈ m.authorizedContexts ∨ c ∈ item.contextsToAdd) ∧ c ∉ item.contextsToRemove
  accessPolicies : ∀ name, m'.accessPolicies.lookup name =
    ((item.policiesToUpdate.lookup name).map some).getD (m.accessPolicies.lookup name)
  keyId : m'.keyId = m.keyId
  keyType : m'.keyType = m.keyType
  version : m'.version = m.version
  storageType : m'.storageType = m.storageType
  creatorIdentity : m'.creatorIdentity = m.creatorIdentity
  createdAt : m'.createdAt = m.createdAt

/-- The parts that are not carried out ask for nothing new. -/
structure NothingSkipped (item : UpdateKeyMetadataItem) (m : KeyMetadata) : Prop where
  policies : ∀ name policy, item.policiesToUpdate.lookup name = some policy →
    m.accessPolicies.lookup name = some policy
  removed : ∀ c ∈ item.contextsToRemove, c ∉ m.authorizedContexts
  added : ∀ c ∈ item.contextsToAdd, c ∉ item.contextsToRemove → c ∈ m.authorizedContexts

theorem appliesAll_requested_iff {req : UpdateKeyMetadataRequest} {description : Option String}
    (hdescription : KeyService.checkDescription req.item = .ok description) (now : Time)
    (m : KeyMetadata) :
    AppliesAll req.item m (requested req now m) ↔ NothingSkipped req.item m := by
  constructor
  · intro h
    refine ⟨fun name policy hpolicy => ?_, fun c hc hold => ?_, fun c hc hnot => ?_⟩
    · have hlookup := h.accessPolicies name
      rw [hpolicy] at hlookup
      exact hlookup
    · exact ((h.authorizedContexts c).mp hold).2 hc
    · exact (h.authorizedContexts c).mpr ⟨.inr hc, hnot⟩
  · intro h
    have hcarries := requested_carriesOut hdescription now m
    refine {
      description := hcarries.description
      expiresAt := hcarries.expiresAt
      dataClassification := hcarries.dataClassification
      tags := hcarries.tags
      authorizedContexts := fun c => ?_
      accessPolicies := fun name => ?_
      keyId := rfl
      keyType := rfl
      version := rfl
      storageType := rfl
      creatorIdentity := rfl
      createdAt := rfl }
    · constructor
      · intro hc
        exact ⟨.inl hc, fun hremove => h.removed c hremove hc⟩
      · rintro ⟨hc | hc, hnot⟩
        · exact hc
        · exact h.added c hc hnot
    · cases hpolicy : req.item.policiesToUpdate.lookup name with
      | none => rfl
      | some policy => exact h.policies name policy hpolicy

/-- **When a single update carries out all of its request.** It replaces the metadata of the latest
row, in every run that succeeds; the whole request is in it if and only if the policies to update
are stored already and the contexts to add and to remove make no difference. -/
theorem update_appliesAll_iff {s : KeyService} {kms : KMS} {req : UpdateKeyMetadataRequest}
    {w w' : World}
    (h : Act.Runs (worldSem s.uuid kms) (s.updateKeyMetadata req) w (.ok ()) w') :
    ∃ id r r' m m', keyIDFromString s.uuid req.item.keyId = .ok id ∧
      w.table.latest id = some r ∧ r.metadata = some m ∧
      w'.table.latest id = some r' ∧ r'.version = r.version ∧ r'.metadata = some m' ∧
      (AppliesAll req.item m m' ↔ NothingSkipped req.item m) := by
  obtain ⟨id, r, m, now, ts, hupdate, htable⟩ := runs_updateKeyMetadata h
  obtain ⟨description, hdescription⟩ := hupdate.accepted
  have hlatest : w'.table.latest id =
      some { r with metadata := some (requested req now m), updatedAt := ts } := by
    rw [htable, Table.latest_updateMetadata, hupdate.latest]
    rfl
  exact ⟨id, r, _, m, _, hupdate.parses, hupdate.latest, hupdate.metadata, hlatest, rfl, rfl,
    appliesAll_requested_iff hdescription now m⟩

/-- A tag for the key of the sample runs, and nothing else. -/
theorem update_appliesAll_iff_addTag :
    ∃ w', Act.Runs (worldSem sampleService.uuid sampleKMS)
        (sampleService.updateKeyMetadata (addTag "env")) createdWorld (.ok ()) w' ∧
      ∃ id r r' m m', keyIDFromString sampleService.uuid (addTag "env").item.keyId = .ok id ∧
        createdWorld.table.latest id = some r ∧ r.metadata = some m ∧
        w'.table.latest id = some r' ∧ r'.version = r.version ∧ r'.metadata = some m' ∧
        (AppliesAll (addTag "env").item m m' ↔ NothingSkipped (addTag "env").item m) := by
  obtain ⟨r, w', hrun, hok⟩ := Prog.exists_runs sampleStep_sound
    (sampleService.updateKeyMetadata (addTag "env")) createdWorld (fun out => out.1.isOk)
    (by decide +kernel)
  cases r with
  | error e => cases hok
  | ok u =>
    have hupdated : Act.Runs (worldSem sampleService.uuid sampleKMS)
      (sampleService.updateKeyMetadata (addTag "env")) createdWorld (.ok ()) w' := hrun
    exact ⟨w', hupdated, @update_appliesAll_iff sampleService sampleKMS
      (addTag "env") createdWorld w'
      hupdated⟩

/-- A request to take the key away from its only context. -/
def dropAlice : UpdateKeyMetadataRequest :=
  ⟨⟨sampleText, none, none, none, ∅, [], ∅, [], ["alice"]⟩, some sampleContext⟩

theorem dropAlice_removes : "alice" ∈ dropAlice.item.contextsToRemove := List.mem_singleton.mpr rfl

/-- **The request succeeds and Alice keeps the key.** -/
theorem update_keeps_context :
    ∃ w' r' m', Act.Runs (worldSem sampleService.uuid sampleKMS)
        (sampleService.updateKeyMetadata dropAlice) createdWorld (.ok ()) w' ∧
      w'.table.latest sampleID = some r' ∧ r'.metadata = some m' ∧
      "alice" ∈ dropAlice.item.contextsToRemove ∧ "alice" ∈ m'.authorizedContexts ∧
      ∀ m, ¬ AppliesAll dropAlice.item m m' := by
  obtain ⟨r, w', hrun, hcheck⟩ := Prog.exists_runs sampleStep_sound
    (sampleService.updateKeyMetadata dropAlice) createdWorld
    (fun out => out.1.isOk && (out.2.table.latest sampleID).any fun r => r.metadata.any fun m =>
      "alice" ∈ m.authorizedContexts) (by decide +kernel)
  obtain ⟨hok, hrow⟩ := Bool.and_eq_true_iff.mp hcheck
  obtain ⟨r', hr', hmetadata⟩ := (Option.any_eq_true _ _).mp hrow
  obtain ⟨m', hm', halice⟩ := (Option.any_eq_true _ _).mp hmetadata
  cases r with
  | error e => cases hok
  | ok u =>
    have hkept := of_decide_eq_true halice
    refine ⟨w', r', m', hrun, hr', hm', dropAlice_removes, hkept, fun m happlies => ?_⟩
    exact ((happlies.authorizedContexts "alice").mp hkept).2 dropAlice_removes

/-! ## 3. Tables that differ in the metadata of their latest rows -/

/-- `t'` is `t` with the metadata `g` in the latest rows. -/
def Rewritten (t : Table) (g : KeyID → Option KeyMetadata) (t' : Table) : Prop :=
  ∃ f hf, t' = t.mapRows f hf ∧ ∀ r ∈ t.rows, (f r).metadata =
    if t.IsNewest r.id r then g r.id else r.metadata

/-- The metadata of the latest row. -/
def Table.newestMetadata (t : Table) (id : KeyID) : Option KeyMetadata :=
  (t.latest id).bind (·.metadata)

section Rewritten

variable {t t' t₁ t₂ : Table} {g g₁ g₂ : KeyID → Option KeyMetadata} {id : KeyID} {r : Row}

theorem Rewritten.refl (t : Table) : Rewritten t t.newestMetadata t := by
  refine ⟨id, fun _ => rfl, Table.eq_of_rows_eq (List.map_id _).symm, fun r hr => ?_⟩
  split
  · rename_i hnew
    rw [Table.newestMetadata, (Table.isNewest_iff_latest hr).mp hnew]
    rfl
  · rfl

theorem isNewest_mapRows {f : Row → Row} (hf : ∀ r, (f r).key = r.key) :
    (t.mapRows f hf).IsNewest id (f r) ↔ t.IsNewest id r := by
  have hmax : (t.mapRows f hf).maxVersion id = t.maxVersion id := by
    rw [Table.maxVersion, Table.maxVersion, Table.latest_mapRows, Option.map_map]
    congr 1
    exact funext fun r => Table.mapRows_version hf r
  rw [Table.IsNewest, Table.IsNewest, hmax, Table.mapRows_id hf, Table.mapRows_version hf]

/-- One more write. -/
theorem Rewritten.update (h : Rewritten t g t') (id : KeyID) (m : Option KeyMetadata) (ts : Time) :
    Rewritten t (Function.update g id m) (t'.updateMetadata id m ts) := by
  obtain ⟨f, hf, rfl, hmetadata⟩ := h
  let write : Row → Row := fun r => if (t.mapRows f hf).IsNewest id r then
    { r with metadata := m, updatedAt := ts } else r
  have hwrite : ∀ r, (write (f r)).key = r.key := by
    intro r
    have hkey : (write (f r)).key = (f r).key := by
      dsimp only [write]
      split <;> rfl
    exact hkey.trans (hf r)
  refine ⟨fun r => write (f r), hwrite, Table.eq_of_rows_eq ?_, fun r hr => ?_⟩
  · exact List.map_map
  · dsimp only [write]
    by_cases hnew : t.IsNewest id r
    · obtain rfl : r.id = id := hnew.1
      rw [if_pos ((isNewest_mapRows hf).mpr hnew), if_pos hnew, Function.update_self]
    · rw [if_neg fun hn => hnew ((isNewest_mapRows hf).mp hn), hmetadata r hr]
      by_cases hown : t.IsNewest r.id r
      · have hne : r.id ≠ id := fun heq => hnew (heq ▸ hown)
        rw [if_pos hown, if_pos hown, Function.update_of_ne hne]
      · rw [if_neg hown, if_neg hown]

theorem Rewritten.latest (h : Rewritten t g t') (hr : t.latest id = some r) :
    ∃ r', t'.latest id = some r' ∧ r'.metadata = g id := by
  obtain ⟨f, hf, rfl, hmetadata⟩ := h
  obtain ⟨hmem, rfl, -⟩ := Table.latest_eq_some.mp hr
  have hnew : t.IsNewest r.id r := (Table.isNewest_iff_latest hmem).mpr hr
  refine ⟨f r, by rw [Table.latest_mapRows, hr]; rfl, ?_⟩
  rw [hmetadata r hmem, if_pos hnew]

theorem Rewritten.latest_of (h : Rewritten t g t') (hr : t'.latest id = some r) :
    ∃ r₀, t.latest id = some r₀ ∧ r.metadata = g id := by
  have hmap := h
  obtain ⟨f, hf, rfl, -⟩ := hmap
  rw [Table.latest_mapRows] at hr
  obtain ⟨r₀, hr₀, rfl⟩ := Option.map_eq_some_iff.mp hr
  obtain ⟨r', hr', hmetadata⟩ := h.latest hr₀
  rw [Table.latest_mapRows, hr₀] at hr'
  cases hr'
  exact ⟨r₀, hr₀, hmetadata⟩

/-- The metadata without the time of the update. -/
def KeyMetadata.unstamped (m : KeyMetadata) : KeyMetadata := { m with updatedAt := none }

/-- The two tables have the same metadata in each row, up to the times of updates. -/
def SameMetadata (t t' : Table) : Prop :=
  ∀ id v, (t.atVersion id v).map (fun r => r.metadata.map KeyMetadata.unstamped) =
    (t'.atVersion id v).map fun r => r.metadata.map KeyMetadata.unstamped

/-- It is enough to compare the latest rows. -/
theorem sameMetadata_iff (h₁ : Rewritten t g₁ t₁) (h₂ : Rewritten t g₂ t₂) :
    SameMetadata t₁ t₂ ↔ ∀ id r, t.latest id = some r →
      (g₁ id).map KeyMetadata.unstamped = (g₂ id).map KeyMetadata.unstamped := by
  obtain ⟨f₁, hf₁, rfl, hm₁⟩ := h₁
  obtain ⟨f₂, hf₂, rfl, hm₂⟩ := h₂
  constructor
  · intro hsame id r hr
    obtain ⟨hmem, rfl, -⟩ := Table.latest_eq_some.mp hr
    have hnew : t.IsNewest r.id r := (Table.isNewest_iff_latest hmem).mpr hr
    have hrow : t.atVersion r.id r.version = some r := Table.atVersion_eq_some.mpr ⟨hmem, rfl, rfl⟩
    have hv := hsame r.id r.version
    rw [Table.atVersion_mapRows, Table.atVersion_mapRows, hrow] at hv
    simpa [hm₁ r hmem, hm₂ r hmem, hnew] using hv
  · intro hlatest id v
    rw [Table.atVersion_mapRows, Table.atVersion_mapRows]
    cases hrow : t.atVersion id v with
    | none => rfl
    | some r =>
      obtain ⟨hmem, rfl, rfl⟩ := Table.atVersion_eq_some.mp hrow
      simp only [Option.map_some, hm₁ r hmem, hm₂ r hmem]
      by_cases hnew : t.IsNewest r.id r
      · rw [if_pos hnew, if_pos hnew]
        exact congrArg some (hlatest r.id r ((Table.isNewest_iff_latest hmem).mp hnew))
      · rw [if_neg hnew, if_neg hnew]

end Rewritten

/-! ## 4. One item after another, and the last item alone

Field by field this is a question about edits: some edits made one after another against the last
of them alone. `Lib.Edits` answers it for one value, and the metadata are put together from their
fields. -/

/-- The items for a key. -/
def itemsFor (uuid : UUIDPkg) (id : KeyID) (items : List UpdateKeyMetadataItem) :
    List UpdateKeyMetadataItem :=
  items.filter fun item => (keyIDFromString uuid item.keyId).toOption = some id

/-- What the items for a key change is said again by the last of them, or is as it was, and the last
one brings no new policy. -/
structure NoDrift (m : KeyMetadata) (items : List UpdateKeyMetadataItem) : Prop where
  description : Settled m.description (items.map descriptionEdit)
  expiresAt : Settled m.expiresAt (items.map expiresAtEdit)
  dataClassification : Settled m.dataClassification (items.map (·.dataClassification))
  tags : ∀ tag, Settled (m.tags.lookup tag) (items.map (tagEdit tag))
  policies : ∀ item, items.getLast? = some item → ∀ name policy,
    item.policiesToUpdate.lookup name = some policy → m.accessPolicies.lookup name = some policy

/-- The metadata apart from what updates change. -/
def KeyMetadata.frame (m : KeyMetadata) : KeyMetadata :=
  { m with description := "", expiresAt := none, dataClassification := "", tags := ∅,
           accessPolicies := ∅ }

theorem metadata_eq_iff (m m' : KeyMetadata) : m = m' ↔ m.frame = m'.frame ∧
    m.description = m'.description ∧ m.expiresAt = m'.expiresAt ∧
    m.dataClassification = m'.dataClassification ∧ (∀ tag, m.tags.lookup tag = m'.tags.lookup tag) ∧
    m.accessPolicies = m'.accessPolicies := by
  constructor
  · rintro rfl
    exact ⟨rfl, rfl, rfl, rfl, fun _ => rfl, rfl⟩
  · rintro ⟨hframe, hdescription, hexpires, hclass, htags, hpolicies⟩
    have htags' : m.tags = m'.tags := Finmap.ext_lookup htags
    cases m
    cases m'
    simp only [KeyMetadata.frame, KeyMetadata.mk.injEq] at hframe
    simp_all

theorem foldl_change_frame (m : KeyMetadata) (items : List UpdateKeyMetadataItem) :
    (items.foldl change m).frame = m.frame ∧
      (items.foldl change m).accessPolicies = m.accessPolicies := by
  induction items generalizing m with
  | nil => exact ⟨rfl, rfl⟩
  | cons item items ih => exact ih (change m item)

/-- **When the last item alone does what all of them do.** -/
theorem batchChange_eq_foldl_iff (m : KeyMetadata) (items : List UpdateKeyMetadataItem) :
    items.getLast?.elim m (batchChange m) = items.foldl change m ↔ NoDrift m items := by
  have hframe : (items.getLast?.elim m (batchChange m)).frame = m.frame := by
    cases items.getLast? with
    | none => rfl
    | some item => rfl
  have hpolicies : (items.getLast?.elim m (batchChange m)).accessPolicies = m.accessPolicies ↔
      ∀ item, items.getLast? = some item → ∀ name policy,
        item.policiesToUpdate.lookup name = some policy →
          m.accessPolicies.lookup name = some policy := by
    cases items.getLast? with
    | none => simp
    | some last =>
      refine (mapsCopy_eq_iff m.accessPolicies last.policiesToUpdate).trans ?_
      simp
  have hdescription : (items.getLast?.elim m (batchChange m)).description =
      (items.foldl change m).description ↔ Settled m.description (items.map descriptionEdit) :=
    get_last_eq_foldl_iff KeyMetadata.description change_description batchChange_description m items
  have hexpires : (items.getLast?.elim m (batchChange m)).expiresAt =
      (items.foldl change m).expiresAt ↔ Settled m.expiresAt (items.map expiresAtEdit) :=
    get_last_eq_foldl_iff KeyMetadata.expiresAt change_expiresAt batchChange_expiresAt m items
  have hclass : (items.getLast?.elim m (batchChange m)).dataClassification =
      (items.foldl change m).dataClassification ↔
        Settled m.dataClassification (items.map (·.dataClassification)) :=
    get_last_eq_foldl_iff KeyMetadata.dataClassification change_dataClassification
      batchChange_dataClassification m items
  have htags : ∀ tag, (items.getLast?.elim m (batchChange m)).tags.lookup tag =
      (items.foldl change m).tags.lookup tag ↔
        Settled (m.tags.lookup tag) (items.map (tagEdit tag)) := fun tag =>
    get_last_eq_foldl_iff (fun m => m.tags.lookup tag) (change_tags · · tag)
      (batchChange_tags · · tag) m items
  rw [metadata_eq_iff, hframe, (foldl_change_frame m items).1, (foldl_change_frame m items).2,
    hpolicies, hdescription, hexpires, hclass, forall_congr' htags]
  constructor
  · rintro ⟨-, hd, he, hc, ht, hp⟩
    exact ⟨hd, he, hc, ht, hp⟩
  · rintro ⟨hd, he, hc, ht, hp⟩
    exact ⟨rfl, hd, he, hc, ht, hp⟩

/-! ## 5. The writes of a batch -/

/-- The item passes the loop of `BatchUpdateKeyMetadata`. -/
def Prepared (uuid : UUIDPkg) (t : Table) (item : UpdateKeyMetadataItem) : Prop :=
  ∃ id r m description, keyIDFromString uuid item.keyId = .ok id ∧ t.latest id = some r ∧
    r.metadata = some m ∧ KeyService.checkDescription item = .ok description

theorem Update.prepared {uuid : UUIDPkg} {t : Table} {item : UpdateKeyMetadataItem} {id : KeyID}
    {r : Row} {m : KeyMetadata} (h : Update uuid t item id r m) : Prepared uuid t item := by
  obtain ⟨hid, hr, hm, description, hdescription⟩ := h
  exact ⟨id, r, m, description, hid, hr, hm, hdescription⟩

/-- The key that the loop makes of an item. -/
def Prepares (uuid : UUIDPkg) (t : Table) (item : UpdateKeyMetadataItem) (key : Key) : Prop :=
  ∃ id r m now, Update uuid t item id r m ∧
    key = KeyService.applyItem item item.descriptionEdit now r.scan m

section Batch

variable {s : KeyService} {kms : KMS} {w w' : World} {item : UpdateKeyMetadataItem}
  {items : List UpdateKeyMetadataItem} {t t' : Table} {g : KeyID → Option KeyMetadata} {id : KeyID}

/-- One turn of the loop. -/
theorem runs_updateItem {r : Except (String × Err) Key}
    (h : Act.Runs (worldSem s.uuid kms) (s.updateItem item) w (.ok r) w') :
    w'.table = w.table ∧ ∀ key, r = .ok key → Prepares s.uuid w.table item key := by
  unfold KeyService.updateItem at h
  split at h
  · obtain ⟨hr, rfl⟩ := h
    cases hr
    exact ⟨rfl, fun key hkey => by cases hkey⟩
  rename_i id hid
  obtain ⟨current, w₁, hread, hrest⟩ := Act.runs_bind_ok.mp h
  have hget := Act.runs_attempt.mp hread
  cases current with
  | error e =>
    obtain ⟨hr, rfl⟩ := hrest
    cases hr
    obtain ⟨x, ⟨now, -, t', hans, rfl⟩, rfl⟩ := Act.runs_tryCall.mp hget
    refine ⟨?_, fun key hkey => by cases hkey⟩
    rcases hans with hexec | ⟨-, htable⟩
    · exact PSQLAdapter.exec_error hexec
    · exact htable
  | ok key =>
    obtain ⟨row, hrow, rfl, htable⟩ := runs_getKey_ok hget
    dsimp only at hrest
    split at hrest
    · obtain ⟨hr, rfl⟩ := hrest
      cases hr
      exact ⟨htable, fun key hkey => by cases hkey⟩
    rename_i description hdescription
    split at hrest
    · cases hrest.1
    rename_i m hm
    obtain ⟨now, w₂, hnow, hr, rfl⟩ := Act.runs_bind_ok.mp hrest
    cases hr
    refine ⟨(timeNow_table hnow).trans htable, fun key hkey => ?_⟩
    cases hkey
    have hedit : item.descriptionEdit = description := by
      simp [descriptionEdit, hdescription, Except.toOption]
    exact ⟨id, row, m, now, ⟨hid, hrow, hm, description, hdescription⟩, by rw [hedit]⟩

/-- The statements of one batch, as one rewriting. -/
theorem Rewritten.updateEach (h : Rewritten t g t') (now : Time) (keys : List Key) :
    Rewritten t (keys.foldl (fun g k => Function.update g k.id k.metadata) g)
      (PSQLAdapter.updateEach now t' (keys.map fun k => (k.id, k.metadata))) := by
  induction keys generalizing g t' with
  | nil => exact h
  | cons k keys ih => exact ih (h.update k.id k.metadata _)

theorem itemsFor_cons (uuid : UUIDPkg) (id : KeyID) (item : UpdateKeyMetadataItem)
    (items : List UpdateKeyMetadataItem) {id' : KeyID}
    (h : keyIDFromString uuid item.keyId = .ok id') :
    itemsFor uuid id (item :: items) =
      if id' = id then item :: itemsFor uuid id items else itemsFor uuid id items := by
  unfold itemsFor
  rw [List.filter_cons, h]
  simp [Except.toOption]

/-- What the writes of a batch leave under an id is what the last item for it makes of the metadata
from before. -/
theorem prepares_foldl {keys : List Key} (h : List.Forall₂ (Prepares s.uuid t) items keys)
    {X : KeyMetadata → KeyMetadata}
    (hg : (g id).map KeyMetadata.unstamped = (t.newestMetadata id).map X) :
    (keys.foldl (fun g k => Function.update g k.id k.metadata) g id).map KeyMetadata.unstamped =
      (t.newestMetadata id).map fun m =>
        (itemsFor s.uuid id items).getLast?.elim (X m) (batchChange m.unstamped) := by
  induction h generalizing g X with
  | nil => exact hg
  | @cons item key items keys hkey _ ih =>
    obtain ⟨id', r, m, now, hupdate, rfl⟩ := hkey
    have hid : r.id = id' := (Table.latest_eq_some.mp hupdate.latest).2.1
    have hnewest : t.newestMetadata id' = some m := by
      rw [Table.newestMetadata, hupdate.latest]
      exact hupdate.metadata
    rw [List.foldl_cons, itemsFor_cons s.uuid id item items hupdate.parses]
    by_cases heq : id' = id
    · subst heq
      have hwrite : (Function.update g (KeyService.applyItem item item.descriptionEdit
        now r.scan m).id
          (KeyService.applyItem item item.descriptionEdit now r.scan m).metadata id').map
            KeyMetadata.unstamped =
          (t.newestMetadata id').map fun m => batchChange m.unstamped item := by
        have hkeyid : (KeyService.applyItem item item.descriptionEdit now r.scan m).id = id' := hid
        rw [hkeyid, Function.update_self, hnewest]
        rfl
      rw [ih hwrite, if_pos rfl, hnewest]
      simp only [Option.map_some, List.getLast?_cons, Option.elim_some]
      cases (itemsFor s.uuid id' items).getLast? with
      | none => rfl
      | some last => rfl
    · have hwrite : (Function.update g (KeyService.applyItem item item.descriptionEdit
          now r.scan m).id
          (KeyService.applyItem item item.descriptionEdit now r.scan m).metadata id).map
            KeyMetadata.unstamped = (t.newestMetadata id).map X := by
        have hkeyid : (KeyService.applyItem item item.descriptionEdit now r.scan m).id = id' := hid
        rw [hkeyid, Function.update_of_ne (Ne.symm heq)]
        exact hg
      rw [ih hwrite, if_neg heq]

end Batch

/-! ## 6. Single updates one after another -/

/-- `UpdateKeyMetadata` for each item, in order. -/
def KeyService.updateOneByOne (s : KeyService) (rc : Option RequesterContext) :
    List UpdateKeyMetadataItem → Svc Unit
  | [] => pure ()
  | item :: items => do
    s.updateKeyMetadata ⟨item, rc⟩
    s.updateOneByOne rc items

section OneByOne

variable {s : KeyService} {kms : KMS} {rc : Option RequesterContext} {w w' : World}
  {items : List UpdateKeyMetadataItem} {t : Table} {g : KeyID → Option KeyMetadata}

/-- What single updates leave under an id is what the items for it make of the metadata one after
another. -/
theorem runs_updateOneByOne (hrewritten : Rewritten t g w.table)
    (h : Act.Runs (worldSem s.uuid kms) (s.updateOneByOne rc items) w (.ok ()) w') :
    ∃ g', Rewritten t g' w'.table ∧ ∀ id, (g' id).map KeyMetadata.unstamped =
      (g id).map fun m => (itemsFor s.uuid id items).foldl change m.unstamped := by
  induction items generalizing w g with
  | nil =>
    obtain ⟨-, rfl⟩ := h
    exact ⟨g, hrewritten, fun id => rfl⟩
  | cons item items ih =>
    obtain ⟨_, w₁, hitem, hrest⟩ := Act.runs_bind_ok.mp h
    obtain ⟨id', r, m, now, ts, hupdate, htable⟩ := runs_updateKeyMetadata hitem
    obtain ⟨_, -, hmetadata⟩ := hrewritten.latest_of hupdate.latest
    have hold : g id' = some m := hmetadata.symm.trans hupdate.metadata
    have hwritten : Rewritten t (Function.update g id' (some (requested ⟨item, rc⟩ now m)))
        w₁.table := by
      rw [htable]
      exact hrewritten.update id' _ ts
    obtain ⟨g', hg', hvalues⟩ := ih hwritten hrest
    refine ⟨g', hg', fun id => ?_⟩
    rw [hvalues id, itemsFor_cons s.uuid id item items hupdate.parses]
    by_cases heq : id' = id
    · subst heq
      rw [Function.update_self, if_pos rfl, hold]
      rfl
    · rw [Function.update_of_ne (Ne.symm heq), if_neg heq]

end OneByOne

/-! ## 7. Where the repository works

The comparison needs both sides to come back with success, so the repository's calls are taken to
work. What each side leaves is then settled, up to the times of the updates. -/

section Working

variable {s : KeyService} {kms : KMS} {kind : RepoOp → Prop} {rc : Option RequesterContext}
  {w w' : World} {item : UpdateKeyMetadataItem} {items : List UpdateKeyMetadataItem}

theorem working_getKey {id : KeyID} {row : Row} {r : Except Err Key} (hkind : kind (.getKey id))
    (hrow : w.table.latest id = some row)
    (h : Act.Runs (workingSem s.uuid kms kind) (repo (.getKey id)) w r w') :
    r = .ok row.scan ∧ w'.table = w.table := by
  obtain ⟨now, hexec⟩ := runs_repo_working hkind h
  rw [PSQLAdapter.exec_getKey.mpr ⟨row, hrow, rfl, rfl⟩] at hexec
  obtain ⟨hr, htable⟩ := Prod.mk.inj hexec
  exact ⟨hr.symm, htable.symm⟩

/-- An item that is prepared passes the loop. -/
theorem working_updateItem (hkind : ∀ id, kind (.getKey id)) (hitem : Prepared s.uuid w.table item)
    {r : Except Err (Except (String × Err) Key)}
    (h : Act.Runs (workingSem s.uuid kms kind) (s.updateItem item) w r w') :
    ∃ key, r = .ok (.ok key) := by
  obtain ⟨id, row, m, description, hid, hrow, hm, hdescription⟩ := hitem
  unfold KeyService.updateItem at h
  rw [hid] at h
  rcases Act.runs_bind.mp h with ⟨current, w₁, hread, hrest⟩ | ⟨e, -, hread⟩
  · obtain ⟨rfl, -⟩ := working_getKey (hkind id) hrow (Act.runs_attempt.mp hread)
    have hscan : Key.metadata row.scan = some m := hm
    simp only [hdescription, hscan] at hrest
    rcases Act.runs_bind.mp hrest with ⟨now, w₂, -, rfl, -⟩ | ⟨e, -, hnow⟩
    · exact ⟨_, rfl⟩
    · obtain ⟨x, -, hx⟩ := Act.runs_tryCall.mp hnow
      cases hx
  · obtain ⟨x, w₂, -, hx, -⟩ := Prog.runs_bind.mp hread
    cases hx

/-- **The loop of a batch whose items are all prepared.** -/
theorem working_updateLoop (hkind : ∀ id, kind (.getKey id)) (continueOnError : Bool)
    (hitems : ∀ item ∈ items, Prepared s.uuid w.table item)
    {r : Except Err (List Key × List (ItemResult Unit))}
    (h : Act.Runs (workingSem s.uuid kms kind) (s.updateLoop continueOnError items) w r w') :
    ∃ keys, r = .ok (keys, []) ∧ w'.table = w.table ∧
      List.Forall₂ (Prepares s.uuid w.table) items keys := by
  induction items generalizing w r with
  | nil =>
    obtain ⟨rfl, rfl⟩ := h
    exact ⟨[], rfl, rfl, .nil⟩
  | cons item items ih =>
    have hitem := hitems item (List.mem_cons_self ..)
    rcases Act.runs_bind.mp h with ⟨x, w₁, hturn, hrest⟩ | ⟨e, -, hturn⟩
    · obtain ⟨key, hx⟩ := working_updateItem hkind hitem hturn
      cases hx
      obtain ⟨htable, hprepares⟩ := runs_updateItem (hturn.mono worldSem_of_working)
      have hrest' : ∀ item ∈ items, Prepared s.uuid w₁.table item := by
        rw [htable]
        exact fun item hmem => hitems item (List.mem_cons_of_mem _ hmem)
      rcases Act.runs_bind.mp hrest with ⟨out, w₂, hloop, rfl, rfl⟩ | ⟨e, -, hloop⟩
      · obtain ⟨keys, hout, htable', hkeys⟩ := ih hrest' hloop
        cases hout
        rw [htable] at hkeys
        exact ⟨key :: keys, rfl, htable'.trans htable, .cons (hprepares key rfl) hkeys⟩
      · obtain ⟨keys, hout, -⟩ := ih hrest' hloop
        cases hout
    · obtain ⟨key, hx⟩ := working_updateItem hkind hitem hturn
      cases hx

theorem prepares_metadata {t : Table} {keys : List Key}
    (h : List.Forall₂ (Prepares s.uuid t) items keys) : ∀ key ∈ keys, key.metadata ≠ none := by
  induction h with
  | nil =>
    intro key hkey
    cases hkey
  | cons hkey _ ih =>
    intro key hmem
    rcases List.mem_cons.mp hmem with rfl | hmem
    · obtain ⟨id, r, m, now, -, rfl⟩ := hkey
      exact Option.some_ne_none _
    · exact ih key hmem

/-- The batch as a whole. -/
theorem working_batchUpdateKeyMetadata {req : BatchUpdateKeyMetadataRequest}
    (hidentity : hasIdentity req.requesterContext = true)
    (hitems : ∀ item ∈ req.keys, Prepared s.uuid w.table item) {r : Except Err (BatchResponse Unit)}
    (h : Act.Runs (workingSem s.uuid kms fun _ => True) (s.batchUpdateKeyMetadata req) w r w') :
    ∃ resp keys now, r = .ok resp ∧ List.Forall₂ (Prepares s.uuid w.table) req.keys keys ∧
      w'.table = PSQLAdapter.updateEach now w.table (keys.map fun k => (k.id, k.metadata)) := by
  simp only [KeyService.batchUpdateKeyMetadata, hidentity, Bool.not_true, Bool.false_eq_true,
    if_false] at h
  rcases Act.runs_bind.mp h with ⟨out, w₁, hloop, hrest⟩ | ⟨e, -, hloop⟩
  · obtain ⟨keys, hout, htable, hkeys⟩ :=
      working_updateLoop (fun _ => trivial) req.continueOnError hitems hloop
    cases hout
    rcases Act.runs_bind.mp hrest with ⟨updated, w₂, hwrite, hrest⟩ | ⟨e, -, hwrite⟩
    · obtain ⟨now, hexec⟩ := runs_repo_working trivial (Act.runs_attempt.mp hwrite)
      have hsome : ¬ (keys.any fun k => k.metadata = none) = true := by
        rw [List.any_eq_true]
        rintro ⟨key, hkey, hnone⟩
        exact prepares_metadata hkeys key hkey (of_decide_eq_true hnone)
      simp only [PSQLAdapter.exec, PSQLAdapter.updateBatchKeyMetadata, if_neg hsome] at hexec
      obtain ⟨rfl, hwritten⟩ := Prod.mk.inj hexec
      rcases Act.runs_bind.mp hrest with ⟨now', w₃, hnow, rfl, rfl⟩ | ⟨e, -, hnow⟩
      · have hkept := timeNow_table (hnow.mono worldSem_of_working)
        rw [htable] at hwritten
        exact ⟨_, keys, now, rfl, hkeys, hkept.trans hwritten.symm⟩
      · obtain ⟨x, -, hx⟩ := Act.runs_tryCall.mp hnow
        cases hx
    · obtain ⟨x, w₂, -, hx, -⟩ := Prog.runs_bind.mp hwrite
      cases hx
  · obtain ⟨keys, hout, -⟩ :=
      working_updateLoop (fun _ => trivial) req.continueOnError hitems hloop
    cases hout

/-- A single update of a key that is there succeeds. -/
theorem working_updateKeyMetadata (hitem : Prepared s.uuid w.table item) {r : Except Err Unit}
    (h : Act.Runs (workingSem s.uuid kms fun _ => True) (s.updateKeyMetadata ⟨item, rc⟩) w r w') :
    r = .ok () := by
  obtain ⟨id, row, m, description, hid, hrow, hm, hdescription⟩ := hitem
  have hscan : Key.metadata row.scan = some m := hm
  unfold KeyService.updateKeyMetadata at h
  rw [hid, hdescription] at h
  obtain ⟨key, w₁, ⟨hkey, rfl⟩, hread⟩ | ⟨e, -, hparse, -⟩ := Act.runs_bind.mp h
  · cases hkey
    rcases Act.runs_bind.mp hread with ⟨key, w₂, hget, hrest⟩ | ⟨e, -, hget⟩
    · obtain ⟨hkey, htable⟩ := working_getKey trivial hrow (Act.runs_mapError_ok.mp hget)
      cases hkey
      obtain ⟨d, w₃, ⟨hd, rfl⟩, hwrite⟩ | ⟨e, -, hd, -⟩ := Act.runs_bind.mp hrest
      · cases hd
        simp only [hscan] at hwrite
        rcases Act.runs_bind.mp hwrite with ⟨now, w₄, hnow, hrepo⟩ | ⟨e, -, hnow⟩
        · have hkept := timeNow_table (hnow.mono worldSem_of_working)
          obtain ⟨x, hx, rfl⟩ := Act.runs_mapError.mp hrepo
          obtain ⟨now', hexec⟩ := runs_repo_working trivial hx
          have hmax : w₄.table.maxVersion id ≠ none := by
            rw [hkept, htable, Table.maxVersion, hrow]
            exact Option.some_ne_none _
          simp only [PSQLAdapter.exec, PSQLAdapter.updateKeyMetadata, if_neg hmax] at hexec
          rw [← (Prod.mk.inj hexec).1]
          rfl
        · obtain ⟨x, -, hx⟩ := Act.runs_tryCall.mp hnow
          cases hx
      · cases hd
    · obtain ⟨x, hx, hmap⟩ := Act.runs_mapError.mp hget
      obtain ⟨rfl, -⟩ := working_getKey trivial hrow hx
      cases hmap
  · cases hparse

/-- An update leaves prepared what was prepared. -/
theorem Prepared.updateMetadata {uuid : UUIDPkg} {t : Table} (h : Prepared uuid t item) (id : KeyID)
    (m : KeyMetadata) (ts : Time) : Prepared uuid (t.updateMetadata id (some m) ts) item := by
  obtain ⟨id', row, m', description, hid, hrow, hm, hdescription⟩ := h
  obtain ⟨row', hrow', hmetadata⟩ := ((Rewritten.refl t).update id (some m) ts).latest hrow
  by_cases heq : id' = id
  · subst heq
    rw [Function.update_self] at hmetadata
    exact ⟨id', row', m, description, hid, hrow', hmetadata, hdescription⟩
  · rw [Function.update_of_ne heq, Table.newestMetadata, hrow] at hmetadata
    exact ⟨id', row', m', description, hid, hrow', hmetadata.trans hm, hdescription⟩

theorem working_updateOneByOne (hitems : ∀ item ∈ items, Prepared s.uuid w.table item)
    {r : Except Err Unit}
    (h : Act.Runs (workingSem s.uuid kms fun _ => True) (s.updateOneByOne rc items) w r w') :
    r = .ok () := by
  induction items generalizing w with
  | nil => exact h.1
  | cons item items ih =>
    have hitem := hitems item (List.mem_cons_self ..)
    rcases Act.runs_bind.mp h with ⟨_, w₁, hfirst, hrest⟩ | ⟨e, -, hfirst⟩
    · obtain ⟨id, row, m, now, ts, -, htable⟩ :=
        runs_updateKeyMetadata (hfirst.mono worldSem_of_working)
      refine ih (fun item' hmem => ?_) hrest
      rw [htable]
      exact (hitems item' (List.mem_cons_of_mem _ hmem)).updateMetadata id _ ts
    · cases working_updateKeyMetadata hitem hfirst

/-! ### They come back -/

theorem working_repo_returns (op : RepoOp) :
    Act.Returns (workingSem s.uuid kms kind) (repo op) :=
  .tryCall (workingSem_returns s.uuid kms kind rfl) _

theorem working_timeNow_returns :
    Act.Returns (workingSem s.uuid kms kind) (Act.call (I := Effect) .timeNow : Svc Time) :=
  .call (workingSem_returns s.uuid kms kind rfl)

theorem working_updateKeyMetadata_returns (req : UpdateKeyMetadataRequest) :
    Act.Returns (workingSem s.uuid kms kind) (s.updateKeyMetadata req) := by
  refine .bind (.ofExcept _) fun id => .bind (.mapError (working_repo_returns _)) fun key => ?_
  refine .bind (.ofExcept _) fun description => ?_
  split
  · exact .throw _
  · exact .bind working_timeNow_returns fun now => .mapError (working_repo_returns _)

theorem working_updateOneByOne_returns (items : List UpdateKeyMetadataItem) :
    Act.Returns (workingSem s.uuid kms kind) (s.updateOneByOne rc items) := by
  induction items with
  | nil => exact .pure ()
  | cons item items ih => exact .bind (working_updateKeyMetadata_returns _) fun _ => ih

theorem working_updateItem_returns (item : UpdateKeyMetadataItem) :
    Act.Returns (workingSem s.uuid kms kind) (s.updateItem item) := by
  unfold KeyService.updateItem
  split
  · exact .pure _
  refine .bind (working_repo_returns _).attempt fun current => ?_
  split
  · exact .pure _
  split
  · exact .pure _
  split
  · exact .throw _
  · exact .bind working_timeNow_returns fun now => .pure _

theorem working_updateLoop_returns (continueOnError : Bool) (items : List UpdateKeyMetadataItem) :
    Act.Returns (workingSem s.uuid kms kind) (s.updateLoop continueOnError items) := by
  induction items with
  | nil => exact .pure _
  | cons item items ih =>
    refine .bind (working_updateItem_returns item) fun r => ?_
    split
    · split
      · exact .throw _
      · exact .bind ih fun out => .pure _
    · exact .bind ih fun out => .pure _

theorem working_batchUpdateKeyMetadata_returns (req : BatchUpdateKeyMetadataRequest) :
    Act.Returns (workingSem s.uuid kms kind) (s.batchUpdateKeyMetadata req) := by
  unfold KeyService.batchUpdateKeyMetadata
  split
  · exact .throw _
  refine .bind (working_updateLoop_returns _ _) fun out => ?_
  refine .bind (working_repo_returns _).attempt fun updated => ?_
  split
  · split
    · exact .throw _
    · exact .bind working_timeNow_returns fun now => .pure _
  · exact .bind working_timeNow_returns fun now => .pure _

end Working

/-! ## 8. A batch against its items -/

theorem noDrift_unstamped (m : KeyMetadata) (items : List UpdateKeyMetadataItem) :
    NoDrift m.unstamped items ↔ NoDrift m items := by
  constructor
  · rintro ⟨hd, he, hc, ht, hp⟩
    exact ⟨hd, he, hc, ht, hp⟩
  · rintro ⟨hd, he, hc, ht, hp⟩
    exact ⟨hd, he, hc, ht, hp⟩

/-- **When a batch of updates is its updates one after another.**  Both come back with success, and
leave the same metadata, up to the times of updates, if and only if no key drifts. -/
theorem batchUpdate_eq_oneByOne_iff {s : KeyService} {kms : KMS}
    {req : BatchUpdateKeyMetadataRequest} {w : World}
    (hidentity : hasIdentity req.requesterContext = true)
    (hitems : ∀ item ∈ req.keys, Prepared s.uuid w.table item) :
    (∃ resp w', Act.Runs (workingSem s.uuid kms fun _ => True) (s.batchUpdateKeyMetadata req) w
      (.ok resp) w') ∧
    (∃ w', Act.Runs (workingSem s.uuid kms fun _ => True)
      (s.updateOneByOne req.requesterContext req.keys) w (.ok ()) w') ∧
    ∀ r₁ w₁ r₂ w₂,
      Act.Runs (workingSem s.uuid kms fun _ => True) (s.batchUpdateKeyMetadata req) w r₁ w₁ →
      Act.Runs (workingSem s.uuid kms fun _ => True)
        (s.updateOneByOne req.requesterContext req.keys) w r₂ w₂ →
      (SameMetadata w₁.table w₂.table ↔ ∀ id m, w.table.newestMetadata id = some m →
        NoDrift m (itemsFor s.uuid id req.keys)) := by
  refine ⟨?_, ?_, fun r₁ w₁ r₂ w₂ hbatch hsingle => ?_⟩
  · obtain ⟨r, w', hrun⟩ := working_batchUpdateKeyMetadata_returns req w
    obtain ⟨resp, _, _, rfl, -⟩ := working_batchUpdateKeyMetadata hidentity hitems hrun
    exact ⟨resp, w', hrun⟩
  · obtain ⟨r, w', hrun⟩ := working_updateOneByOne_returns req.keys w
    obtain rfl := working_updateOneByOne hitems hrun
    exact ⟨w', hrun⟩
  · obtain ⟨resp, keys, now, -, hkeys, htable⟩ :=
      working_batchUpdateKeyMetadata hidentity hitems hbatch
    obtain rfl := working_updateOneByOne hitems hsingle
    obtain ⟨g, hg, hvalues⟩ := runs_updateOneByOne (Rewritten.refl w.table)
      (hsingle.mono worldSem_of_working)
    have hwritten := (Rewritten.refl w.table).updateEach now keys
    rw [← htable] at hwritten
    rw [sameMetadata_iff hwritten hg]
    have hbatched : ∀ id, (keys.foldl (fun g k => Function.update g k.id k.metadata)
        w.table.newestMetadata id).map KeyMetadata.unstamped =
          (w.table.newestMetadata id).map fun m =>
          (itemsFor s.uuid id req.keys).getLast?.elim m.unstamped (batchChange m.unstamped) :=
      fun id => prepares_foldl hkeys rfl
    constructor
    · intro hsame id m hm
      obtain ⟨row, hrow, -⟩ := Option.bind_eq_some_iff.mp hm
      have hid := hsame id row hrow
      rw [hbatched, hvalues, hm] at hid
      exact (noDrift_unstamped m _).mp ((batchChange_eq_foldl_iff _ _).mp (Option.some.inj hid))
    · intro hdrift id row hrow
      rw [hbatched, hvalues]
      cases hm : w.table.newestMetadata id with
      | none => rfl
      | some m =>
        have heq := (batchChange_eq_foldl_iff _ _).mpr
          ((noDrift_unstamped m _).mpr (hdrift id m hm))
        exact congrArg some heq

/-! ### One tag, and two tags in one batch -/

/-- The sample deployment is one in which the repository works. -/
theorem sampleStep_working (kind : RepoOp → Prop) :
    sampleStep.Sound (workingSem sampleService.uuid sampleKMS kind) := by
  intro op w r w' h
  have hclock : w.clock ≤ w.clock + 1000 := Int.le_add_of_nonneg_right (by decide)
  refine ⟨w.clock + 1000, hclock, sampleAt_sound _ op w r w' h, ?_⟩
  cases op with
  | repo op =>
    cases h
    exact fun _ => rfl
  | _ => trivial

/-- The tags, each in an item of its own. -/
def addTags (tags : List String) : BatchUpdateKeyMetadataRequest :=
  ⟨tags.map fun tag => (addTag tag).item, false, some sampleContext⟩

theorem addTags_prepared (tags : List String) :
    ∀ item ∈ (addTags tags).keys, Prepared sampleService.uuid createdWorld.table item := by
  intro item hitem
  obtain ⟨tag, -, rfl⟩ := List.mem_map.mp hitem
  obtain ⟨r, m, hr, hm⟩ := createdWorld_row
  have hid : keyIDFromString sampleService.uuid (addTag tag).item.keyId = .ok sampleID :=
    keyIDFromString_string googleUUID sampleID
  exact ⟨sampleID, r, m, none, hid, hr, hm, rfl⟩

/-- One tag, and then the same tag with another one. -/
def addMoreTags : BatchUpdateKeyMetadataRequest :=
  ⟨[(addTag "env").item,
    { (addTag "env").item with tagsToAdd := (Finmap.singleton "team" "").insert "env" "" }],
    false, some sampleContext⟩

theorem addMoreTags_prepared :
    ∀ item ∈ addMoreTags.keys, Prepared sampleService.uuid createdWorld.table item := by
  intro item hitem
  obtain ⟨r, m, hr, hm⟩ := createdWorld_row
  have hid : keyIDFromString sampleService.uuid sampleText = .ok sampleID :=
    keyIDFromString_string googleUUID sampleID
  rcases List.mem_pair.mp hitem with rfl | rfl
  · exact ⟨sampleID, r, m, none, hid, hr, hm, rfl⟩
  · exact ⟨sampleID, r, m, none, hid, hr, hm, rfl⟩

theorem settled_none {α : Type} (old : α) {edits : List (Option α)}
    (h : ∀ e ∈ edits, e = none) : Settled old edits := by
  refine .inr fun v hv => ?_
  cases h _ (List.reduceOption_mem_iff.mp (List.mem_of_getLast? hv))

/-- What the first of the items changes the second one says again. -/
theorem addMoreTags_noDrift (m : KeyMetadata) : NoDrift m addMoreTags.keys := by
  have hnone : ∀ {α : Type} {f : UpdateKeyMetadataItem → Option α},
      (∀ item ∈ addMoreTags.keys, f item = none) → ∀ e ∈ addMoreTags.keys.map f, e = none := by
    intro α f hf e he
    obtain ⟨item, hitem, rfl⟩ := List.mem_map.mp he
    exact hf item hitem
  refine ⟨settled_none _ (hnone (by decide)), settled_none _ (hnone (by decide)),
    settled_none _ (hnone (by decide)), fun tag => ?_, fun item hitem name policy hpolicy => ?_⟩
  · by_cases htag : tag = "env" ∨ tag = "team"
    · rcases htag with rfl | rfl
      · exact .inl ⟨some "", rfl⟩
      · exact .inl ⟨some "", rfl⟩
    · obtain ⟨henv, hteam⟩ := not_or.mp htag
      refine settled_none _ (hnone fun item hitem => ?_)
      rcases List.mem_pair.mp hitem with rfl | rfl
      · simp [tagEdit, addTag, Finmap.lookup_eq_none, henv]
      · simp [tagEdit, addTag, Finmap.lookup_eq_none, henv, hteam]
  · cases hitem
    cases hpolicy

/-- A batch whose last item says everything does what its items do. -/
theorem batchUpdate_eq_oneByOne_iff_two :
    ∃ resp w₁ w₂, Act.Runs (workingSem sampleService.uuid sampleKMS fun _ => True)
        (sampleService.batchUpdateKeyMetadata addMoreTags) createdWorld (.ok resp) w₁ ∧
      Act.Runs (workingSem sampleService.uuid sampleKMS fun _ => True)
        (sampleService.updateOneByOne addMoreTags.requesterContext addMoreTags.keys)
        createdWorld (.ok ()) w₂ ∧ SameMetadata w₁.table w₂.table := by
  have hidentity : hasIdentity addMoreTags.requesterContext = true := by decide
  obtain ⟨⟨resp, w₁, hbatch⟩, ⟨w₂, hsingle⟩, hiff⟩ := @batchUpdate_eq_oneByOne_iff sampleService
    sampleKMS addMoreTags createdWorld hidentity addMoreTags_prepared
  refine ⟨resp, w₁, w₂, hbatch, hsingle, (hiff _ _ _ _ hbatch hsingle).mpr fun id m _ => ?_⟩
  -- both items are for one key
  by_cases hid : (keyIDFromString sampleService.uuid sampleText).toOption = some id
  · have hitems : itemsFor sampleService.uuid id addMoreTags.keys = addMoreTags.keys := by
      simp [itemsFor, addMoreTags, addTag, hid]
    rw [hitems]
    exact addMoreTags_noDrift m
  · have hitems : itemsFor sampleService.uuid id addMoreTags.keys = [] := by
      simp [itemsFor, addMoreTags, addTag, hid]
    rw [hitems]
    have hnil : ∀ {α : Type} (old : α), Settled old ([] : List (Option α)) :=
      fun old => settled_none old fun _ he => by cases he
    exact ⟨hnil _, hnil _, hnil _, fun _ => hnil _, fun _ hitem => by cases hitem⟩

/-- The tag `env` in the only version of the key, if there is such a version with metadata. -/
def envOf (t : Table) : Option (Option String) :=
  (t.atVersion sampleID 1).bind fun r => r.metadata.map fun m => m.tags.lookup "env"

theorem envOf_congr {t t' : Table} (h : SameMetadata t t') : envOf t = envOf t' := by
  have hrow := congrArg (fun x : Option (Option KeyMetadata) =>
    x.bind fun m => m.map fun m => m.tags.lookup "env") (h sampleID 1)
  simpa [envOf, Option.bind_map, Function.comp_def, KeyMetadata.unstamped] using hrow

/-- **The first of two tags is lost.** Added one after another both are there; in one batch, only
the second is. -/
theorem batch_update_drifts :
    ∃ resp w₁ w₂, Act.Runs (workingSem sampleService.uuid sampleKMS fun _ => True)
        (sampleService.batchUpdateKeyMetadata (addTags ["env", "team"])) createdWorld
          (.ok resp) w₁ ∧
      Act.Runs (workingSem sampleService.uuid sampleKMS fun _ => True)
        (sampleService.updateOneByOne (addTags ["env", "team"]).requesterContext
          (addTags ["env", "team"]).keys) createdWorld (.ok ()) w₂ ∧
      envOf w₁.table = some none ∧ envOf w₂.table = some (some "") ∧
      ¬ SameMetadata w₁.table w₂.table := by
  obtain ⟨r₁, w₁, hbatch, hlost⟩ := Prog.exists_runs (sampleStep_working _)
    (sampleService.batchUpdateKeyMetadata (addTags ["env", "team"])) createdWorld
    (fun out => out.1.isOk && envOf out.2.table == some none) (by decide +kernel)
  obtain ⟨r₂, w₂, hsingle, hthere⟩ := Prog.exists_runs (sampleStep_working _)
    (sampleService.updateOneByOne (addTags ["env", "team"]).requesterContext
      (addTags ["env", "team"]).keys) createdWorld
    (fun out => out.1.isOk && envOf out.2.table == some (some "")) (by decide +kernel)
  obtain ⟨hok₁, hnone⟩ := Bool.and_eq_true_iff.mp hlost
  obtain ⟨hok₂, hsome⟩ := Bool.and_eq_true_iff.mp hthere
  have hnone' := eq_of_beq hnone
  have hsome' := eq_of_beq hsome
  cases r₁ with
  | error e => cases hok₁
  | ok resp =>
    cases r₂ with
    | error e => cases hok₂
    | ok u =>
      refine ⟨resp, w₁, w₂, hbatch, hsingle, hnone', hsome', fun hsame => ?_⟩
      have henv : envOf w₁.table = envOf w₂.table := envOf_congr hsame
      rw [hnone', hsome'] at henv
      cases henv

end Polykey
