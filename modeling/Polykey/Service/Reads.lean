/-
# What reads return

A single read asks the repository for one row: the row of the version it names, or the latest one
(`Table.requested`).  A batch asks for all rows of all its ids, folds them into a map keyed by id
and looks each item up in it, whatever version the item names.  The rows of an id come newest first
and a later one replaces an earlier one, so what is left of an id is its OLDEST row
(`lookup_selectBatch`).

Each method has two lemmas here: what it hands out when it succeeds, and that it can succeed.
-/
import Polykey.Service.Calls

namespace Polykey

open Lib

variable {s : KeyService} {kms : KMS} {w w' : World}

/-! ## 1. Repository reads -/

/-- A repository call that succeeds is the database working. -/
theorem runs_repo_ok {uuid : UUIDPkg} {op : RepoOp} {a : op.Result} :
    Act.Runs (worldSem uuid kms) (repo op) w (.ok a) w' ↔
      ∃ now t', w.clock ≤ now ∧ PSQLAdapter.exec uuid now op w.table = (.ok a, t') ∧
        w' = { w with table := t', clock := now } := by
  refine Act.runs_tryCall.trans ⟨?_, ?_⟩
  · rintro ⟨x, ⟨now, hnow, t', hans, rfl⟩, rfl⟩
    rcases hans with hexec | ⟨⟨e, he⟩, -⟩
    · exact ⟨now, t', hnow, hexec, rfl⟩
    · cases he
  · rintro ⟨now, t', hnow, hexec, rfl⟩
    exact ⟨.ok a, ⟨now, hnow, t', .inl hexec, rfl⟩, rfl⟩

/-- `getKeyByRequest` returns the row the request asks for. -/
theorem runs_getKeyByRequest {uuid : UUIDPkg} {id : KeyID} {v : Int} {key : Key} :
    Act.Runs (worldSem uuid kms) (getKeyByRequest id v) w (.ok key) w' ↔
      ∃ now r, w.clock ≤ now ∧ w.table.requested id v = some r ∧ key = r.scan ∧
        w' = { w with clock := now } := by
  refine Act.runs_mapError_ok.trans ?_
  by_cases hv : 0 < v
  · have hrow : w.table.requested id v = w.table.atVersion id v := if_pos hv
    rw [hrow, show (ite (0 < v) _ _ : Svc Key) = _ from if_pos hv]
    refine runs_repo_ok.trans ⟨?_, ?_⟩
    · rintro ⟨now, t', hnow, hexec, rfl⟩
      obtain ⟨r, hr, hkey, rfl⟩ := (PSQLAdapter.exec_getKeyByVersion hv).mp hexec
      exact ⟨now, r, hnow, hr, hkey, rfl⟩
    · rintro ⟨now, r, hnow, hr, hkey, rfl⟩
      exact ⟨now, w.table, hnow, (PSQLAdapter.exec_getKeyByVersion hv).mpr ⟨r, hr, hkey, rfl⟩, rfl⟩
  · have hrow : w.table.requested id v = w.table.latest id := if_neg hv
    rw [hrow, show (ite (0 < v) _ _ : Svc Key) = _ from if_neg hv]
    refine runs_repo_ok.trans ⟨?_, ?_⟩
    · rintro ⟨now, t', hnow, hexec, rfl⟩
      obtain ⟨r, hr, hkey, rfl⟩ := PSQLAdapter.exec_getKey.mp hexec
      exact ⟨now, r, hnow, hr, hkey, rfl⟩
    · rintro ⟨now, r, hnow, hr, hkey, rfl⟩
      exact ⟨now, w.table, hnow, PSQLAdapter.exec_getKey.mpr ⟨r, hr, hkey, rfl⟩, rfl⟩

/-! ## 2. Delivery -/

/-- The service can hand the key out: it has a provider for it, the provider can decrypt its DEK,
and the key type is known. -/
def Deliverable (s : KeyService) (kms : KMS) (key : Key) : Prop :=
  (∃ provider dek, s.getKMSProvider key.storageType = .ok provider ∧
    kms.decrypts provider key (.ok dek)) ∧
  ∃ details, getCryptoDetails key.keyType = .ok details

/-- What a delivery hands out. -/
theorem deliver_ok {identity operation : String} {key : Key} {skip : Bool} {resp : GetKeyResponse}
    (h : Act.Runs (worldSem s.uuid kms) (s.deliver identity operation key skip) w (.ok resp) w') :
    Deliverable s kms key ∧ resp.keyMaterial.encryptedKeyData = key.encryptedDEK ∧
      resp.metadata = if skip then none else key.metadata := by
  simp only [KeyService.deliver, Act.runs_bind_ok, Act.runs_ofExcept, Act.runs_attempt] at h
  obtain ⟨provider, w₁, ⟨hprovider, rfl⟩, decrypted, w₂, hdecrypt, h⟩ := h
  cases decrypted with
  | error e =>
    obtain ⟨_, _, -, h⟩ := Act.runs_bind_ok.mp h
    cases h.1
  | ok dek =>
    simp only [Act.runs_bind_ok, Act.runs_ofExcept] at h
    obtain ⟨details, _, ⟨hdetails, -⟩, now, _, -, _, _, -, hresp⟩ := h
    obtain ⟨hresp, -⟩ := Act.runs_pure.mp hresp
    cases hresp
    obtain ⟨x, ⟨now', -, hx, -⟩, rfl⟩ := Act.runs_tryCall.mp hdecrypt
    have hp : s.getKMSProvider key.storageType = .ok provider := by
      cases hget : s.getKMSProvider key.storageType with
      | error e => rw [hget] at hprovider; cases hprovider
      | ok p => rw [hget] at hprovider; cases hprovider; rfl
    exact ⟨⟨⟨provider, dek, hp, hx⟩, details, hdetails.symm⟩, rfl, rfl⟩

/-- A key that can be handed out is, in some run. -/
theorem deliver_runs {key : Key} (h : Deliverable s kms key) (identity operation : String)
    (skip : Bool) (w : World) :
    ∃ resp w', Act.Runs (worldSem s.uuid kms) (s.deliver identity operation key skip) w
      (.ok resp) w' := by
  obtain ⟨⟨provider, dek, hprovider, hdek⟩, details, hdetails⟩ := h
  have hdecrypt : Act.Runs (worldSem s.uuid kms) (decryptDEK provider key) w (.ok dek) w :=
    Act.runs_tryCall.mpr ⟨.ok dek, ⟨w.clock, le_refl _, hdek, rfl⟩, rfl⟩
  have htime : Act.Runs (worldSem s.uuid kms) (Act.call (I := Effect) .timeNow : Svc Time) w
      (.ok w.clock) w := Act.runs_call.mpr ⟨w.clock, le_refl _, rfl, rfl⟩
  let event : AuditEvent := ⟨identity, operation, key.id.string s.uuid, true, none⟩
  have haudit : Act.Runs (worldSem s.uuid kms) (Act.call (I := Effect) (.auditLog event) : Svc Unit)
      w (.ok ()) { w with audit := w.audit ++ [event] } :=
    Act.runs_call.mpr ⟨w.clock, le_refl _, rfl⟩
  simp only [KeyService.deliver, hprovider, hdetails]
  exact ⟨_, _, Act.runs_bind_ok.mpr ⟨_, _, ⟨rfl, rfl⟩, Act.runs_bind_ok.mpr ⟨_, _,
    Act.runs_attempt.mpr hdecrypt, Act.runs_bind_ok.mpr ⟨_, _, ⟨rfl, rfl⟩, Act.runs_bind_ok.mpr
      ⟨_, _, htime, Act.runs_bind_ok.mpr ⟨_, _, haudit, rfl, rfl⟩⟩⟩⟩⟩⟩

/-- A delivery comes to an end. -/
theorem deliver_returns (identity operation : String) (key : Key) (skip : Bool) :
    Act.Returns (worldSem s.uuid kms) (s.deliver identity operation key skip) := by
  have hdecrypt : ∀ provider, ∀ w, ∃ r w',
      worldSem s.uuid kms (.decryptDEK provider key) w r w' := by
    intro provider w
    obtain ⟨r, hr⟩ := kms.decrypts_total provider key
    exact ⟨r, w, w.clock, le_refl _, hr, rfl⟩
  have haudit : ∀ event, ∀ w, ∃ r w', worldSem s.uuid kms (.auditLog event) w r w' :=
    fun event w => ⟨(), _, w.clock, le_refl _, rfl⟩
  have htime : ∀ w, ∃ r w', worldSem s.uuid kms .timeNow w r w' :=
    fun w => ⟨_, w, w.clock, le_refl _, rfl, rfl⟩
  refine (Act.Returns.ofExcept _).bind fun provider => ?_
  refine (Act.Returns.tryCall (hdecrypt provider) _).attempt.bind fun r => ?_
  cases r with
  | error e => exact (Act.Returns.call (haudit _)).bind fun _ => .throw _
  | ok dek =>
    refine (Act.Returns.ofExcept _).bind fun details => (Act.Returns.call htime).bind fun now => ?_
    exact (Act.Returns.call (haudit _)).bind fun _ => .pure _

/-! ## 3. What is left of a fold into a map

The rows come ordered by id and by version, newest first, and a later entry replaces an earlier
one. In a sorted list the survivor under a key is the one that comes last. -/

/-- The values of a list folded into a map: under each key the last one. -/
def lastByKey {α β : Type} (key : α → String) (val : α → β) (l : List α) :
    AList fun _ : String => β :=
  l.foldl (fun m a => m.insert (key a) (val a)) ∅

section LastByKey

variable {α β : Type} {key : α → String} {val : α → β}

theorem lastByKey_append (l : List α) (a : α) :
    lastByKey key val (l ++ [a]) = (lastByKey key val l).insert (key a) (val a) := by
  simp [lastByKey]

/-- In a sorted list the value that is left is the one that comes after all others. -/
theorem lookup_lastByKey {R : α → α → Prop} {l : List α} (hl : l.Pairwise R) {k : String}
    {b : β} (h : (lastByKey key val l).lookup k = some b) :
    ∃ a ∈ l, key a = k ∧ b = val a ∧ ∀ a' ∈ l, key a' = k → a' = a ∨ R a' a := by
  induction l using List.reverseRecOn with
  | nil => cases h
  | append_singleton l a ih =>
    obtain ⟨hl', -, hlast⟩ := List.pairwise_append.mp hl
    rw [lastByKey_append] at h
    by_cases hk : key a = k
    · subst hk
      rw [AList.lookup_insert] at h
      refine ⟨a, by simp, rfl, (Option.some.inj h).symm, fun a' ha' _ => ?_⟩
      rcases List.mem_append.mp ha' with hmem | hmem
      · exact .inr (hlast a' hmem a (by simp))
      · exact .inl (List.mem_singleton.mp hmem)
    · rw [AList.lookup_insert_ne (Ne.symm hk)] at h
      obtain ⟨x, hx, hkey, hval, hmax⟩ := ih hl' h
      refine ⟨x, by simp [hx], hkey, hval, fun a' ha' hk' => ?_⟩
      rcases List.mem_append.mp ha' with hmem | hmem
      · exact hmax a' hmem hk'
      · exact absurd hk' (List.mem_singleton.mp hmem ▸ hk)

theorem lookup_lastByKey_none {l : List α} {k : String} (h : ∀ a ∈ l, key a ≠ k) :
    (lastByKey key val l).lookup k = none := by
  induction l using List.reverseRecOn with
  | nil => rfl
  | append_singleton l a ih =>
    rw [lastByKey_append, AList.lookup_insert_ne (Ne.symm (h a (by simp)))]
    exact ih fun a' ha' => h a' (by simp [ha'])

theorem lookup_lastByKey_some (key : α → String) (val : α → β) {l : List α} {a : α} (ha : a ∈ l) :
    ∃ b, (lastByKey key val l).lookup (key a) = some b := by
  induction l using List.reverseRecOn with
  | nil => cases ha
  | append_singleton l a' ih =>
    rw [lastByKey_append]
    by_cases hk : key a = key a'
    · exact ⟨val a', by rw [hk, AList.lookup_insert]⟩
    · rw [AList.lookup_insert_ne hk]
      rcases List.mem_append.mp ha with hmem | hmem
      · exact ih hmem
      · exact absurd (congrArg key (List.mem_singleton.mp hmem)) hk

end LastByKey

/-- **Of the rows of a batch, the oldest of each id is left.** -/
theorem lookup_selectBatch {uuid : UUIDPkg} {t : Table} {ids : List KeyID} {β : Type}
    {key : Row → String} {val : Row → β} (hkey : ∀ r ∈ t.rows, key r = r.id.string uuid)
    {id : KeyID} (hid : id ∈ ids) :
    (lastByKey key val (t.selectBatch ids)).lookup (id.string uuid) = (t.oldest id).map val := by
  cases hold : t.oldest id with
  | none =>
    refine lookup_lastByKey_none fun r hr hk => ?_
    obtain ⟨hmem, -⟩ := Table.mem_selectBatch.mp hr
    rw [hkey r hmem] at hk
    exact Table.oldest_eq_none.mp hold r hmem (KeyID.string_injective uuid hk)
  | some r₀ =>
    obtain ⟨hmem₀, hid₀, hmin₀⟩ := Table.oldest_eq_some.mp hold
    have hsel₀ : r₀ ∈ t.selectBatch ids := Table.mem_selectBatch.mpr ⟨hmem₀, hid₀ ▸ hid⟩
    obtain ⟨b, hb⟩ := lookup_lastByKey_some key val hsel₀
    rw [hkey r₀ hmem₀, hid₀] at hb
    obtain ⟨r, hr, hk, rfl, hlast⟩ := lookup_lastByKey (t.pairwise_selectBatch ids) hb
    obtain ⟨hmem, -⟩ := Table.mem_selectBatch.mp hr
    have hrid : r.id = id := KeyID.string_injective uuid ((hkey r hmem).symm.trans hk)
    -- the row that is left comes after the oldest one, so it is the oldest one
    have hle : r.version ≤ r₀.version := by
      rcases hlast r₀ hsel₀ (by rw [hkey r₀ hmem₀, hid₀]) with rfl | hlt | ⟨-, hle⟩
      · exact le_refl _
      · rw [hid₀, hrid] at hlt
        exact absurd hlt (BitVec.lt_irrefl _)
      · exact hle
    have heq := t.row_unique hmem hmem₀ (hrid.trans hid₀.symm)
      (le_antisymm hle (hmin₀ r hmem hrid))
    rw [hb, heq, Option.map_some]

/-! ## 4. The items of a batch -/

section Batch

variable {uuid : UUIDPkg} {α β : Type} {validate : α → Except Err Unit} {process : α → Svc β}

/-- The outcomes of a batch are those of its items, in order. -/
theorem runs_processBatch {as : List α} {rs : List (Except Err β)}
    (h : Act.Runs (worldSem uuid kms) (processBatch validate process as) w (.ok rs) w') :
    List.Forall₂ (fun a r => ∃ w w',
      Act.Runs (worldSem uuid kms) (processItem validate process a) w (.ok r) w') as rs := by
  induction as generalizing w rs with
  | nil =>
    obtain ⟨hrs, -⟩ := Act.runs_pure.mp h
    cases hrs
    exact .nil
  | cons a as ih =>
    simp only [processBatch, Act.runs_bind_ok, Act.runs_pure] at h
    obtain ⟨r, w₁, hitem, rs', w₂, hrest, hrs, rfl⟩ := h
    cases hrs
    exact .cons ⟨w, w₁, hitem⟩ (ih hrest)

/-- A batch can end with any outcomes its items can end with. -/
theorem processBatch_runs {G : α → Except Err β → Prop} {as : List α}
    (h : ∀ a ∈ as, ∀ w, ∃ r w',
      Act.Runs (worldSem uuid kms) (processItem validate process a) w (.ok r) w' ∧ G a r)
    (w : World) : ∃ rs w', Act.Runs (worldSem uuid kms) (processBatch validate process as) w
      (.ok rs) w' ∧ List.Forall₂ G as rs := by
  induction as generalizing w with
  | nil => exact ⟨[], w, Act.runs_pure.mpr ⟨rfl, rfl⟩, .nil⟩
  | cons a as ih =>
    obtain ⟨r, w₁, hitem, hG⟩ := h a (by simp) w
    obtain ⟨rs, w₂, hrest, hGs⟩ := ih (fun a' ha' => h a' (by simp [ha'])) w₁
    refine ⟨r :: rs, w₂, ?_, .cons hG hGs⟩
    simp only [processBatch, Act.runs_bind_ok, Act.runs_pure]
    exact ⟨r, w₁, hitem, rs, w₂, hrest, rfl, rfl⟩

/-- The response reports each outcome under the text of its item. -/
theorem forall₂_batchResponse {F : α → Except Err β → Prop} {as : List α}
    {rs : List (Except Err β)} (h : List.Forall₂ F as rs) (keyId : α → String) (now : Time) :
    List.Forall₂ (fun a (item : ItemResult β) => item.keyId = keyId a ∧
      ∃ r, F a r ∧ item.result = r.mapError Err.text) as
      (batchResponse (as.map keyId) rs now).results := by
  induction h with
  | nil => exact .nil
  | cons hF _ ih => exact .cons ⟨rfl, _, hF, rfl⟩ ih

end Batch

/-- The row that a batch reads for an item: the oldest one, if the text is the canonical one. -/
def batchRow (s : KeyService) (t : Table) (item : KeyRequestItem) : Option Row :=
  match keyIDFromString s.uuid item.keyId with
  | .error _ => none
  | .ok id => if id.string s.uuid = item.keyId then t.oldest id else none

/-- In a chain table the oldest row is version 1. -/
theorem batchRow_version {t : Table} (hchain : Chain s.uuid t) {item : KeyRequestItem} {r : Row}
    (h : batchRow s t item = some r) : r.version = 1 := by
  unfold batchRow at h
  split at h
  · cases h
  · split at h
    · obtain ⟨hmem, hid, hmin⟩ := Table.oldest_eq_some.mp h
      obtain ⟨r₁, hr₁, hid₁, hv₁⟩ := hchain.first hmem
      have hle := hmin r₁ hr₁ (hid₁.trans hid)
      have hpos := hchain.pos r hmem
      omega
    · cases h

theorem batchRow_string {t : Table} {item : KeyRequestItem} {id : KeyID}
    (h : item.keyId = id.string s.uuid) : batchRow s t item = t.oldest id := by
  simp [batchRow, h]

/-- A batch can be looked up when it names its requester and all its texts are ids. -/
def WellFormed (s : KeyService) (req : BatchGetRequest) : Prop :=
  hasIdentity req.requesterContext = true ∧
    ∀ item ∈ req.keys, ∃ id, keyIDFromString s.uuid item.keyId = .ok id

theorem parseAll_ok {items : List KeyRequestItem} {ids : List KeyID}
    (h : s.parseAll items = .ok ids) : ∀ item ∈ items, ∃ id ∈ ids,
      keyIDFromString s.uuid item.keyId = .ok id := by
  induction items generalizing ids with
  | nil => exact fun _ hitem => by cases hitem
  | cons item items ih =>
    unfold KeyService.parseAll at h
    cases hid : keyIDFromString s.uuid item.keyId with
    | error e => simp [hid] at h
    | ok id =>
      cases hrest : s.parseAll items with
      | error e => simp [hid, hrest, Except.map] at h
      | ok rest =>
        simp only [hid, hrest, Except.map] at h
        cases h
        intro item' hitem'
        rcases List.mem_cons.mp hitem' with rfl | hmem
        · exact ⟨id, by simp, hid⟩
        · obtain ⟨id', hid', hparse⟩ := ih hrest item' hmem
          exact ⟨id', by simp [hid'], hparse⟩

theorem parseAll_eq_ok {items : List KeyRequestItem}
    (h : ∀ item ∈ items, ∃ id, keyIDFromString s.uuid item.keyId = .ok id) :
    ∃ ids, s.parseAll items = .ok ids := by
  induction items with
  | nil => exact ⟨[], rfl⟩
  | cons item items ih =>
    obtain ⟨id, hid⟩ := h item (by simp)
    obtain ⟨ids, hids⟩ := ih fun item' hitem' => h item' (by simp [hitem'])
    exact ⟨id :: ids, by simp [KeyService.parseAll, hid, hids, Except.map]⟩

theorem keyMap_getBatchKeys (t : Table) (ids : List KeyID) :
    s.keyMap (PSQLAdapter.getBatchKeys t ids)
      = lastByKey (fun r => r.id.string s.uuid) Row.scan (t.selectBatch ids) := by
  rw [KeyService.keyMap, PSQLAdapter.getBatchKeys, List.foldl_map]
  rfl

/-- What the key map holds under the text of an item. -/
theorem lookup_keyMap {t : Table} {items : List KeyRequestItem} {ids : List KeyID}
    (hids : s.parseAll items = .ok ids) {item : KeyRequestItem} (hitem : item ∈ items) :
    (s.keyMap (PSQLAdapter.getBatchKeys t ids)).lookup item.keyId
      = (batchRow s t item).map Row.scan := by
  obtain ⟨id, hid, hparse⟩ := parseAll_ok hids item hitem
  rw [keyMap_getBatchKeys]
  by_cases hcanon : id.string s.uuid = item.keyId
  · rw [batchRow_string hcanon.symm, ← hcanon]
    exact lookup_selectBatch (fun _ _ => rfl) hid
  · have hrow : batchRow s t item = none := by simp [batchRow, hparse, hcanon]
    rw [hrow]
    refine lookup_lastByKey_none fun r hr hk => hcanon ?_
    -- a row under this text would have the id the text parses to
    have hparse' := keyIDFromString_string s.uuid r.id
    rw [hk, hparse] at hparse'
    rw [Except.ok.inj hparse', hk]

/-- What an item of `BatchGetKeys` carries is what the row that the batch reads for it holds. -/
def CarriesRow (skip : Bool) (r : Row) (resp : GetKeyResponse) : Prop :=
  resp.keyMaterial.encryptedKeyData = r.encryptedDEK ∧
    resp.metadata = if skip then none else r.metadata

/-- A batch that succeeds could be looked up. -/
theorem batchGetKeys_wellFormed {req : BatchGetRequest} {resp : BatchResponse GetKeyResponse}
    (h : Act.Runs (worldSem s.uuid kms) (s.batchGetKeys req) w (.ok resp) w') :
    WellFormed s req := by
  unfold KeyService.batchGetKeys at h
  split at h
  · cases h.1
  · rename_i hidentity
    obtain ⟨ids, _, ⟨hids, -⟩, -⟩ := Act.runs_bind_ok.mp h
    refine ⟨by simpa using hidentity, fun item hitem => ?_⟩
    obtain ⟨id, -, hparse⟩ := parseAll_ok hids.symm item hitem
    exact ⟨id, hparse⟩

/-- **What `BatchGetKeys` hands out**: of each item, the row `batchRow` says. -/
theorem batchGetKeys_ok {req : BatchGetRequest} {resp : BatchResponse GetKeyResponse}
    (h : Act.Runs (worldSem s.uuid kms) (s.batchGetKeys req) w (.ok resp) w') :
    List.Forall₂ (fun item (out : ItemResult GetKeyResponse) => ∀ g, out.result = .ok g →
      ∃ r, batchRow s w.table item = some r ∧ Deliverable s kms r.scan ∧
        CarriesRow item.skipMetadata r g) req.keys resp.results := by
  unfold KeyService.batchGetKeys at h
  split at h
  · cases h.1
  simp only [Act.runs_bind_ok, Act.runs_ofExcept, Act.runs_mapError_ok, Act.runs_pure] at h
  obtain ⟨ids, w₁, ⟨hids, hw₁⟩, keys, _, hrepo, items, _, hbatch, now, _, -, hresp, -⟩ := h
  rw [hw₁] at hrepo
  obtain ⟨now', t', -, hexec, rfl⟩ := runs_repo_ok.mp hrepo
  obtain ⟨hkeys, rfl⟩ := Prod.mk.inj hexec
  cases hkeys
  cases hresp
  have hitems := forall₂_batchResponse (runs_processBatch hbatch) (·.keyId) now
  have hmem := (List.forall₂_and_left _ _).mpr ⟨fun item (hitem : item ∈ req.keys) => hitem, hitems⟩
  refine hmem.imp fun item out hout g hg => ?_
  obtain ⟨hitem, -, r, ⟨w₁, w₂, hrun⟩, hresult⟩ := hout
  rw [hresult] at hg
  obtain rfl : r = .ok g := by
    cases r with
    | error e => cases hg
    | ok g' => cases hg; rfl
  have hlookup := lookup_keyMap (t := w.table) hids.symm hitem
  unfold processItem KeyService.validateGet KeyService.processGet at hrun
  cases hrow : batchRow s w.table item with
  | none =>
    simp only [hlookup, hrow, Option.map_none] at hrun
    cases hrun.1
  | some row =>
    simp only [hlookup, hrow, Option.map_some] at hrun
    obtain ⟨hdel, hdata, hmeta⟩ := deliver_ok (Act.runs_attempt.mp hrun)
    exact ⟨row, rfl, hdel, hdata, hmeta⟩

/-- `BatchGetKeys` can end, with a success for every item that can be delivered. -/
theorem batchGetKeys_runs (kms : KMS) {req : BatchGetRequest} (hreq : WellFormed s req)
    (w : World) :
    ∃ resp w', Act.Runs (worldSem s.uuid kms) (s.batchGetKeys req) w (.ok resp) w' ∧
      List.Forall₂ (fun item (out : ItemResult GetKeyResponse) => ∀ r,
        batchRow s w.table item = some r → Deliverable s kms r.scan →
          ∃ g, out.result = .ok g) req.keys resp.results := by
  obtain ⟨ids, hids⟩ := parseAll_eq_ok hreq.2
  have hitems : ∀ item ∈ req.keys, ∀ w₁, ∃ r w₂, Act.Runs (worldSem s.uuid kms)
      (processItem (KeyService.validateGet (s.keyMap (PSQLAdapter.getBatchKeys w.table ids)))
        (s.processGet (identityOf req.requesterContext)
          (s.keyMap (PSQLAdapter.getBatchKeys w.table ids))) item) w₁ (.ok r) w₂ ∧
      ∀ row, batchRow s w.table item = some row → Deliverable s kms row.scan →
        ∃ g, r = .ok g := by
    intro item hitem w₁
    have hlookup := lookup_keyMap (t := w.table) hids hitem
    unfold processItem KeyService.validateGet KeyService.processGet
    cases hrow : batchRow s w.table item with
    | none =>
      simp only [hlookup, hrow, Option.map_none]
      exact ⟨_, w₁, ⟨rfl, rfl⟩, fun _ h => by cases h⟩
    | some row =>
      simp only [hlookup, hrow, Option.map_some]
      by_cases hdel : Deliverable s kms row.scan
      · obtain ⟨g, w₂, hrun⟩ := deliver_runs hdel (identityOf req.requesterContext) "BatchGetKeys"
          item.skipMetadata w₁
        exact ⟨.ok g, w₂, Act.runs_attempt.mpr hrun, fun _ _ _ => ⟨g, rfl⟩⟩
      · have hends : Act.Returns (worldSem s.uuid kms) (s.deliver
            (identityOf req.requesterContext) "BatchGetKeys" row.scan item.skipMetadata) :=
          deliver_returns _ _ _ _
        obtain ⟨r, w₂, hrun⟩ := hends w₁
        refine ⟨r, w₂, Act.runs_attempt.mpr hrun, fun row' hrow' hdel' => absurd ?_ hdel⟩
        cases hrow'
        exact hdel'
  obtain ⟨items, w₂, hbatch, hG⟩ := processBatch_runs hitems w
  have hrepo : Act.Runs (worldSem s.uuid kms) (repo (.getBatchKeys ids)) w
      (.ok (PSQLAdapter.getBatchKeys w.table ids)) w :=
    runs_repo_ok.mpr ⟨w.clock, w.table, le_refl _, rfl, rfl⟩
  have htime : Act.Runs (worldSem s.uuid kms) (Act.call (I := Effect) .timeNow : Svc Time) w₂
      (.ok w₂.clock) w₂ := Act.runs_call.mpr ⟨w₂.clock, le_refl _, rfl, rfl⟩
  refine ⟨batchResponse (req.keys.map (·.keyId)) items w₂.clock, w₂, ?_, ?_⟩
  · unfold KeyService.batchGetKeys
    rw [hreq.1]
    simp only [Bool.not_true, Bool.false_eq_true, if_false, Act.runs_bind_ok, Act.runs_ofExcept,
      Act.runs_mapError_ok, Act.runs_pure]
    exact ⟨ids, w, ⟨hids.symm, rfl⟩, _, w, hrepo, items, w₂, hbatch, _, w₂, htime, rfl, rfl⟩
  · refine (forall₂_batchResponse hG (·.keyId) w₂.clock).imp fun item out hout row hrow hdel => ?_
    obtain ⟨-, r, hr, hresult⟩ := hout
    obtain ⟨g, rfl⟩ := hr row hrow hdel
    exact ⟨g, hresult⟩

/-- What `GetKey` hands out: the row it was asked for, which is not revoked. -/
theorem getKey_ok {req : GetKeyRequest} {resp : GetKeyResponse}
    (h : Act.Runs (worldSem s.uuid kms) (s.getKey req) w (.ok resp) w') :
    ∃ id r, keyIDFromString s.uuid req.keyId = .ok id ∧
      w.table.requested id req.version = some r ∧ r.status ≠ .revoked ∧ r.metadata ≠ none ∧
        Deliverable s kms r.scan ∧ CarriesRow req.skipMetadata r resp := by
  unfold KeyService.getKey at h
  simp only [Act.runs_bind_ok, Act.runs_ofExcept] at h
  obtain ⟨id, w₁, ⟨hid, hw₁⟩, key, w₂, hread, h⟩ := h
  rw [hw₁] at hread
  obtain ⟨now, r, -, hrow, rfl, rfl⟩ := runs_getKeyByRequest.mp hread
  have hparse : keyIDFromString s.uuid req.keyId = .ok id := by
    cases hget : keyIDFromString s.uuid req.keyId with
    | error e => rw [hget] at hid; cases hid
    | ok id' => rw [hget] at hid; cases hid; rfl
  by_cases hrev : r.status = .revoked
  · rw [if_pos (show r.scan.status = .revoked from hrev)] at h
    cases h.1
  rw [if_neg (show ¬ r.scan.status = .revoked from hrev)] at h
  by_cases hmeta : r.metadata = none
  · rw [if_pos (show r.scan.metadata = none from hmeta)] at h
    cases h.1
  rw [if_neg (show ¬ r.scan.metadata = none from hmeta)] at h
  obtain ⟨hdel, hdata, hmd⟩ := deliver_ok h
  exact ⟨id, r, hparse, hrow, hrev, hmeta, hdel, hdata, hmd⟩

/-- `GetKey` can succeed on a row that is not revoked and can be delivered. -/
theorem getKey_runs {req : GetKeyRequest} {id : KeyID} {r : Row}
    (hid : keyIDFromString s.uuid req.keyId = .ok id)
    (hrow : w.table.requested id req.version = some r) (hrev : r.status ≠ .revoked)
    (hmeta : r.metadata ≠ none) (hdel : Deliverable s kms r.scan) :
    ∃ resp w', Act.Runs (worldSem s.uuid kms) (s.getKey req) w (.ok resp) w' := by
  obtain ⟨resp, w', hrun⟩ := deliver_runs hdel (identityOf req.requesterContext) "GetKey"
    req.skipMetadata w
  have hread : Act.Runs (worldSem s.uuid kms) (getKeyByRequest id req.version) w (.ok r.scan) w :=
    runs_getKeyByRequest.mpr ⟨w.clock, r, le_refl _, hrow, rfl, rfl⟩
  refine ⟨resp, w', ?_⟩
  unfold KeyService.getKey
  simp only [Act.runs_bind_ok, Act.runs_ofExcept]
  refine ⟨id, w, ⟨by rw [hid]; rfl, rfl⟩, r.scan, w, hread, ?_⟩
  rw [if_neg (show ¬ r.scan.status = .revoked from hrev),
    if_neg (show ¬ r.scan.metadata = none from hmeta)]
  exact hrun

/-! ## 5. Batches of metadata -/

/-- The results of the last loop are what the map holds. -/
theorem runs_metadataResults {uuid : UUIDPkg} {m : AList fun _ : String => KeyMetadata}
    {items : List KeyRequestItem} {outs : List (ItemResult GetKeyMetadataResponse)}
    (h : Act.Runs (worldSem uuid kms) (KeyService.metadataResults m items) w (.ok outs) w') :
    List.Forall₂ (fun item (out : ItemResult GetKeyMetadataResponse) => out.keyId = item.keyId ∧
      match m.lookup item.keyId with
      | some md => ∃ now, out.result = .ok ⟨some md, now⟩
      | none => ∃ e, out.result = .error e) items outs := by
  induction items generalizing w outs with
  | nil =>
    obtain ⟨houts, -⟩ := Act.runs_pure.mp h
    cases houts
    exact .nil
  | cons item items ih =>
    unfold KeyService.metadataResults at h
    cases hlookup : m.lookup item.keyId with
    | some md =>
      simp only [hlookup, Act.runs_bind_ok, Act.runs_pure] at h
      obtain ⟨now, w₁, -, rest, w₂, hrest, houts, rfl⟩ := h
      cases houts
      exact .cons (by simp [hlookup]) (ih hrest)
    | none =>
      simp only [hlookup, Act.runs_bind_ok, Act.runs_pure] at h
      obtain ⟨rest, w₁, hrest, houts, rfl⟩ := h
      cases houts
      exact .cons (by simp [hlookup]) (ih hrest)

theorem metadataResults_runs (uuid : UUIDPkg) (kms : KMS) (m : AList fun _ : String => KeyMetadata)
    (items : List KeyRequestItem) (w : World) :
    ∃ outs, Act.Runs (worldSem uuid kms) (KeyService.metadataResults m items) w (.ok outs) w := by
  have htime : Act.Runs (worldSem uuid kms) (Act.call (I := Effect) .timeNow : Svc Time) w
      (.ok w.clock) w := Act.runs_call.mpr ⟨w.clock, le_refl _, rfl, rfl⟩
  induction items with
  | nil => exact ⟨[], Act.runs_pure.mpr ⟨rfl, rfl⟩⟩
  | cons item items ih =>
    obtain ⟨rest, hrest⟩ := ih
    unfold KeyService.metadataResults
    cases hlookup : m.lookup item.keyId with
    | some md =>
      simp only [Act.runs_bind_ok, Act.runs_pure]
      exact ⟨_, w.clock, w, htime, rest, w, hrest, rfl, rfl⟩
    | none =>
      simp only [Act.runs_bind_ok, Act.runs_pure]
      exact ⟨_, rest, w, hrest, rfl, rfl⟩

/-- Every text of the batch is the canonical one. -/
def Canonical (s : KeyService) (req : BatchGetRequest) : Prop :=
  ∀ item ∈ req.keys, ∃ id : KeyID, item.keyId = id.string s.uuid

namespace KeyService

/-- The text is that of a key id. -/
def IsID (s : KeyService) (text : String) : Prop := ∃ id, keyIDFromString s.uuid text = .ok id

theorem isID_string (id : KeyID) : s.IsID (id.string s.uuid) := ⟨id, keyIDFromString_string _ _⟩

theorem firstInvalid_eq_none {keyIds : List String} :
    s.firstInvalid keyIds = none ↔ ∀ keyId ∈ keyIds, s.IsID keyId := by
  induction keyIds with
  | nil => simp [firstInvalid]
  | cons keyId keyIds ih =>
    rw [List.forall_mem_cons, ← ih, firstInvalid]
    unfold IsID
    cases keyIDFromString s.uuid keyId with
    | error e => simp
    | ok id => simp

theorem invalidItems_eq_nil {α : Type} {keyIds : List String} :
    (s.invalidItems keyIds : List (ItemResult α)) = [] ↔ ∀ keyId ∈ keyIds, s.IsID keyId := by
  refine List.filterMap_eq_nil_iff.trans (forall₂_congr fun keyId _ => ?_)
  unfold IsID
  cases keyIDFromString s.uuid keyId with
  | error e => simp
  | ok id => simp

end KeyService

theorem Canonical.isID {req : BatchGetRequest} (h : Canonical s req) :
    ∀ keyId ∈ req.keys.map (·.keyId), s.IsID keyId := by
  intro keyId hmem
  obtain ⟨item, hitem, rfl⟩ := List.mem_map.mp hmem
  obtain ⟨id, hid⟩ := h item hitem
  exact hid ▸ KeyService.isID_string id

theorem metadataMap_getBatchKeyMetadata (t : Table) (ids : List KeyID) :
    KeyService.metadataMap (PSQLAdapter.getBatchKeyMetadata t ids)
      = lastByKey (fun r => (PSQLAdapter.unmarshal r.metadata).keyId)
          (fun r => PSQLAdapter.unmarshal r.metadata) (t.selectBatch ids) := by
  rw [KeyService.metadataMap, PSQLAdapter.getBatchKeyMetadata, List.foldl_map]
  rfl

/-- What the metadata map holds under the text of an item. -/
theorem lookup_metadataMap {t : Table} (hchain : Chain s.uuid t) {items : List KeyRequestItem}
    {item : KeyRequestItem} (hitem : item ∈ items) {id : KeyID}
    (hid : item.keyId = id.string s.uuid) :
    (KeyService.metadataMap (PSQLAdapter.getBatchKeyMetadata t (s.idsOrZero items))).lookup
      item.keyId = (t.oldest id).map fun r => PSQLAdapter.unmarshal r.metadata := by
  have hmem : id ∈ s.idsOrZero items :=
    List.mem_map.mpr ⟨item, hitem, by simp [hid, Except.toOption]⟩
  rw [metadataMap_getBatchKeyMetadata, hid]
  refine lookup_selectBatch (fun r hr => ?_) hmem
  obtain ⟨m, hm, -, -, hkey⟩ := hchain.metadata r hr
  simp [PSQLAdapter.unmarshal, hm, hkey]

/-- **What any `BatchGetKeyMetadata` answers**: the items that do not parse, and then one result for
each item, which is an error, or what the metadata map holds under the text of the item. -/
theorem batchGetKeyMetadata_results {req : BatchGetRequest}
    {resp : BatchResponse GetKeyMetadataResponse}
    (h : Act.Runs (worldSem s.uuid kms) (s.batchGetKeyMetadata req) w (.ok resp) w') :
    ∃ rest, resp.results = s.invalidItems (req.keys.map (·.keyId)) ++ rest ∧
      List.Forall₂ (fun item (out : ItemResult GetKeyMetadataResponse) => ∀ g, out.result = .ok g →
        out.keyId = item.keyId ∧ ∃ md, (KeyService.metadataMap (PSQLAdapter.getBatchKeyMetadata
          w.table (s.idsOrZero req.keys))).lookup item.keyId = some md ∧ g.metadata = some md)
        req.keys rest := by
  unfold KeyService.batchGetKeyMetadata at h
  split at h
  · cases h.1
  split at h
  · cases h.1
  obtain ⟨fetched, w₁, hfetch, h⟩ := Act.runs_bind_ok.mp h
  cases fetched with
  | error e =>
    -- every item is reported with the error
    dsimp only at h
    split at h
    · cases h.1
    simp only [Act.runs_bind_ok, Act.runs_pure] at h
    obtain ⟨now, w₂, -, hresp, -⟩ := h
    refine ⟨_, congrArg BatchResponse.results (Except.ok.inj hresp), ?_⟩
    simp only [KeyService.idsOrZero, List.map_map, List.forall₂_map_right_iff]
    exact List.forall₂_same.mpr fun item _ g hg => by cases hg
  | ok metadataList =>
    simp only [Act.runs_bind_ok, Act.runs_pure] at h
    obtain ⟨found, w₂, hfound, now, w₃, -, hresp, -⟩ := h
    obtain ⟨now', t', -, hexec, -⟩ := runs_repo_ok.mp (Act.runs_attempt.mp hfetch)
    cases (Prod.mk.inj hexec).1
    refine ⟨found, congrArg BatchResponse.results (Except.ok.inj hresp),
      (runs_metadataResults hfound).imp fun item out hout g hg => ?_⟩
    obtain ⟨hkeyId, hout⟩ := hout
    refine ⟨hkeyId, ?_⟩
    split at hout
    · rename_i md hmd
      obtain ⟨now, hnow⟩ := hout
      cases hnow.symm.trans hg
      exact ⟨md, hmd, rfl⟩
    · obtain ⟨e, he⟩ := hout
      cases he.symm.trans hg

/-- `BatchGetKeyMetadata` can answer, with a success for every item whose metadata it finds. -/
theorem batchGetKeyMetadata_answers (kms : KMS) {req : BatchGetRequest}
    (hidentity : hasIdentity req.requesterContext = true)
    (hgo : req.continueOnError = true ∨ ∀ item ∈ req.keys, s.IsID item.keyId) (w : World) :
    ∃ resp rest, Act.Runs (worldSem s.uuid kms) (s.batchGetKeyMetadata req) w (.ok resp) w ∧
      resp.results = s.invalidItems (req.keys.map (·.keyId)) ++ rest ∧
      List.Forall₂ (fun item (out : ItemResult GetKeyMetadataResponse) => ∀ md,
        (KeyService.metadataMap (PSQLAdapter.getBatchKeyMetadata w.table
          (s.idsOrZero req.keys))).lookup item.keyId = some md →
            ∃ g, out.result = .ok g ∧ g.metadata = some md) req.keys rest := by
  let m := KeyService.metadataMap (PSQLAdapter.getBatchKeyMetadata w.table (s.idsOrZero req.keys))
  obtain ⟨found, hfound⟩ := metadataResults_runs s.uuid kms m req.keys w
  have hrepo : Act.Runs (worldSem s.uuid kms) (repo (.getBatchKeyMetadata (s.idsOrZero req.keys))) w
      (.ok (PSQLAdapter.getBatchKeyMetadata w.table (s.idsOrZero req.keys))) w :=
    runs_repo_ok.mpr ⟨w.clock, w.table, le_refl _, rfl, rfl⟩
  have htime : Act.Runs (worldSem s.uuid kms) (Act.call (I := Effect) .timeNow : Svc Time) w
      (.ok w.clock) w := Act.runs_call.mpr ⟨w.clock, le_refl _, rfl, rfl⟩
  let invalid : List (ItemResult GetKeyMetadataResponse) :=
    s.invalidItems (req.keys.map (·.keyId))
  refine ⟨⟨invalid ++ found, w.clock, found.countP (·.result.isOk),
    invalid.length + found.countP (!·.result.isOk)⟩, found, ?_, rfl, ?_⟩
  · unfold KeyService.batchGetKeyMetadata
    simp only [hidentity, Bool.not_true, Bool.false_eq_true, if_false]
    split
    · rename_i e hinvalid hstop
      rcases hgo with hgo | hall
      · cases hgo.symm.trans hstop
      · rw [KeyService.firstInvalid_eq_none.mpr (List.forall_mem_map.mpr hall)] at hinvalid
        cases hinvalid
    · refine Act.runs_bind_ok.mpr ⟨_, w, Act.runs_attempt.mpr hrepo, ?_⟩
      simp only [Act.runs_bind_ok, Act.runs_pure]
      exact ⟨found, w, hfound, _, w, htime, rfl, rfl⟩
  · refine (runs_metadataResults hfound).imp fun item out hout md hmd => ?_
    obtain ⟨-, hout⟩ := hout
    rw [show m.lookup item.keyId = some md from hmd] at hout
    obtain ⟨now, hnow⟩ := hout
    exact ⟨_, hnow, rfl⟩

/-- **What `BatchGetKeyMetadata` hands out**: of each item, the metadata of the row `batchRow`
says. -/
theorem batchGetKeyMetadata_ok {req : BatchGetRequest} (hchain : Chain s.uuid w.table)
    (hcanon : Canonical s req) {resp : BatchResponse GetKeyMetadataResponse}
    (h : Act.Runs (worldSem s.uuid kms) (s.batchGetKeyMetadata req) w (.ok resp) w') :
    List.Forall₂ (fun item (out : ItemResult GetKeyMetadataResponse) => ∀ g, out.result = .ok g →
      ∃ r, batchRow s w.table item = some r ∧ g.metadata = r.metadata) req.keys resp.results := by
  obtain ⟨rest, hresults, hrest⟩ := batchGetKeyMetadata_results h
  rw [KeyService.invalidItems_eq_nil.mpr hcanon.isID, List.nil_append] at hresults
  rw [hresults]
  have hmem := (List.forall₂_and_left _ _).mpr
    ⟨fun item (hitem : item ∈ req.keys) => hitem, hrest⟩
  refine hmem.imp fun item out hout g hg => ?_
  obtain ⟨hitem, hout⟩ := hout
  obtain ⟨-, md, hmd, hmeta⟩ := hout g hg
  obtain ⟨id, hid⟩ := hcanon item hitem
  rw [lookup_metadataMap hchain hitem hid] at hmd
  obtain ⟨r, hold, rfl⟩ := Option.map_eq_some_iff.mp hmd
  obtain ⟨m, hm, -⟩ := hchain.metadata r (Table.oldest_eq_some.mp hold).1
  exact ⟨r, (batchRow_string hid).trans hold, by simp [hmeta, PSQLAdapter.unmarshal, hm]⟩

/-- `BatchGetKeyMetadata` can end, with a success for every item that has a row. -/
theorem batchGetKeyMetadata_runs (kms : KMS) {req : BatchGetRequest} (hchain : Chain s.uuid w.table)
    (hcanon : Canonical s req) (hidentity : hasIdentity req.requesterContext = true) :
    ∃ resp w', Act.Runs (worldSem s.uuid kms) (s.batchGetKeyMetadata req) w (.ok resp) w' ∧
      List.Forall₂ (fun item (out : ItemResult GetKeyMetadataResponse) => ∀ r,
        batchRow s w.table item = some r → ∃ g, out.result = .ok g) req.keys resp.results := by
  obtain ⟨resp, rest, hrun, hresults, hrest⟩ := batchGetKeyMetadata_answers (s := s) kms hidentity
    (.inr fun item hitem => hcanon.isID _ (List.mem_map_of_mem hitem)) w
  refine ⟨resp, w, hrun, ?_⟩
  rw [KeyService.invalidItems_eq_nil.mpr hcanon.isID, List.nil_append] at hresults
  rw [hresults]
  have hmem := (List.forall₂_and_left _ _).mpr
    ⟨fun item (hitem : item ∈ req.keys) => hitem, hrest⟩
  refine hmem.imp fun item out hout r hrow => ?_
  obtain ⟨hitem, hout⟩ := hout
  obtain ⟨id, hid⟩ := hcanon item hitem
  rw [batchRow_string hid] at hrow
  obtain ⟨g, hg, -⟩ := hout _ ((lookup_metadataMap hchain hitem hid).trans (by rw [hrow]; rfl))
  exact ⟨g, hg⟩

/-- Whatever texts it is asked with, a success of `BatchGetKeyMetadata` carries the metadata of a
row of the id that its text names. -/
theorem batchGetKeyMetadata_mem {req : BatchGetRequest} (hchain : Chain s.uuid w.table)
    {resp : BatchResponse GetKeyMetadataResponse}
    (h : Act.Runs (worldSem s.uuid kms) (s.batchGetKeyMetadata req) w (.ok resp) w')
    {out : ItemResult GetKeyMetadataResponse} (hout : out ∈ resp.results)
    {g : GetKeyMetadataResponse} (hg : out.result = .ok g) :
    ∃ r ∈ w.table.rows, out.keyId = r.id.string s.uuid ∧ g.metadata = r.metadata := by
  have hinvalid : out ∉ s.invalidItems (req.keys.map (·.keyId)) := by
    intro hmem
    obtain ⟨keyId, -, hkeyId⟩ := List.mem_filterMap.mp hmem
    split at hkeyId
    · cases hkeyId
      cases hg
    · cases hkeyId
  obtain ⟨rest, hresults, hrest⟩ := batchGetKeyMetadata_results h
  rw [hresults] at hout
  rcases List.mem_append.mp hout with hout | hout
  · exact absurd hout hinvalid
  obtain ⟨⟨i, hi⟩, rfl⟩ := List.get_of_mem hout
  obtain ⟨hlength, hat⟩ := List.forall₂_iff_get.mp hrest
  obtain ⟨hkeyId, md, hmd, hmeta⟩ := hat i (hlength ▸ hi) hi g hg
  rw [metadataMap_getBatchKeyMetadata] at hmd
  obtain ⟨r, hr, hkey, rfl, -⟩ := lookup_lastByKey (w.table.pairwise_selectBatch _) hmd
  obtain ⟨hrow, -⟩ := Table.mem_selectBatch.mp hr
  obtain ⟨m, hm, -, -, hname⟩ := hchain.metadata r hrow
  simp only [PSQLAdapter.unmarshal, hm, Option.getD_some] at hkey hmeta
  exact ⟨r, hrow, by rw [hkeyId, ← hname, hkey], by rw [hmeta, hm]⟩

/-! ## 6. Single reads of metadata, and lists -/

/-- What `GetKeyMetadata` hands out: the metadata of the row it was asked for. -/
theorem getKeyMetadata_ok {req : GetKeyMetadataRequest} {resp : GetKeyMetadataResponse}
    (h : Act.Runs (worldSem s.uuid kms) (s.getKeyMetadata req) w (.ok resp) w') :
    ∃ id r, keyIDFromString s.uuid req.keyId = .ok id ∧
      w.table.requested id req.version = some r ∧
      resp.metadata = some (PSQLAdapter.unmarshal r.metadata) := by
  unfold KeyService.getKeyMetadata at h
  simp only [Act.runs_bind_ok, Act.runs_ofExcept] at h
  obtain ⟨id, w₁, ⟨hid, hw₁⟩, metadata, w₂, hread, now, w₃, -, _, w₄, -, h⟩ := h
  have hparse : keyIDFromString s.uuid req.keyId = .ok id := by
    cases hget : keyIDFromString s.uuid req.keyId with
    | error e => rw [hget] at hid; cases hid
    | ok id' => rw [hget] at hid; cases hid; rfl
  have hmeta : resp.metadata = metadata := by
    cases metadata with
    | none => cases h.1
    | some m =>
      obtain ⟨hresp, -⟩ := h
      cases hresp
      rfl
  refine ⟨id, ?_⟩
  rw [hw₁] at hread
  unfold Table.requested
  split at hread
  · rename_i hv
    obtain ⟨now', t', -, hexec, -⟩ := runs_repo_ok.mp hread
    simp only [PSQLAdapter.exec, PSQLAdapter.getKeyMetadataByVersion,
      if_neg (Int.not_le.mpr hv)] at hexec
    cases hrow : w.table.atVersion id req.version with
    | none =>
      rw [hrow] at hexec
      cases (Prod.mk.inj hexec).1
    | some r =>
      rw [hrow] at hexec
      cases (Prod.mk.inj hexec).1
      exact ⟨r, hparse, by rw [if_pos hv], hmeta⟩
  · rename_i hv
    obtain ⟨now', t', -, hexec, -⟩ := runs_repo_ok.mp hread
    simp only [PSQLAdapter.exec, PSQLAdapter.getKeyMetadata] at hexec
    cases hrow : w.table.latest id with
    | none =>
      rw [hrow] at hexec
      cases (Prod.mk.inj hexec).1
    | some r =>
      rw [hrow] at hexec
      cases (Prod.mk.inj hexec).1
      exact ⟨r, hparse, by rw [if_neg hv], hmeta⟩

/-- The metadata of a row that is asked for can be handed out. -/
theorem getKeyMetadata_runs {req : GetKeyMetadataRequest} {id : KeyID} {r : Row}
    (hid : keyIDFromString s.uuid req.keyId = .ok id)
    (hrow : w.table.requested id req.version = some r) :
    ∃ resp w', Act.Runs (worldSem s.uuid kms) (s.getKeyMetadata req) w (.ok resp) w' := by
  have hread : Act.Runs (worldSem s.uuid kms)
      (if 0 < req.version then repo (.getKeyMetadataByVersion id req.version)
        else repo (.getKeyMetadata id) : Svc (Option KeyMetadata)) w
      (.ok (some (PSQLAdapter.unmarshal r.metadata))) w := by
    unfold Table.requested at hrow
    split at hrow
    · rename_i hv
      rw [if_pos hv]
      refine runs_repo_ok.mpr ⟨w.clock, w.table, le_refl _, ?_, rfl⟩
      simp [PSQLAdapter.exec, PSQLAdapter.getKeyMetadataByVersion, Int.not_le.mpr hv, hrow]
    · rename_i hv
      rw [if_neg hv]
      refine runs_repo_ok.mpr ⟨w.clock, w.table, le_refl _, ?_, rfl⟩
      simp [PSQLAdapter.exec, PSQLAdapter.getKeyMetadata, hrow]
  have htime : Act.Runs (worldSem s.uuid kms) (Act.call (I := Effect) .timeNow : Svc Time) w
      (.ok w.clock) w := Act.runs_call.mpr ⟨w.clock, le_refl _, rfl, rfl⟩
  let event : AuditEvent :=
    ⟨identityOf req.requesterContext, "GetKeyMetadata", id.string s.uuid, true, none⟩
  have haudit : Act.Runs (worldSem s.uuid kms) (Act.call (I := Effect) (.auditLog event) : Svc Unit)
      w (.ok ()) { w with audit := w.audit ++ [event] } :=
    Act.runs_call.mpr ⟨w.clock, le_refl _, rfl⟩
  refine ⟨⟨some (PSQLAdapter.unmarshal r.metadata), w.clock⟩,
    { w with audit := w.audit ++ [event] }, ?_⟩
  unfold KeyService.getKeyMetadata
  simp only [Act.runs_bind_ok, Act.runs_ofExcept]
  exact ⟨id, w, ⟨by rw [hid]; rfl, rfl⟩, _, w, hread, _, w, htime, (), _, haudit, rfl, rfl⟩

/-- What `ListKeys` hands out: the metadata of latest rows. -/
theorem listKeys_ok {req : ListKeysRequest} {resp : ListKeysResponse}
    (h : Act.Runs (worldSem s.uuid kms) (s.listKeys req) w (.ok resp) w') :
    ∃ rows : List Row, (∀ r ∈ rows, w.table.latest r.id = some r) ∧
      resp.keys = rows.map Row.metadata := by
  unfold KeyService.listKeys at h
  simp only [Act.runs_bind_ok, Act.runs_pure] at h
  obtain ⟨cursor, w₁, hcursor, keys, w₂, hrepo, now, w₃, -, hresp, -⟩ := h
  have hw₁ : w₁ = w := by
    split at hcursor
    · exact hcursor.2
    · split at hcursor
      · exact hcursor.2
      · exact hcursor.2
  rw [hw₁] at hrepo
  generalize (if req.pageSize = 0 then 100 else req.pageSize) = limit at hrepo hresp
  obtain ⟨now', t', -, hexec, -⟩ := runs_repo_ok.mp hrepo
  simp only [PSQLAdapter.exec, PSQLAdapter.listKeys] at hexec
  split at hexec
  · cases (Prod.mk.inj hexec).1
  cases (Prod.mk.inj hexec).1
  cases hresp
  refine ⟨_, fun r hr => ?_, List.map_map⟩
  have hmem := (List.mem_insertionSort _).mp (List.mem_of_mem_take hr)
  simpa using (List.mem_filter.mp (List.mem_filter.mp hmem).1).2

end Polykey
