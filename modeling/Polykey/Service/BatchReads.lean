/-
# Revoked material and batch versions

Two questions about the reading methods, each answered by a condition that is exact.

* **Revoked material** (`reads_keepRevoked_iff`).  `GetKey` looks at the status of the row it
  reads.  `BatchGetKeys` does not, so it hands a revoked key out like any other.
* **Versions** (`batchReads_agree_iff`).  A batch reads the oldest row of an id, whatever version
  the item names, so it agrees with the single reads only on items whose row can be handed out
  when the oldest one can, and then holds what the oldest one holds.
-/
import Polykey.Service.Reads
import Polykey.Service.Scenario

namespace Polykey

open Lib

/-! ## 1. Revoked material -/

/-- The response does not carry the material of a revoked row. -/
def KeepsRevoked (t : Table) (resp : GetKeyResponse) : Prop :=
  ∀ r ∈ t.rows, r.status = .revoked → resp.keyMaterial.encryptedKeyData ≠ r.encryptedDEK

/-- The row's material is not that of a revoked row.  A row of the table that is itself revoked
fails this. -/
def NotRevokedMaterial (t : Table) (r : Row) : Prop :=
  ∀ r' ∈ t.rows, r'.status = .revoked → r.encryptedDEK ≠ r'.encryptedDEK

/-- **When no material of a revoked row is handed out.**  `GetKey` looks at the status of the row
it reads, so only a row that shares its material with a revoked one gets through.  `BatchGetKeys`
does not look: the row it reads for an item must not be revoked, unless it cannot be delivered. -/
theorem reads_keepRevoked_iff (s : KeyService) (kms : KMS) (w : World) :
    (∀ req : GetKeyRequest,
      (∀ resp w', Act.Runs (worldSem s.uuid kms) (s.getKey req) w (.ok resp) w' →
        KeepsRevoked w.table resp) ↔
      ∀ id r, keyIDFromString s.uuid req.keyId = .ok id →
        w.table.requested id req.version = some r → r.status ≠ .revoked → r.metadata ≠ none →
        Deliverable s kms r.scan → NotRevokedMaterial w.table r) ∧
    ∀ req : BatchGetRequest,
      (∀ resp w', Act.Runs (worldSem s.uuid kms) (s.batchGetKeys req) w (.ok resp) w' →
        ∀ out ∈ resp.results, ∀ g, out.result = .ok g → KeepsRevoked w.table g) ↔
      (WellFormed s req → ∀ item ∈ req.keys, ∀ r, batchRow s w.table item = some r →
        Deliverable s kms r.scan → NotRevokedMaterial w.table r) := by
  refine ⟨fun req => ⟨fun hsafe id r hid hrow hrev hmeta hdel r' hr' hrev' => ?_,
    fun hrows resp w' hrun r' hr' hrev' => ?_⟩, fun req => ⟨?_, ?_⟩⟩
  · obtain ⟨resp, w', hrun⟩ := getKey_runs hid hrow hrev hmeta hdel
    obtain ⟨id', r₁, hid', hrow', -, -, -, hdata, -⟩ := getKey_ok hrun
    obtain rfl : id = id' := Except.ok.inj (hid.symm.trans hid')
    obtain rfl : r = r₁ := Option.some.inj (hrow.symm.trans hrow')
    rw [← hdata]
    exact hsafe resp w' hrun r' hr' hrev'
  · obtain ⟨id, r, hid, hrow, hrev, hmeta, hdel, hdata, -⟩ := getKey_ok hrun
    rw [hdata]
    exact hrows id r hid hrow hrev hmeta hdel r' hr' hrev'
  · intro hsafe hreq item hitem r hrow hdel r' hr' hrev'
    obtain ⟨resp, w', hrun, hdelivered⟩ := batchGetKeys_runs kms hreq w
    obtain ⟨i, hi, rfl⟩ := List.getElem_of_mem hitem
    have hlen := hdelivered.length_eq
    obtain ⟨g, hg⟩ := hdelivered.get hi (hlen ▸ hi) r hrow hdel
    obtain ⟨r₁, hrow₁, -, hdata, -⟩ := (batchGetKeys_ok hrun).get hi (hlen ▸ hi) g hg
    obtain rfl : r = r₁ := Option.some.inj (hrow.symm.trans hrow₁)
    rw [← hdata]
    exact hsafe resp w' hrun _ (List.get_mem _ _) g hg r' hr' hrev'
  · intro hrows resp w' hrun out hout g hg r' hr' hrev'
    have hspec := batchGetKeys_ok hrun
    obtain ⟨i, hi, rfl⟩ := List.getElem_of_mem hout
    have hi' : i < req.keys.length := hspec.length_eq ▸ hi
    obtain ⟨r, hrow, hdel, hdata, -⟩ := hspec.get hi' hi g hg
    rw [hdata]
    exact hrows (batchGetKeys_wellFormed hrun) _ (List.get_mem _ _) r hrow hdel r' hr' hrev'

/-- A key is created and revoked; a batch read still hands its material out. -/
theorem batchGetKeys_revoked_material :
    ∃ q resp w', Reachable sampleService sampleKMS q ∧
      Act.Runs (worldSem googleUUID sampleKMS) (sampleService.batchGetKeys sampleBatchGet) q.state
        (.ok resp) w' ∧
      ∃ out ∈ resp.results, ∃ g, out.result = .ok g ∧ ¬ KeepsRevoked q.state.table g := by
  let q := samplePool [.start sampleCreate, .finish 0, .start sampleRevoke, .finish 1]
  obtain ⟨resp, w', hrun, hcheck⟩ := exists_run (sampleService.batchGetKeys sampleBatchGet) q.state
    (fun resp => resp.results.any fun out =>
      match out.result with
      | .ok g => q.state.table.rows.any fun r =>
          r.status = .revoked && g.keyMaterial.encryptedKeyData = r.encryptedDEK
      | .error _ => false)
    (by decide +kernel)
  refine ⟨q, resp, w', samplePool_reachable _, hrun, ?_⟩
  obtain ⟨out, hout, hg⟩ := List.any_eq_true.mp hcheck
  split at hg
  · rename_i g hresult
    obtain ⟨r, hr, hrev⟩ := List.any_eq_true.mp hg
    simp only [Bool.and_eq_true, decide_eq_true_eq] at hrev
    exact ⟨out, hout, g, hresult, fun hkeep => hkeep r hr hrev.1 hrev.2⟩
  · cases hg

/-! ## 2. Versions

A batch is compared with the single reads by what each of them MAY answer.  Both can be kept from
answering, by the database or by the KMS, and neither answers two ways otherwise: `GetKey` answers
with the row that the text and the version name, and the batch with the oldest row of the id.  So
the question becomes one about two rows, and it has two halves: whether the one can be handed out
when the other can, and whether they then hold the same. -/

/-- The row that the single read with the same text and version returns. -/
def itemRow (s : KeyService) (t : Table) (item : KeyRequestItem) : Option Row :=
  match keyIDFromString s.uuid item.keyId with
  | .error _ => none
  | .ok id => t.requested id item.version

/-- What a response carries of a row. -/
def carried (g : GetKeyResponse) : Bytes × Option KeyMetadata :=
  (g.keyMaterial.encryptedKeyData, g.metadata)

/-- `GetKey`, asked with the text and the version of an item, may answer so. -/
def GetKeyAnswers (s : KeyService) (kms : KMS) (w : World) (ctx : Option RequesterContext)
    (item : KeyRequestItem) (answer : Bytes × Option KeyMetadata) : Prop :=
  ∃ g w', Act.Runs (worldSem s.uuid kms)
    (s.getKey ⟨item.keyId, item.version, item.skipMetadata, ctx⟩) w (.ok g) w' ∧ carried g = answer

/-- `BatchGetKeys` may answer so to its `i`-th item. -/
def BatchGetKeysAnswers (s : KeyService) (kms : KMS) (w : World) (req : BatchGetRequest) (i : Nat)
    (answer : Bytes × Option KeyMetadata) : Prop :=
  ∃ resp w' out g, Act.Runs (worldSem s.uuid kms) (s.batchGetKeys req) w (.ok resp) w' ∧
    resp.results[i]? = some out ∧ out.result = .ok g ∧ carried g = answer

/-- `GetKeyMetadata`, asked with the text and the version of an item, may answer so. -/
def GetKeyMetadataAnswers (s : KeyService) (kms : KMS) (w : World) (ctx : Option RequesterContext)
    (item : KeyRequestItem) (metadata : Option KeyMetadata) : Prop :=
  ∃ g w', Act.Runs (worldSem s.uuid kms) (s.getKeyMetadata ⟨item.keyId, item.version, ctx⟩) w
    (.ok g) w' ∧ g.metadata = metadata

/-- `BatchGetKeyMetadata` may answer so to its `i`-th item. -/
def BatchGetKeyMetadataAnswers (s : KeyService) (kms : KMS) (w : World) (req : BatchGetRequest)
    (i : Nat) (metadata : Option KeyMetadata) : Prop :=
  ∃ resp w' out g, Act.Runs (worldSem s.uuid kms) (s.batchGetKeyMetadata req) w (.ok resp) w' ∧
    resp.results[i]? = some out ∧ out.result = .ok g ∧ g.metadata = metadata

section Answers

variable {s : KeyService} {kms : KMS} {w : World} {req : BatchGetRequest} {item : KeyRequestItem}
  {ctx : Option RequesterContext} {r : Row} {i : Nat} {answer : Bytes × Option KeyMetadata}
  {metadata : Option KeyMetadata}

theorem itemRow_eq_some : itemRow s w.table item = some r ↔
    ∃ id, keyIDFromString s.uuid item.keyId = .ok id ∧
      w.table.requested id item.version = some r := by
  unfold itemRow
  cases keyIDFromString s.uuid item.keyId <;> simp

theorem carried_eq {skip : Bool} {g : GetKeyResponse} :
    CarriesRow skip r g ↔ carried g = (r.encryptedDEK, if skip then none else r.metadata) := by
  simp [CarriesRow, carried]

/-- `GetKey` answers with the row it is asked for, unless that is revoked, has no metadata or
cannot be delivered. -/
theorem getKeyAnswers_iff (hrow : itemRow s w.table item = some r) :
    GetKeyAnswers s kms w ctx item answer ↔
      (r.status ≠ .revoked ∧ r.metadata ≠ none ∧ Deliverable s kms r.scan) ∧
        answer = (r.encryptedDEK, if item.skipMetadata then none else r.metadata) := by
  obtain ⟨id, hid, hread⟩ := itemRow_eq_some.mp hrow
  have hsame : ∀ {id' r'}, keyIDFromString s.uuid item.keyId = .ok id' →
      w.table.requested id' item.version = some r' → r' = r := by
    intro id' r' hid' hread'
    obtain rfl : id = id' := Except.ok.inj (hid.symm.trans hid')
    exact Option.some.inj (hread'.symm.trans hread)
  constructor
  · rintro ⟨g, w', hrun, rfl⟩
    obtain ⟨id', r', hid', hread', hlive, hmeta, hdel, hcarries⟩ := getKey_ok hrun
    obtain rfl := hsame hid' hread'
    exact ⟨⟨hlive, hmeta, hdel⟩, carried_eq.mp hcarries⟩
  · rintro ⟨⟨hlive, hmeta, hdel⟩, rfl⟩
    let req : GetKeyRequest := ⟨item.keyId, item.version, item.skipMetadata, ctx⟩
    have hruns : ∃ g w', Act.Runs (worldSem s.uuid kms) (s.getKey req) w (.ok g) w' :=
      getKey_runs hid hread hlive hmeta hdel
    obtain ⟨g, w', hrun⟩ := hruns
    obtain ⟨id', r', hid', hread', -, -, -, hcarries⟩ := getKey_ok hrun
    obtain rfl := hsame hid' hread'
    exact ⟨g, w', hrun, carried_eq.mp hcarries⟩

/-- `BatchGetKeys` answers with the oldest row, unless that cannot be delivered. -/
theorem batchGetKeysAnswers_iff (hreq : WellFormed s req) (hitem : req.keys[i]? = some item) :
    BatchGetKeysAnswers s kms w req i answer ↔ ∃ r, batchRow s w.table item = some r ∧
      Deliverable s kms r.scan ∧
        answer = (r.encryptedDEK, if item.skipMetadata then none else r.metadata) := by
  obtain ⟨hi, rfl⟩ := List.getElem?_eq_some_iff.mp hitem
  constructor
  · rintro ⟨resp, w', out, g, hrun, hout, hg, rfl⟩
    obtain ⟨hi', rfl⟩ := List.getElem?_eq_some_iff.mp hout
    obtain ⟨r, hrow, hdel, hcarries⟩ := (batchGetKeys_ok hrun).get hi hi' g hg
    exact ⟨r, hrow, hdel, carried_eq.mp hcarries⟩
  · rintro ⟨r, hrow, hdel, rfl⟩
    obtain ⟨resp, w', hrun, hdelivered⟩ := batchGetKeys_runs kms hreq w
    have hi' : i < resp.results.length := hdelivered.length_eq ▸ hi
    obtain ⟨g, hg⟩ := hdelivered.get hi hi' r hrow hdel
    obtain ⟨r', hrow', -, hcarries⟩ := (batchGetKeys_ok hrun).get hi hi' g hg
    obtain rfl : r = r' := Option.some.inj (hrow.symm.trans hrow')
    exact ⟨resp, w', _, g, hrun, List.getElem?_eq_getElem hi', hg, carried_eq.mp hcarries⟩

theorem getKeyMetadataAnswers_iff (hchain : Chain s.uuid w.table)
    (hrow : itemRow s w.table item = some r) :
    GetKeyMetadataAnswers s kms w ctx item metadata ↔ metadata = r.metadata := by
  obtain ⟨id, hid, hread⟩ := itemRow_eq_some.mp hrow
  have hanswer : ∀ {g w'}, Act.Runs (worldSem s.uuid kms)
      (s.getKeyMetadata ⟨item.keyId, item.version, ctx⟩) w (.ok g) w' →
      g.metadata = r.metadata := by
    intro g w' hrun
    obtain ⟨id', r', hid', hread', hmeta⟩ := getKeyMetadata_ok hrun
    obtain rfl : id = id' := Except.ok.inj (hid.symm.trans hid')
    obtain rfl : r = r' := Option.some.inj (hread.symm.trans hread')
    obtain ⟨m, hm, -⟩ := hchain.metadata r (Table.mem_of_requested hread).1
    rw [hmeta, hm]
    rfl
  constructor
  · rintro ⟨g, w', hrun, rfl⟩
    exact hanswer hrun
  · rintro rfl
    let req : GetKeyMetadataRequest := ⟨item.keyId, item.version, ctx⟩
    have hruns : ∃ g w', Act.Runs (worldSem s.uuid kms) (s.getKeyMetadata req) w (.ok g) w' :=
      getKeyMetadata_runs hid hread
    obtain ⟨g, w', hrun⟩ := hruns
    exact ⟨g, w', hrun, hanswer hrun⟩

theorem batchGetKeyMetadataAnswers_iff (hchain : Chain s.uuid w.table) (hcanon : Canonical s req)
    (hidentity : hasIdentity req.requesterContext = true) (hitem : req.keys[i]? = some item) :
    BatchGetKeyMetadataAnswers s kms w req i metadata ↔
      ∃ r, batchRow s w.table item = some r ∧ metadata = r.metadata := by
  obtain ⟨hi, rfl⟩ := List.getElem?_eq_some_iff.mp hitem
  constructor
  · rintro ⟨resp, w', out, g, hrun, hout, hg, rfl⟩
    obtain ⟨hi', rfl⟩ := List.getElem?_eq_some_iff.mp hout
    exact (batchGetKeyMetadata_ok hchain hcanon hrun).get hi hi' g hg
  · rintro ⟨r, hrow, rfl⟩
    obtain ⟨resp, w', hrun, hfound⟩ := batchGetKeyMetadata_runs kms hchain hcanon hidentity
    have hi' : i < resp.results.length := hfound.length_eq ▸ hi
    obtain ⟨g, hg⟩ := hfound.get hi hi' r hrow
    obtain ⟨r', hrow', hmeta⟩ := (batchGetKeyMetadata_ok hchain hcanon hrun).get hi hi' g hg
    obtain rfl : r = r' := Option.some.inj (hrow.symm.trans hrow')
    exact ⟨resp, w', _, g, hrun, List.getElem?_eq_getElem hi', hg, hmeta⟩

/-- Two conditional answers are the same if and only if neither or both conditions hold, and the
answers are equal if they do. -/
theorem answers_agree_iff {α : Type} {p q : Prop} {a b : α} :
    (∀ x, p ∧ x = a ↔ q ∧ x = b) ↔ (p ∨ q → p ∧ q ∧ a = b) := by
  constructor
  · rintro h (hp | hq)
    · obtain ⟨hq, hab⟩ := (h a).mp ⟨hp, rfl⟩
      exact ⟨hp, hq, hab⟩
    · obtain ⟨hp, hba⟩ := (h b).mpr ⟨hq, rfl⟩
      exact ⟨hp, hq, hba.symm⟩
  · intro h x
    constructor
    · rintro ⟨hp, rfl⟩
      obtain ⟨-, hq, rfl⟩ := h (.inl hp)
      exact ⟨hq, rfl⟩
    · rintro ⟨hq, rfl⟩
      obtain ⟨hp, -, rfl⟩ := h (.inr hq)
      exact ⟨hp, rfl⟩

/-- An item that names a row by a canonical text has an oldest row. -/
theorem exists_batchRow (hcanon : ∃ id : KeyID, item.keyId = id.string s.uuid)
    (hrow : itemRow s w.table item = some r) : ∃ r₁, batchRow s w.table item = some r₁ := by
  obtain ⟨id, hid⟩ := hcanon
  obtain ⟨id', hid', hread⟩ := itemRow_eq_some.mp hrow
  rw [hid, keyIDFromString_string] at hid'
  cases hid'
  rw [batchRow_string hid]
  obtain ⟨hmem, hsame⟩ := Table.mem_of_requested hread
  exact Option.ne_none_iff_exists'.mp fun hnone => Table.oldest_eq_none.mp hnone r hmem hsame

end Answers

/-- `GetKey` can hand the row out: it is not revoked and can be delivered. -/
def Served (s : KeyService) (kms : KMS) (r : Row) : Prop :=
  r.status ≠ .revoked ∧ Deliverable s kms r.scan

/-- **When a batch reads the versions its items name.**  The row it reads for an item is the one of
version 1.  A batch of keys may answer to its items what the single reads may answer exactly when,
for each of them, that row can be delivered if and only if `GetKey` can hand out the row the item
names, and they then have the same material and, unless it is skipped, the same metadata.  A batch
of metadata does exactly when the two rows have the same metadata. -/
theorem batchReads_agree_iff {s : KeyService} {kms : KMS} {p : ServicePool}
    (hp : Reachable s kms p) {req : BatchGetRequest} (hcanon : Canonical s req)
    (hidentity : hasIdentity req.requesterContext = true)
    (hstored : ∀ item ∈ req.keys, itemRow s p.state.table item ≠ none) :
    (∀ item ∈ req.keys, ∃ r₁, batchRow s p.state.table item = some r₁ ∧ r₁.version = 1) ∧
    ((∀ i item, req.keys[i]? = some item → ∀ answer,
        BatchGetKeysAnswers s kms p.state req i answer ↔
          GetKeyAnswers s kms p.state req.requesterContext item answer) ↔
      ∀ item ∈ req.keys, ∀ r r₁,
        itemRow s p.state.table item = some r → batchRow s p.state.table item = some r₁ →
          Deliverable s kms r₁.scan ∨ Served s kms r →
            Deliverable s kms r₁.scan ∧ Served s kms r ∧ r₁.encryptedDEK = r.encryptedDEK ∧
              (item.skipMetadata = true ∨ r₁.metadata = r.metadata)) ∧
    ((∀ i item, req.keys[i]? = some item → ∀ metadata,
        BatchGetKeyMetadataAnswers s kms p.state req i metadata ↔
          GetKeyMetadataAnswers s kms p.state req.requesterContext item metadata) ↔
      ∀ item ∈ req.keys, ∀ r r₁,
        itemRow s p.state.table item = some r → batchRow s p.state.table item = some r₁ →
          r₁.metadata = r.metadata) := by
  have hchain := hp.chain
  have hreq : WellFormed s req :=
    ⟨hidentity, fun item hitem => hcanon.isID _ (List.mem_map_of_mem hitem)⟩
  -- both conditions are about one item and its two rows
  have heach : ∀ {P : Nat → KeyRequestItem → Prop} {Q : KeyRequestItem → Row → Row → Prop},
      (∀ {i item r r₁}, req.keys[i]? = some item → itemRow s p.state.table item = some r →
        batchRow s p.state.table item = some r₁ → (P i item ↔ Q item r r₁)) →
      ((∀ i item, req.keys[i]? = some item → P i item) ↔
        ∀ item ∈ req.keys, ∀ r r₁, itemRow s p.state.table item = some r →
          batchRow s p.state.table item = some r₁ → Q item r r₁) := by
    intro P Q hPQ
    constructor
    · intro hall item hitem r r₁ hr hr₁
      obtain ⟨i, hi⟩ := List.getElem?_of_mem hitem
      exact (hPQ hi hr hr₁).mp (hall i item hi)
    · intro hall i item hi
      have hitem := List.mem_of_getElem? hi
      obtain ⟨r, hr⟩ := Option.ne_none_iff_exists'.mp (hstored item hitem)
      obtain ⟨r₁, hr₁⟩ := exists_batchRow (hcanon item hitem) hr
      exact (hPQ hi hr hr₁).mpr (hall item hitem r r₁ hr hr₁)
  refine ⟨fun item hitem => ?_, heach fun hi hr hr₁ => ?_, heach fun hi hr hr₁ => ?_⟩
  · obtain ⟨r, hr⟩ := Option.ne_none_iff_exists'.mp (hstored item hitem)
    obtain ⟨r₁, hr₁⟩ := exists_batchRow (hcanon item hitem) hr
    exact ⟨r₁, hr₁, batchRow_version hchain hr₁⟩
  · rename_i i item r r₁
    obtain ⟨id, -, hread⟩ := itemRow_eq_some.mp hr
    obtain ⟨m, hm, -⟩ := hchain.metadata r (Table.mem_of_requested hread).1
    have hserved : (r.status ≠ .revoked ∧ r.metadata ≠ none ∧ Deliverable s kms r.scan) ↔
        Served s kms r := by simp [Served, hm]
    have hcontent : ((r₁.encryptedDEK, if item.skipMetadata then none else r₁.metadata) =
        (r.encryptedDEK, if item.skipMetadata then none else r.metadata)) ↔
        r₁.encryptedDEK = r.encryptedDEK ∧
          (item.skipMetadata = true ∨ r₁.metadata = r.metadata) := by
      cases item.skipMetadata <;> simp
    simp only [batchGetKeysAnswers_iff hreq hi, getKeyAnswers_iff hr, hr₁, Option.some.injEq,
      exists_eq_left', hserved, answers_agree_iff, hcontent]
  · simp only [batchGetKeyMetadataAnswers_iff hchain hcanon hidentity hi,
      getKeyMetadataAnswers_iff hchain hr, hr₁, Option.some.injEq, exists_eq_left']
    exact ⟨fun h => (h _).mp rfl, fun h metadata => by rw [h]⟩

/-- A batch read of version 1, with and without its metadata. -/
def sampleBatchFirst : BatchGetRequest :=
  ⟨[⟨sampleText, 1, false⟩, ⟨sampleText, 1, true⟩], false, some sampleContext⟩

/-- The key has been rotated; a batch that asks for version 1 agrees with `GetKey`. -/
theorem batchReads_agree_rotated :
    ∃ q, Reachable sampleService sampleKMS q ∧ q.state.table.rows.map (·.version) = [1, 2] ∧
      ∀ i item, sampleBatchFirst.keys[i]? = some item → ∀ answer,
        BatchGetKeysAnswers sampleService sampleKMS q.state sampleBatchFirst i answer ↔
          GetKeyAnswers sampleService sampleKMS q.state (some sampleContext) item answer := by
  let q := samplePool [.start sampleCreate, .finish 0, .start sampleRotate, .finish 1]
  have hp : Reachable sampleService sampleKMS q := samplePool_reachable _
  have hcanon : Canonical sampleService sampleBatchFirst := by
    intro item hitem
    refine ⟨sampleID, ?_⟩
    simp only [sampleBatchFirst, List.mem_cons, List.not_mem_nil, or_false] at hitem
    rcases hitem with rfl | rfl <;> rfl
  have hstored : ∀ item ∈ sampleBatchFirst.keys,
      itemRow sampleService q.state.table item ≠ none := by
    decide +kernel
  have hrows : ∀ item ∈ sampleBatchFirst.keys, itemRow sampleService q.state.table item =
      batchRow sampleService q.state.table item := by decide +kernel
  have hlive : ∀ r ∈ q.state.table.rows, r.status ≠ .revoked := by decide +kernel
  refine ⟨q, hp, by decide +kernel,
    (batchReads_agree_iff hp hcanon rfl hstored).2.1.mpr fun item hitem r r₁ hr hr₁ hserved => ?_⟩
  obtain rfl : r = r₁ := Option.some.inj (hr.symm.trans ((hrows item hitem).trans hr₁))
  obtain ⟨_, -, hread⟩ := itemRow_eq_some.mp hr
  have hdel : Deliverable sampleService sampleKMS r.scan := hserved.elim id And.right
  exact ⟨hdel, ⟨hlive r (Table.mem_of_requested hread).1, hdel⟩, rfl, .inr rfl⟩

/-- Does the response to `sampleBatchGet` carry neither the material nor the metadata of the row
that is asked for? -/
def carriesOtherRow (t : Table) (resp : BatchResponse GetKeyResponse) : Bool :=
  match resp.results, itemRow sampleService t ⟨sampleText, 0, false⟩ with
  | [⟨_, .ok g⟩], some r =>
    g.keyMaterial.encryptedKeyData ≠ r.encryptedDEK && g.metadata ≠ r.metadata
  | _, _ => false

/-- A key is created and rotated; a batch read of its latest version hands out the material and the
metadata of its first version. -/
theorem batchGetKeys_first_version :
    ∃ q r resp w' g, Reachable sampleService sampleKMS q ∧
      (∀ r ∈ q.state.table.rows, r.status ≠ .revoked) ∧
      itemRow sampleService q.state.table ⟨sampleText, 0, false⟩ = some r ∧
      Act.Runs (worldSem googleUUID sampleKMS) (sampleService.batchGetKeys sampleBatchGet) q.state
        (.ok resp) w' ∧
      resp.results.map (·.result) = [.ok g] ∧
      g.keyMaterial.encryptedKeyData ≠ r.encryptedDEK ∧ g.metadata ≠ r.metadata := by
  let q := samplePool [.start sampleCreate, .finish 0, .start sampleRotate, .finish 1]
  obtain ⟨resp, w', hrun, hcheck⟩ := exists_run (sampleService.batchGetKeys sampleBatchGet) q.state
    (carriesOtherRow q.state.table) (by decide +kernel)
  unfold carriesOtherRow at hcheck
  split at hcheck
  · rename_i keyId g r hresults hrow
    simp only [Bool.and_eq_true, decide_eq_true_eq] at hcheck
    refine ⟨q, r, resp, w', g, samplePool_reachable _, by decide +kernel, hrow, hrun, ?_, hcheck⟩
    rw [hresults]
    rfl
  · cases hcheck

end Polykey
