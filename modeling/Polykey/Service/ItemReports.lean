/-
# One result for each item

`BatchRevokeKeys` and `BatchGetKeyMetadata`, asked to go on after errors, make their results in two
goes: first those of the items whose text is no id, then those of the repository call.  Neither goes
back to the request to put the two together.

* `BatchRevokeKeys` leaves out a text it has seen, and its results are in the order of the request
  only when the texts that are no ids stand first.  What it says of a key is what became of the call
  as a whole, not of the key: a key that has no rows is reported as revoked
  (`batchRevoke_truthful_iff`).
* `BatchGetKeyMetadata` reports an item whose text is no id by both goes, and after a failed call it
  reports the others under the canonical text of their id (`batchMetadata_onePerItem_iff`).
-/
import Polykey.Service.Revocation

namespace Polykey

open Lib

/-! ## 1. The texts of a request -/

namespace KeyService

/-- A result under this text is for the item: the text of the item, or the canonical text of its
id. -/
def Names (s : KeyService) (keyId text : String) : Prop :=
  text = keyId ∨ ∃ id, keyIDFromString s.uuid keyId = .ok id ∧ text = id.string s.uuid

variable {s : KeyService}

theorem not_isID {text : String} : ¬ s.IsID text ↔ ∃ e, keyIDFromString s.uuid text = .error e := by
  unfold IsID
  cases keyIDFromString s.uuid text with
  | error e => simp
  | ok id => simp

/-- A result under a text that is no id is for an item that is none. -/
theorem Names.not_isID {keyId text : String} (h : s.Names keyId text) (htext : ¬ s.IsID text) :
    ¬ s.IsID keyId := by
  rcases h with rfl | ⟨id, -, rfl⟩
  · exact htext
  · exact absurd (isID_string id) htext

/-! ### The items that are no ids -/

section Invalid

variable {α : Type} {keyIds : List String}

theorem invalidItems_cons_ok {keyId : String} {id : KeyID}
    (h : keyIDFromString s.uuid keyId = .ok id) :
    (s.invalidItems (keyId :: keyIds) : List (ItemResult α)) = s.invalidItems keyIds := by
  unfold invalidItems
  simp [h]

theorem invalidItems_cons_error {keyId : String} {e : Err}
    (h : keyIDFromString s.uuid keyId = .error e) :
    (s.invalidItems (keyId :: keyIds) : List (ItemResult α)) =
      ⟨keyId, .error e.text⟩ :: s.invalidItems keyIds := by
  unfold invalidItems
  simp [h]

theorem invalidItems_append (keyIds keyIds' : List String) :
    (s.invalidItems (keyIds ++ keyIds') : List (ItemResult α)) =
      s.invalidItems keyIds ++ s.invalidItems keyIds' := List.filterMap_append

theorem mem_invalidItems {out : ItemResult α} (h : out ∈ s.invalidItems keyIds) :
    ¬ s.IsID out.keyId ∧ out.result.isOk = false := by
  obtain ⟨keyId, -, hout⟩ := List.mem_filterMap.mp h
  split at hout
  · rename_i e he
    cases hout
    exact ⟨not_isID.mpr ⟨e, he⟩, rfl⟩
  · cases hout

/-- Where no text is an id, each is reported. -/
theorem forall₂_invalidItems (h : ∀ keyId ∈ keyIds, ¬ s.IsID keyId) :
    List.Forall₂ (fun keyId (out : ItemResult α) => out.keyId = keyId ∧ out.result.isOk = false)
      keyIds (s.invalidItems keyIds) := by
  induction keyIds with
  | nil => exact .nil
  | cons keyId keyIds ih =>
    obtain ⟨e, he⟩ := not_isID.mp (h keyId (by simp))
    rw [invalidItems_cons_error he]
    exact .cons ⟨rfl, rfl⟩ (ih fun keyId' h' => h keyId' (by simp [h']))

end Invalid

/-! ## 2. The loop of `BatchRevokeKeys` -/

/-- The ids that the loop collects, when it has seen the given texts. -/
def newIds (s : KeyService) : List String → List String → List KeyID
  | _, [] => []
  | seen, keyId :: keyIds =>
    match keyIDFromString s.uuid keyId with
    | .error _ => s.newIds seen keyIds
    | .ok id =>
      if keyId ∈ seen then s.newIds seen keyIds else id :: s.newIds (keyId :: seen) keyIds

variable {seen keyIds : List String} {keyId : String}

theorem newIds_cons_error {e : Err} (h : keyIDFromString s.uuid keyId = .error e) :
    s.newIds seen (keyId :: keyIds) = s.newIds seen keyIds := by
  rw [newIds, h]

theorem newIds_cons_ok {id : KeyID} (h : keyIDFromString s.uuid keyId = .ok id) :
    s.newIds seen (keyId :: keyIds) =
      if keyId ∈ seen then s.newIds seen keyIds else id :: s.newIds (keyId :: seen) keyIds := by
  rw [newIds, h]

theorem foldl_add (keyIds : List String) (items : RevokeItems) :
    (keyIds.foldl (RevokeItems.add s) items).keyIDs = items.keyIDs ++ s.newIds items.seen keyIds ∧
      (keyIds.foldl (RevokeItems.add s) items).failed =
        items.failed ++ s.invalidItems keyIds := by
  induction keyIds generalizing items with
  | nil => simp [newIds, invalidItems]
  | cons keyId keyIds ih =>
    obtain ⟨hids, hfailed⟩ := ih (items.add s keyId)
    rw [List.foldl_cons, hids, hfailed]
    unfold RevokeItems.add
    split
    · rename_i e he
      rw [invalidItems_cons_error he, newIds_cons_error he]
      simp
    · rename_i id hid
      rw [invalidItems_cons_ok hid, newIds_cons_ok hid]
      split <;> simp

theorem newIds_append_invalid {invalid : List String} (h : ∀ keyId ∈ invalid, ¬ s.IsID keyId)
    (keyIds : List String) : s.newIds seen (invalid ++ keyIds) = s.newIds seen keyIds := by
  induction invalid with
  | nil => rfl
  | cons keyId invalid ih =>
    obtain ⟨e, he⟩ := not_isID.mp (h keyId (by simp))
    rw [List.cons_append, newIds_cons_error he]
    exact ih fun keyId' h' => h keyId' (by simp [h'])

/-- Texts that are ids and come once are all collected. -/
theorem forall₂_newIds (hids : ∀ keyId ∈ keyIds, s.IsID keyId)
    (hnodup : keyIds.Nodup) (hseen : ∀ keyId ∈ keyIds, keyId ∉ seen) :
    List.Forall₂ (fun keyId id => keyIDFromString s.uuid keyId = .ok id) keyIds
      (s.newIds seen keyIds) := by
  induction keyIds generalizing seen with
  | nil => exact .nil
  | cons keyId keyIds ih =>
    obtain ⟨id, hid⟩ := hids keyId (by simp)
    obtain ⟨hnew, hnodup⟩ := List.nodup_cons.mp hnodup
    rw [newIds_cons_ok hid, if_neg (hseen keyId (by simp))]
    refine .cons hid (ih (fun keyId' h' => hids keyId' (by simp [h'])) hnodup fun keyId' h' => ?_)
    rw [List.mem_cons, not_or]
    exact ⟨fun heq => hnew (heq ▸ h'), hseen keyId' (by simp [h'])⟩

theorem length_newIds_le (seen keyIds : List String) :
    (s.newIds seen keyIds).length ≤ keyIds.length := by
  induction keyIds generalizing seen with
  | nil => exact le_refl _
  | cons keyId keyIds ih =>
    unfold newIds
    split
    · exact Nat.le_succ_of_le (ih seen)
    · split
      · exact Nat.le_succ_of_le (ih seen)
      · exact Nat.succ_le_succ (ih _)

/-- Where as many ids are collected as there are texts, each text is a new one. -/
theorem nodup_of_length_newIds
    (h : (s.newIds seen keyIds).length = keyIds.length) :
    keyIds.Nodup ∧ ∀ keyId ∈ keyIds, keyId ∉ seen := by
  induction keyIds generalizing seen with
  | nil => simp
  | cons keyId keyIds ih =>
    have hle := length_newIds_le (s := s) seen keyIds
    unfold newIds at h
    split at h
    · rw [List.length_cons] at h
      omega
    split at h
    · rw [List.length_cons] at h
      omega
    · rename_i hnew
      obtain ⟨hnodup, hseen⟩ := ih (Nat.succ.inj h)
      refine ⟨List.nodup_cons.mpr ⟨fun hmem => hseen keyId hmem (by simp), hnodup⟩, ?_⟩
      intro keyId' h'
      rcases List.mem_cons.mp h' with rfl | h'
      · exact hnew
      · exact fun hmem => hseen keyId' h' (by simp [hmem])

end KeyService

/-! ## 3. What `BatchRevokeKeys` reports

The outcome of the one repository call is a parameter. The results are the texts that are no ids,
and then one verdict for all others; the response is right if that is what the items deserve, in
that order. -/

/-- The world, in which the repository answers the given outcome to the call that revokes. -/
def revokingSem (uuid : UUIDPkg) (kms : KMS) (outcome : Except Err Unit) : Sem Effect World
  | .repo (.revokeBatchKeys ids), w, r, w' =>
    r = outcome ∧ worldSem uuid kms (.repo (.revokeBatchKeys ids)) w r w'
  | op, w, r, w' => worldSem uuid kms op w r w'

/-- A run of the world is a run for the outcome that the call has had. -/
theorem exists_revoking {s : KeyService} {kms : KMS} {w w' : World} {req : BatchRevokeKeysRequest}
    {resp : BatchResponse Unit}
    (h : Act.Runs (worldSem s.uuid kms) (s.batchRevokeKeys req) w (.ok resp) w') :
    ∃ outcome, Act.Runs (revokingSem s.uuid kms outcome) (s.batchRevokeKeys req) w (.ok resp)
      w' := by
  unfold KeyService.batchRevokeKeys at h ⊢
  split at h
  · cases h.1
  rename_i hidentity
  simp only [if_neg hidentity]
  split at h
  · cases h.1
  obtain ⟨outcome, w₁, hcall, hrest⟩ := Act.runs_bind_ok.mp h
  obtain ⟨r, hcall, rfl⟩ := Act.runs_tryCall.mp (Act.runs_attempt.mp hcall)
  refine ⟨outcome, Act.runs_bind_ok.mpr ⟨outcome, w₁,
    Act.runs_attempt.mpr (Act.runs_tryCall.mpr ⟨outcome, ⟨rfl, hcall⟩, rfl⟩), ?_⟩⟩
  cases outcome with
  | error e =>
    dsimp only at hrest ⊢
    split at hrest
    · cases hrest.1
    · rename_i hgo
      rw [if_neg hgo]
      exact hrest
  | ok u => exact hrest

/-- The result is for the item, and a success if and only if the key of the item is there and
revoked, the table being as given after the call. -/
def RevokeReported (s : KeyService) (t : Table) (keyId : String) (out : ItemResult Unit) : Prop :=
  s.Names keyId out.keyId ∧
    (out.result.isOk = true ↔ ∃ id, keyIDFromString s.uuid keyId = .ok id ∧ Revoked t id)

/-- The response of `BatchRevokeKeys` is right. -/
structure RevokeTruthful (s : KeyService) (t : Table) (req : BatchRevokeKeysRequest)
    (resp : BatchResponse Unit) : Prop where
  results : List.Forall₂ (RevokeReported s t) req.keys resp.results
  successes : resp.successfulCount = resp.results.countP (·.result.isOk)
  failures : resp.failedCount = resp.results.countP (!·.result.isOk)

/-- What it takes: the texts that are no ids come first and the others only once, and the outcome of
the call says what becomes of each key. -/
structure RevokesAlike (s : KeyService) (t : Table) (outcome : Except Err Unit)
    (req : BatchRevokeKeysRequest) : Prop where
  ordered : ∃ invalid valid, req.keys = invalid ++ valid ∧ (∀ keyId ∈ invalid, ¬ s.IsID keyId) ∧
    (∀ keyId ∈ valid, s.IsID keyId) ∧ valid.Nodup
  stored : outcome = .ok () → ∀ keyId ∈ req.keys, ∀ id, keyIDFromString s.uuid keyId = .ok id →
    ∃ r ∈ t.rows, r.id = id
  unrevoked : ∀ e, outcome = .error e → ∀ keyId ∈ req.keys, ∀ id,
    keyIDFromString s.uuid keyId = .ok id → ¬ Revoked t id

section Revoke

variable {s : KeyService} {kms : KMS} {w w' : World} {outcome : Except Err Unit}
  {req : BatchRevokeKeysRequest} {resp : BatchResponse Unit}

/-- The table after the call. -/
def afterRevoke (t : Table) (ids : List KeyID) (now : Time) : Except Err Unit → Table
  | .ok _ => t.revoke ids now
  | .error _ => t

theorem runs_revokeBatchKeys {ids : List KeyID} {r : Except Err Unit}
    (h : Act.Runs (revokingSem s.uuid kms outcome) (repo (.revokeBatchKeys ids)) w r w') :
    r = outcome ∧ ∃ now, w'.table = afterRevoke w.table ids now outcome := by
  obtain ⟨r, ⟨rfl, now, -, t', hans, rfl⟩, rfl⟩ := Act.runs_tryCall.mp h
  refine ⟨rfl, timestamptz now, ?_⟩
  rcases hans with hexec | ⟨⟨e, rfl⟩, rfl⟩
  · obtain ⟨rfl, rfl⟩ := Prod.mk.inj hexec
    rfl
  · rfl

/-- The counts of a response whose second half has one verdict. -/
theorem countP_reports {invalid : List (ItemResult Unit)}
    (hinvalid : ∀ out ∈ invalid, out.result.isOk = false) (ids : List KeyID)
    (verdict : Except String Unit) :
    let results := invalid ++ ids.map fun id => ⟨id.string s.uuid, verdict⟩
    results.countP (·.result.isOk) = (if verdict.isOk then ids.length else 0) ∧
      results.countP (!·.result.isOk) =
        invalid.length + if verdict.isOk then 0 else ids.length := by
  have hnone : invalid.countP (·.result.isOk) = 0 :=
    List.countP_eq_zero.mpr fun out hout => by simp [hinvalid out hout]
  have hall : invalid.countP (!·.result.isOk) = invalid.length :=
    List.countP_eq_length.mpr fun out hout => by simp [hinvalid out hout]
  simp only [List.countP_append, hnone, hall, List.countP_map]
  cases hverdict : verdict.isOk with
  | false => simp [Function.comp_def, hverdict]
  | true => simp [Function.comp_def, hverdict]

/-- **What the method does**, in terms of the texts and the outcome. -/
theorem runs_batchRevokeKeys (hgo : req.continueOnError = true)
    (h : Act.Runs (revokingSem s.uuid kms outcome) (s.batchRevokeKeys req) w (.ok resp) w') :
    (∃ now, w'.table = afterRevoke w.table (s.newIds [] req.keys) now outcome) ∧
      resp.results = s.invalidItems req.keys ++ (s.newIds [] req.keys).map
        (fun id => ⟨id.string s.uuid, outcome.mapError Err.text⟩) ∧
      resp.successfulCount = resp.results.countP (·.result.isOk) ∧
      resp.failedCount = resp.results.countP (!·.result.isOk) := by
  unfold KeyService.batchRevokeKeys at h
  split at h
  · cases h.1
  rw [hgo] at h
  have hitems : Act.Runs (revokingSem s.uuid kms outcome) (s.revokeItems req) w (.ok resp) w' := by
    cases hfirst : s.firstInvalid req.keys with
    | none => simpa only [hfirst] using h
    | some e => simpa only [hfirst] using h
  obtain ⟨hids, hfailed⟩ := KeyService.foldl_add (s := s) req.keys ⟨[], [], []⟩
  rw [List.nil_append] at hids hfailed
  unfold KeyService.revokeItems at hitems
  simp only [hids, hfailed, hgo] at hitems
  obtain ⟨r, w₁, hcall, hrest⟩ := Act.runs_bind_ok.mp hitems
  obtain ⟨rfl, now, htable⟩ := runs_revokeBatchKeys (Act.runs_attempt.mp hcall)
  have hinvalid : ∀ out ∈ (s.invalidItems req.keys : List (ItemResult Unit)),
      out.result.isOk = false := fun out hout => (KeyService.mem_invalidItems hout).2
  have hcounts := countP_reports (s := s) hinvalid (s.newIds [] req.keys) (r.mapError Err.text)
  cases r with
  | error e =>
    simp only [Bool.not_true, Bool.false_eq_true, if_false, Act.runs_bind_ok,
      Act.runs_pure] at hrest
    obtain ⟨now', w₂, htime, hresp, rfl⟩ := hrest
    cases hresp
    refine ⟨⟨now, ?_⟩, rfl, hcounts.1.symm, ?_⟩
    · rw [worldSem_table (Act.runs_call.mp htime) rfl, htable, hids]
    · refine Eq.trans ?_ hcounts.2.symm
      simp [Except.mapError, Except.isOk, Except.toBool]
  | ok u =>
    simp only [Act.runs_bind_ok, Act.runs_pure] at hrest
    obtain ⟨now', w₂, htime, hresp, rfl⟩ := hrest
    cases hresp
    refine ⟨⟨now, ?_⟩, rfl, hcounts.1.symm, hcounts.2.symm⟩
    rw [worldSem_table (Act.runs_call.mp htime) rfl, htable, hids]

theorem exists_row_of_revoke {t : Table} {ids : List KeyID} {now : Time} {id : KeyID}
    (h : Revoked (t.revoke ids now) id) : ∃ r ∈ t.rows, r.id = id := by
  obtain ⟨⟨r, hr, hid⟩, -⟩ := h
  obtain ⟨r₀, hr₀, rfl⟩ := Table.mem_mapRows.mp hr
  refine ⟨r₀, hr₀, ?_⟩
  rw [← hid]
  split <;> rfl

/-- A relation that carries a property from the right says it of everything on the left. -/
theorem forall_left_of_forall₂ {α β : Type} {R : α → β → Prop} {p : α → Prop} {q : β → Prop}
    {as : List α} {bs : List β} (h : List.Forall₂ R as bs) (hq : ∀ b ∈ bs, q b)
    (hp : ∀ a b, R a b → q b → p a) : ∀ a ∈ as, p a := by
  induction h with
  | nil => simp
  | cons hab _ ih =>
    rw [List.forall_mem_cons] at hq ⊢
    exact ⟨hp _ _ hab hq.1, ih hq.2⟩

/-- Results that stand in the order of the items: the items that are no ids stand first. -/
theorem exists_split_of_names {keyIds : List String} {outs : List (ItemResult Unit)}
    (h : List.Forall₂ (fun keyId (out : ItemResult Unit) => s.Names keyId out.keyId) keyIds
      (s.invalidItems keyIds ++ outs)) :
    ∃ invalid valid, keyIds = invalid ++ valid ∧ (∀ keyId ∈ invalid, ¬ s.IsID keyId) ∧
      (∀ keyId ∈ valid, s.IsID keyId) ∧ valid.length = outs.length := by
  have hfirst := List.forall₂_take_append _ _ _ h
  have hrest := List.forall₂_drop_append _ _ _ h
  set n := (s.invalidItems keyIds : List (ItemResult Unit)).length with hn
  have hinvalid : ∀ keyId ∈ keyIds.take n, ¬ s.IsID keyId :=
    forall_left_of_forall₂ hfirst (fun out hout => (KeyService.mem_invalidItems hout).1)
      fun keyId out hnames hout => hnames.not_isID hout
  -- the items of the first half account for all the results there, so the second half has none
  have hlength : (s.invalidItems (keyIds.take n) : List (ItemResult Unit)).length = n := by
    rw [← (KeyService.forall₂_invalidItems hinvalid).length_eq, hfirst.length_eq]
  have hsum := congrArg List.length
    (KeyService.invalidItems_append (s := s) (α := Unit) (keyIds.take n) (keyIds.drop n))
  rw [List.take_append_drop, List.length_append, hlength, ← hn] at hsum
  have hnil : (s.invalidItems (keyIds.drop n) : List (ItemResult Unit)) = [] :=
    List.length_eq_zero_iff.mp (by omega)
  exact ⟨keyIds.take n, keyIds.drop n, (List.take_append_drop _ _).symm, hinvalid,
    KeyService.invalidItems_eq_nil.mp hnil, hrest.length_eq⟩

/-- Of a key that an item names, a right response says what became of the call. -/
theorem RevokeTruthful.verdict {t : Table} {ids : List KeyID} {verdict : Except String Unit}
    (h : RevokeTruthful s t req resp)
    (hresults : resp.results = s.invalidItems req.keys ++
      ids.map fun id => ⟨id.string s.uuid, verdict⟩) :
    ∀ keyId ∈ req.keys, ∀ id, keyIDFromString s.uuid keyId = .ok id →
      (verdict.isOk = true ↔ Revoked t id) := by
  refine forall_left_of_forall₂ h.results (q := (· ∈ resp.results)) (fun _ hout => hout) ?_
  intro keyId out ⟨hnames, hout⟩ hmem id hid
  rw [hresults] at hmem
  rcases List.mem_append.mp hmem with hmem | hmem
  · exact absurd ⟨id, hid⟩ (hnames.not_isID (KeyService.mem_invalidItems hmem).1)
  · obtain ⟨id', -, rfl⟩ := List.mem_map.mp hmem
    refine hout.trans ⟨?_, fun hrevoked => ⟨id, hid, hrevoked⟩⟩
    rintro ⟨id₀, hid₀, hrevoked⟩
    cases hid.symm.trans hid₀
    exact hrevoked

/-- What became of the call is what became of each key. -/
theorem RevokesAlike.verdict {ids : List KeyID} {now : Time} {t : Table}
    (h : RevokesAlike s t outcome req) {keyId : String} (hkeyId : keyId ∈ req.keys) {id : KeyID}
    (hid : keyIDFromString s.uuid keyId = .ok id) (hmem : id ∈ ids) :
    (outcome.mapError Err.text).isOk = true ↔ Revoked (afterRevoke t ids now outcome) id := by
  cases outcome with
  | ok _ => exact iff_of_true rfl (revoked_revoke (h.stored rfl keyId hkeyId id hid) hmem)
  | error e =>
    have hno : ¬ Revoked t id := h.unrevoked e rfl keyId hkeyId id hid
    exact iff_of_false (by simp [Except.mapError, Except.isOk, Except.toBool]) hno

/-- Then the results are right. -/
theorem RevokesAlike.reported {now : Time} {t : Table} (h : RevokesAlike s t outcome req) :
    List.Forall₂ (RevokeReported s (afterRevoke t (s.newIds [] req.keys) now outcome)) req.keys
      (s.invalidItems req.keys ++ (s.newIds [] req.keys).map
        fun id => ⟨id.string s.uuid, outcome.mapError Err.text⟩) := by
  obtain ⟨invalid, valid, hkeys, hinvalid, hvalid, hnodup⟩ := h.ordered
  have hunseen : ∀ keyId ∈ valid, keyId ∉ ([] : List String) := by simp
  have hids := KeyService.forall₂_newIds hvalid hnodup hunseen
  rw [← KeyService.newIds_append_invalid hinvalid, ← hkeys] at hids
  have hcollected : ∀ keyId ∈ valid, keyId ∈ req.keys ∧
      ∀ id, keyIDFromString s.uuid keyId = .ok id → id ∈ s.newIds [] req.keys := by
    refine fun keyId hmem => ⟨hkeys ▸ List.mem_append_right _ hmem, ?_⟩
    refine forall_left_of_forall₂ (p := fun keyId => ∀ id, keyIDFromString s.uuid keyId = .ok id →
      id ∈ s.newIds [] req.keys) hids (fun _ hid => hid) ?_ keyId hmem
    intro keyId id' hid' hmem' id hid
    cases hid.symm.trans hid'
    exact hmem'
  have hfailed : (s.invalidItems req.keys : List (ItemResult Unit)) = s.invalidItems invalid := by
    rw [hkeys, KeyService.invalidItems_append, KeyService.invalidItems_eq_nil.mpr hvalid,
      List.append_nil]
  set t' := afterRevoke t (s.newIds [] req.keys) now outcome with ht'
  have hfirst : List.Forall₂ (RevokeReported s t') invalid (s.invalidItems invalid) := by
    refine ((List.forall₂_and_left _ _).mpr
      ⟨hinvalid, KeyService.forall₂_invalidItems hinvalid⟩).imp fun keyId out hout => ?_
    obtain ⟨hno, hkeyId, hresult⟩ := hout
    refine ⟨.inl hkeyId, iff_of_false (by simp [hresult]) ?_⟩
    rintro ⟨id, hid, -⟩
    exact hno ⟨id, hid⟩
  have hrest : List.Forall₂ (RevokeReported s t') valid ((s.newIds [] req.keys).map
      fun id => ⟨id.string s.uuid, outcome.mapError Err.text⟩) := by
    refine List.forall₂_map_right_iff.mpr
      (((List.forall₂_and_left _ _).mpr ⟨hcollected, hids⟩).imp fun keyId id hout => ?_)
    obtain ⟨⟨hmem, hcollected⟩, hid⟩ := hout
    refine ⟨.inr ⟨id, hid, rfl⟩, (h.verdict hmem hid (hcollected id hid)).trans
      ⟨fun hrevoked => ⟨id, hid, hrevoked⟩, ?_⟩⟩
    rintro ⟨id', hid', hrevoked⟩
    cases hid.symm.trans hid'
    exact hrevoked
  have hboth : List.Forall₂ (RevokeReported s t') (invalid ++ valid)
      (s.invalidItems invalid ++ _) := List.rel_append hfirst hrest
  rwa [← hkeys, ← hfailed] at hboth

/-- `BatchRevokeKeys`, asked to go on, **reports the truth if and only if** the texts that are no
ids come first, no other text comes twice, and each key named has rows when the call of the
repository succeeds and is not revoked already when it fails. -/
theorem batchRevoke_truthful_iff (hgo : req.continueOnError = true)
    (h : Act.Runs (revokingSem s.uuid kms outcome) (s.batchRevokeKeys req) w (.ok resp) w') :
    RevokeTruthful s w'.table req resp ↔ RevokesAlike s w.table outcome req := by
  obtain ⟨⟨now, htable⟩, hresults, hsuccesses, hfailures⟩ := runs_batchRevokeKeys hgo h
  constructor
  · intro htrue
    have hall := htrue.results
    rw [hresults] at hall
    obtain ⟨invalid, valid, hkeys, hinvalid, hvalid, hlength⟩ :=
      exists_split_of_names (hall.imp fun _ _ hout => hout.1)
    rw [List.length_map, hkeys, KeyService.newIds_append_invalid hinvalid] at hlength
    refine ⟨⟨invalid, valid, hkeys, hinvalid, hvalid,
      (KeyService.nodup_of_length_newIds hlength.symm).1⟩, ?_, ?_⟩
    · rintro rfl keyId hmem id hid
      have hrevoked := (htrue.verdict hresults keyId hmem id hid).mp rfl
      rw [htable] at hrevoked
      exact exists_row_of_revoke hrevoked
    · rintro e rfl keyId hmem id hid hrevoked
      rw [← show w'.table = w.table from htable] at hrevoked
      cases (htrue.verdict hresults keyId hmem id hid).mpr hrevoked
  · intro hcond
    refine ⟨?_, hsuccesses, hfailures⟩
    rw [hresults, htable]
    exact hcond.reported

end Revoke

theorem sampleStep_revoking : sampleStep.Sound (revokingSem googleUUID sampleKMS (.ok ())) := by
  intro op w r w' hstep
  have hworld := sampleStep_sound op w r w' hstep
  cases op with
  | repo op =>
    cases op with
    | revokeBatchKeys ids =>
      obtain ⟨rfl, -⟩ := Prod.mk.inj (Option.some.inj hstep)
      exact ⟨rfl, hworld⟩
    | _ => exact hworld
  | _ => exact hworld

/-- The store after one key has been created. -/
def oneKey : World := (samplePool [.start sampleCreate, .finish 0]).state

/-- A text that is no id, and the key of the store. -/
def revokeTwo : BatchRevokeKeysRequest := ⟨["key", sampleText], true, some sampleContext⟩

theorem revokesAlike_two : RevokesAlike sampleService oneKey.table (.ok ()) revokeTwo := by
  have hkey : ¬ sampleService.IsID "key" := by
    have herror : (keyIDFromString googleUUID "key").isOk = false := by decide +kernel
    rintro ⟨id, hid⟩
    rw [show keyIDFromString googleUUID "key" = .ok id from hid] at herror
    cases herror
  have hrow : ∃ r ∈ oneKey.table.rows, r.id = sampleID := by decide +kernel
  refine ⟨⟨["key"], [sampleText], rfl, by simpa using hkey, ?_, List.nodup_singleton _⟩, ?_, ?_⟩
  · exact List.forall_mem_singleton.mpr (KeyService.isID_string (s := sampleService) sampleID)
  · intro _ keyId hmem id hid
    rcases List.mem_pair.mp hmem with rfl | rfl
    · exact absurd ⟨id, hid⟩ hkey
    · cases (keyIDFromString_string googleUUID sampleID).symm.trans hid
      exact hrow
  · intro e he
    cases he

/-- Both are answered right. -/
theorem batchRevoke_truthful_iff_two : ∃ resp w',
    Act.Runs (revokingSem googleUUID sampleKMS (.ok ())) (sampleService.batchRevokeKeys revokeTwo)
      oneKey (.ok resp) w' ∧ RevokeTruthful sampleService (World.table w') revokeTwo resp := by
  obtain ⟨r, w', hrun, hok⟩ := Prog.exists_runs sampleStep_revoking
    (sampleService.batchRevokeKeys revokeTwo) oneKey (·.1.isOk) (by decide +kernel)
  cases r with
  | error e => cases hok
  | ok resp =>
    exact ⟨resp, w', hrun,
      (@batchRevoke_truthful_iff sampleService sampleKMS _ _ _ _ _ rfl hrun).mpr revokesAlike_two⟩

/-- **A key that is not there is reported as revoked.** -/
theorem batchRevoke_reports_missing : ∃ req resp w', req.continueOnError = true ∧
    Act.Runs (worldSem googleUUID sampleKMS) (sampleService.batchRevokeKeys req) (.init 0)
      (.ok resp) w' ∧ ¬ RevokeTruthful sampleService (World.table w') req resp := by
  obtain ⟨r, w', hrun, hcheck⟩ := Prog.exists_runs sampleStep_sound
    (sampleService.batchRevokeKeys ⟨[sampleText], true, some sampleContext⟩) (.init 0)
    (fun out => out.1.toOption.any (·.results.all (·.result.isOk)) && out.2.table.rows.isEmpty)
    (by decide +kernel)
  rw [Bool.and_eq_true, List.isEmpty_iff] at hcheck
  cases r with
  | error e => cases hcheck.1
  | ok resp =>
    refine ⟨_, resp, w', rfl, hrun, fun htrue => ?_⟩
    have hall : ∀ out ∈ resp.results, out.result.isOk = true := List.all_eq_true.mp hcheck.1
    have hrevoked := forall_left_of_forall₂ htrue.results hall
      (fun keyId out hout hok => hout.2.mp hok) sampleText (List.mem_singleton.mpr rfl)
    obtain ⟨id, -, ⟨row, hrow, -⟩, -⟩ := hrevoked
    rw [hcheck.2] at hrow
    cases hrow

/-! ## 4. What `BatchGetKeyMetadata` reports -/

/-- The world, in which the repository answers the given outcome to the call that fetches the
metadata, whatever is stored. -/
def fetchingSem (uuid : UUIDPkg) (kms : KMS) (outcome : Except Err (List KeyMetadata)) :
    Sem Effect World
  | .repo (.getBatchKeyMetadata _), w, r, w' =>
    r = outcome ∧ ∃ now, w.clock ≤ now ∧ w' = { w with clock := now }
  | op, w, r, w' => worldSem uuid kms op w r w'

theorem only_metadataResults (metadataMap : AList fun _ : String => KeyMetadata)
    (items : List KeyRequestItem) :
    Act.Only (· = EffectOp.timeNow) (KeyService.metadataResults metadataMap items) := by
  induction items with
  | nil => exact .pure _
  | cons item items ih =>
    unfold KeyService.metadataResults
    split
    · exact .bind (.call rfl) fun now => ih.bind fun rs => .pure _
    · exact ih.bind fun rs => .pure _

/-- An action that only looks at the clock runs here as it does in the world. -/
theorem runs_fetching_of_clock {uuid : UUIDPkg} {kms : KMS} {w w' : World}
    {outcome : Except Err (List KeyMetadata)} {α : Type} {p : Svc α}
    (hp : Act.Only (· = EffectOp.timeNow) p) {r : Except Err α}
    (h : Act.Runs (worldSem uuid kms) p w r w') :
    Act.Runs (fetchingSem uuid kms outcome) p w r w' := by
  have hsame : ∀ op, op = EffectOp.timeNow → ∀ w₁ w₂ r w₁', w₁ = w₂ →
      worldSem uuid kms op w₁ r w₁' → ∃ w₂', fetchingSem uuid kms outcome op w₂ r w₂' ∧
        w₁' = w₂' := by
    rintro _ rfl w₁ _ r w₁' rfl hstep
    exact ⟨w₁', hstep, rfl⟩
  obtain ⟨w'', hrun, rfl⟩ := Prog.Only.simulate hsame hp rfl h
  exact hrun

/-- A run of the world is a run for the outcome that the call has had. -/
theorem exists_fetching {s : KeyService} {kms : KMS} {w w' : World} {req : BatchGetRequest}
    {resp : BatchResponse GetKeyMetadataResponse}
    (h : Act.Runs (worldSem s.uuid kms) (s.batchGetKeyMetadata req) w (.ok resp) w') :
    ∃ outcome, Act.Runs (fetchingSem s.uuid kms outcome) (s.batchGetKeyMetadata req) w (.ok resp)
      w' := by
  unfold KeyService.batchGetKeyMetadata at h ⊢
  split at h
  · cases h.1
  rename_i hidentity
  simp only [if_neg hidentity]
  split at h
  · cases h.1
  obtain ⟨outcome, w₁, hcall, hrest⟩ := Act.runs_bind_ok.mp h
  obtain ⟨r, ⟨now, hnow, t', hans, rfl⟩, rfl⟩ := Act.runs_tryCall.mp (Act.runs_attempt.mp hcall)
  have htable : t' = w.table := by
    rcases hans with hexec | ⟨-, rfl⟩
    · exact (Prod.mk.inj hexec).2.symm
    · rfl
  subst htable
  refine ⟨outcome, Act.runs_bind_ok.mpr ⟨outcome, _,
    Act.runs_attempt.mpr (Act.runs_tryCall.mpr ⟨outcome, ⟨rfl, now, hnow, rfl⟩, rfl⟩), ?_⟩⟩
  refine runs_fetching_of_clock ?_ hrest
  cases outcome with
  | error e =>
    dsimp only
    split
    · exact .throw _
    · exact .bind (.call rfl) fun now => .pure _
  | ok metadataList =>
    exact .bind (only_metadataResults _ _) fun found => .bind (.call rfl) fun now => .pure _

/-- As many results as items, each under the text of its item, and every item counted. -/
structure OnePerItem (req : BatchGetRequest) (resp : BatchResponse GetKeyMetadataResponse) :
    Prop where
  length : resp.results.length = req.keys.length
  keyIds : resp.results.map (·.keyId) = req.keys.map (·.keyId)
  counts : resp.successfulCount + resp.failedCount = req.keys.length

section Metadata

variable {s : KeyService} {kms : KMS} {w w' : World} {req : BatchGetRequest}
  {resp : BatchResponse GetKeyMetadataResponse} {outcome : Except Err (List KeyMetadata)}

theorem metadataResults_keyIds {σ : Type} {sem : Sem Effect σ} {x x' : σ}
    {metadataMap : AList fun _ : String => KeyMetadata} {items : List KeyRequestItem}
    {found : List (ItemResult GetKeyMetadataResponse)}
    (h : Act.Runs sem (KeyService.metadataResults metadataMap items) x (.ok found) x') :
    found.map (·.keyId) = items.map (·.keyId) := by
  induction items generalizing x x' found with
  | nil =>
    obtain ⟨hfound, -⟩ := Act.runs_pure.mp h
    cases hfound
    rfl
  | cons item items ih =>
    unfold KeyService.metadataResults at h
    split at h
    · simp only [Act.runs_bind_ok, Act.runs_pure] at h
      obtain ⟨now, x₁, -, rest, x₂, hrest, hfound, -⟩ := h
      cases hfound
      exact congrArg (item.keyId :: ·) (ih hrest)
    · simp only [Act.runs_bind_ok, Act.runs_pure] at h
      obtain ⟨rest, x₁, hrest, hfound, -⟩ := h
      cases hfound
      exact congrArg (item.keyId :: ·) (ih hrest)

/-- The texts of the second half of the results. -/
def fetchedTexts (s : KeyService) (req : BatchGetRequest) :
    Except Err (List KeyMetadata) → List String
  | .ok _ => req.keys.map (·.keyId)
  | .error _ => (s.idsOrZero req.keys).map fun id => id.string s.uuid

/-- **What the method does**, in terms of the texts and the outcome. -/
theorem runs_batchGetKeyMetadata (hgo : req.continueOnError = true)
    (h : Act.Runs (fetchingSem s.uuid kms outcome) (s.batchGetKeyMetadata req) w (.ok resp) w') :
    (∃ found, resp.results = s.invalidItems (req.keys.map (·.keyId)) ++ found ∧
      found.map (·.keyId) = fetchedTexts s req outcome) ∧
      resp.successfulCount + resp.failedCount = resp.results.length := by
  unfold KeyService.batchGetKeyMetadata at h
  split at h
  · cases h.1
  rw [hgo] at h
  have hfetch : Act.Runs (fetchingSem s.uuid kms outcome) (s.fetchMetadata req) w (.ok resp)
      w' := by
    cases hfirst : s.firstInvalid (req.keys.map (·.keyId)) with
    | none => simpa only [hfirst] using h
    | some e => simpa only [hfirst] using h
  obtain ⟨r, w₁, hcall, hrest⟩ := Act.runs_bind_ok.mp hfetch
  obtain ⟨r, ⟨rfl, -⟩, rfl⟩ := Act.runs_tryCall.mp (Act.runs_attempt.mp hcall)
  cases r with
  | error e =>
    simp only [hgo, Bool.not_true, Bool.false_eq_true, if_false, Act.runs_bind_ok,
      Act.runs_pure] at hrest
    obtain ⟨now, w₂, -, hresp, -⟩ := hrest
    cases hresp
    refine ⟨⟨_, rfl, ?_⟩, Nat.zero_add _⟩
    simp [fetchedTexts]
  | ok metadataList =>
    simp only [Act.runs_bind_ok, Act.runs_pure] at hrest
    obtain ⟨found, w₂, hfound, now, w₃, -, hresp, -⟩ := hrest
    cases hresp
    refine ⟨⟨found, rfl, metadataResults_keyIds hfound⟩, ?_⟩
    have hsplit := List.length_eq_countP_add_countP
      (fun out : ItemResult GetKeyMetadataResponse => out.result.isOk) (l := found)
    simp only [Bool.not_eq_true, Bool.decide_eq_false] at hsplit
    simp only [List.length_append]
    omega

/-- `BatchGetKeyMetadata`, asked to go on, **returns one result per item if and only if** every
text is an id and, when the call of the repository fails, the canonical text of one. -/
theorem batchMetadata_onePerItem_iff (hgo : req.continueOnError = true)
    (h : Act.Runs (fetchingSem s.uuid kms outcome) (s.batchGetKeyMetadata req) w (.ok resp) w') :
    OnePerItem req resp ↔ (∀ item ∈ req.keys, s.IsID item.keyId) ∧
      ∀ e, outcome = .error e → Canonical s req := by
  obtain ⟨⟨found, hresults, htexts⟩, hcounts⟩ := runs_batchGetKeyMetadata hgo h
  have hlength : found.length = req.keys.length := by
    rw [← List.length_map (f := ItemResult.keyId), htexts]
    cases outcome with
    | ok _ => exact List.length_map _
    | error _ => simp [fetchedTexts, KeyService.idsOrZero]
  let invalid : List (ItemResult GetKeyMetadataResponse) := s.invalidItems (req.keys.map (·.keyId))
  have hids : invalid = [] ↔ ∀ item ∈ req.keys, s.IsID item.keyId :=
    KeyService.invalidItems_eq_nil.trans List.forall_mem_map
  have hresults : resp.results = invalid ++ found := hresults
  constructor
  · intro hone
    have hnil : invalid = [] := by
      have hsum := hone.length
      rw [hresults, List.length_append] at hsum
      exact List.length_eq_zero_iff.mp (by omega)
    refine ⟨hids.mp hnil, ?_⟩
    rintro e rfl item hitem
    have hkeyIds := hone.keyIds
    rw [hresults, hnil, List.nil_append, htexts, fetchedTexts, KeyService.idsOrZero,
      List.map_map] at hkeyIds
    exact ⟨_, (List.map_inj_left.mp hkeyIds item hitem).symm⟩
  · rintro ⟨hall, hcanon⟩
    have hkeyIds : fetchedTexts s req outcome = req.keys.map (·.keyId) := by
      cases outcome with
      | ok _ => rfl
      | error e =>
        rw [fetchedTexts, KeyService.idsOrZero, List.map_map]
        refine List.map_inj_left.mpr fun item hitem => ?_
        obtain ⟨id, hid⟩ := hcanon e rfl item hitem
        simp [hid, Except.toOption]
    rw [hids.mpr hall, List.nil_append] at hresults
    rw [hresults] at hcounts
    exact ⟨hresults ▸ hlength, by rw [hresults, htexts, hkeyIds], hcounts.trans hlength⟩

end Metadata

/-- The key that is stored, and one that is not. -/
def foundAndMissing : BatchGetRequest :=
  ⟨[⟨sampleText, 0, false⟩, ⟨KeyID.string googleUUID ⟨8000⟩, 0, false⟩], true, some sampleContext⟩

theorem foundAndMissing_canonical : Canonical sampleService foundAndMissing := by
  intro item hitem
  rcases List.mem_pair.mp hitem with rfl | rfl
  · exact ⟨sampleID, rfl⟩
  · exact ⟨⟨8000⟩, rfl⟩

/-- Requests under the canonical texts are answered right, whatever the call has answered: here one
is a success and one is not. -/
theorem batchMetadata_onePerItem_iff_canonical : ∃ req outcome resp w', req.continueOnError = true ∧
    Act.Runs (fetchingSem googleUUID sampleKMS outcome) (sampleService.batchGetKeyMetadata req)
      oneKey (.ok resp) w' ∧ resp.results.map (·.result.isOk) = [true, false] ∧
    OnePerItem req resp := by
  obtain ⟨resp, w', hrun, hcheck⟩ := exists_run (sampleService.batchGetKeyMetadata foundAndMissing)
    oneKey (fun resp => resp.results.map (·.result.isOk) == [true, false]) (by decide +kernel)
  obtain ⟨outcome, hfetch⟩ := exists_fetching (s := sampleService) hrun
  refine ⟨foundAndMissing, outcome, resp, w', rfl, hfetch, beq_iff_eq.mp hcheck,
    (@batchMetadata_onePerItem_iff sampleService sampleKMS _ _ _ _ _ rfl hfetch).mpr
      ⟨fun item hitem => ?_, fun _ _ => foundAndMissing_canonical⟩⟩
  obtain ⟨id, hid⟩ := foundAndMissing_canonical item hitem
  rw [hid]
  exact KeyService.isID_string id

/-- **One item, two results.** -/
theorem batchMetadata_reports_twice : ∃ req resp w', req.continueOnError = true ∧
    Act.Runs (worldSem googleUUID sampleKMS) (sampleService.batchGetKeyMetadata req) oneKey
      (.ok resp) w' ∧ req.keys.length = 1 ∧ resp.results.length = 2 ∧ ¬ OnePerItem req resp := by
  obtain ⟨resp, w', hrun, hcheck⟩ := exists_run (sampleService.batchGetKeyMetadata
    ⟨[⟨"key", 0, false⟩], true, some sampleContext⟩) oneKey (·.results.length == 2)
    (by decide +kernel)
  have htwo : resp.results.length = 2 := beq_iff_eq.mp hcheck
  refine ⟨_, resp, w', rfl, hrun, rfl, htwo, fun hone => ?_⟩
  cases htwo.symm.trans hone.length

end Polykey
