/-
# The two statuses of a key

A row has a status column, and its metadata has a status field of its own, which is the one a
client sees.  A creation sets both to active.  After that they part: the rotation query and the two
revoking statements set the column and leave the JSON alone, the metadata that a rotation copies
still says active, and an update writes back the field it read.  So the field is active in every
row of every reachable table (`Reachable.fieldActive`), and it agrees with the column in exactly the
rows whose column is active.

`status_agrees_iff` says this of the rows and of what the four reading methods hand out of them.
-/
import Polykey.Service.Metadata
import Polykey.Service.Reads
import Polykey.Service.Scenario

namespace Polykey

open Lib PSQLAdapter

/-! ## 1. The field -/

/-- The status field of the metadata says what the status column says. -/
def StatusAgrees (m : KeyMetadata) (r : Row) : Prop :=
  (m.status = .active ↔ r.status = .active) ∧ (m.status = .revoked ↔ r.status = .revoked)

instance (m : KeyMetadata) (r : Row) : Decidable (StatusAgrees m r) :=
  inferInstanceAs (Decidable
    ((m.status = .active ↔ r.status = .active) ∧ (m.status = .revoked ↔ r.status = .revoked)))

/-- A field that is active agrees with an active column only. -/
theorem statusAgrees_iff_of_active {m : KeyMetadata} (hm : m.status = .active) (r : Row) :
    StatusAgrees m r ↔ r.status = .active := by
  have hne : m.status ≠ .revoked := by
    rw [hm]
    decide
  constructor
  · intro h
    exact h.1.mp hm
  · intro hr
    refine ⟨by simp [hm, hr], ?_⟩
    simp [hne, hr]

/-- No call sets the field to anything but active. -/
theorem respects_active (s : KeyService) (call : ServiceCall) :
    Respects s (fun m => m.status = .active) (fun _ _ => True) call := by
  cases call with
  | createKey req =>
    rintro identity profile key ⟨keyID, now, description, dek, rfl⟩ m hm
    cases hm
    rfl
  | batchCreateKeys req =>
    rintro item - identity profile key ⟨keyID, now, description, dek, rfl⟩ m hm
    cases hm
    rfl
  | updateKeyMetadata req =>
    intro id w r m _ _ _ _ hactive description now
    exact hactive
  | batchUpdateKeyMetadata req =>
    intro item _ id w r m _ _ _ _ hactive key description now m' hm'
    cases hm'
    exact hactive
  | _ => trivial

/-- **The field is active in every row of every reachable table.** -/
theorem Reachable.fieldActive {s : KeyService} {kms : KMS} {p : ServicePool}
    (h : Reachable s kms p) : Stored (fun m => m.status = .active) p.state.table :=
  h.stored (fun _ _ hactive => hactive) (respects_active s)

/-! ## 2. What clients read -/

/-- The metadata is that of the row, and the field agrees with the column when the row is active
and only then. -/
def Reports (m : KeyMetadata) (r : Row) : Prop :=
  r.metadata = some m ∧ (StatusAgrees m r ↔ r.status = .active)

theorem Reachable.reports {s : KeyService} {kms : KMS} {p : ServicePool} (h : Reachable s kms p)
    {r : Row} (hr : r ∈ p.state.table.rows) : ∃ m, r.metadata = some m ∧ Reports m r := by
  obtain ⟨m, hm, -⟩ := h.chain.metadata r hr
  exact ⟨m, hm, hm, statusAgrees_iff_of_active (h.fieldActive r hr m hm) r⟩

/-- **The status a client reads is the key's status exactly on the active rows.**  In every
reachable pool, for every row, and for the row behind everything that `GetKey`, `GetKeyMetadata`,
`BatchGetKeyMetadata` and `ListKeys` return there. -/
theorem status_agrees_iff {s : KeyService} {kms : KMS} {p : ServicePool}
    (hp : Reachable s kms p) :
    (∀ r ∈ p.state.table.rows, ∃ m, r.metadata = some m ∧ Reports m r) ∧
    (∀ req resp w', Act.Runs (worldSem s.uuid kms) (s.getKey req) p.state (.ok resp) w' →
      ∀ m, resp.metadata = some m → ∃ id r, keyIDFromString s.uuid req.keyId = .ok id ∧
        p.state.table.requested id req.version = some r ∧ Reports m r) ∧
    (∀ req resp w', Act.Runs (worldSem s.uuid kms) (s.getKeyMetadata req) p.state (.ok resp) w' →
      ∃ id r m, keyIDFromString s.uuid req.keyId = .ok id ∧
        p.state.table.requested id req.version = some r ∧ resp.metadata = some m ∧ Reports m r) ∧
    (∀ req resp w',
      Act.Runs (worldSem s.uuid kms) (s.batchGetKeyMetadata req) p.state (.ok resp) w' →
      ∀ out ∈ resp.results, ∀ g, out.result = .ok g → ∃ r ∈ p.state.table.rows, ∃ m,
        out.keyId = r.id.string s.uuid ∧ g.metadata = some m ∧ Reports m r) ∧
    ∀ req resp w', Act.Runs (worldSem s.uuid kms) (s.listKeys req) p.state (.ok resp) w' →
      ∃ rows : List Row, (∀ r ∈ rows, p.state.table.latest r.id = some r) ∧
        List.Forall₂ (fun field r => ∃ m, field = some m ∧ Reports m r) resp.keys rows := by
  refine ⟨fun r hr => hp.reports hr, ?_, ?_, ?_, ?_⟩
  · intro req resp w' hrun m hm
    obtain ⟨id, r, hid, hrow, -, -, -, -, hmeta⟩ := getKey_ok hrun
    obtain ⟨m', hm', hreports⟩ := hp.reports (Table.mem_of_requested hrow).1
    have hsame : m' = m := by
      rw [hm, hm'] at hmeta
      split at hmeta
      · cases hmeta
      · exact (Option.some.inj hmeta).symm
    exact ⟨id, r, hid, hrow, hsame ▸ hreports⟩
  · intro req resp w' hrun
    obtain ⟨id, r, hid, hrow, hmeta⟩ := getKeyMetadata_ok hrun
    obtain ⟨m, hm, hreports⟩ := hp.reports (Table.mem_of_requested hrow).1
    refine ⟨id, r, m, hid, hrow, ?_, hreports⟩
    simp [hmeta, unmarshal, hm]
  · intro req resp w' hrun out hout g hg
    obtain ⟨r, hr, hkeyId, hmeta⟩ := batchGetKeyMetadata_mem hp.chain hrun hout hg
    obtain ⟨m, hm, hreports⟩ := hp.reports hr
    exact ⟨r, hr, m, hkeyId, hmeta.trans hm, hreports⟩
  · intro req resp w' hrun
    obtain ⟨rows, hrows, hkeys⟩ := listKeys_ok hrun
    refine ⟨rows, hrows, ?_⟩
    rw [hkeys, List.forall₂_map_left_iff]
    refine List.forall₂_same.mpr fun r hr => ?_
    exact hp.reports (Table.latest_eq_some.mp (hrows r hr)).1

/-! ## 3. A key of which both statuses are read -/

/-- A key that has been created, rotated and, with all its versions, revoked. -/
def retiredPool : ServicePool :=
  samplePool [.start sampleCreate, .finish 0, .start sampleRotate, .finish 1, .start sampleRevoke,
    .finish 2]

/-- A read of the metadata of version 1. -/
def sampleGetMetadata : GetKeyMetadataRequest := ⟨sampleText, 1, some sampleContext⟩

/-- The row of a key that was just created agrees. -/
theorem status_agrees_iff_created :
    ∃ r ∈ (samplePool [.start sampleCreate, .finish 0]).state.table.rows, r.status = .active ∧
      ∃ m, r.metadata = some m ∧ StatusAgrees m r := by
  have hrow : ∃ r ∈ (samplePool [.start sampleCreate, .finish 0]).state.table.rows,
      r.status = .active := by decide +kernel
  obtain ⟨r, hr, hactive⟩ := hrow
  have hp : Reachable sampleService sampleKMS (samplePool [.start sampleCreate, .finish 0]) :=
    samplePool_reachable _
  obtain ⟨m, hm, hreports⟩ := (status_agrees_iff hp).1 r hr
  exact ⟨r, hr, hactive, m, hm, hreports.2.mpr hactive⟩

/-- In a pool where all rows are revoked, metadata that can be read says that its row is active. -/
theorem reads_active {p : ServicePool} (hp : Reachable sampleService sampleKMS p)
    (hrevoked : ∀ r ∈ p.state.table.rows, r.status = .revoked) {req : GetKeyMetadataRequest}
    (hread : succeeds (sampleService.getKeyMetadata req) p.state (fun _ => true) = true) :
    ∃ r ∈ p.state.table.rows, ∃ m resp w', r.metadata = some m ∧ r.status = .revoked ∧
      m.status = .active ∧ ¬ StatusAgrees m r ∧
      Act.Runs (worldSem googleUUID sampleKMS) (sampleService.getKeyMetadata req) p.state (.ok resp)
        w' ∧ resp.metadata = some m := by
  obtain ⟨resp, w', hrun, -⟩ := exists_run _ p.state _ hread
  obtain ⟨id, r, -, hrow, hresp⟩ := getKeyMetadata_ok (s := sampleService) hrun
  have hmem := (Table.mem_of_requested hrow).1
  obtain ⟨m, hm, -⟩ := hp.chain.metadata r hmem
  have hactive : m.status = .active := hp.fieldActive r hmem m hm
  refine ⟨r, hmem, m, resp, w', hm, hrevoked r hmem, hactive, ?_, hrun, ?_⟩
  · rw [statusAgrees_iff_of_active hactive, hrevoked r hmem]
    decide
  · rw [hresp, unmarshal, hm, Option.getD_some]

/-- The key is revoked, and its metadata still says that it is active: in the table, and when it is
read. -/
theorem revoked_key_reads_active :
    ∃ p, Reachable sampleService sampleKMS p ∧ ∃ r ∈ p.state.table.rows, ∃ m resp w',
      r.metadata = some m ∧ r.status = .revoked ∧ m.status = .active ∧ ¬ StatusAgrees m r ∧
      Act.Runs (worldSem googleUUID sampleKMS) (sampleService.getKeyMetadata sampleGetMetadata)
        p.state (.ok resp) w' ∧ resp.metadata = some m :=
  ⟨retiredPool, samplePool_reachable _,
    reads_active (samplePool_reachable _) (by decide +kernel) (by decide +kernel)⟩

end Polykey
