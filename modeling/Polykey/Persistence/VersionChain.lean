/-
# Version chains

The rows of one id form a chain: versions `1, 2, …, n` without a gap.  Nothing in the schema says
so.  The number of a new row is computed from the JSON metadata of the newest row, and that JSON
is overwritten by metadata updates with copies that may be old, so the two numbers have to be
related, and the primary key has to do the rest:

* every row satisfies `1 ≤ metadata.version ≤ version` (`Chain.metadata`);
* if the newest row `n` has `metadata.version < n`, the rotation query computes a version that is
  already there, and the primary key refuses it;
* so a rotation that succeeds started from `metadata.version = n` and adds row `n + 1`.

`Chain` is the invariant and `Extends` what no call ever takes away.  `Sound` is what a call has
to bring with it: keys it creates are fresh, metadata it writes is an earlier version of the
metadata of the same id.  `Change.chain` is the step lemma.
-/
import Polykey.Persistence.PSQLAdapter

namespace Polykey

open PSQLAdapter

/-! ## 1. The invariant -/

/-- The rows of each id are a version chain. -/
structure Chain (uuid : UUIDPkg) (t : Table) : Prop where
  pos : ∀ r ∈ t.rows, 1 ≤ r.version
  noGap : ∀ r ∈ t.rows, ∀ v, 1 ≤ v → v ≤ r.version →
    ∃ r' ∈ t.rows, r'.id = r.id ∧ r'.version = v
  metadata : ∀ r ∈ t.rows, ∃ m, r.metadata = some m ∧ 1 ≤ m.version ∧ m.version ≤ r.version ∧
    m.keyId = r.id.string uuid
  active : ∀ r ∈ t.rows, r.status = .active → ∀ r' ∈ t.rows, r'.id = r.id → r'.version ≤ r.version

/-- The id a row's metadata names. -/
def Row.keyId (r : Row) : Option String := r.metadata.map (·.keyId)

/-- What is fixed once a version is stored. -/
def Row.SameVersion (r r' : Row) : Prop :=
  r'.id = r.id ∧ r'.version = r.version ∧ r'.encryptedDEK = r.encryptedDEK ∧
    r'.storageType = r.storageType ∧ r'.keyId = r.keyId

/-- Every stored version is still there, with its DEK, its storage type and its key id. -/
def Extends (t t' : Table) : Prop := ∀ r ∈ t.rows, ∃ r' ∈ t'.rows, r.SameVersion r'

theorem Row.SameVersion.refl (r : Row) : r.SameVersion r := ⟨rfl, rfl, rfl, rfl, rfl⟩

theorem Row.SameVersion.trans {a b c : Row} (h : a.SameVersion b) (h' : b.SameVersion c) :
    a.SameVersion c :=
  ⟨h'.1.trans h.1, h'.2.1.trans h.2.1, h'.2.2.1.trans h.2.2.1, h'.2.2.2.1.trans h.2.2.2.1,
    h'.2.2.2.2.trans h.2.2.2.2⟩

theorem Extends.refl (t : Table) : Extends t t := fun r hr => ⟨r, hr, .refl r⟩

theorem Extends.trans {a b c : Table} (h : Extends a b) (h' : Extends b c) : Extends a c := by
  intro r hr
  obtain ⟨r₁, hr₁, hs₁⟩ := h r hr
  obtain ⟨r₂, hr₂, hs₂⟩ := h' r₁ hr₁
  exact ⟨r₂, hr₂, hs₁.trans hs₂⟩

/-- A key as the service creates it. -/
def FreshKey (uuid : UUIDPkg) (k : Key) : Prop :=
  k.version = 1 ∧ ∃ m, k.metadata = some m ∧ m.version = 1 ∧ m.keyId = k.id.string uuid

/-- Metadata that a row of `id` once held: its version is not beyond the newest row. -/
def KnownMetadata (uuid : UUIDPkg) (t : Table) (id : KeyID) (m : KeyMetadata) : Prop :=
  1 ≤ m.version ∧ m.keyId = id.string uuid ∧ ∃ r ∈ t.rows, r.id = id ∧ m.version ≤ r.version

/-- What a call has to bring with it. -/
structure Sound (uuid : UUIDPkg) (op : RepoOp) (t : Table) : Prop where
  created : ∀ k ∈ op.created, FreshKey uuid k
  written : ∀ u ∈ op.written, ∀ m, u.2 = some m → KnownMetadata uuid t u.1 m

/-- A call that creates no key and writes no metadata brings nothing. -/
theorem Sound.of_nil {uuid : UUIDPkg} {op : RepoOp} {t : Table} (hcreated : op.created = [])
    (hwritten : op.written = []) : Sound uuid op t := by
  constructor
  · rw [hcreated]
    intro k hk
    cases hk
  · rw [hwritten]
    intro u hu
    cases hu

theorem chain_empty (uuid : UUIDPkg) : Chain uuid Table.empty := by
  constructor <;> intro r hr <;> cases hr

variable {uuid : UUIDPkg} {t t' : Table} {now : Time}

theorem KnownMetadata.extends {id : KeyID} {m : KeyMetadata} (h : KnownMetadata uuid t id m)
    (ht : Extends t t') : KnownMetadata uuid t' id m := by
  obtain ⟨hpos, hkey, r, hr, hid, hle⟩ := h
  obtain ⟨r', hr', hs⟩ := ht r hr
  exact ⟨hpos, hkey, r', hr', hs.1.trans hid, by rw [hs.2.1]; exact hle⟩

/-- What a row holds is known. -/
theorem Chain.known (h : Chain uuid t) {r : Row} (hr : r ∈ t.rows) {m : KeyMetadata}
    (hm : r.metadata = some m) : KnownMetadata uuid t r.id m := by
  obtain ⟨m', hm', hpos, hle, hkey⟩ := h.metadata r hr
  obtain rfl : m' = m := Option.some.inj (hm'.symm.trans hm)
  exact ⟨hpos, hkey, r, hr, rfl, hle⟩

/-- The versions of an id with a row are exactly `1, …, n`, `n` being the newest. -/
theorem Chain.versions (h : Chain uuid t) {id : KeyID} {n : Row} (hn : t.latest id = some n)
    (v : Int) : (∃ r ∈ t.rows, r.id = id ∧ r.version = v) ↔ 1 ≤ v ∧ v ≤ n.version := by
  obtain ⟨hmem, hid, hmax⟩ := Table.latest_eq_some.mp hn
  constructor
  · rintro ⟨r, hr, hrid, rfl⟩
    exact ⟨h.pos r hr, hmax r hr hrid⟩
  · rintro ⟨hpos, hle⟩
    obtain ⟨r, hr, hrid, hv⟩ := h.noGap n hmem v hpos hle
    exact ⟨r, hr, hrid.trans hid, hv⟩

/-! ## 2. Updates of rows in place

Such an update keeps ids, versions and DEKs, so what can go wrong is the metadata. It may be old;
it must not be newer than the row. -/

/-- An update keeps the chain if it leaves good metadata and makes no row active. -/
theorem Chain.mapRows (h : Chain uuid t) {f : Row → Row} {hf : ∀ r, (f r).key = r.key}
    (hmeta : ∀ r ∈ t.rows, ∃ m, (f r).metadata = some m ∧ 1 ≤ m.version ∧ m.version ≤ r.version ∧
      m.keyId = r.id.string uuid)
    (hstatus : ∀ r, (f r).status = .active → r.status = .active) :
    Chain uuid (t.mapRows f hf) := by
  refine ⟨?_, ?_, ?_, ?_⟩
  · intro r hr
    obtain ⟨r₀, hr₀, rfl⟩ := Table.mem_mapRows.mp hr
    rw [Table.mapRows_version hf]
    exact h.pos r₀ hr₀
  · intro r hr v hpos hle
    obtain ⟨r₀, hr₀, rfl⟩ := Table.mem_mapRows.mp hr
    rw [Table.mapRows_version hf] at hle
    obtain ⟨r₁, hr₁, hid, hv⟩ := h.noGap r₀ hr₀ v hpos hle
    refine ⟨f r₁, Table.mem_mapRows.mpr ⟨r₁, hr₁, rfl⟩, ?_, ?_⟩
    · rw [Table.mapRows_id hf, Table.mapRows_id hf, hid]
    · rw [Table.mapRows_version hf, hv]
  · intro r hr
    obtain ⟨r₀, hr₀, rfl⟩ := Table.mem_mapRows.mp hr
    rw [Table.mapRows_id hf, Table.mapRows_version hf]
    exact hmeta r₀ hr₀
  · intro r hr hact r' hr' hid
    obtain ⟨r₀, hr₀, rfl⟩ := Table.mem_mapRows.mp hr
    obtain ⟨r₁, hr₁, rfl⟩ := Table.mem_mapRows.mp hr'
    rw [Table.mapRows_id hf, Table.mapRows_id hf] at hid
    rw [Table.mapRows_version hf, Table.mapRows_version hf]
    exact h.active r₀ hr₀ (hstatus r₀ hact) r₁ hr₁ hid

theorem Extends.mapRows {f : Row → Row} {hf : ∀ r, (f r).key = r.key}
    (h : ∀ r ∈ t.rows, r.SameVersion (f r)) : Extends t (t.mapRows f hf) :=
  fun r hr => ⟨f r, Table.mem_mapRows.mpr ⟨r, hr, rfl⟩, h r hr⟩

theorem Chain.revoke (h : Chain uuid t) (ids : List KeyID) (now : Time) :
    Chain uuid (t.revoke ids now) ∧ Extends t (t.revoke ids now) := by
  constructor
  · refine h.mapRows ?_ ?_
    · intro r hr
      split <;> exact h.metadata r hr
    · intro r
      split
      · intro hact
        cases hact
      · exact id
  · refine Extends.mapRows fun r hr => ?_
    split <;> exact Row.SameVersion.refl r

theorem Chain.markRotated (h : Chain uuid t) (id : KeyID) (now : Time) :
    Chain uuid (t.markRotated id now) ∧ Extends t (t.markRotated id now) := by
  constructor
  · refine h.mapRows ?_ ?_
    · intro r hr
      split <;> exact h.metadata r hr
    · intro r
      split
      · intro hact
        cases hact
      · exact fun hact => hact
  · refine Extends.mapRows fun r hr => ?_
    split <;> exact Row.SameVersion.refl r

/-- Writing known metadata to the newest row keeps the chain, also when the metadata is old. -/
theorem Chain.updateMetadata (h : Chain uuid t) {id : KeyID} {m : KeyMetadata}
    (hm : KnownMetadata uuid t id m) (now : Time) :
    Chain uuid (t.updateMetadata id (some m) now) ∧
      Extends t (t.updateMetadata id (some m) now) := by
  obtain ⟨hpos, hkey, r₀, hr₀, hid₀, hle₀⟩ := hm
  constructor
  · refine h.mapRows ?_ ?_
    · intro r hr
      split
      · rename_i hnew
        obtain ⟨-, hid, hmax⟩ := Table.latest_eq_some.mp ((Table.isNewest_iff_latest hr).mp hnew)
        exact ⟨m, rfl, hpos, hle₀.trans (hmax r₀ hr₀ hid₀), by rw [hid]; exact hkey⟩
      · exact h.metadata r hr
    · intro r
      split <;> exact fun hact => hact
  · refine Extends.mapRows fun r hr => ?_
    split
    · rename_i hnew
      obtain ⟨m', hm', -, -, hkey'⟩ := h.metadata r hr
      refine ⟨rfl, rfl, rfl, rfl, ?_⟩
      simp only [Row.keyId, Option.map_some, hm', hkey, hkey', hnew.1]
    · exact Row.SameVersion.refl r

/-- The statements of a batch update, one after another. -/
theorem Chain.updateEach (h : Chain uuid t) {updates : List (KeyID × Option KeyMetadata)}
    (hsome : ∀ u ∈ updates, u.2 ≠ none)
    (hknown : ∀ u ∈ updates, ∀ m, u.2 = some m → KnownMetadata uuid t u.1 m) :
    Chain uuid (PSQLAdapter.updateEach now t updates) ∧
      Extends t (PSQLAdapter.updateEach now t updates) := by
  induction updates generalizing t with
  | nil => exact ⟨h, .refl t⟩
  | cons u us ih =>
    obtain ⟨m, hm⟩ := Option.ne_none_iff_exists'.mp (hsome u (by simp))
    have hstep := h.updateMetadata (hknown u (by simp) m hm) (timestamptz now)
    rw [← hm] at hstep
    have hrest := ih hstep.1 (fun u' hu' => hsome u' (by simp [hu']))
      (fun u' hu' m' hm' => (hknown u' (by simp [hu']) m' hm').extends hstep.2)
    exact ⟨hrest.1, hstep.2.trans hrest.2⟩

/-! ## 3. Inserts -/

/-- An id with a row has a row 1. -/
theorem Chain.first (h : Chain uuid t) {r : Row} (hr : r ∈ t.rows) :
    ∃ r₁ ∈ t.rows, r₁.id = r.id ∧ r₁.version = 1 :=
  h.noGap r hr 1 (le_refl 1) (h.pos r hr)

/-- A fresh key goes in only under a new id: an id that has rows already has a row 1, so the
primary key is taken. -/
theorem Chain.fresh_id (h : Chain uuid t) {keys : List Key} (hfresh : ∀ k ∈ keys, FreshKey uuid k)
    (hins : t.insert (keys.map Row.ofKey) = some t') {k : Key} (hk : k ∈ keys) :
    ∀ r ∈ t.rows, r.id ≠ k.id := by
  intro r hr hid
  obtain ⟨r₁, hr₁, hid₁, hv₁⟩ := h.first hr
  have hkey : (Row.ofKey k).key = r₁.key := by
    simp only [Row.key, Row.ofKey, (hfresh k hk).1, hid₁, hid, hv₁]
  have hnodup := t'.primaryKey
  rw [Table.insert_eq_some hins, List.map_append] at hnodup
  exact (List.nodup_append.mp hnodup).2.2 r₁.key (List.mem_map_of_mem hr₁) _
    (List.mem_map_of_mem (List.mem_map_of_mem hk)) hkey.symm

/-- Fresh keys start new chains. -/
theorem Chain.insert (h : Chain uuid t) {keys : List Key} (hfresh : ∀ k ∈ keys, FreshKey uuid k)
    (hins : t.insert (keys.map Row.ofKey) = some t') : Chain uuid t' ∧ Extends t t' := by
  have hrows := Table.insert_eq_some hins
  have hnew : ∀ r ∈ keys.map Row.ofKey, r.version = 1 ∧
      ∃ m, r.metadata = some m ∧ m.version = 1 ∧ m.keyId = r.id.string uuid := by
    intro r hr
    obtain ⟨k, hk, rfl⟩ := List.mem_map.mp hr
    exact hfresh k hk
  -- a new row is alone under its id
  have halone : ∀ r ∈ keys.map Row.ofKey, ∀ r' ∈ t'.rows, r'.id = r.id → r'.version = 1 := by
    intro r hr r' hr' hid
    rcases List.mem_append.mp (hrows ▸ hr') with hold | hadd
    · obtain ⟨k, hk, rfl⟩ := List.mem_map.mp hr
      exact absurd hid (h.fresh_id hfresh hins hk r' hold)
    · exact (hnew r' hadd).1
  refine ⟨⟨?_, ?_, ?_, ?_⟩, ?_⟩
  · intro r hr
    rcases List.mem_append.mp (hrows ▸ hr) with hold | hadd
    · exact h.pos r hold
    · rw [(hnew r hadd).1]
  · intro r hr v hpos hle
    rcases List.mem_append.mp (hrows ▸ hr) with hold | hadd
    · obtain ⟨r₁, hr₁, hr₁'⟩ := h.noGap r hold v hpos hle
      exact ⟨r₁, by rw [hrows]; simp [hr₁], hr₁'⟩
    · rw [(hnew r hadd).1] at hle
      exact ⟨r, hr, rfl, by rw [(hnew r hadd).1]; omega⟩
  · intro r hr
    rcases List.mem_append.mp (hrows ▸ hr) with hold | hadd
    · exact h.metadata r hold
    · obtain ⟨hv, m, hm, hmv, hkey⟩ := hnew r hadd
      exact ⟨m, hm, by omega, by omega, hkey⟩
  · intro r hr hact r' hr' hid
    rcases List.mem_append.mp (hrows ▸ hr) with hold | hadd
    · rcases List.mem_append.mp (hrows ▸ hr') with hold' | hadd'
      · exact h.active r hold hact r' hold' hid
      · rw [(hnew r' hadd').1]
        exact h.pos r hold
    · rw [halone r hadd r' hr' hid, (hnew r hadd).1]
  · intro r hr
    exact ⟨r, by rw [hrows]; simp [hr], .refl r⟩

/-! ## 4. Rotation

The new version is computed from the metadata of the newest row and not from the row. If the two
differ the computed version is one that is there, and the primary key refuses it: so a rotation
that succeeds has found them equal. -/

/-- **A rotation that succeeds found the JSON version equal to the row's version**: below it every
version is taken. -/
theorem Chain.rotation_version (h : Chain uuid t) {id : KeyID} {dek : Bytes} {old : Row}
    {m : KeyMetadata} (hrot : Rotation now t id dek old m t') : m.version = old.version := by
  obtain ⟨hmem, hid, -⟩ := Table.latest_eq_some.mp hrot.latest
  obtain ⟨m', hm', hpos, hle, -⟩ := h.metadata old hmem
  obtain rfl : m' = m := Option.some.inj (hm'.symm.trans hrot.metadata)
  by_contra hne
  obtain ⟨r, hr, hrid, hrv⟩ := h.noGap old hmem (m'.version + 1) (by omega) (by omega)
  exact Table.atVersion_eq_none.mp hrot.free r hr (hrid.trans hid) hrv

/-- A rotation adds the row after the newest one. -/
theorem Chain.rotate (h : Chain uuid t) {id : KeyID} {dek : Bytes} {old : Row} {m : KeyMetadata}
    (hrot : Rotation now t id dek old m t') : Chain uuid t' ∧ Extends t t' := by
  obtain ⟨hmem, hid, hmax⟩ := Table.latest_eq_some.mp hrot.latest
  obtain ⟨hmark, hmarkExt⟩ := h.markRotated id (timestamptz now)
  have hv := h.rotation_version hrot
  have hpos := h.pos old hmem
  obtain ⟨m', hm', -, -, hkey⟩ := h.metadata old hmem
  obtain rfl : m' = m := Option.some.inj (hm'.symm.trans hrot.metadata)
  have hrows := hrot.rows
  have hsub : ∀ r ∈ (t.markRotated id (timestamptz now)).rows, r ∈ t'.rows :=
    fun r hr => by rw [hrows]; simp [hr]
  -- in the marked table no row of the id is active, and none is beyond the old one
  have hmarked : ∀ r ∈ (t.markRotated id (timestamptz now)).rows, r.id = id →
      r.version ≤ old.version ∧ r.status ≠ .active := by
    intro r hr hrid
    obtain ⟨r₀, hr₀, rfl⟩ := Table.mem_mapRows.mp hr
    rcases em (t.IsNewest id r₀) with hnew | hnew
    · simp only [hnew, if_true] at hrid ⊢
      exact ⟨hmax r₀ hr₀ hnew.1, nofun⟩
    · simp only [hnew, if_false] at hrid ⊢
      refine ⟨hmax r₀ hr₀ hrid, fun hact => hnew ?_⟩
      -- an active row is the newest of its id
      refine (Table.isNewest_iff_latest hr₀).mpr (Table.latest_eq_some.mpr ⟨hr₀, hrid, ?_⟩)
      exact fun r' hr' hid' => h.active r₀ hr₀ hact r' hr' (hid'.trans hrid.symm)
  refine ⟨⟨?_, ?_, ?_, ?_⟩, ?_⟩
  · intro r hr
    rcases List.mem_append.mp (hrows ▸ hr) with hold | hadd
    · exact hmark.pos r hold
    · rw [List.mem_singleton.mp hadd]
      simp only [rotatedRow]
      omega
  · intro r hr v hvpos hle
    rcases List.mem_append.mp (hrows ▸ hr) with hold | hadd
    · obtain ⟨r₁, hr₁, hr₁'⟩ := hmark.noGap r hold v hvpos hle
      exact ⟨r₁, hsub r₁ hr₁, hr₁'⟩
    · rw [List.mem_singleton.mp hadd] at hle ⊢
      simp only [rotatedRow] at hle ⊢
      by_cases hlast : v = m'.version + 1
      · exact ⟨rotatedRow now old m' dek, by rw [hrows]; simp, rfl, hlast.symm⟩
      · obtain ⟨r₁, hr₁, hid₁, hv₁⟩ := h.noGap old hmem v hvpos (by omega)
        obtain ⟨r₂, hr₂, hs⟩ := hmarkExt r₁ hr₁
        exact ⟨r₂, hsub r₂ hr₂, hs.1.trans hid₁, hs.2.1.trans hv₁⟩
  · intro r hr
    rcases List.mem_append.mp (hrows ▸ hr) with hold | hadd
    · exact hmark.metadata r hold
    · rw [List.mem_singleton.mp hadd]
      exact ⟨_, rfl, by simp only; omega, le_refl _, hkey⟩
  · intro r hr hact r' hr' hidr
    rcases List.mem_append.mp (hrows ▸ hr) with hold | hadd
    · rcases List.mem_append.mp (hrows ▸ hr') with hold' | hadd'
      · exact hmark.active r hold hact r' hold' hidr
      · rw [List.mem_singleton.mp hadd'] at hidr
        exact absurd hact (hmarked r hold (hidr.symm.trans hid)).2
    · rw [List.mem_singleton.mp hadd] at hidr ⊢
      rcases List.mem_append.mp (hrows ▸ hr') with hold' | hadd'
      · have hle := (hmarked r' hold' (hidr.trans hid)).1
        simp only [rotatedRow]
        omega
      · rw [List.mem_singleton.mp hadd']
  · intro r hr
    obtain ⟨r₁, hr₁, hs⟩ := hmarkExt r hr
    exact ⟨r₁, hsub r₁ hr₁, hs⟩

/-! ## 5. Every call -/

/-- **The step lemma.**  A sound call keeps the chains, and takes no stored version away. -/
theorem PSQLAdapter.Change.chain {op : RepoOp} (h : Change now op t t') (hs : Sound uuid op t)
    (hc : Chain uuid t) : Chain uuid t' ∧ Extends t t' := by
  cases h with
  | same => exact ⟨hc, .refl t⟩
  | create hins => exact hc.insert hs.created hins
  | update hsome => exact hc.updateEach hsome hs.written
  | revoke => exact hc.revoke _ _
  | rotate hrot => exact hc.rotate hrot

end Polykey
