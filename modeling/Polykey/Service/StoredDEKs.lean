/-
# Stored DEKs

A DEK is generated and encrypted by a creation or a rotation, stored as ciphertext, and decrypted
much later, by a provider that is selected anew from the metadata of its row.  Here the calls that
lead to a version are kept beside the world: `Origins` has, for each version, what the thread that
stored it had done until then.  The invariant `Sealed` says that this thread read some bytes from
`rand.Read` and then had the row's ciphertext for them, for a key of the row's id, from the provider
that the row's own metadata selects.

What may change under way does not matter to it.  Metadata is rewritten with copies that may be old,
but the rows of one id all have the same storage type; a rotation request waits in the pipeline with
a provider that was selected when it was made, and it is still the right one.
-/
import Mathlib
import Polykey.Kms.Providers
import Polykey.Service.Scenario

namespace Polykey

open Lib PSQLAdapter

/-! ## 1. What decryption depends on -/

/-- A row, as far as its DEK is concerned. -/
structure StoredDEK where
  id : KeyID
  version : Int
  encryptedDEK : Bytes
  profile : Option StorageProfile

def Row.storedDEK (r : Row) : StoredDEK :=
  ⟨r.id, r.version, r.encryptedDEK, r.metadata.map (·.storageType)⟩

def Table.deks (t : Table) : List StoredDEK := t.rows.map Row.storedDEK

/-- The id has a row with this storage type. -/
def StoredUnder (t : Table) (id : KeyID) (profile : StorageProfile) : Prop :=
  ∃ x ∈ t.deks, x.id = id ∧ x.profile = some profile

/-- The rows of one id have one storage type. -/
def SameProfile (t : Table) : Prop :=
  ∀ x ∈ t.deks, ∀ y ∈ t.deks, y.id = x.id → y.profile = x.profile

section Changes

variable {uuid : UUIDPkg} {t t' : Table} {now : Time}

theorem Table.dek_unique {x y : StoredDEK} (hx : x ∈ t.deks) (hy : y ∈ t.deks) (hid : x.id = y.id)
    (hv : x.version = y.version) : x = y := by
  obtain ⟨r, hr, rfl⟩ := List.mem_map.mp hx
  obtain ⟨r', hr', rfl⟩ := List.mem_map.mp hy
  rw [t.row_unique hr hr' hid hv]

theorem Table.deks_nodup (t : Table) : (t.deks.map fun x => (x.id, x.version)).Nodup := by
  rw [Table.deks, List.map_map]
  exact t.primaryKey

theorem deks_mapRows {f : Row → Row} {hf : ∀ r, (f r).key = r.key}
    (h : ∀ r ∈ t.rows, (f r).storedDEK = r.storedDEK) : (t.mapRows f hf).deks = t.deks := by
  simp only [Table.deks, Table.mapRows, List.map_map]
  exact List.map_congr_left h

/-- An update that writes the storage type back changes nothing here. -/
theorem deks_updateMetadata (hsame : SameProfile t) {id : KeyID} {m : KeyMetadata}
    (hm : StoredUnder t id m.storageType) : (t.updateMetadata id (some m) now).deks = t.deks := by
  obtain ⟨x, hx, hid, hprofile⟩ := hm
  refine deks_mapRows fun r hr => ?_
  split
  · rename_i hnewest
    have hold : r.storedDEK.profile = x.profile :=
      hsame x hx r.storedDEK (List.mem_map_of_mem hr) (hnewest.1.trans hid.symm)
    rw [hprofile] at hold
    simp only [Row.storedDEK] at hold ⊢
    rw [hold, Option.map_some]
  · rfl

theorem deks_updateEach (hsame : SameProfile t) {updates : List (KeyID × Option KeyMetadata)}
    (hsome : ∀ u ∈ updates, u.2 ≠ none)
    (hupdates : ∀ u ∈ updates, ∀ m, u.2 = some m → StoredUnder t u.1 m.storageType) :
    (updateEach now t updates).deks = t.deks := by
  induction updates generalizing t with
  | nil => rfl
  | cons u us ih =>
    obtain ⟨m, hm⟩ := Option.ne_none_iff_exists'.mp (hsome u (by simp))
    have hstep : (t.updateMetadata u.1 u.2 (timestamptz now)).deks = t.deks := by
      rw [hm]
      exact deks_updateMetadata hsame (hupdates u (by simp) m hm)
    have hrest := ih (t := t.updateMetadata u.1 u.2 (timestamptz now))
      (by rw [SameProfile, hstep]; exact hsame) (fun u' hu' => hsome u' (by simp [hu']))
      (fun u' hu' m' hm' => by
        rw [StoredUnder, hstep]
        exact hupdates u' (by simp [hu']) m' hm')
    exact hrest.trans hstep

/-- A DEK that a call adds: of a key it creates, under a new id, or of a rotation. -/
def Adds (op : RepoOp) (t : Table) (x : StoredDEK) : Prop :=
  (∃ k ∈ op.created, x = (Row.ofKey k).storedDEK ∧ x.version = 1 ∧ ∀ y ∈ t.deks, y.id ≠ x.id) ∨
    ∃ old ∈ t.deks, ∃ v dek, (old.id, dek) ∈ op.rotated ∧ x = ⟨old.id, v, dek, old.profile⟩

/-- **What a call does to the stored DEKs**: it adds some. -/
theorem deks_change {op : RepoOp} (h : Change now op t t') (hchain : Chain uuid t)
    (hsound : Sound uuid op t) (hsame : SameProfile t)
    (hwritten : ∀ u ∈ op.written, ∀ m, u.2 = some m → StoredUnder t u.1 m.storageType) :
    ∃ new, t'.deks = t.deks ++ new ∧ ∀ x ∈ new, Adds op t x := by
  cases h with
  | same => exact ⟨[], by simp, by simp⟩
  | create hins =>
    refine ⟨(op.created.map Row.ofKey).map Row.storedDEK, ?_, fun x hx => ?_⟩
    · rw [Table.deks, Table.insert_eq_some hins, List.map_append]
      rfl
    · simp only [List.map_map, List.mem_map, Function.comp_apply] at hx
      obtain ⟨k, hk, rfl⟩ := hx
      refine .inl ⟨k, hk, rfl, (hsound.created k hk).1, fun y hy => ?_⟩
      obtain ⟨r, hr, rfl⟩ := List.mem_map.mp hy
      exact hchain.fresh_id hsound.created hins hk r hr
  | update hsome => exact ⟨[], by simp [deks_updateEach hsame hsome hwritten], by simp⟩
  | revoke =>
    refine ⟨[], ?_, by simp⟩
    rw [List.append_nil]
    refine deks_mapRows fun r _ => ?_
    split <;> rfl
  | @rotate id dek _ _ old m hrot =>
    obtain ⟨hmem, hid, -⟩ := Table.latest_eq_some.mp hrot.latest
    have hmarked : (t.markRotated id (timestamptz now)).deks = t.deks := by
      refine deks_mapRows fun r _ => ?_
      split <;> rfl
    refine ⟨[(rotatedRow now old m dek).storedDEK], ?_, fun x hx => .inr ?_⟩
    · rw [← hmarked, Table.deks, hrot.rows, List.map_append]
      rfl
    · rw [List.mem_singleton.mp hx]
      refine ⟨old.storedDEK, List.mem_map_of_mem hmem, m.version + 1, dek, ?_, ?_⟩
      · simp [RepoOp.rotated, Row.storedDEK, hid]
      · simp [Row.storedDEK, rotatedRow, hrot.metadata]

theorem SameProfile.adds (hsame : SameProfile t) {new : List StoredDEK}
    (hdeks : t'.deks = t.deks ++ new) (hnew : ∀ x ∈ new, ∃ op, Adds op t x) : SameProfile t' := by
  have hcases : ∀ x ∈ t'.deks, x ∈ t.deks ∨ x ∈ new := by
    intro x hx
    rw [hdeks] at hx
    exact List.mem_append.mp hx
  -- a DEK that was there or comes from a rotation has the profile of one that was there
  have hprofile : ∀ x ∈ t'.deks, (∃ old ∈ t.deks, old.id = x.id ∧ old.profile = x.profile) ∨
      x.version = 1 ∧ ∀ y ∈ t.deks, y.id ≠ x.id := by
    intro x hx
    rcases hcases x hx with hold | hadd
    · exact .inl ⟨x, hold, rfl, rfl⟩
    · obtain ⟨op, ⟨-, -, -, hv, hfresh⟩ | ⟨old, hold, v, dek, -, rfl⟩⟩ := hnew x hadd
      · exact .inr ⟨hv, hfresh⟩
      · exact .inl ⟨old, hold, rfl, rfl⟩
  intro x hx y hy hid
  rcases hprofile x hx with ⟨a, ha, haid, haprofile⟩ | ⟨hv, hfresh⟩
  · rcases hprofile y hy with ⟨b, hb, hbid, hbprofile⟩ | ⟨-, hfresh⟩
    · rw [← haprofile, ← hbprofile]
      exact hsame a ha b hb (hbid.trans (hid.trans haid.symm))
    · exact absurd (haid.trans hid.symm) (hfresh a ha)
  · rcases hprofile y hy with ⟨b, hb, hbid, -⟩ | ⟨hv', -⟩
    · exact absurd (hbid.trans hid) (hfresh b hb)
    · rw [Table.dek_unique hy hx hid (hv'.trans hv.symm)]

end Changes

/-! ## 2. Where a version comes from -/

/-- For each version, the calls of the thread that stored it, up to the one that did. -/
abbrev Origins := KeyID → Int → Effect.History

/-- A version that is not there yet will come from the present call, if it stores it. -/
def noteOrigins (calls : Effect.History) (w : World) (origins : Origins) : Origins := fun id v =>
  if (w.table.atVersion id v).isSome then origins id v else calls

/-- The service with its threads' histories and the origins of its versions. -/
abbrev DEKPool := Pool (Effect.label Effect.History) (World × Origins) Unit

/-- The pools the service can be in. -/
def DEKReachable (s : KeyService) (kms : KMS) (p : DEKPool) : Prop :=
  ∃ now, Pool.Reaches ((worldSem s.uuid kms).record noteOrigins) (Pool.logged (starts s))
    ⟨(.init now, fun _ _ => []), []⟩ p

/-- Every pool of the service is one of these, but for what is noted. -/
theorem Reachable.exists_dekPool {s : KeyService} {kms : KMS} {p : ServicePool}
    (h : Reachable s kms p) : ∃ q, DEKReachable s kms q ∧ q.forget = p := by
  obtain ⟨now, hrun⟩ := h
  obtain ⟨q, hq, hforget, -⟩ : ∃ q : DEKPool,
    Pool.Reaches ((worldSem s.uuid kms).record noteOrigins)
      (Pool.logged (starts s)) ⟨(.init now, fun _ _ => []), []⟩ q ∧ q.forget = p ∧ q.Logged :=
    hrun.exists_record rfl fun _ ht => by cases ht
  exact ⟨q, ⟨now, hq⟩, hforget⟩

/-- `rand.Read` gave these bytes. -/
def readEvent (n : Nat) (dek : Bytes) : (op : Effect.Op) × Effect.Res op := ⟨.randRead n, .ok dek⟩

/-- `EncryptDEK` gave this ciphertext. -/
def sealEvent (provider : String) (dek : Bytes) (key : Key) (encryptedDEK : Bytes) :
    (op : Effect.Op) × Effect.Res op :=
  ⟨.encryptDEK provider dek key, .ok encryptedDEK⟩

/-- **The DEK of a version.**  Among the calls, `rand.Read` gave the bytes and then the provider of
the profile gave the ciphertext for them, for a key with this id. -/
def Generated (s : KeyService) (kms : KMS) (calls : Effect.History) (id : KeyID)
    (profile : StorageProfile) (encryptedDEK dek : Bytes) : Prop :=
  ∃ n provider key, s.getKMSProvider profile = .ok provider ∧ Key.id key = id ∧
    kms.encrypts provider dek key (.ok encryptedDEK) ∧
    [readEvent n dek, sealEvent provider dek key encryptedDEK].Sublist calls

theorem Generated.mono {s : KeyService} {kms : KMS} {calls calls' : Effect.History} {id : KeyID}
    {profile : StorageProfile} {encryptedDEK dek : Bytes}
    (h : Generated s kms calls id profile encryptedDEK dek) (hsub : calls.Sublist calls') :
    Generated s kms calls' id profile encryptedDEK dek := by
  obtain ⟨n, provider, key, hprovider, hid, hencrypts, hcalls⟩ := h
  exact ⟨n, provider, key, hprovider, hid, hencrypts, hcalls.trans hsub⟩

section Origins

variable {w : World} {origins : Origins} {calls : Effect.History} {x : StoredDEK}

theorem noteOrigins_old (hx : x ∈ w.table.deks) :
    noteOrigins calls w origins x.id x.version = origins x.id x.version := by
  obtain ⟨r, hr, rfl⟩ := List.mem_map.mp hx
  have hrow : w.table.atVersion r.id r.version = some r :=
    Table.atVersion_eq_some.mpr ⟨hr, rfl, rfl⟩
  simp [noteOrigins, Row.storedDEK, hrow]

theorem noteOrigins_new (hx : ∀ y ∈ w.table.deks, y.id = x.id → y.version ≠ x.version) :
    noteOrigins calls w origins x.id x.version = calls := by
  have hrow : w.table.atVersion x.id x.version = none :=
    Table.atVersion_eq_none.mpr fun r hr => hx r.storedDEK (List.mem_map_of_mem hr)
  simp [noteOrigins, hrow]

end Origins

/-! ## 3. The invariant

`Sealed` speaks of the origins of the stored versions and of the providers of the requests that
wait. A thread has to promise for each of its calls what its own history has to contain. -/

/-- The provider is the one for the rows of the id. -/
def Serves (s : KeyService) (t : Table) (id : KeyID) (provider : String) : Prop :=
  ∃ profile, StoredUnder t id profile ∧ s.getKMSProvider profile = .ok provider

/-- Every version has its DEK, and every request that waits its provider. -/
structure Sealed (s : KeyService) (kms : KMS) (w : World × Origins) : Prop where
  rows : ∀ x ∈ w.1.table.deks, ∃ profile dek, x.profile = some profile ∧
    Generated s kms (w.2 x.id x.version) x.id profile x.encryptedDEK dek
  same : SameProfile w.1.table
  requests : ∀ req ∈ w.1.requests, Serves s w.1.table req.keyID req.kmsProvider

/-- What a thread promises of a call, given what it has done. -/
def SealPromise (s : KeyService) (kms : KMS) : Effect.History × EffectOp → World × Origins → Prop
  | (calls, .repo op), w =>
    (∀ k ∈ op.created, ∃ m dek, k.metadata = some m ∧
      Generated s kms calls k.id m.storageType k.encryptedDEK dek) ∧
    (∀ u ∈ op.written, ∀ m, u.2 = some m → StoredUnder w.1.table u.1 m.storageType) ∧
    ∀ x ∈ op.rotated, ∃ profile dek, StoredUnder w.1.table x.1 profile ∧
      Generated s kms calls x.1 profile x.2 dek
  | (_, .enqueue req), w => Serves s w.1.table req.keyID req.kmsProvider
  | _, _ => True

/-- The discipline.  That repository calls are sound and tables are chain tables is known. -/
def sealDiscipline (s : KeyService) (kms : KMS) :
    Discipline (Effect.label Effect.History) (World × Origins) where
  sem := ((worldSem s.uuid kms).record noteOrigins).restrict fun op w =>
    SoundCall s.uuid op.2 w.1 ∧ Chain s.uuid w.1.table
  promise := SealPromise s kms
  inv := Sealed s kms
  rely w w' := w.1.table.deks ⊆ w'.1.table.deks
  refl _ := List.Subset.refl _
  trans := List.Subset.trans

section Step

variable {s : KeyService} {kms : KMS} {t t' : Table}

theorem StoredUnder.mono {id : KeyID} {profile : StorageProfile} (h : StoredUnder t id profile)
    (hsub : t.deks ⊆ t'.deks) : StoredUnder t' id profile := by
  obtain ⟨x, hx, hid, hprofile⟩ := h
  exact ⟨x, hsub hx, hid, hprofile⟩

theorem Serves.mono {id : KeyID} {provider : String} (h : Serves s t id provider)
    (hsub : t.deks ⊆ t'.deks) : Serves s t' id provider := by
  obtain ⟨profile, hstored, hprovider⟩ := h
  exact ⟨profile, hstored.mono hsub, hprovider⟩

/-- A request that waits was waiting, or was just enqueued. -/
theorem worldSem_requests {uuid : UUIDPkg} {op : EffectOp} {w w' : World} {r : op.Res}
    (h : worldSem uuid kms op w r w') :
    ∀ req ∈ w'.requests, req ∈ w.requests ∨ op = .enqueue req := by
  obtain ⟨now, -, h⟩ := h
  intro req hreq
  cases op with
  | repo rop =>
    obtain ⟨t', -, rfl⟩ := h
    exact .inl hreq
  | newKeyID | auditLog _ | policySet _ _ _ =>
    change w' = _ at h
    subst h
    exact .inl hreq
  | enqueue req' =>
    simp only [stepAt] at h
    split at h
    · obtain ⟨-, rfl⟩ := h
      rcases List.mem_append.mp hreq with hold | hnew
      · exact .inl hold
      · rw [List.mem_singleton.mp hnew]
        exact .inr rfl
    · obtain ⟨-, rfl⟩ := h
      exact .inl hreq
  | awaitResult =>
    rcases h with ⟨res, rest, -, -, rfl⟩ | ⟨-, rfl⟩ <;> exact .inl hreq
  | takeRequest =>
    obtain ⟨rest, hrest, rfl⟩ := h
    rw [hrest]
    exact .inl (List.mem_cons_of_mem _ hreq)
  | encryptDEK _ _ _ | decryptDEK _ _ | timeNow | randRead _ | sendResult _ | policyGet _ =>
    obtain ⟨-, rfl⟩ := h
    exact .inl hreq

/-- What a call of the repository adds comes with its DEK. -/
theorem Adds.generated {op : RepoOp} {calls : Effect.History} {w : World × Origins} {x : StoredDEK}
    (h : Adds op w.1.table x) (hpromise : SealPromise s kms (calls, .repo op) w)
    (hsame : SameProfile w.1.table) : ∃ profile dek, x.profile = some profile ∧
      Generated s kms calls x.id profile x.encryptedDEK dek := by
  obtain ⟨hcreated, -, hrotated⟩ := hpromise
  rcases h with ⟨k, hk, rfl, -⟩ | ⟨old, hold, v, dek', hrot, rfl⟩
  · obtain ⟨m, dek, hm, hdek⟩ := hcreated k hk
    exact ⟨m.storageType, dek, by simp [Row.storedDEK, Row.ofKey, hm], hdek⟩
  · obtain ⟨profile, dek, ⟨y, hy, hyid, hprofile⟩, hdek⟩ := hrotated _ hrot
    exact ⟨profile, dek, (hsame y hy old hold hyid.symm).trans hprofile, hdek⟩

/-- **The step lemma.**  A call that is as promised keeps the invariant and takes no DEK away. -/
theorem Sealed.step {op : Effect.History × EffectOp} {w w' : World × Origins} {r : op.2.Res}
    (hstep : (sealDiscipline s kms).sem op w r w') (hpromise : SealPromise s kms op w)
    (hi : Sealed s kms w) : Sealed s kms w' ∧ w.1.table.deks ⊆ w'.1.table.deks := by
  obtain ⟨calls, op⟩ := op
  obtain ⟨⟨hsound, hchain⟩, hworld, horigins⟩ := hstep
  obtain ⟨new, hdeks, hnew⟩ : ∃ new, w'.1.table.deks = w.1.table.deks ++ new ∧ ∀ x ∈ new,
      (∃ rop, Adds rop w.1.table x) ∧ ∃ profile dek, x.profile = some profile ∧
        Generated s kms calls x.id profile x.encryptedDEK dek := by
    cases hop : op.isRepo with
    | false => exact ⟨[], by rw [worldSem_table hworld hop, List.append_nil], by simp⟩
    | true =>
      cases op with
      | repo rop =>
        obtain ⟨now, -, t', hans, hw'⟩ := hworld
        obtain ⟨new, hdeks, hnew⟩ :=
          deks_change hans.change hchain (hsound rop rfl) hi.same hpromise.2.1
        refine ⟨new, by rw [hw']; exact hdeks, fun x hx => ⟨⟨rop, hnew x hx⟩, ?_⟩⟩
        exact (hnew x hx).generated hpromise hi.same
      | _ => cases hop
  have hsub : w.1.table.deks ⊆ w'.1.table.deks := by
    rw [hdeks]
    exact List.subset_append_left _ _
  refine ⟨⟨fun x hx => ?_, ?_, fun req hreq => ?_⟩, hsub⟩
  · rw [hdeks] at hx
    rcases List.mem_append.mp hx with hold | hadd
    · rw [horigins, noteOrigins_old hold]
      exact hi.rows x hold
    · obtain ⟨-, profile, dek, hprofile, hdek⟩ := hnew x hadd
      have hfree : ∀ y ∈ w.1.table.deks, y.id = x.id → y.version ≠ x.version := by
        intro y hy hid hv
        have hnodup := w'.1.table.deks_nodup
        rw [hdeks, List.map_append] at hnodup
        have hmem : (x.id, x.version) ∈ w.1.table.deks.map fun z => (z.id, z.version) :=
          List.mem_map.mpr ⟨y, hy, by rw [hid, hv]⟩
        exact (List.nodup_append.mp hnodup).2.2 _ hmem _ (List.mem_map_of_mem hadd) rfl
      rw [horigins, noteOrigins_new hfree]
      exact ⟨profile, dek, hprofile, hdek.mono (List.sublist_append_left _ _)⟩
  · exact hi.same.adds hdeks fun x hx => (hnew x hx).1
  · rcases worldSem_requests hworld req hreq with hold | rfl
    · exact (hi.requests req hold).mono hsub
    · exact Serves.mono hpromise hsub

end Step

/-! ## 4. What the threads promise -/

section Threads

variable {s : KeyService} {kms : KMS}

/-- The action meets its obligations; `P` and `Q` speak of its own calls and of the world. -/
abbrev Seals (s : KeyService) (kms : KMS) {α : Type} (P : Effect.History × (World × Origins) → Prop)
    (p : Svc α) (Q : α → Effect.History × (World × Origins) → Prop) : Prop :=
  Act.Spec (sealDiscipline s kms).own P p Q

/-- A fact that lasts: about calls that were made, and DEKs that are stored. -/
def Lasting (s : KeyService) (kms : KMS) (P : Effect.History × (World × Origins) → Prop) : Prop :=
  ∀ w w', (sealDiscipline s kms).own.rely w w' → P w → P w'

theorem lasting_true : Lasting s kms fun _ => True := fun _ _ _ _ => trivial

theorem lasting_storedUnder (id : KeyID) (profile : StorageProfile) :
    Lasting s kms fun w => StoredUnder w.2.1.table id profile :=
  fun _ _ hrely h => h.mono hrely.2

theorem lasting_generated (id : KeyID) (profile : StorageProfile) (encryptedDEK dek : Bytes) :
    Lasting s kms fun w => Generated s kms w.1 id profile encryptedDEK dek :=
  fun _ _ hrely h => h.mono hrely.1

theorem Lasting.and {P Q : Effect.History × (World × Origins) → Prop} (hP : Lasting s kms P)
    (hQ : Lasting s kms Q) : Lasting s kms fun w => P w ∧ Q w :=
  fun w w' hrely h => ⟨hP w w' hrely h.1, hQ w w' hrely h.2⟩

theorem lasting_sublist (events : Effect.History) :
    Lasting s kms fun w => events.Sublist w.1 :=
  fun _ _ hrely h => h.trans hrely.1

/-- A promised call may be made. -/
theorem allows_promised {op : Effect.History × EffectOp}
    (h : ∀ w, Sealed s kms w → SealPromise s kms op w) : (sealDiscipline s kms).Allows op :=
  fun w hi => ⟨h w hi, fun _ _ hstep => hi.step hstep (h w hi)⟩

/-- A passive call may be made with any history. -/
theorem allows_passive {op : EffectOp} (h : op.Passive) (calls : Effect.History) :
    (sealDiscipline s kms).Allows (calls, op) := by
  refine allows_promised fun w _ => ?_
  rcases h with hplain | ⟨rop, rfl, ⟨hcreated, hwritten⟩, hrotated⟩
  · cases op with
    | repo rop => cases hplain
    | enqueue req => cases hplain
    | _ => trivial
  · simp [SealPromise, hcreated, hwritten, hrotated]

theorem seals_allows_plain {op : EffectOp} (h : op.isPlain = true) :
    (sealDiscipline s kms).own.Allows op :=
  Discipline.Allows.own fun calls => allows_passive (.inl h) calls

/-- A call of the repository, from what it has to bring. -/
theorem seals_repo {op : RepoOp} {P : Effect.History × (World × Origins) → Prop}
    (hP : Lasting s kms P) (h : ∀ w, P w → SealPromise s kms (w.1, .repo op) w.2) :
    Seals s kms P (repo op) fun _ _ => True := by
  refine Act.Spec.tryCall hP fun w hw hi => ⟨h w hw, ?_⟩
  rintro r ⟨calls', w'⟩ ⟨hop, rfl⟩
  obtain ⟨hi', hsub⟩ := Sealed.step hop (h w hw) hi
  exact ⟨hi', ⟨List.sublist_append_left _ _, hsub⟩, fun _ _ => trivial⟩

/-- What `GetKey` returns, and that it is stored so. -/
theorem seals_getKey {P : Effect.History × (World × Origins) → Prop} (hP : Lasting s kms P)
    (id : KeyID) : Seals s kms P (repo (.getKey id)) fun key w => P w ∧ Key.id key = id ∧
      ∃ m, Key.metadata key = some m ∧ StoredUnder w.2.1.table id m.storageType := by
  have hstill : (EffectOp.repo (.getKey id)).Passive := .inr ⟨_, rfl, ⟨rfl, rfl⟩, rfl⟩
  refine (Act.Spec.tryCall_own (allows_passive hstill) hP).conseq (fun _ h => h) ?_
  rintro key w' ⟨hPw, w, r, -, hi, hr, ⟨-, ⟨now, -, t', hans, hw'⟩, -⟩, -⟩
  obtain rfl : r = .ok key := hr
  obtain ⟨rfl, row, hrow, rfl⟩ := answers_getKey hans
  obtain ⟨hmem, hid, -⟩ := Table.latest_eq_some.mp hrow
  obtain ⟨profile, -, hprofile, -⟩ := hi.rows row.storedDEK (List.mem_map_of_mem hmem)
  obtain ⟨m, hm, rfl⟩ := Option.map_eq_some_iff.mp hprofile
  refine ⟨hPw, hid, m, hm, row.storedDEK, ?_, hid, hprofile⟩
  rw [hw']
  exact List.mem_map_of_mem hmem

/-- The bytes that are read are among the calls. -/
theorem seals_randRead {P : Effect.History × (World × Origins) → Prop} (hP : Lasting s kms P)
    (n : Nat) : Seals s kms P (randRead n) fun dek w => P w ∧ [readEvent n dek].Sublist w.1 := by
  refine (Act.Spec.tryCall_own (allows_passive (.inl rfl)) hP).conseq (fun _ h => h) ?_
  rintro dek w' ⟨hPw, w, r, -, -, rfl, -, hcalls⟩
  refine ⟨hPw, ?_⟩
  rw [hcalls]
  exact List.sublist_append_right _ _

/-- **What `EncryptDEK` returns is generated.** -/
theorem seals_encryptDEK {P : Effect.History × (World × Origins) → Prop} (hP : Lasting s kms P)
    {n : Nat} {dek : Bytes} {provider : String} {key : Key} {profile : StorageProfile}
    (hprovider : s.getKMSProvider profile = .ok provider) :
    Seals s kms (fun w => P w ∧ [readEvent n dek].Sublist w.1) (encryptDEK provider dek key)
      fun encryptedDEK w => P w ∧ Generated s kms w.1 key.id profile encryptedDEK dek := by
  refine (Act.Spec.tryCall_own (allows_passive (.inl rfl))
    (hP.and (lasting_sublist _))).conseq (fun _ h => h) ?_
  rintro encryptedDEK w' ⟨⟨hPw, -⟩, w, r, ⟨-, hread⟩, -, rfl,
    ⟨-, ⟨now, -, hencrypts, -⟩, -⟩, hcalls⟩
  refine ⟨hPw, n, provider, key, hprovider, rfl, hencrypts, ?_⟩
  rw [hcalls]
  exact hread.append (List.Sublist.refl [sealEvent provider dek key encryptedDEK])

/-- A creation has generated the DEK of the key it builds. -/
theorem seals_createKeyObject (item : CreateKeyItem) (identity : String)
    (profile : StorageProfile) :
    Seals s kms (fun _ => True) (s.createKeyObject item identity profile) fun key w =>
      ∃ m dek, Key.metadata key = some m ∧
        Generated s kms w.1 key.id m.storageType key.encryptedDEK dek := by
  unfold KeyService.createKeyObject
  refine Act.Spec.bind (Act.Spec.ofExcept fun _ _ _ h => h) fun description => ?_
  refine Act.Spec.bind (Act.Spec.ofExcept fun _ _ _ h => h) fun size => ?_
  refine Act.Spec.bind (seals_randRead lasting_true size).mapError fun dek => ?_
  have hstays : Lasting s kms fun w => True ∧ [readEvent size dek].Sublist w.1 :=
    lasting_true.and (lasting_sublist _)
  refine Act.Spec.bind (spec_call (fun _ => seals_allows_plain) hstays rfl) fun keyID => ?_
  refine Act.Spec.bind (spec_call (fun _ => seals_allows_plain) hstays rfl) fun now => ?_
  refine Act.Spec.bind (Q := fun provider w => s.getKMSProvider profile = .ok provider ∧
    True ∧ [readEvent size dek].Sublist w.1)
    (Act.Spec.ofExcept fun provider hprovider w h => ⟨hprovider, h⟩) fun provider => ?_
  refine Act.Spec.assume fun hprovider => ?_
  refine Act.Spec.bind (seals_encryptDEK lasting_true hprovider).mapError fun encryptedDEK => ?_
  exact Act.Spec.pure fun w h => ⟨_, dek, rfl, h.2⟩

theorem seals_createKey (req : CreateKeyRequest) :
    Seals s kms (fun _ => True) (s.createKey req) fun _ _ => True := by
  refine spec_createKey_of (fun _ => seals_allows_plain) (seals_createKeyObject _ _ _) fun key => ?_
  refine seals_repo (fun w w' hrely h => ?_) fun w h =>
    ⟨fun k hk => ?_, fun u hu => ?_, fun x hx => ?_⟩
  · obtain ⟨m, dek, hm, hdek⟩ := h
    exact ⟨m, dek, hm, hdek.mono hrely.1⟩
  · rw [List.mem_singleton.mp hk]
    exact h
  · cases hu
  · cases hx

theorem seals_batchCreateKeys (req : BatchCreateKeysRequest) :
    Seals s kms (fun _ => True) (s.batchCreateKeys req) fun _ _ => True := by
  refine spec_batchCreateKeys_of (K := fun _ key w => ∃ m dek, Key.metadata key = some m ∧
    Generated s kms w.1 key.id m.storageType key.encryptedDEK dek) (fun _ _ w w' hrely h => ?_)
    (fun item _ => seals_createKeyObject item _ _) fun keys => ?_
  · obtain ⟨m, dek, hm, hdek⟩ := h
    exact ⟨m, dek, hm, hdek.mono hrely.1⟩
  · refine seals_repo (fun w w' hrely h k hk => ?_)
      fun w h => ⟨fun k hk => ?_, fun u hu => ?_, fun x hx => ?_⟩
    · obtain ⟨item, hitem, m, dek, hm, hdek⟩ := h k hk
      exact ⟨item, hitem, m, dek, hm, hdek.mono hrely.1⟩
    · obtain ⟨item, -, hkey⟩ := h k hk
      exact hkey
    · cases hu
    · cases hx

/-- An update writes the storage type that it read. -/
theorem seals_updateKeyMetadata (req : UpdateKeyMetadataRequest) :
    Seals s kms (fun _ => True) (s.updateKeyMetadata req) fun _ _ => True := by
  refine spec_updateKeyMetadata (G := fun id m w => StoredUnder w.2.1.table id m.storageType)
    (fun _ => seals_allows_plain) (fun _ _ _ _ hrely h => h.mono hrely.2) (fun id _ => ?_)
    fun id m => ?_
  · refine (seals_getKey lasting_true id).conseq (fun _ h => h) ?_
    rintro key w ⟨-, -, m', hm', hstored⟩ m description now hm
    cases hm'.symm.trans hm
    exact hstored
  · refine seals_repo (lasting_storedUnder id _)
      fun w h => ⟨fun k hk => ?_, fun u hu m' hm' => ?_, fun x hx => ?_⟩
    · cases hk
    · rw [List.mem_singleton.mp hu] at hm' ⊢
      cases hm'
      exact h
    · cases hx

theorem seals_batchUpdateKeyMetadata (req : BatchUpdateKeyMetadataRequest) :
    Seals s kms (fun _ => True) (s.batchUpdateKeyMetadata req) fun _ _ => True := by
  refine spec_batchUpdateKeyMetadata (G := fun key w => ∀ m, Key.metadata key = some m →
    StoredUnder w.2.1.table key.id m.storageType) (fun _ => seals_allows_plain)
    (fun _ _ _ hrely h m hm => (h m hm).mono hrely.2) (fun item _ id _ => ?_) fun keys => ?_
  · refine (seals_getKey lasting_true id).conseq (fun _ h => h) ?_
    rintro key w ⟨-, hid, m', hm', hstored⟩ m description now hm m₁ hm₁
    cases hm'.symm.trans hm
    cases hm₁
    exact hid ▸ hstored
  · refine seals_repo (fun w w' hrely h k hk m hm => (h k hk m hm).mono hrely.2)
      fun w h => ⟨fun k hk => ?_, fun u hu m hm => ?_, fun x hx => ?_⟩
    · cases hk
    · obtain ⟨k, hk, rfl⟩ := List.mem_map.mp hu
      exact h k hk m hm
    · cases hx

/-- A rotation may store a DEK that was generated for the id and its storage type. -/
theorem seals_rotate {id : KeyID} {profile : StorageProfile} {encryptedDEK dek : Bytes} :
    Seals s kms (fun w => StoredUnder w.2.1.table id profile ∧
      Generated s kms w.1 id profile encryptedDEK dek) (repo (.rotateKey id encryptedDEK))
      fun _ _ => True := by
  refine seals_repo ((lasting_storedUnder id profile).and (lasting_generated _ _ _ _))
    fun w h => ⟨fun k hk => ?_, fun u hu => ?_, fun x hx => ?_⟩
  · cases hk
  · cases hu
  · rw [List.mem_singleton.mp hx]
    exact ⟨profile, dek, h⟩

/-- The worker rotates with the provider of the request. -/
theorem seals_pipelineRotation (req : KeyRotationRequest) :
    Seals s kms (fun w => Serves s w.2.1.table req.keyID req.kmsProvider)
      (KeyService.pipelineRotation req) fun _ _ => True := by
  have hserves : Lasting s kms fun w => Serves s w.2.1.table req.keyID req.kmsProvider :=
    fun _ _ hrely h => h.mono hrely.2
  refine Act.Spec.bind (seals_getKey hserves req.keyID).mapError fun currentKey => ?_
  refine Act.Spec.pre (P := fun w => ∃ profile, (Key.id currentKey = req.keyID ∧
    s.getKMSProvider profile = .ok req.kmsProvider) ∧ StoredUnder w.2.1.table req.keyID profile)
    ?_ fun w h => ?_
  · refine Act.Spec.exists fun profile => Act.Spec.assume fun hknown => ?_
    obtain ⟨hid, hprovider⟩ := hknown
    have hstored : Lasting s kms fun w => StoredUnder w.2.1.table req.keyID profile :=
      lasting_storedUnder _ _
    refine Act.Spec.bind (seals_randRead hstored _).mapError fun newDEK => ?_
    refine Act.Spec.bind (seals_encryptDEK hstored hprovider).mapError fun encryptedNewDEK => ?_
    rw [hid]
    exact seals_rotate.mapError
  · obtain ⟨⟨profile, hstored, hprovider⟩, hid, -⟩ := h
    exact ⟨profile, ⟨hid, hprovider⟩, hstored⟩

/-- A request that a worker takes has the right provider. -/
theorem seals_workerTurn :
    Seals s kms (fun _ => True) KeyService.workerTurn fun _ _ => True := by
  have htake : Seals s kms (fun _ => True) (Act.call (I := Effect) .takeRequest)
      fun req w => Serves s w.2.1.table req.keyID req.kmsProvider := by
    refine (Act.Spec.tryCall_own (k := Except.ok) (allows_passive (.inl rfl))
      lasting_true).conseq (fun _ h => h) ?_
    rintro req w' ⟨-, w, r, -, hi, hr, ⟨-, ⟨now, -, rest, hrest, hw'⟩, -⟩, -⟩
    cases hr
    rw [hw']
    exact hi.requests req (by simp [hrest])
  refine Act.Spec.bind htake fun req => ?_
  refine Act.Spec.bind (seals_pipelineRotation req).attempt fun rotatedKey => ?_
  exact (spec_call (fun _ => seals_allows_plain) lasting_true rfl).pre fun _ _ => trivial

/-- A rotation of a batch selects its provider from the key it reads. -/
theorem seals_rotateItem (item : RotateKeyItem) :
    Seals s kms (fun _ => True) (s.rotateItem item) fun _ _ => True := by
  have htime : Seals s kms (fun _ => True) (Act.call (I := Effect) .timeNow) fun _ _ => True :=
    spec_call (fun _ => seals_allows_plain) lasting_true rfl
  have hrotation : ∀ keyID, Seals s kms (fun _ => True) (s.processRotation keyID)
      fun _ _ => True := by
    intro keyID
    refine Act.Spec.bind (seals_getKey lasting_true keyID).mapError fun currentKey => ?_
    refine Act.Spec.pre (P := fun w => ∃ m, (Key.id currentKey = keyID ∧
      Key.metadata currentKey = some m) ∧ StoredUnder w.2.1.table keyID m.storageType)
      ?_ fun w h => ?_
    · refine Act.Spec.exists fun m => Act.Spec.assume fun hknown => ?_
      obtain ⟨hid, hm⟩ := hknown
      have hstored : Lasting s kms fun w => StoredUnder w.2.1.table keyID m.storageType :=
        lasting_storedUnder _ _
      have htype : Key.storageType currentKey = m.storageType := by simp [Key.storageType, hm]
      rw [htype]
      refine Act.Spec.bind (Q := fun provider w => s.getKMSProvider m.storageType = .ok provider ∧
        StoredUnder w.2.1.table keyID m.storageType)
        (Act.Spec.ofExcept fun provider hprovider w h => ⟨hprovider, h⟩) fun provider => ?_
      refine Act.Spec.assume fun hprovider => ?_
      refine Act.Spec.bind (Act.Spec.ofExcept fun _ _ _ h => h) fun size => ?_
      refine Act.Spec.bind (seals_randRead hstored size).mapError fun newDEK => ?_
      refine Act.Spec.bind (seals_encryptDEK hstored hprovider).mapError fun encryptedNewDEK => ?_
      rw [hid]
      exact Act.Spec.bind seals_rotate.mapError fun rotatedKey => Act.Spec.pure fun _ _ => trivial
    · obtain ⟨-, hid, m, hm, hstored⟩ := h
      exact ⟨m, ⟨hid, hm⟩, hstored⟩
  refine Act.Spec.bind (Act.Spec.ofExcept fun _ _ _ h => h) fun keyID => ?_
  refine Act.Spec.bind (hrotation keyID) fun keys => ?_
  exact Act.Spec.bind htime fun now => Act.Spec.pure fun _ _ => trivial

/-- A single rotation enqueues a request with the provider of the key it read. -/
theorem seals_rotateKey (req : RotateKeyRequest) :
    Seals s kms (fun _ => True) (s.rotateKey req) fun _ _ => True := by
  have hrequest : Seals s kms (fun _ => True) (s.rotationRequest req.item) fun current w =>
      Serves s w.2.1.table current.2.keyID current.2.kmsProvider := by
    refine Act.Spec.bind (Act.Spec.ofExcept fun _ _ _ h => h) fun keyID => ?_
    refine Act.Spec.bind (seals_getKey lasting_true keyID).mapError fun currentKey => ?_
    refine Act.Spec.bind (Q := fun provider w => Serves s w.2.1.table keyID provider)
      (Act.Spec.ofExcept fun provider hprovider w h => ?_) fun provider => ?_
    · obtain ⟨-, -, m, hm, hstored⟩ := h
      rw [Key.storageType, hm] at hprovider
      exact ⟨m.storageType, hstored, hprovider⟩
    · refine Act.Spec.bind (Act.Spec.ofExcept fun _ _ _ h => h) fun size => ?_
      exact Act.Spec.pure fun _ h => h
  have henqueue : ∀ request : KeyRotationRequest, Seals s kms
      (fun w => Serves s w.2.1.table request.keyID request.kmsProvider)
      (Act.call (I := Effect) (.enqueue request)) fun _ _ => True := by
    intro request
    refine Act.Spec.call (fun w w' hrely h => h.mono hrely.2) fun w hw hi => ⟨hw, ?_⟩
    rintro r ⟨calls', w'⟩ ⟨hop, rfl⟩
    obtain ⟨hi', hsub⟩ := Sealed.step hop hw hi
    exact ⟨hi', ⟨List.sublist_append_left _ _, hsub⟩, trivial⟩
  have hplain : ∀ op : EffectOp, op.isPlain = true →
      Seals s kms (fun _ => True) (Act.call (I := Effect) op) fun _ _ => True :=
    fun op hop => spec_call (fun _ => seals_allows_plain) lasting_true hop
  refine Act.Spec.bind hrequest fun current => Act.Spec.bind (henqueue _) fun accepted => ?_
  simp only
  split
  · exact Act.Spec.throw
  · refine Act.Spec.bind (hplain _ rfl) fun received => ?_
    cases received with
    | none => exact Act.Spec.throw
    | some result =>
      simp only
      split
      · exact Act.Spec.throw
      · exact Act.Spec.bind (hplain _ rfl) fun now => Act.Spec.pure fun _ _ => trivial

/-- **Every thread of the service meets its obligation.** -/
theorem seals_threads (call : ServiceCall) (w : Effect.History × (World × Origins)) :
    ∀ t ∈ call.threads s, t.Meets (sealDiscipline s kms).own (fun _ _ => True) w := by
  intro t ht
  have hpassive : t.Only EffectOp.Passive →
      t.Meets (sealDiscipline s kms).own (fun _ _ => True) w := fun h =>
    Prog.Only.meets (h.mono fun op hop => Discipline.Allows.own (allows_passive hop)) w
  cases call with
  | createKey req => exact List.mem_singleton.mp ht ▸ meets_thread (seals_createKey req) w
  | batchCreateKeys req =>
    exact List.mem_singleton.mp ht ▸ meets_thread (seals_batchCreateKeys req) w
  | updateKeyMetadata req =>
    exact List.mem_singleton.mp ht ▸ meets_thread (seals_updateKeyMetadata req) w
  | batchUpdateKeyMetadata req =>
    exact List.mem_singleton.mp ht ▸ meets_thread (seals_batchUpdateKeyMetadata req) w
  | rotateKey req => exact List.mem_singleton.mp ht ▸ meets_thread (seals_rotateKey req) w
  | batchRotateKeys req =>
    obtain ⟨item, -, rfl⟩ := List.mem_map.mp ht
    exact meets_thread (seals_rotateItem item) w
  | worker => exact List.mem_singleton.mp ht ▸ meets_thread seals_workerTurn w
  | _ => exact hpassive (threads_passive rfl rfl (fun _ hreq => by cases hreq) t ht)

end Threads

/-! ## 5. Whole runs -/

/-- Every reachable pool is sealed. -/
theorem DEKReachable.sealed {s : KeyService} {kms : KMS} {p : DEKPool} (h : DEKReachable s kms p) :
    Sealed s kms p.state := by
  obtain ⟨now, hrun⟩ := h
  -- that calls are sound and tables chain tables is known from runs without histories
  have hchain : Pool.Good ((chainDiscipline s kms).record noteOrigins)
      (⟨(.init now, fun _ _ => []), []⟩ : DEKPool) := ⟨chain_empty _, fun _ ht => by cases ht⟩
  have hsound := hrun.promised (D := (chainDiscipline s kms).record noteOrigins)
    (by
      rintro _ ⟨ts, hstart, rfl⟩ w t ht
      obtain ⟨u, hu, rfl⟩ := List.mem_map.mp ht
      exact (meets_threads ts hstart w.1 u hu).record [] w.2) hchain
  have hempty : Pool.Good (sealDiscipline s kms)
      (⟨(.init now, fun _ _ => []), []⟩ : DEKPool) := by
    refine ⟨⟨fun x hx => ?_, fun x hx => ?_, fun req hreq => ?_⟩, fun t ht => ?_⟩
    · cases hx
    · cases hx
    · cases hreq
    · cases ht
  refine (Pool.invariant (D := sealDiscipline s kms) ?_ hsound hempty).1.1
  rintro _ ⟨ts, ⟨call, rfl⟩, rfl⟩ w t ht
  obtain ⟨u, hu, rfl⟩ := List.mem_map.mp ht
  exact (seals_threads call ([], w) u hu).own

/-- **Every stored DEK stays decryptable to the value generated for it.**  In every run, for every
row: the thread that stored it had read `dek` from `rand.Read` and then had the row's ciphertext for
it, and the provider that the row's own metadata selects decrypts the row to `dek`, whatever its
cache holds; only AWS can fail to answer.  And what was encrypted under the master key itself is
decrypted as well. -/
theorem storedDEK_decrypts (s : KeyService) (providers : KMSProviders) :
    (∀ p, DEKReachable s providers.kms p → ∀ r ∈ p.state.1.table.rows, ∃ m provider dek,
      r.metadata = some m ∧ s.getKMSProvider m.storageType = .ok provider ∧
      Generated s providers.kms (p.state.2 r.id r.version) r.id m.storageType r.encryptedDEK dek ∧
      ∀ answer, providers.kms.decrypts provider r.scan answer → answer = .ok dek ∨
        provider ≠ "local" ∧ ∃ e, answer = .error e ∧ providers.awsProvider.client.outage e) ∧
    ∀ (cache : Cache String Bytes) (nonce plaintext ciphertext : Bytes) (key : Key)
      (now later : Time), providers.localProvider.DerivedKeys cache → nonce.length = nonceSize →
      providers.localProvider.encryptWithKey (.ok nonce)
        providers.localProvider.masterKey plaintext =
        .ok ciphertext → key.encryptedDEK = ciphertext →
      (providers.localProvider.decryptDEK now later key cache).1 = .ok plaintext := by
  constructor
  · intro p hp r hr
    obtain ⟨profile, dek, hprofile, hdek⟩ := hp.sealed.rows r.storedDEK (List.mem_map_of_mem hr)
    obtain ⟨m, hm, rfl⟩ := Option.map_eq_some_iff.mp hprofile
    have hdek' := hdek
    obtain ⟨n, provider, key, hprovider, hid, hencrypts, -⟩ := hdek
    refine ⟨m, provider, dek, hm, hprovider, hdek', fun answer hanswer => ?_⟩
    exact KMSProviders.inverts hencrypts hid.symm rfl hanswer
  · intro cache nonce plaintext ciphertext key now later hcache hnonce hencrypt hdek
    refine LocalKMSProvider.decryptDEK_legacy (fun n hn => ?_) hcache hencrypt now later hdek
    cases hn
    exact hnonce

/-! ### A created key -/

/-- A cipher that writes the key and its length before the plaintext. -/
def sampleGCM : GCM where
  aeadSeal key _ plaintext := UInt8.ofNat key.length :: (key ++ plaintext)
  aeadOpen key _ ciphertext :=
    if ciphertext.take (key.length + 1) = UInt8.ofNat key.length :: key then
      .ok (ciphertext.drop (key.length + 1))
    else .error (.new "cipher: message authentication failed")
  open_seal key nonce plaintext _ := by simp
  open_other key key' nonce plaintext hkey hkey' hne := by
    have hsize : ∀ k : Bytes, newCipher k = .ok () → k.length < 256 := by
      intro k hk
      unfold newCipher at hk
      split at hk
      · omega
      · cases hk
    rw [if_neg]
    · exact ⟨_, rfl⟩
    · intro heq
      simp only [List.take_succ_cons, List.cons.injEq] at heq
      have hlen : key.length = key'.length := by
        have hmod := congrArg UInt8.toNat heq.1
        simp only [UInt8.toNat_ofNat'] at hmod
        have hlt := hsize key hkey
        have hlt' := hsize key' hkey'
        omega
      rw [← hlen, List.take_left] at heq
      exact hne heq.2.symm

def sampleProviders : KMSProviders where
  localProvider := ⟨googleUUID, sampleGCM, fun _ _ _ n => List.replicate n 7, List.replicate 32 1⟩
  awsProvider := ⟨{
    encrypts := fun _ plaintext r => r = .ok plaintext
    decrypts := fun _ ciphertext r => r = .ok ciphertext
    outage := fun _ => False
    inverts := fun _ _ _ _ hencrypts hdecrypts => by cases hencrypts; exact .inl hdecrypts
    decrypts_total := fun _ ciphertext => ⟨.ok ciphertext, rfl⟩ }, "arn"⟩

def sampleNonce : Bytes := List.replicate nonceSize 0

/-- The sample world with the local provider, whose cache is empty. -/
def dekStep : Handler Effect World
  | .encryptDEK provider dek key, w =>
    if provider = "local" then
      some ((sampleProviders.localProvider.encryptDEK 0 0 (.ok sampleNonce) dek key
        (.new String Bytes derivedKeyCacheTTL)).1, w)
    else none
  | .decryptDEK _ _, _ => none
  | op, w => sampleStep op w

theorem dekStep_sound : Handler.Sound dekStep (worldSem googleUUID sampleProviders.kms) := by
  intro op w r w' h
  cases op with
  | encryptDEK provider dek key =>
    simp only [dekStep, Option.ite_none_right_eq_some, Option.some.injEq, Prod.mk.injEq] at h
    obtain ⟨hprovider, hr, hw⟩ := h
    refine ⟨w.clock, le_rfl, ?_, hw.symm⟩
    rw [hprovider, ← hr]
    exact sampleProviders.kms_encrypts_local rfl 0 0 dek key
  | decryptDEK provider key => cases h
  | _ => exact sampleStep_sound _ _ _ _ h

/-- A creation has run to its end. -/
def createdDEKPool : DEKPool :=
  Pool.after (dekStep.record noteOrigins)
    [.join ((sampleCreate.threads sampleService).map (Prog.log [])), .finish 0]
    ⟨(.init 0, fun _ _ => []), []⟩

theorem createdDEKPool_reachable :
    DEKReachable sampleService sampleProviders.kms createdDEKPool := by
  refine ⟨0, Pool.after_reaches (dekStep_sound.record noteOrigins) (fun new hnew => ?_) _⟩
  simp only [List.mem_cons, Pool.Move.join.injEq, reduceCtorEq, List.not_mem_nil, or_false] at hnew
  exact ⟨_, ⟨sampleCreate, rfl⟩, hnew⟩

/-- The created key, and some bytes under the master key. -/
theorem storedDEK_decrypts_created :
    (∃ r ∈ createdDEKPool.state.1.table.rows, ∃ m provider dek, r.metadata = some m ∧
      sampleService.getKMSProvider m.storageType = .ok provider ∧
      Generated sampleService sampleProviders.kms (createdDEKPool.state.2 r.id r.version) r.id
        m.storageType r.encryptedDEK dek ∧
      ∀ answer, sampleProviders.kms.decrypts provider r.scan answer → answer = .ok dek ∨
        provider ≠ "local" ∧
          ∃ e, answer = .error e ∧ sampleProviders.awsProvider.client.outage e) ∧
    ∃ ciphertext, sampleProviders.localProvider.encryptWithKey (.ok sampleNonce)
      sampleProviders.localProvider.masterKey [5] = .ok ciphertext ∧
      ∀ key : Key, key.encryptedDEK = ciphertext →
        (sampleProviders.localProvider.decryptDEK 0 0 key
          (.new String Bytes derivedKeyCacheTTL)).1 = .ok [5] := by
  constructor
  · have hrows : createdDEKPool.state.1.table.rows ≠ [] := by decide +kernel
    obtain ⟨r, hr⟩ := List.exists_mem_of_ne_nil _ hrows
    exact ⟨r, hr, (storedDEK_decrypts sampleService sampleProviders).1 createdDEKPool
      createdDEKPool_reachable r hr⟩
  · have hencrypt : (sampleProviders.localProvider.encryptWithKey (.ok sampleNonce)
        sampleProviders.localProvider.masterKey [5]) = .ok (sampleNonce ++ sampleGCM.aeadSeal
          sampleProviders.localProvider.masterKey sampleNonce [5]) := rfl
    refine ⟨_, hencrypt, fun key hkey => ?_⟩
    exact (storedDEK_decrypts sampleService sampleProviders).2 _ sampleNonce [5] _ key 0 0 .new rfl
      hencrypt hkey

end Polykey
