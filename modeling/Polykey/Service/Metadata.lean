/-
# Facts about all stored metadata

Metadata enters the table in three ways: a creation stores what it built, a rotation copies the
metadata of the newest row with the next version in it, and an update writes back an edited copy of
what it read.  A fact `F` about metadata therefore holds of every row of every reachable table if
it holds of what creations build and is kept by a change of the version and by the edits.

An edit may keep the fact only under a condition on what was read.  The condition is a parameter
here: `permit` restricts the calls of a run, and the read of an update is one of them.
-/
import Polykey.Service.Calls

namespace Polykey

open Lib PSQLAdapter

/-! ## 1. The fact and what keeps it

What a call brings is asked of the call; what a rotation copies has the fact because the row had
it. -/

/-- The metadata of every row satisfies `F`. -/
def Stored (F : KeyMetadata → Prop) (t : Table) : Prop :=
  ∀ r ∈ t.rows, ∀ m, r.metadata = some m → F m

/-- So does all metadata that a call brings. -/
structure Brings (F : KeyMetadata → Prop) (op : RepoOp) : Prop where
  created : ∀ k ∈ op.created, ∀ m, k.metadata = some m → F m
  written : ∀ u ∈ op.written, ∀ m, u.2 = some m → F m

theorem RepoOp.Quiet.brings {F : KeyMetadata → Prop} {op : RepoOp} (h : op.Quiet) :
    Brings F op := by
  constructor
  · intro k hk
    simp [h.1] at hk
  · intro u hu
    simp [h.2] at hu

theorem stored_empty (F : KeyMetadata → Prop) : Stored F Table.empty := by
  intro r hr
  cases hr

section Stored

variable {F : KeyMetadata → Prop} {t t' : Table} {now : Time}

theorem Stored.mapRows (h : Stored F t) {f : Row → Row} {hf : ∀ r, (f r).key = r.key}
    (hmeta : ∀ r ∈ t.rows, (f r).metadata = r.metadata ∨ ∀ m, (f r).metadata = some m → F m) :
    Stored F (t.mapRows f hf) := by
  intro r hr m hm
  obtain ⟨r₀, hr₀, rfl⟩ := Table.mem_mapRows.mp hr
  rcases hmeta r₀ hr₀ with hsame | hnew
  · rw [hsame] at hm
    exact h r₀ hr₀ m hm
  · exact hnew m hm

theorem Stored.append (h : Stored F t) {new : List Row} (hrows : t'.rows = t.rows ++ new)
    (hnew : ∀ r ∈ new, ∀ m, r.metadata = some m → F m) : Stored F t' := by
  intro r hr
  rcases List.mem_append.mp (hrows ▸ hr) with hold | hadd
  · exact h r hold
  · exact hnew r hadd

theorem Stored.updateEach (h : Stored F t) {updates : List (KeyID × Option KeyMetadata)}
    (hupdates : ∀ u ∈ updates, ∀ m, u.2 = some m → F m) :
    Stored F (PSQLAdapter.updateEach now t updates) := by
  induction updates generalizing t with
  | nil => exact h
  | cons u us ih =>
    refine ih (h.mapRows fun r _ => ?_) fun u' hu' => hupdates u' (by simp [hu'])
    split
    · exact .inr (hupdates u (by simp))
    · exact .inl rfl

/-- **The step lemma.**  A call that brings the fact leaves it, a rotation included. -/
theorem Stored.change (hversion : ∀ m v, F m → F { m with version := v }) (h : Stored F t)
    {op : RepoOp} (hchange : Change now op t t') (hbrings : Brings F op) : Stored F t' := by
  cases hchange with
  | same => exact h
  | create hins =>
    refine h.append (Table.insert_eq_some hins) fun r hr => ?_
    obtain ⟨k, hk, rfl⟩ := List.mem_map.mp hr
    exact hbrings.created k hk
  | update _ => exact h.updateEach hbrings.written
  | revoke =>
    refine h.mapRows fun r _ => .inl ?_
    split <;> rfl
  | @rotate id dek _ _ old m hrot =>
    have hmarked : Stored F (t.markRotated id (timestamptz now)) := by
      refine h.mapRows fun r _ => .inl ?_
      split <;> rfl
    refine hmarked.append hrot.rows fun r hr m' hm' => ?_
    rw [List.mem_singleton.mp hr] at hm'
    cases hm'
    exact hversion m _ (h old (Table.latest_eq_some.mp hrot.latest).1 m hrot.metadata)

end Stored

/-! ## 2. The discipline -/

/-- All stored metadata satisfies `F`, in the runs whose calls are permitted. -/
def metadataDiscipline (s : KeyService) (kms : KMS) (F : KeyMetadata → Prop)
    (permit : EffectOp → World → Prop) : Discipline Effect World where
  sem := (worldSem s.uuid kms).restrict permit
  promise op _ := ∀ rop, op = .repo rop → Brings F rop
  inv w := Stored F w.table
  rely _ _ := True
  refl _ := trivial
  trans _ _ := trivial

section Discipline

variable {s : KeyService} {kms : KMS} {F : KeyMetadata → Prop} {permit : EffectOp → World → Prop}
  (hversion : ∀ m v, F m → F { m with version := v })

include hversion

/-- A call that brings the fact may be made anywhere. -/
theorem allows_brings {op : EffectOp} (h : ∀ rop, op = .repo rop → Brings F rop) :
    (metadataDiscipline s kms F permit).Allows op := by
  intro w hi
  refine ⟨h, fun r w' hstep => ⟨?_, trivial⟩⟩
  change Stored F w'.table
  cases hop : op.isRepo with
  | false =>
    rw [worldSem_table hstep.2 hop]
    exact hi
  | true =>
    cases op with
    | repo rop =>
      obtain ⟨-, now, -, t', hans, rfl⟩ := hstep
      exact hi.change hversion hans.change (h rop rfl)
    | _ => cases hop

theorem metadata_quiet {op : EffectOp} (h : op.Quiet) :
    (metadataDiscipline s kms F permit).Allows op :=
  allows_brings hversion fun rop heq => (h rop heq).brings

theorem metadata_plain {op : EffectOp} (h : op.isPlain = true) :
    (metadataDiscipline s kms F permit).Allows op :=
  metadata_quiet hversion (EffectOp.Passive.still op (.inl h)).quiet

/-- A repository call, from a precondition on what it brings. -/
theorem metadata_repo {op : RepoOp} {C : Prop} (h : C → Brings F op) :
    Act.Spec (metadataDiscipline s kms F permit) (fun _ => C) (repo op) fun _ _ => True := by
  refine Act.Spec.tryCall (fun _ _ _ hC => hC) fun w hC hi => ?_
  have hallows : (metadataDiscipline s kms F permit).Allows (.repo op) := by
    refine allows_brings hversion fun rop heq => ?_
    cases heq
    exact h hC
  obtain ⟨hpromise, hstep⟩ := hallows w hi
  exact ⟨hpromise, fun r w' hop => ⟨(hstep r w' hop).1, trivial, fun _ _ => trivial⟩⟩

/-- What a permitted read returns: metadata with the fact, that lay in the latest row. -/
theorem metadata_getKey (id : KeyID) :
    Act.Spec (metadataDiscipline s kms F permit) (fun _ => True) (repo (.getKey id)) fun key _ =>
      ∀ m, Key.metadata key = some m → F m ∧ ∃ w r, permit (.repo (.getKey id)) w ∧
        w.table.latest id = some r ∧ r.metadata = some m := by
  refine Act.Spec.tryCall (fun _ _ _ _ => trivial) fun w _ hi => ?_
  have hallows : (metadataDiscipline s kms F permit).Allows (.repo (.getKey id)) := by
    refine metadata_quiet hversion fun rop heq => ?_
    cases heq
    exact ⟨rfl, rfl⟩
  obtain ⟨hpromise, hstep⟩ := hallows w hi
  refine ⟨hpromise, fun r w' hop => ⟨(hstep r w' hop).1, trivial, fun key hkey m hm => ?_⟩⟩
  obtain ⟨hpermit, now, -, t', hans, -⟩ := hop
  obtain rfl : r = .ok key := hkey
  obtain ⟨-, row, hrow, rfl⟩ := answers_getKey hans
  exact ⟨hi row (Table.latest_eq_some.mp hrow).1 m hm, w, row, hpermit, hrow, hm⟩

end Discipline

/-! ## 3. Whole runs -/

/-- What a call has to meet: its creations build metadata with the fact, and its edits keep the fact
on what a permitted read can give. -/
def Respects (s : KeyService) (F : KeyMetadata → Prop) (permit : EffectOp → World → Prop) :
    ServiceCall → Prop
  | .createKey req => ∀ identity profile key, s.Builds req.item identity profile key →
      ∀ m, key.metadata = some m → F m
  | .batchCreateKeys req => ∀ item ∈ req.keys, ∀ identity profile key,
      s.Builds item identity profile key → ∀ m, key.metadata = some m → F m
  | .updateKeyMetadata req => ∀ id w r m, keyIDFromString s.uuid req.item.keyId = .ok id →
      permit (.repo (.getKey id)) w → w.table.latest id = some r → r.metadata = some m → F m →
      ∀ description now,
        F { KeyService.applyChanges req.item description m with updatedAt := some now }
  | .batchUpdateKeyMetadata req => ∀ item ∈ req.keys, ∀ id w r m,
      keyIDFromString s.uuid item.keyId = .ok id → permit (.repo (.getKey id)) w →
      w.table.latest id = some r → r.metadata = some m → F m → ∀ key description now m',
        (KeyService.applyItem item description now key m).metadata = some m' → F m'
  | _ => True

section Runs

variable {s : KeyService} {kms : KMS} {F : KeyMetadata → Prop} {permit : EffectOp → World → Prop}

/-- **Every thread of a call that respects the fact meets its obligation.** -/
theorem metadata_threads (hversion : ∀ m v, F m → F { m with version := v }) {call : ServiceCall}
    (h : Respects s F permit call) (w : World) : ∀ t ∈ call.threads s,
      t.Meets (metadataDiscipline s kms F permit) (fun _ _ => True) w := by
  intro t ht
  have hother : ∀ op : EffectOp, op.isPlain = true →
      (metadataDiscipline s kms F permit).Allows op := fun _ => metadata_plain hversion
  cases hwriter : call.isWriter with
  | false =>
    refine Prog.Only.meets (Prog.Only.mono (fun _ => metadata_quiet hversion) ?_) w
    exact threads_quiet hwriter t ht
  | true =>
    cases call with
    | createKey req =>
      refine List.mem_singleton.mp ht ▸ meets_thread (spec_createKey hother fun key hkey => ?_) w
      refine metadata_repo hversion fun _ => ⟨fun k hk => ?_, fun u hu => by cases hu⟩
      rw [List.mem_singleton.mp hk]
      exact h _ _ key hkey
    | batchCreateKeys req =>
      refine List.mem_singleton.mp ht ▸
        meets_thread (spec_batchCreateKeys hother fun keys hkeys => ?_) w
      refine metadata_repo hversion fun _ => ⟨fun k hk => ?_, fun u hu => by cases hu⟩
      obtain ⟨item, hitem, hbuilds⟩ := hkeys k hk
      exact h item hitem _ _ k hbuilds
    | updateKeyMetadata req =>
      refine List.mem_singleton.mp ht ▸ meets_thread (spec_updateKeyMetadata
        (G := fun _ m _ => F m) hother (fun _ _ _ _ _ hF => hF) (fun id hid => ?_)
        fun id m => ?_) w
      · refine (metadata_getKey hversion id).conseq (fun _ h => h) fun key _ hkey m d now hm => ?_
        obtain ⟨hF, w₁, r, hpermit, hrow, hmeta⟩ := hkey m hm
        exact h id w₁ r m hid hpermit hrow hmeta hF d now
      · refine metadata_repo hversion fun hF => ⟨fun k hk => (by cases hk), fun u hu m' hm' => ?_⟩
        rw [List.mem_singleton.mp hu] at hm'
        cases hm'
        exact hF
    | batchUpdateKeyMetadata req =>
      refine List.mem_singleton.mp ht ▸ meets_thread (spec_batchUpdateKeyMetadata
        (G := fun key _ => ∀ m, key.metadata = some m → F m) hother (fun _ _ _ _ hF => hF)
        (fun item hitem id hid => ?_) fun keys => ?_) w
      · refine (metadata_getKey hversion id).conseq (fun _ h => h) fun key _ hkey m d now hm => ?_
        obtain ⟨hF, w₁, r, hpermit, hrow, hmeta⟩ := hkey m hm
        exact h item hitem id w₁ r m hid hpermit hrow hmeta hF key d now
      · refine metadata_repo hversion fun hF => ⟨fun k hk => (by cases hk), fun u hu => ?_⟩
        obtain ⟨k, hk, rfl⟩ := List.mem_map.mp hu
        exact hF k hk
    | _ => cases hwriter

/-- **A fact that every call respects holds of all stored metadata**, in every reachable pool. -/
theorem Reachable.stored (hversion : ∀ m v, F m → F { m with version := v })
    (hcalls : ∀ call, Respects s F (fun _ _ => True) call) {p : ServicePool}
    (h : Reachable s kms p) : Stored F p.state.table := by
  obtain ⟨now, hrun⟩ := h
  have hpermitted : PoolReachesWhen s kms (fun _ _ => True) (emptyPool now) p :=
    Pool.Reaches.mono (fun _ _ _ _ hop => ⟨trivial, hop⟩) hrun
  have hgood : Pool.Good (metadataDiscipline s kms F fun _ _ => True) (emptyPool now) :=
    ⟨stored_empty F, fun _ ht => by cases ht⟩
  refine (Pool.invariant (D := metadataDiscipline s kms F fun _ _ => True) ?_ hpermitted hgood).1.1
  rintro new ⟨call, rfl⟩ w
  exact metadata_threads hversion (hcalls call) w

end Runs

end Polykey
