/-
# What the S3 repository keeps

Three questions about `S3Storage`, for every bucket and every failure of the network.

* **Does a failed write change nothing?**  The rollback of `putKey` DELETES the object of the
  version.  That undoes the write of a new version, and loses one that was there before: a failed
  `RevokeKey` or `UpdateKeyMetadata` can take the version with it that the latest object still is
  (`putKey_failed_unchanged_iff`, `rewriteLatest_failed_loses`).
* **Is what was written read back?**  All but the status, whose texts the enumeration's maps do not
  know: a lookup that misses gives zero (`putKey_roundTrip_iff_named`).
* **Is what is read what was asked for?**  Yes, in any interleaving of any calls
  (`filed_of_pool`, `reads_own`).  And the version that `GetKey` returns can be found as a version,
  until a rollback deletes it (`backed_of_run`, `not_backed_of_rolledBack`).
-/
import Polykey.Domain.Uuid
import Polykey.Persistence.S3Storage

namespace Polykey

open Lib

namespace S3Storage

/-! ## 1. The calls, and a key in a bucket -/

/-- A call of the storage. -/
inductive Request
  | getKey (id : KeyID)
  | getKeyByVersion (id : KeyID) (version : Int)
  | getKeyMetadata (id : KeyID)
  | getKeyMetadataByVersion (id : KeyID) (version : Int)
  | createKey (key : TextKey)
  | createBatchKeys (keys : List TextKey)
  | listKeys (lastCreatedAt : Option Time) (limit : Int)
  | updateKeyMetadata (id : KeyID) (metadata : Option KeyMetadata)
  | rotateKey (id : KeyID) (newEncryptedDEK : Bytes)
  | revokeKey (id : KeyID)
  | getKeyVersions (id : KeyID)
  | exists (id : KeyID)
  | getBatchKeys (ids : List KeyID)
  | getBatchKeyMetadata (ids : List KeyID)
  | revokeBatchKeys (ids : List KeyID)
  | updateBatchKeyMetadata (updates : List TextKey)

/-- Some names of the enumeration. -/
def sampleMaps : KeyStatusMaps where
  entries := [(0, "KEY_STATUS_UNSPECIFIED"), (1, "KEY_STATUS_ACTIVE"), (4, "KEY_STATUS_REVOKED")]
  nodup_numbers := by decide
  nodup_names := by decide
  name_zero := ⟨_, List.mem_cons_self⟩
  named := by
    simp only [List.forall_mem_cons]
    exact ⟨⟨"UNSPECIFIED", by decide⟩, ⟨"ACTIVE", by decide⟩, ⟨"REVOKED", by decide⟩, by simp⟩

/-- Bodies that are the objects they stand for. -/
def samplePackages : Packages S3KeyObject where
  uuid := googleUUID
  json := ⟨.ok, .ok, fun h => by cases h; rfl⟩
  keyStatus := sampleMaps

def sampleKey : TextKey := .of ⟨⟨1⟩, 1, none, [7], .active, second, second, none⟩

abbrev sampleVersion : String :=
  versionPath samplePackages.uuid sampleKey.id sampleKey.version

abbrev sampleLatest : String := latestPath samplePackages.uuid sampleKey.id

/-- The bucket after the key has been created in an empty one. -/
def sampleBucket : Bucket S3KeyObject :=
  Function.update (Function.update (fun _ => none) sampleVersion
    (some (encode samplePackages sampleKey))) sampleLatest (some (encode samplePackages sampleKey))

theorem sampleBucket_version :
    sampleBucket sampleVersion = some (encode samplePackages sampleKey) := by
  rw [sampleBucket, Function.update_of_ne latestPath_ne_versionPath.symm, Function.update_self]

theorem sampleBucket_latest :
    sampleBucket sampleLatest = some (encode samplePackages sampleKey) :=
  Function.update_self ..

theorem sampleBucket_put : (putKey samplePackages sampleKey).Runs (sem samplePackages)
    (fun _ => none) (.ok ()) sampleBucket :=
  (Prog.runs_iff_shows see).mpr ⟨_, shows_putKey.mpr (.stored rfl)⟩

/-- The key can be read, as what is left of it. -/
theorem sampleBucket_reads :
    Reads samplePackages sampleBucket sampleLatest (.ok (roundTrip samplePackages sampleKey)) :=
  .inr ⟨_, sampleBucket_latest, .inr ⟨_, rfl, (decode_encode _ _).symm⟩⟩

/-! ## 2. Failed writes -/

section Failures

variable {Body : Type} {pk : Packages Body} {b b' : Bucket Body} {e : Err} {seen : List Seen}

/-- A failed `putKey` whose rollback works leaves the bucket as it was, or without the version. -/
theorem Put.failed {key : TextKey} (h : Put pk key b (.error e) b' seen)
    (hrollback : .deleted false ∉ seen) :
    (.put true ∉ seen ∧ b' = b) ∨
      (.put true ∈ seen ∧
        b' = Function.update b (versionPath pk.uuid key.id key.version) none) := by
  cases h with
  | unencoded => exact .inl ⟨by simp, rfl⟩
  | refused => exact .inl ⟨by simp, rfl⟩
  | rolledBack => exact .inr ⟨by simp, rfl⟩
  | left => simp at hrollback

/-- **When a failed write leaves the bucket unchanged.**  Provided the rollback works: exactly if
the first put was not made or failed, or there was no object for the version.  Every other path,
that of the latest object included, is always as before, and what is lost is the version. -/
theorem putKey_failed_unchanged_iff (pk : Packages Body) (key : TextKey)
    (hrun : (putKey pk key).Shows (sem pk) see b (.error e) b' seen)
    (hrollback : .deleted false ∉ seen) :
    (b' (versionPath pk.uuid key.id key.version) = b (versionPath pk.uuid key.id key.version) ∧
        b' (latestPath pk.uuid key.id) = b (latestPath pk.uuid key.id) ↔
      .put true ∉ seen ∨ b (versionPath pk.uuid key.id key.version) = none) ∧
    (∀ path, path ≠ versionPath pk.uuid key.id key.version → b' path = b path) ∧
    (.put true ∈ seen → b' (versionPath pk.uuid key.id key.version) = none) := by
  rcases (shows_putKey.mp hrun).failed hrollback with ⟨hput, rfl⟩ | ⟨hput, rfl⟩
  · simp [hput]
  · have hlatest : latestPath pk.uuid key.id ≠ versionPath pk.uuid key.id key.version :=
      latestPath_ne_versionPath
    refine ⟨?_, fun path hpath => Function.update_of_ne hpath _ _, fun _ => Function.update_self ..⟩
    simp [hput, hlatest, eq_comm]

/-- A key is created in an empty bucket, and the second put fails: the rollback undoes the first. -/
theorem putKey_failed_unchanged_new :
    (putKey samplePackages sampleKey).Shows (sem samplePackages) see (fun _ => none)
      (.error (Err.wrap "failed to put latest key object to S3: " (.new "timeout")))
      (Function.update (fun _ => none) sampleVersion none)
      [.put true, .put false, .deleted true] ∧
    Function.update (fun _ => none) sampleVersion none sampleVersion =
      (none : Option S3KeyObject) ∧
    Function.update (fun _ => none) sampleVersion none sampleLatest =
      (none : Option S3KeyObject) := by
  have hrun := shows_putKey.mpr (.rolledBack (b := fun _ => none) (.new "timeout")
    (rfl : samplePackages.json.marshal (encode samplePackages sampleKey) = _))
  exact ⟨hrun, (putKey_failed_unchanged_iff _ _ hrun (by decide)).1.mpr (.inr rfl)⟩

/-- **A revocation that fails loses the version it revokes**: `RevokeKey`, and `putKey` for the key
that is stored, with a second put that fails and a rollback that works. -/
theorem failed_rewrite_loses_version :
    (∃ e b' seen, (putKey samplePackages sampleKey).Shows (sem samplePackages) see sampleBucket
      (.error e) b' seen ∧ .deleted false ∉ seen ∧ b' sampleVersion ≠ sampleBucket sampleVersion) ∧
    ∃ e b' seen, (revokeKey samplePackages sampleKey.id).Shows (sem samplePackages) see sampleBucket
      (.error e) b' seen ∧ .deleted false ∉ seen ∧ b' sampleVersion = none ∧
      sampleBucket sampleVersion ≠ none ∧ b' sampleLatest ≠ none := by
  have hversion : Function.update sampleBucket sampleVersion none sampleVersion = none :=
    Function.update_self ..
  have hlatest : Function.update sampleBucket sampleVersion none sampleLatest =
      some (encode samplePackages sampleKey) :=
    (Function.update_of_ne latestPath_ne_versionPath _ _).trans sampleBucket_latest
  constructor
  · refine ⟨_, Function.update sampleBucket sampleVersion none, _,
      shows_putKey.mpr (.rolledBack (.new "timeout") rfl), by decide, ?_⟩
    rw [hversion, sampleBucket_version]
    simp
  · refine ⟨_, Function.update sampleBucket sampleVersion none, _, shows_rewriteLatest.mpr (.inr
      ⟨_, 0, sampleBucket_reads, .rolledBack (.new "timeout") rfl⟩), by decide, hversion, ?_, ?_⟩
    · simp [sampleBucket_version]
    · simp [hlatest]

/-- **A failed `RevokeKey` or `UpdateKeyMetadata`** that got past its first put has deleted the
version that the latest object is. -/
theorem rewriteLatest_failed_loses {failed : String} {change : Time → TextKey → TextKey}
    {id : KeyID} (hchange : ∀ now key, (change now key).id = key.id ∧
      (change now key).version = key.version)
    (hrun : (rewriteLatest pk failed change id).Shows (sem pk) see b (.error e) b' seen)
    (hput : .put true ∈ seen) (hrollback : .deleted false ∉ seen) :
    ∃ latestKey, Reads pk b (latestPath pk.uuid id) (.ok latestKey) ∧
      b' = Function.update b (versionPath pk.uuid latestKey.id latestKey.version) none := by
  rcases shows_rewriteLatest.mp hrun with ⟨_, _, _, _, rfl⟩ | ⟨latestKey, now, hread, h⟩
  · cases hput
  · rcases h.failed hrollback with ⟨hno, _⟩ | ⟨_, rfl⟩
    · exact absurd hput hno
    · rw [(hchange now latestKey).1, (hchange now latestKey).2]
      exact ⟨latestKey, hread, rfl⟩

end Failures

/-! ## 3. Reading back what was written -/

section RoundTrips

variable {Body : Type} {b b' : Bucket Body}

theorem ofUnix_unix (t : Time) : ofUnix (unix t) = t / second * second := rfl

/-- A stored key is read back from either of its paths. -/
theorem reads_of_encoded {pk : Packages Body} {key : TextKey} {data : Body} {path : String}
    (hdata : pk.json.marshal (encode pk key) = .ok data) (hpath : b path = some data)
    {r : Except Err TextKey} : Reads pk b path r ↔
      (∃ e, r = .error (Err.wrap "failed to get key object from S3: " e)) ∨
      (∃ e, r = .error (Err.wrap "failed to decode key object from S3: " e)) ∨
      r = .ok (roundTrip pk key) := by
  have hobj := pk.json.unmarshal_marshal hdata
  unfold Reads
  simp only [hpath, Option.some.injEq, exists_eq_left', hobj, Except.ok.injEq, decode_encode]

/-- A read never gives one of the three statuses. -/
theorem Reads.status_ne {pk : Packages Body} {path : String} {k : TextKey}
    (h : Reads pk b path (.ok k)) (status : KeyStatus) : k.status ≠ status.text := by
  obtain ⟨e, he⟩ | ⟨body, -, ⟨e, he⟩ | ⟨keyObj, -, hk⟩⟩ := h
  · cases he
  · cases he
  · unfold decode at hk
    cases hid : keyIDFromString pk.uuid keyObj.id with
    | error e => rw [hid] at hk; cases hk
    | ok id =>
      rw [hid] at hk
      cases hk
      exact KeyStatusMaps.name_ne_text _ status

/-- **What a round trip keeps.**  After a successful `putKey`, a read of either path that the
network lets through gives one key, with the same id, version, DEK and metadata, and the times in
whole seconds.  Its status is the same exactly if it was a name of the protobuf enumeration; it is
none of the three statuses.  No read whatever gives a revoked key. -/
theorem putKey_roundTrip_iff_named (pk : Packages Body) (key : TextKey)
    (hput : (putKey pk key).Runs (sem pk) b (.ok ()) b') :
    (∃ k, (∀ path ∈ [versionPath pk.uuid key.id key.version, latestPath pk.uuid key.id], ∀ r b'',
        (getKeyFromPath pk path).Runs (sem pk) b' r b'' ↔ b'' = b' ∧
          ((∃ e, r = .error (Err.wrap "failed to get key object from S3: " e)) ∨
            (∃ e, r = .error (Err.wrap "failed to decode key object from S3: " e)) ∨ r = .ok k)) ∧
      k.id = key.id ∧ k.version = key.version ∧ k.encryptedDEK = key.encryptedDEK ∧
      k.metadata = key.metadata ∧ k.createdAt = key.createdAt / second * second ∧
      k.updatedAt = key.updatedAt / second * second ∧
      (k.status = key.status ↔ key.status ∈ pk.keyStatus.names) ∧
      ∀ status : KeyStatus, k.status ≠ status.text) ∧
    ∀ id b₁ k b₂, (getKey pk id).Runs (sem pk) b₁ (.ok k) b₂ →
      k.status ≠ KeyStatus.revoked.text := by
  refine ⟨⟨roundTrip pk key, fun path hpath r b'' => ?_, rfl, rfl, rfl, rfl, ofUnix_unix _,
    ofUnix_unix _, KeyStatusMaps.name_value_eq_iff, KeyStatusMaps.name_ne_text _⟩, ?_⟩
  · obtain ⟨seen, hshows⟩ := (Prog.runs_iff_shows see).mp hput
    cases shows_putKey.mp hshows with
    | @stored data hdata =>
      rw [runs_getKeyFromPath, and_comm]
      refine and_congr_right fun _ => reads_of_encoded hdata ?_
      have hlatest : versionPath pk.uuid key.id key.version ≠ latestPath pk.uuid key.id :=
        Ne.symm latestPath_ne_versionPath
      simp only [List.mem_cons, List.not_mem_nil, or_false] at hpath
      rcases hpath with rfl | rfl
      · rw [Function.update_of_ne hlatest, Function.update_self]
      · rw [Function.update_self]
  · intro id b₁ k b₂ hget
    exact (runs_getKeyFromPath.mp hget).1.status_ne .revoked

/-- The key comes back with its id and version, and is no longer active. -/
theorem putKey_roundTrip_active :
    (putKey samplePackages sampleKey).Runs (sem samplePackages) (fun _ => none) (.ok ())
      sampleBucket ∧
    ∃ k, (getKey samplePackages sampleKey.id).Runs (sem samplePackages) sampleBucket (.ok k)
        sampleBucket ∧
      k.id = sampleKey.id ∧ k.version = sampleKey.version ∧ k.status ≠ KeyStatus.active.text := by
  obtain ⟨⟨k, hread, hid, hversion, -, -, -, -, -, hstatus⟩, -⟩ :=
    putKey_roundTrip_iff_named samplePackages sampleKey sampleBucket_put
  exact ⟨sampleBucket_put, k, (hread _ (by simp) _ _).mpr ⟨rfl, .inr (.inr rfl)⟩, hid, hversion,
    hstatus .active⟩

/-- **A revoked key is not read back as revoked**: `RevokeKey` succeeds, and so does `GetKey`. -/
theorem revoked_read_back :
    ∃ b' k, (revokeKey samplePackages sampleKey.id).Runs (sem samplePackages) sampleBucket (.ok ())
        b' ∧
      (getKey samplePackages sampleKey.id).Runs (sem samplePackages) b' (.ok k) b' ∧
      k.status = "KEY_STATUS_UNSPECIFIED" ∧ k.status ≠ KeyStatus.revoked.text := by
  let revoked : TextKey := { roundTrip samplePackages sampleKey with
    status := KeyStatus.revoked.text
    updatedAt := second }
  refine ⟨_, roundTrip samplePackages revoked, (Prog.runs_iff_shows see).mpr ⟨_,
    shows_rewriteLatest.mpr (.inr ⟨_, second, sampleBucket_reads, .stored rfl⟩)⟩,
    runs_getKeyFromPath.mpr ⟨.inr ⟨_, Function.update_self .., .inr ⟨_, rfl, ?_⟩⟩, rfl⟩,
    by decide, by decide⟩
  exact (decode_encode samplePackages revoked).symm

end RoundTrips

/-! ## 4. What is in the bucket

A path has the id in it, and for a version its number. If everything in the bucket lies under a
path of its own key, then what is read under a path is of that path's key. Only puts can spoil
that. -/

section Filed

variable {Body : Type} {pk : Packages Body} {b : Bucket Body}

/-- **Everything in the bucket is a key**, under one of its own two paths. -/
def Filed (pk : Packages Body) (b : Bucket Body) : Prop :=
  ∀ path body, b path = some body → ∃ key : TextKey, pk.json.marshal (encode pk key) = .ok body ∧
    (path = versionPath pk.uuid key.id key.version ∨ path = latestPath pk.uuid key.id)

/-- What is put is a key under one of its paths. -/
def Files (pk : Packages Body) : Op Body → Prop
  | .putObject path body => ∃ key : TextKey, pk.json.marshal (encode pk key) = .ok body ∧
      (path = versionPath pk.uuid key.id key.version ∨ path = latestPath pk.uuid key.id)
  | _ => True

theorem Filed.update (h : Filed pk b) {path : String} {content : Option Body}
    (hcontent : ∀ body, content = some body → Files pk (.putObject path body)) :
    Filed pk (Function.update b path content) := by
  intro path' body hbody
  by_cases hpath : path' = path
  · subst hpath
    rw [Function.update_self] at hbody
    exact hcontent body hbody
  · rw [Function.update_of_ne hpath] at hbody
    exact h path' body hbody

/-- **The step lemma.** -/
theorem Filed.step (h : Filed pk b) {op : Op Body} (hop : Files pk op) {r : op.Res}
    {b' : Bucket Body} (hstep : sem pk op b r b') : Filed pk b' := by
  cases op with
  | putObject path body =>
    obtain rfl : b' = _ := hstep
    split
    · refine h.update fun body' hbody' => ?_
      cases hbody'
      exact hop
    · exact h
  | deleteObject path =>
    obtain rfl : b' = _ := hstep
    split
    · refine h.update fun body' hbody' => ?_
      cases hbody'
    · exact h
  | getObject | decodeBody | headObject | listObjects =>
    obtain ⟨rfl, -⟩ := hstep
    exact h
  | closeBody | timeNow | logError =>
    obtain rfl : b' = b := hstep
    exact h

/-- In such a bucket, what is read is what is left of a key of that path. -/
theorem Filed.reads (h : Filed pk b) {path : String} {k : TextKey}
    (hread : Reads pk b path (.ok k)) : ∃ key, k = roundTrip pk key ∧
      (path = versionPath pk.uuid key.id key.version ∨ path = latestPath pk.uuid key.id) := by
  obtain ⟨e, he⟩ | ⟨body, hbody, ⟨e, he⟩ | ⟨keyObj, hobj, hk⟩⟩ := hread
  · cases he
  · cases he
  · obtain ⟨key, hdata, hpath⟩ := h path body hbody
    rw [pk.json.unmarshal_marshal hdata] at hobj
    cases hobj
    rw [decode_encode] at hk
    exact ⟨key, Except.ok.inj hk, hpath⟩

theorem Filed.latest_id (h : Filed pk b) {id : KeyID} {k : TextKey}
    (hread : Reads pk b (latestPath pk.uuid id) (.ok k)) : k.id = id := by
  obtain ⟨key, rfl, hpath | hpath⟩ := h.reads hread
  · exact absurd hpath latestPath_ne_versionPath
  · exact (latestPath_injective hpath).symm

/-- A key that is read carries the id it is asked for. -/
theorem Filed.getKey_id (h : Filed pk b) {id : KeyID} {k : TextKey} {b' : Bucket Body}
    (hrun : (getKey pk id).Runs (sem pk) b (.ok k) b') : k.id = id :=
  h.latest_id (runs_getKeyFromPath.mp hrun).1

/-- A version that is read carries the id and the version it is asked for. -/
theorem Filed.getKeyByVersion_id (h : Filed pk b) {id : KeyID} {v : Int} {k : TextKey}
    {b' : Bucket Body} (hrun : (getKeyByVersion pk id v).Runs (sem pk) b (.ok k) b') :
    k.id = id ∧ k.version = v := by
  obtain ⟨key, rfl, hpath | hpath⟩ := h.reads (runs_getKeyFromPath.mp hrun).1
  · obtain ⟨rfl, rfl⟩ := versionPath_injective hpath
    exact ⟨rfl, rfl⟩
  · exact absurd hpath.symm latestPath_ne_versionPath

end Filed

/-! ## 5. How the methods are made

All writing is done by `putKey`. `Built` says of a program that it is made of `putKey` and of
calls that write nothing, and the two results of §6 are proved once for such programs. -/

section Built

variable {Body : Type} {pk : Packages Body} {b b' : Bucket Body} {α β : Type}

/-- A call that changes nothing and is not watched. -/
def Op.Quiet : Op Body → Prop
  | putObject _ _ | deleteObject _ => False
  | _ => True

theorem Op.Quiet.facts {op : Op Body} (hop : op.Quiet) {r : op.Res} (h : sem pk op b r b') :
    b' = b ∧ see op r = [] := by
  cases op with
  | putObject | deleteObject => exact hop.elim
  | getObject | decodeBody | headObject | listObjects => exact ⟨h.1, rfl⟩
  | closeBody | timeNow | logError => exact ⟨h, rfl⟩

theorem Op.Quiet.files {op : Op Body} (hop : op.Quiet) : Files pk op := by
  cases op with
  | putObject => exact hop.elim
  | _ => trivial

/-- A program made of quiet calls and of `putKey`. -/
inductive Built (pk : Packages Body) : Prog (Calls Body) α → Prop
  | ret (a : α) : Built pk (.ret a)
  | quiet {op : Op Body} {k : op.Res → Prog (Calls Body) α} (hop : op.Quiet)
      (hk : ∀ r, Built pk (k r)) : Built pk (.call op k)
  | put (key : TextKey) {k : Except Err Unit → Prog (Calls Body) α} (hk : ∀ r, Built pk (k r)) :
      Built pk ((putKey pk key).bind k)

theorem Built.bind {p : Prog (Calls Body) α} {f : α → Prog (Calls Body) β} (hp : Built pk p)
    (hf : ∀ a, Built pk (f a)) : Built pk (p.bind f) := by
  induction hp with
  | ret a => exact hf a
  | quiet hop _ ih => exact .quiet hop ih
  | put key _ ih =>
    rw [Prog.bind_assoc]
    exact .put key ih

theorem Built.then {p : Prog (Calls Body) α} (hp : Built pk p) (f : α → β) :
    Built pk (do let a ← p; pure (f a)) :=
  hp.bind fun a => .ret (f a)

theorem only_putKey (pk : Packages Body) (key : TextKey) : (putKey pk key).Only (Files pk) := by
  unfold putKey
  cases hdata : pk.json.marshal (encode pk key) with
  | error e => trivial
  | ok data =>
    refine ⟨⟨key, hdata, .inl rfl⟩, fun first => ?_⟩
    cases first with
    | error e => trivial
    | ok _ =>
      refine ⟨⟨key, hdata, .inr rfl⟩, fun second => ?_⟩
      cases second with
      | ok _ => trivial
      | error e =>
        refine ⟨trivial, fun rollback => ?_⟩
        cases rollback with
        | error delErr => exact ⟨trivial, fun _ => trivial⟩
        | ok _ => trivial

/-- Such a program files what it puts. -/
theorem Built.only {p : Prog (Calls Body) α} (hp : Built pk p) : p.Only (Files pk) := by
  induction hp with
  | ret a => trivial
  | quiet hop _ ih => exact ⟨hop.files, ih⟩
  | put key _ ih => exact (only_putKey pk key).bind ih

/-- One `putKey` after the other, and what is seen of them. -/
inductive Wrote (pk : Packages Body) : Bucket Body → Bucket Body → List Seen → Prop
  | nothing (b : Bucket Body) : Wrote pk b b []
  | put {key : TextKey} {r : Except Err Unit} {b b₁ b' : Bucket Body} {seen rest : List Seen}
      (hput : Put pk key b r b₁ seen) (hrest : Wrote pk b₁ b' rest) : Wrote pk b b' (seen ++ rest)

/-- What such a program does is done by `putKey`. -/
theorem Built.wrote {p : Prog (Calls Body) α} (hp : Built pk p) {a : α} {seen : List Seen}
    (hrun : p.Shows (sem pk) see b a b' seen) : Wrote pk b b' seen := by
  induction hp generalizing b seen with
  | ret a =>
    obtain ⟨-, rfl, rfl⟩ := hrun
    exact .nothing _
  | quiet hop _ ih =>
    obtain ⟨r, b₁, rest, hstep, rfl, hrest⟩ := hrun
    obtain ⟨rfl, hsee⟩ := hop.facts hstep
    rw [hsee]
    exact ih r hrest
  | put key _ ih =>
    obtain ⟨r, b₁, seen₁, rest, hput, hrest, rfl⟩ := Prog.shows_bind.mp hrun
    exact .put (shows_putKey.mp hput) (ih r hrest)

end Built

section Methods

variable {Body : Type} (pk : Packages Body)

theorem built_getKeyFromPath (path : String) : Built pk (getKeyFromPath pk path) := by
  refine .quiet trivial fun got => ?_
  cases got with
  | error e => exact .ret _
  | ok body =>
    refine .quiet trivial fun decoded => .quiet trivial fun closed => ?_
    cases closed with
    | error e => exact .quiet trivial fun _ => .ret _
    | ok _ => exact .ret _

theorem built_putKey (key : TextKey) : Built pk (putKey pk key) := by
  have hput : Built pk ((putKey pk key).bind .ret) := .put key .ret
  rwa [Prog.bind_ret] at hput

theorem built_rewriteLatest (failed : String) (change : Time → TextKey → TextKey) (id : KeyID) :
    Built pk (rewriteLatest pk failed change id) := by
  refine (built_getKeyFromPath pk _).bind fun read => ?_
  cases read with
  | error e => exact .ret _
  | ok latestKey => exact .quiet trivial fun now => built_putKey pk _

theorem built_rotateKey (id : KeyID) (dek : Bytes) : Built pk (rotateKey pk id dek) := by
  refine (built_getKeyFromPath pk _).bind fun read => ?_
  cases read with
  | error e => exact .ret _
  | ok latestKey =>
    refine .quiet trivial fun now => .put _ fun put => ?_
    cases put <;> exact .ret _

theorem built_createBatchKeys (keys : List TextKey) : Built pk (createBatchKeys pk keys) := by
  induction keys with
  | nil => exact .ret _
  | cons key keys ih =>
    refine .put key fun put => ?_
    cases put with
    | error e => exact .ret _
    | ok _ => exact ih

theorem built_collect {α β : Type} (text attr : String) (describe : α → String)
    {step : α → Prog (Calls Body) (Except Err β)} (hstep : ∀ a, Built pk (step a))
    (as : List α) : Built pk (collect text attr describe step as) := by
  induction as with
  | nil => exact .ret _
  | cons a as ih =>
    refine (hstep a).bind fun result => ?_
    cases result with
    | error e => exact .quiet trivial fun _ => ih
    | ok b => exact ih.then _

theorem built_listPage (objs : List String) : Built pk (listPage pk objs) := by
  induction objs with
  | nil => exact .ret _
  | cons obj objs ih =>
    unfold listPage
    simp only
    split
    · exact .quiet trivial fun _ => ih
    · refine (built_getKeyFromPath pk _).bind fun read => ?_
      cases read with
      | error e => exact .quiet trivial fun _ => ih
      | ok key => exact ih.then _

theorem built_overPages (failed : String) {page : List String → Prog (Calls Body) (List TextKey)}
    (hpage : ∀ entries, Built pk (page entries)) (pages : List (Except Err (List String))) :
    Built pk (overPages failed page pages) := by
  induction pages with
  | nil => exact .ret _
  | cons entries pages ih =>
    cases entries with
    | error e => exact .ret _
    | ok entries => exact (hpage entries).bind fun _ => ih.then _

end Methods

section Requests

variable {Body : Type} {pk : Packages Body} {b b' : Bucket Body}

/-- A program whose answer nobody waits for. -/
def forget {α : Type} (p : Prog (Calls Body) α) : Prog (Calls Body) Unit := p.bind fun _ => .ret ()

/-- The call as a thread. -/
def Request.thread (pk : Packages Body) : Request → Prog (Calls Body) Unit
  | .getKey id => forget (S3Storage.getKey pk id)
  | .getKeyByVersion id v => forget (S3Storage.getKeyByVersion pk id v)
  | .getKeyMetadata id => forget (S3Storage.getKeyMetadata pk id)
  | .getKeyMetadataByVersion id v => forget (S3Storage.getKeyMetadataByVersion pk id v)
  | .createKey key => forget (S3Storage.createKey pk key)
  | .createBatchKeys keys => forget (S3Storage.createBatchKeys pk keys)
  | .listKeys lastCreatedAt limit => forget (S3Storage.listKeys pk lastCreatedAt limit)
  | .updateKeyMetadata id metadata => forget (S3Storage.updateKeyMetadata pk id metadata)
  | .rotateKey id dek => forget (S3Storage.rotateKey pk id dek)
  | .revokeKey id => forget (S3Storage.revokeKey pk id)
  | .getKeyVersions id => forget (S3Storage.getKeyVersions pk id)
  | .exists id => forget (S3Storage.exists pk id)
  | .getBatchKeys ids => forget (S3Storage.getBatchKeys pk ids)
  | .getBatchKeyMetadata ids => forget (S3Storage.getBatchKeyMetadata pk ids)
  | .revokeBatchKeys ids => forget (S3Storage.revokeBatchKeys pk ids)
  | .updateBatchKeyMetadata updates => forget (S3Storage.updateBatchKeyMetadata pk updates)

theorem built_thread (pk : Packages Body) (request : Request) : Built pk (request.thread pk) := by
  have hget : ∀ path, Built pk (getKeyFromPath pk path) := built_getKeyFromPath pk
  have hmetadata : ∀ id, Built pk (getKeyMetadata pk id) := fun id => (hget _).then _
  have hupdate : ∀ id metadata, Built pk (updateKeyMetadata pk id metadata) :=
    fun id metadata => built_rewriteLatest pk _ _ id
  have hrevoke : ∀ id, Built pk (revokeKey pk id) := built_rewriteLatest pk _ _
  have hforget : ∀ {α : Type} {p : Prog (Calls Body) α}, Built pk p → Built pk (forget p) :=
    fun h => h.then _
  cases request with
  | getKey id => exact hforget (hget _)
  | getKeyByVersion id v => exact hforget (hget _)
  | getKeyMetadata id => exact hforget (hmetadata id)
  | getKeyMetadataByVersion id v => exact hforget ((hget _).then _)
  | createKey key => exact hforget (built_putKey pk key)
  | createBatchKeys keys => exact hforget (built_createBatchKeys pk keys)
  | listKeys lastCreatedAt limit =>
    exact hforget (.quiet trivial fun pages => built_overPages pk _ (built_listPage pk) pages)
  | updateKeyMetadata id metadata => exact hforget (hupdate id metadata)
  | rotateKey id dek => exact hforget (built_rotateKey pk id dek)
  | revokeKey id => exact hforget (hrevoke id)
  | getKeyVersions id =>
    exact hforget (.quiet trivial fun pages =>
      (built_overPages pk _ (built_collect pk _ _ _ hget) pages).then _)
  | «exists» id =>
    refine .quiet trivial fun head => ?_
    cases head <;> exact .ret _
  | getBatchKeys ids => exact hforget ((built_collect pk _ _ _ (fun _ => hget _) ids).then _)
  | getBatchKeyMetadata ids => exact hforget ((built_collect pk _ _ _ hmetadata ids).then _)
  | revokeBatchKeys ids => exact hforget ((built_collect pk _ _ _ hrevoke ids).then _)
  | updateBatchKeyMetadata updates =>
    have hone : ∀ key : TextKey, Built pk (updateKeyMetadata pk key.id key.metadata) :=
      fun key => hupdate key.id key.metadata
    exact hforget ((built_collect pk _ _ _ hone updates).then _)

/-! ## 6. Over any run -/

/-- The discipline of the storage: the bucket stays filed. -/
def filing (pk : Packages Body) : Discipline (Calls Body) (Bucket Body) where
  sem := sem pk
  promise _ _ := True
  inv := Filed pk
  rely _ _ := True
  refl _ := trivial
  trans _ _ := trivial

/-- **Every interleaving of any number of calls**, with any failures, keeps the bucket filed. -/
theorem filed_of_pool {starts : List (Prog (Calls Body) Unit) → Prop}
    (hstarts : ∀ new, starts new → ∀ t ∈ new, ∃ request : Request, t = request.thread pk)
    {pool : Pool (Calls Body) (Bucket Body) Unit}
    (h : Pool.Reaches (sem pk) starts ⟨fun _ => none, []⟩ pool) : Filed pk pool.state := by
  have hempty : Filed pk fun _ => none := fun _ _ hbody => by cases hbody
  have hallows : ∀ op, Files pk op → (filing pk).Allows op := fun op hop b hb =>
    ⟨trivial, fun r b' hstep => ⟨hb.step hop hstep, trivial⟩⟩
  refine (Pool.invariant (D := filing pk) ?_ h ⟨hempty, by simp⟩).1.1
  intro new hnew b t ht
  obtain ⟨request, rfl⟩ := hstarts new hnew t ht
  exact ((built_thread pk request).only.mono hallows).meets b

/-- **A read never answers with the key of another id**, nor with another version than the one it
is asked for, whatever the calls under way have done to the bucket so far. -/
theorem reads_own {starts : List (Prog (Calls Body) Unit) → Prop}
    (hstarts : ∀ new, starts new → ∀ t ∈ new, ∃ request : Request, t = request.thread pk)
    {pool : Pool (Calls Body) (Bucket Body) Unit}
    (h : Pool.Reaches (sem pk) starts ⟨fun _ => none, []⟩ pool) {id : KeyID} {k : TextKey} :
    ((getKey pk id).Runs (sem pk) pool.state (.ok k) b' → k.id = id) ∧
      ∀ v, (getKeyByVersion pk id v).Runs (sem pk) pool.state (.ok k) b' →
        k.id = id ∧ k.version = v := by
  have hfiled := filed_of_pool hstarts h
  exact ⟨hfiled.getKey_id, fun v => hfiled.getKeyByVersion_id⟩

theorem reads_own_sample : ∃ pool : Pool (Calls S3KeyObject) (Bucket S3KeyObject) Unit,
    (getKey samplePackages ⟨1⟩).Runs (sem samplePackages) pool.state
      (.ok (roundTrip samplePackages sampleKey)) pool.state ∧
    (roundTrip samplePackages sampleKey).id = ⟨1⟩ := by
  have hthread : ((Request.createKey sampleKey).thread samplePackages).Runs (sem samplePackages)
      (fun _ => none) () sampleBucket :=
    Prog.runs_bind.mpr ⟨_, _, sampleBucket_put, rfl, rfl⟩
  have hreach : Pool.Reaches (sem samplePackages)
      (fun new => new = [(Request.createKey sampleKey).thread samplePackages])
      ⟨fun _ => none, []⟩ ⟨sampleBucket, [.ret ()]⟩ :=
    .head (.spawn rfl) (Pool.reaches_set (i := 0) rfl hthread)
  have hrun := runs_getKeyFromPath.mpr ⟨sampleBucket_reads, rfl⟩
  refine ⟨⟨sampleBucket, [.ret ()]⟩, hrun,
    (reads_own (fun new hnew t ht => ⟨.createKey sampleKey, ?_⟩) hreach).1 hrun⟩
  simpa [hnew] using ht

/-- The version that a latest object is has its own object. -/
def Backed (pk : Packages Body) (b : Bucket Body) : Prop :=
  ∀ id latestKey, Reads pk b (latestPath pk.uuid id) (.ok latestKey) →
    b (versionPath pk.uuid id latestKey.version) ≠ none

theorem reads_congr {path : String} (h : b' path = b path) {r : Except Err TextKey} :
    Reads pk b' path r ↔ Reads pk b path r := by
  unfold Reads
  rw [h]

/-- A path holds one key. -/
theorem Reads.unique {path : String} {k k' : TextKey} (h : Reads pk b path (.ok k))
    (h' : Reads pk b path (.ok k')) : k = k' := by
  obtain ⟨e, he⟩ | ⟨body, hbody, ⟨e, he⟩ | ⟨keyObj, hobj, hk⟩⟩ := h
  · cases he
  · cases he
  obtain ⟨e, he⟩ | ⟨body', hbody', ⟨e, he⟩ | ⟨keyObj', hobj', hk'⟩⟩ := h'
  · cases he
  · cases he
  rw [hbody] at hbody'
  cases hbody'
  rw [hobj] at hobj'
  cases hobj'
  exact Except.ok.inj (hk.trans hk'.symm)

/-- **What one `putKey` does to the versions.**  The version of every latest object keeps its own
object, unless a rollback deletes it. -/
theorem Put.backed_iff {key : TextKey} {r : Except Err Unit} {seen : List Seen}
    (hbacked : Backed pk b) (hput : Put pk key b r b' seen) :
    Backed pk b' ↔ (.deleted true ∈ seen → ∀ latestKey,
      Reads pk b (latestPath pk.uuid key.id) (.ok latestKey) →
        latestKey.version ≠ key.version) := by
  have hlatest : ∀ id, latestPath pk.uuid id ≠ versionPath pk.uuid key.id key.version :=
    fun id => latestPath_ne_versionPath
  cases hput with
  | unencoded | refused => exact iff_of_true hbacked (by simp)
  | left e hdata =>
    refine iff_of_true (fun id latestKey hread => ?_) (by simp)
    rw [reads_congr (Function.update_of_ne (hlatest id) _ _)] at hread
    by_cases hpath : versionPath pk.uuid id latestKey.version =
        versionPath pk.uuid key.id key.version
    · rw [hpath, Function.update_self]
      simp
    · rw [Function.update_of_ne hpath]
      exact hbacked id latestKey hread
  | rolledBack e hdata =>
    simp only [List.mem_cons, List.not_mem_nil, reduceCtorEq, false_or, or_false, true_imp_iff]
    constructor
    · intro h latestKey hread hversion
      refine h key.id latestKey ((reads_congr (Function.update_of_ne (hlatest _) _ _)).mpr hread) ?_
      rw [hversion, Function.update_self]
    · intro h id latestKey hread
      rw [reads_congr (Function.update_of_ne (hlatest id) _ _)] at hread
      have hpath : versionPath pk.uuid id latestKey.version ≠
          versionPath pk.uuid key.id key.version := by
        intro hpath
        obtain ⟨rfl, hversion⟩ := versionPath_injective hpath
        exact h latestKey hread hversion
      rw [Function.update_of_ne hpath]
      exact hbacked id latestKey hread
  | stored hdata =>
    refine iff_of_true (fun id latestKey hread => ?_) (by simp)
    have hother : ∀ v, versionPath pk.uuid id v ≠ latestPath pk.uuid key.id :=
      fun v => Ne.symm latestPath_ne_versionPath
    rw [Function.update_of_ne (hother _)]
    by_cases hid : id = key.id
    · subst hid
      rw [reads_of_encoded hdata (Function.update_self ..)] at hread
      obtain ⟨e, he⟩ | ⟨e, he⟩ | hk := hread
      · cases he
      · cases he
      · cases hk
        rw [show (roundTrip pk key).version = key.version from rfl, Function.update_self]
        simp
    · have hpath : latestPath pk.uuid id ≠ latestPath pk.uuid key.id := fun heq =>
        hid (latestPath_injective heq)
      rw [reads_congr ((Function.update_of_ne hpath _ _).trans
        (Function.update_of_ne (hlatest id) _ _))] at hread
      have hversion : versionPath pk.uuid id latestKey.version ≠
          versionPath pk.uuid key.id key.version := fun heq => hid (versionPath_injective heq).1
      rw [Function.update_of_ne hversion]
      exact hbacked id latestKey hread

theorem Wrote.backed {seen : List Seen} (h : Wrote pk b b' seen) (hbacked : Backed pk b)
    (hkept : .deleted true ∉ seen) : Backed pk b' := by
  induction h with
  | nothing b => exact hbacked
  | put hput _ ih =>
    simp only [List.mem_append, not_or] at hkept
    exact ih ((hput.backed_iff hbacked).mpr fun hdeleted => absurd hdeleted hkept.1) hkept.2

/-- One request after the other, without a rollback. -/
def Serves (pk : Packages Body) (b b' : Bucket Body) : Prop :=
  ∃ (request : Request) (seen : List Seen),
    (request.thread pk).Shows (sem pk) see b () b' seen ∧ .deleted true ∉ seen

/-- **As long as nothing is rolled back**, the version of every key that `GetKey` returns can be
found as a version.  Any calls may fail. -/
theorem backed_of_run (h : Relation.ReflTransGen (Serves pk) (fun _ => none) b) : Backed pk b := by
  induction h with
  | refl =>
    intro id latestKey hread
    obtain ⟨e, he⟩ | ⟨body, hbody, -⟩ := hread
    · cases he
    · cases hbody
  | tail _ hserves ih =>
    obtain ⟨request, seen, hrun, hkept⟩ := hserves
    exact ((built_thread pk request).wrote hrun).backed ih hkept

theorem backed_of_run_sample : Reads samplePackages sampleBucket sampleLatest
      (.ok (roundTrip samplePackages sampleKey)) ∧ Backed samplePackages sampleBucket := by
  have hput : (createKey samplePackages sampleKey).Shows (sem samplePackages) see
      (fun _ => none) (.ok ()) sampleBucket [.put true, .put true] :=
    shows_putKey.mpr (.stored rfl)
  exact ⟨sampleBucket_reads, backed_of_run (.single ⟨.createKey sampleKey, _,
    Prog.shows_bind.mpr ⟨_, _, _, [], hput, ⟨rfl, rfl, rfl⟩, rfl⟩, by simp⟩)⟩

/-- **A revocation or an update that is rolled back** leaves a latest object without its version. -/
theorem not_backed_of_rolledBack {failed : String} {change : Time → TextKey → TextKey}
    {id : KeyID} {e : Err} {seen : List Seen} (hfiled : Filed pk b)
    (hchange : ∀ now key, (change now key).id = key.id ∧ (change now key).version = key.version)
    (hrun : (rewriteLatest pk failed change id).Shows (sem pk) see b (.error e) b' seen)
    (hput : .put true ∈ seen) (hrollback : .deleted false ∉ seen) : ¬ Backed pk b' := by
  obtain ⟨latestKey, hread, rfl⟩ := rewriteLatest_failed_loses hchange hrun hput hrollback
  obtain rfl := hfiled.latest_id hread
  intro hbacked
  refine hbacked latestKey.id latestKey ?_ (Function.update_self ..)
  exact (reads_congr (Function.update_of_ne latestPath_ne_versionPath _ _)).mpr hread

end Requests

end S3Storage

end Polykey
