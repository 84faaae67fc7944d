/-
# Concurrent metadata updates

`UpdateKeyMetadata` reads the whole metadata of a key in one repository call and overwrites it in
another.  Nothing ties the two together: an update that commits in between is overwritten, and what
it changed is gone (`lost_update`).

What does hold is about the order of the calls.  The trace of a run says who read and who wrote, and
`Serial` asks that every write be made by an update that has read since the last write.  Then the
stored metadata is at every moment the result of the updates committed so far, one after another in
the order of their writes (`Trace.progress`), and at the end of all of them.
-/
import Polykey.Service.Scenario

namespace Polykey

open Lib PSQLAdapter

namespace MetadataUpdates

/-! ## 1. Updates and traces -/

/-- Some updates, none of which has made a call yet. -/
def updatePool (s : KeyService) (w : World) (reqs : List UpdateKeyMetadataRequest) :
    Pool Effect World (Except Err Unit) :=
  ⟨w, reqs.map s.updateKeyMetadata⟩

/-- What a request makes of the metadata when it is carried out at `now`. -/
def requested (req : UpdateKeyMetadataRequest) (now : Time) (m : KeyMetadata) : KeyMetadata :=
  { KeyService.applyChanges req.item ((KeyService.checkDescription req.item).toOption.getD none) m
    with updatedAt := some now }

/-- The parts of a request that are carried out, and the others, which are not: the description, the
expiry, the classification and the tags are as the request asks, and the contexts and the policies,
which it may ask about too, are as they were, like all the rest. -/
structure CarriesOut (item : UpdateKeyMetadataItem) (m m' : KeyMetadata) : Prop where
  description : m'.description = (item.description.map trimSpace).getD m.description
  expiresAt : m'.expiresAt = (item.expiresAt.map some).getD m.expiresAt
  dataClassification : m'.dataClassification = item.dataClassification.getD m.dataClassification
  tags : ∀ tag, m'.tags.lookup tag = if tag ∈ item.tagsToRemove then none
    else ((item.tagsToAdd.lookup tag).map some).getD (m.tags.lookup tag)
  others : { m' with
    description := m.description
    expiresAt := m.expiresAt
    dataClassification := m.dataClassification
    tags := m.tags
    updatedAt := m.updatedAt } = m

/-- A description that is accepted is stored without the space around it. -/
theorem checkDescription_eq_ok {item : UpdateKeyMetadataItem} {description : Option String}
    (h : KeyService.checkDescription item = .ok description) :
    description = item.description.map trimSpace := by
  unfold KeyService.checkDescription at h
  cases hd : item.description with
  | none =>
    rw [hd] at h
    exact (Except.ok.inj h).symm
  | some text =>
    simp only [hd] at h
    unfold newDescription at h
    split at h
    · cases h
    · exact (Except.ok.inj h).symm

theorem requested_carriesOut {req : UpdateKeyMetadataRequest} {description : Option String}
    (h : KeyService.checkDescription req.item = .ok description) (now : Time) (m : KeyMetadata) :
    CarriesOut req.item m (requested req now m) := by
  unfold requested
  rw [h]
  refine ⟨?_, ?_, rfl, fun tag => ?_, rfl⟩
  · exact congrArg (fun d : Option String => d.getD m.description) (checkDescription_eq_ok h)
  · cases hexpires : req.item.expiresAt <;> simp [KeyService.applyChanges, hexpires]
  · simp only [KeyService.applyChanges]
    rw [KeyService.lookup_foldl_erase, KeyService.lookup_mapsCopy_eq]

/-- Some requests carried out one after another. -/
def applied (m₀ : KeyMetadata) (order : List (UpdateKeyMetadataRequest × Time)) : KeyMetadata :=
  order.foldl (fun m c => requested c.1 c.2 m) m₀

theorem applied_snoc (m₀ : KeyMetadata) (order : List (UpdateKeyMetadataRequest × Time))
    (c : UpdateKeyMetadataRequest × Time) :
    applied m₀ (order ++ [c]) = requested c.1 c.2 (applied m₀ order) := by
  simp [applied]

/-- The call with which an update reads. -/
def readsKey : EffectOp → Bool
  | .repo (.getKey _) => true
  | _ => false

/-- The call with which it writes. -/
def writesMetadata : EffectOp → Bool
  | .repo (.updateKeyMetadata _ _) => true
  | _ => false

/-- The threads that have read since the last write. -/
def upToDate (h : List (Nat × EffectOp)) : List Nat :=
  h.foldl (fun fresh e =>
    if writesMetadata e.2 then [] else if readsKey e.2 then e.1 :: fresh else fresh) []

theorem upToDate_snoc (h : List (Nat × EffectOp)) (e : Nat × EffectOp) :
    upToDate (h ++ [e]) =
      if writesMetadata e.2 then [] else if readsKey e.2 then e.1 :: upToDate h
        else upToDate h := by
  simp [upToDate]

/-- Every write is made by a thread that has read since the last write. -/
def Serial (h : List (Nat × EffectOp)) : Prop :=
  ∀ n (hn : n < h.length), writesMetadata (h[n]).2 = true → (h[n]).1 ∈ upToDate (h.take n)

instance (h : List (Nat × EffectOp)) : Decidable (Serial h) :=
  inferInstanceAs (Decidable (∀ n (hn : n < h.length), writesMetadata (h[n]).2 = true →
    (h[n]).1 ∈ upToDate (h.take n)))

/-- One more call, in its place. -/
theorem serial_snoc {h : List (Nat × EffectOp)} {e : Nat × EffectOp} (hs : Serial (h ++ [e])) :
    Serial h ∧ (writesMetadata e.2 = true → e.1 ∈ upToDate h) := by
  constructor
  · intro n hn hwrite
    have hlast := hs n (by simp; omega)
    rw [List.getElem_append_left hn, List.take_append_of_le_length (by omega)] at hlast
    exact hlast hwrite
  · intro hwrite
    have hlast := hs h.length (by simp)
    rw [List.getElem_concat_length rfl, List.take_append_of_le_length le_rfl,
      List.take_length] at hlast
    exact hlast hwrite

/-! ## 2. The stages of an update

An update is a read, a reading of the clock and a write, with exits in between. `Stage` says for
each of these places what the update holds, and when what it holds is what is stored. -/

/-- The last call of an update, which read `m`. -/
def write (req : UpdateKeyMetadataRequest) (id : KeyID) (m : KeyMetadata) (now : Time) :
    Prog Effect (Except Err Unit) :=
  .call (.repo (.updateKeyMetadata id (some (requested req now m)))) fun r =>
    .ret (r.mapError (Err.wrap "failed to update metadata: "))

/-- The rest of an update that has read `m`. -/
def afterRead (req : UpdateKeyMetadataRequest) (id : KeyID) (m : KeyMetadata) :
    Prog Effect (Except Err Unit) :=
  .call .timeNow fun now => write req id m now

/-- The rest of an update after the answer to its read. -/
def afterGet (req : UpdateKeyMetadataRequest) (id : KeyID) :
    Except Err Key → Prog Effect (Except Err Unit)
  | .error e => .ret (.error (e.wrap "failed to get key: "))
  | .ok key =>
    match KeyService.checkDescription req.item, key.metadata with
    | .error e, _ => .ret (.error e)
    | .ok _, none => .ret (.error .nilPointer)
    | .ok _, some m => afterRead req id m

/-- An update is its read and what follows. -/
theorem updateKeyMetadata_eq {s : KeyService} {req : UpdateKeyMetadataRequest} {id : KeyID}
    (hid : keyIDFromString s.uuid req.item.keyId = .ok id) :
    s.updateKeyMetadata req = Prog.call (I := Effect) (.repo (.getKey id)) (afterGet req id) := by
  unfold KeyService.updateKeyMetadata
  rw [hid]
  refine congrArg (Prog.call (I := Effect) (.repo (.getKey id))) (funext fun r => ?_)
  cases r with
  | error e => rfl
  | ok key =>
    obtain ⟨kid, version, metadata, dek, status, createdAt, updatedAt, revokedAt⟩ := key
    cases hd : KeyService.checkDescription req.item with
    | error e =>
      simp only [afterGet, hd]
      rfl
    | ok description =>
      cases metadata with
      | none =>
        simp only [afterGet, hd]
        rfl
      | some m =>
        have hwrite : ∀ now, write req id m now =
            Act.mapError (Err.wrap "failed to update metadata: ") (repo (.updateKeyMetadata id
              (some { KeyService.applyChanges req.item description m with
                updatedAt := some now }))) := by
          intro now
          have hrequested : requested req now m =
              { KeyService.applyChanges req.item description m with updatedAt := some now } := by
            simp [requested, hd, Except.toOption]
          rw [write, hrequested]
          rfl
        simp only [afterGet, hd, afterRead, hwrite]
        rfl

/-- Where an update is, given the threads that are up to date, the threads that have committed and
the stored metadata: an update that is up to date holds the stored metadata. -/
inductive Stage (id : KeyID) (fresh committed : List Nat) (m : KeyMetadata) (i : Nat)
    (req : UpdateKeyMetadataRequest) : Prog Effect (Except Err Unit) → Prop
  | start (hi : i ∉ committed) :
      Stage id fresh committed m i req (.call (.repo (.getKey id)) (afterGet req id))
  | read {m' : KeyMetadata} (hi : i ∉ committed) (hfresh : i ∈ fresh → m' = m) :
      Stage id fresh committed m i req (afterRead req id m')
  | timed {m' : KeyMetadata} {now : Time} (hi : i ∉ committed) (hfresh : i ∈ fresh → m' = m) :
      Stage id fresh committed m i req (write req id m' now)
  | done (hi : i ∈ committed) : Stage id fresh committed m i req (.ret (.ok ()))
  | failed (e : Err) : Stage id fresh committed m i req (.ret (.error e))

section Stage

variable {id : KeyID} {fresh fresh' committed : List Nat} {m m' : KeyMetadata} {i j : Nat}
  {req : UpdateKeyMetadataRequest} {t : Prog Effect (Except Err Unit)}

/-- A call of another update that writes nothing. -/
theorem Stage.mono (h : Stage id fresh committed m i req t) (hfresh : i ∈ fresh' → i ∈ fresh) :
    Stage id fresh' committed m i req t := by
  cases h with
  | start hi => exact .start hi
  | read hi hcur => exact .read hi fun h => hcur (hfresh h)
  | timed hi hcur => exact .timed hi fun h => hcur (hfresh h)
  | done hi => exact .done hi
  | failed e => exact .failed e

/-- A write of another update: nobody is up to date any more. -/
theorem Stage.other (h : Stage id fresh committed m i req t) (hne : i ≠ j) :
    Stage id [] (committed ++ [j]) m' i req t := by
  have hnot : i ∉ committed → i ∉ committed ++ [j] := by simp [hne]
  cases h with
  | start hi => exact .start (hnot hi)
  | read hi _ => exact .read (hnot hi) fun h => by cases h
  | timed hi _ => exact .timed (hnot hi) fun h => by cases h
  | done hi => exact .done (by simp [hi])
  | failed e => exact .failed e

/-- What follows the answer to a read, when the latest row holds `m`. -/
theorem stage_afterGet (hi : i ∉ committed) {r : Except Err Key}
    (hr : ∀ key, r = .ok key → key.metadata = some m) :
    Stage id fresh committed m i req (afterGet req id r) := by
  cases r with
  | error e => exact .failed _
  | ok key =>
    have hm := hr key rfl
    unfold afterGet
    cases KeyService.checkDescription req.item with
    | error e => exact .failed e
    | ok description =>
      simp only [hm]
      exact .read hi fun _ => rfl

end Stage

/-! ## 3. What a run has done so far

In a serial run a write is made by an update that holds the stored metadata, so it leaves what
that update makes of what is stored. All the others are then out of date, until they read again. -/

/-- A committed update: its thread, its request and the time it set. -/
abbrev Commit := Nat × UpdateKeyMetadataRequest × Time

/-- The updates that have committed, in the order of their writes. -/
structure Progress (id : KeyID) (reqs : List UpdateKeyMetadataRequest) (m₀ : KeyMetadata)
    (h : List (Nat × EffectOp)) (q : Pool Effect World (Except Err Unit)) (order : List Commit) :
    Prop where
  nodup : (order.map Prod.fst).Nodup
  known : ∀ c ∈ order, reqs[c.1]? = some c.2.1
  stored : ∃ r, q.state.table.latest id = some r ∧
    r.metadata = some (applied m₀ (order.map Prod.snd))
  length : q.threads.length = reqs.length
  stages : ∀ i req, reqs[i]? = some req → ∃ t, q.threads[i]? = some t ∧
    Stage id (upToDate h) (order.map Prod.fst) (applied m₀ (order.map Prod.snd)) i req t

section Progress

variable {s : KeyService} {kms : KMS} {id : KeyID} {reqs : List UpdateKeyMetadataRequest}
  {m₀ : KeyMetadata} {h : List (Nat × EffectOp)} {q : Pool Effect World (Except Err Unit)}
  {order : List Commit}

theorem progress_start {w : World} {r : Row}
    (hids : ∀ req ∈ reqs, keyIDFromString s.uuid req.item.keyId = .ok id)
    (hrow : w.table.latest id = some r) (hm : r.metadata = some m₀) :
    Progress id reqs m₀ [] (updatePool s w reqs) [] where
  nodup := List.nodup_nil
  known c hc := by cases hc
  stored := ⟨r, hrow, hm⟩
  length := List.length_map _
  stages i req hreq := by
    refine ⟨s.updateKeyMetadata req, List.getElem?_map.trans (by rw [hreq]; rfl), ?_⟩
    rw [updateKeyMetadata_eq (hids req (List.mem_of_getElem? hreq))]
    exact .start (by simp)

/-- The stages after thread `i` has moved. -/
theorem Progress.move (hp : Progress id reqs m₀ h q order) {i : Nat}
    {req : UpdateKeyMetadataRequest} (hi : reqs[i]? = some req) {fresh committed : List Nat}
    {m : KeyMetadata} {t : Prog Effect (Except Err Unit)}
    (hself : Stage id fresh committed m i req t)
    (hothers : ∀ j req' t', j ≠ i → Stage id (upToDate h) (order.map Prod.fst)
      (applied m₀ (order.map Prod.snd)) j req' t' → Stage id fresh committed m j req' t') :
    ∀ j req', reqs[j]? = some req' → ∃ t', (q.threads.set i t)[j]? = some t' ∧
      Stage id fresh committed m j req' t' := by
  intro j req' hj
  obtain ⟨t', ht', hstage⟩ := hp.stages j req' hj
  by_cases hji : j = i
  · subst hji
    rw [hi] at hj
    cases hj
    obtain ⟨hlt, -⟩ := List.getElem?_eq_some_iff.mp ht'
    exact ⟨t, List.getElem?_set_self hlt, hself⟩
  · refine ⟨t', ?_, hothers j req' t' hji hstage⟩
    rw [List.getElem?_set_ne (Ne.symm hji)]
    exact ht'

/-- A call that leaves the table alone and writes nothing. -/
theorem Progress.quiet (hp : Progress id reqs m₀ h q order) {i : Nat}
    {req : UpdateKeyMetadataRequest} (hi : reqs[i]? = some req) {op : EffectOp}
    (hop : writesMetadata op = false) {w' : World} (htable : w'.table = q.state.table)
    {t : Prog Effect (Except Err Unit)}
    (hself : Stage id (upToDate (h ++ [(i, op)])) (order.map Prod.fst)
      (applied m₀ (order.map Prod.snd)) i req t) :
    Progress id reqs m₀ (h ++ [(i, op)]) ⟨w', q.threads.set i t⟩ order where
  nodup := hp.nodup
  known := hp.known
  stored := by
    rw [htable]
    exact hp.stored
  length := by simpa using hp.length
  stages := by
    refine hp.move hi hself fun j req' t' hji hstage => hstage.mono fun hj => ?_
    rw [upToDate_snoc, hop] at hj
    simp only [Bool.false_eq_true, if_false] at hj
    split at hj
    · exact (List.mem_cons.mp hj).resolve_left hji
    · exact hj

/-- A write that fails: nobody is up to date any more. -/
theorem Progress.failed (hp : Progress id reqs m₀ h q order) {i : Nat}
    {req : UpdateKeyMetadataRequest} (hi : reqs[i]? = some req) {op : EffectOp}
    (hop : writesMetadata op = true) {w' : World} (htable : w'.table = q.state.table) (e : Err) :
    Progress id reqs m₀ (h ++ [(i, op)]) ⟨w', q.threads.set i (.ret (.error e))⟩ order where
  nodup := hp.nodup
  known := hp.known
  stored := by
    rw [htable]
    exact hp.stored
  length := by simpa using hp.length
  stages := by
    refine hp.move hi (.failed e) fun j req' t' hji hstage => hstage.mono fun hj => ?_
    simp [upToDate_snoc, hop] at hj

/-- A write that succeeds, by an update that holds the stored metadata. -/
theorem Progress.commit (hp : Progress id reqs m₀ h q order) {i : Nat}
    {req : UpdateKeyMetadataRequest} (hi : reqs[i]? = some req) (hnew : i ∉ order.map Prod.fst)
    {op : EffectOp} (hop : writesMetadata op = true) {w' : World} {now : Time} {r : Row}
    (hrow : w'.table.latest id = some r)
    (hmeta : r.metadata = some (requested req now (applied m₀ (order.map Prod.snd)))) :
    Progress id reqs m₀ (h ++ [(i, op)]) ⟨w', q.threads.set i (.ret (.ok ()))⟩
      (order ++ [(i, req, now)]) where
  nodup := by
    rw [List.map_append]
    refine List.nodup_append.mpr ⟨hp.nodup, by simp, ?_⟩
    rintro j hj _ hmem rfl
    simp only [List.map_cons, List.map_nil, List.mem_singleton] at hmem
    exact hnew (hmem ▸ hj)
  known c hc := by
    rcases List.mem_append.mp hc with hc | hc
    · exact hp.known c hc
    · rw [List.mem_singleton.mp hc]
      exact hi
  stored := by
    refine ⟨r, hrow, ?_⟩
    rw [List.map_append, List.map_cons, List.map_nil, applied_snoc]
    exact hmeta
  length := by simpa using hp.length
  stages := by
    have hfresh : upToDate (h ++ [(i, op)]) = [] := by simp [upToDate_snoc, hop]
    rw [hfresh, List.map_append]
    refine hp.move hi (.done (by simp)) fun j req' t' hji hstage => hstage.other hji

/-- **The step lemma.**  A call of a serial run keeps the account of what has been committed. -/
theorem Progress.step (hp : Progress id reqs m₀ h q order) {i : Nat} {op : EffectOp}
    {k : op.Res → Prog Effect (Except Err Unit)} (hi : q.threads[i]? = some (.call op k))
    {r : op.Res} {w' : World} (hop : worldSem s.uuid kms op q.state r w')
    (hserial : writesMetadata op = true → i ∈ upToDate h) :
    ∃ order', Progress id reqs m₀ (h ++ [(i, op)]) ⟨w', q.threads.set i (k r)⟩ order' := by
  obtain ⟨hlt, -⟩ := List.getElem?_eq_some_iff.mp hi
  obtain ⟨req, hreq⟩ : ∃ req, reqs[i]? = some req :=
    ⟨_, List.getElem?_eq_getElem (hp.length ▸ hlt)⟩
  obtain ⟨t, ht, hstage⟩ := hp.stages i req hreq
  obtain ⟨row, hrow, hmeta⟩ := hp.stored
  rw [hi] at ht
  cases ht
  cases hstage with
  | start hnew =>
    -- the read: the update holds what is stored, and is up to date
    obtain ⟨now, -, t', hans, rfl⟩ := hop
    have htable : t' = q.state.table := by
      rcases hans with hexec | ⟨-, ht'⟩
      · exact (Prod.mk.inj hexec).2.symm
      · exact ht'
    refine ⟨order, hp.quiet hreq rfl htable (stage_afterGet hnew fun key hkey => ?_)⟩
    subst hkey
    obtain ⟨-, row', hrow', rfl⟩ := answers_getKey hans
    rw [hrow] at hrow'
    cases hrow'
    exact hmeta
  | read hnew hfresh =>
    refine ⟨order, hp.quiet hreq rfl (worldSem_table hop rfl) (.timed hnew ?_)⟩
    simpa [upToDate_snoc, writesMetadata, readsKey] using hfresh
  | @timed m' now hnew hfresh =>
    obtain rfl := hfresh (hserial rfl)
    obtain ⟨now', -, t', hans, rfl⟩ := hop
    have hfails : ∀ e, r = .error e → t' = q.state.table := by
      rintro e rfl
      rcases hans with hexec | ⟨-, ht'⟩
      · exact exec_error hexec
      · exact ht'
    cases r with
    | error e => exact ⟨order, hp.failed hreq rfl (hfails e rfl) _⟩
    | ok _ =>
      have hmax : q.state.table.maxVersion id ≠ none := by simp [Table.maxVersion, hrow]
      obtain hexec | ⟨⟨e, he⟩, -⟩ := hans
      · simp only [exec, PSQLAdapter.updateKeyMetadata, if_neg hmax] at hexec
        obtain ⟨-, rfl⟩ := Prod.mk.inj hexec
        have hlatest := q.state.table.latest_updateMetadata id
          (some (requested req now (applied m₀ (order.map Prod.snd)))) (timestamptz now')
        rw [hrow, Option.map_some] at hlatest
        exact ⟨_, hp.commit hreq hnew rfl hlatest rfl⟩
      · cases he

/-- **Along every serial run** the stored metadata is that of the updates committed so far, one
after another. -/
theorem Trace.progress {w : World} {r : Row}
    (hids : ∀ req ∈ reqs, keyIDFromString s.uuid req.item.keyId = .ok id)
    (hrow : w.table.latest id = some r) (hm : r.metadata = some m₀)
    (hrun : Pool.Trace (worldSem s.uuid kms) (updatePool s w reqs) h q) (hserial : Serial h) :
    ∃ order, Progress id reqs m₀ h q order := by
  refine Pool.Trace.invariant (P := fun h q => Serial h → ∃ order, Progress id reqs m₀ h q order)
    (fun _ => ⟨[], progress_start hids hrow hm⟩) ?_ hrun hserial
  intro h q i op k r s' ih hi hop hserial
  obtain ⟨hbefore, hlast⟩ := serial_snoc hserial
  obtain ⟨order, hp⟩ := ih hbefore
  exact hp.step hi hop hlast

/-- When all updates have succeeded, all have committed. -/
theorem Progress.perm (hp : Progress id reqs m₀ h q order)
    (hdone : ∀ t ∈ q.threads, t = .ret (.ok ())) :
    (order.map fun c => c.2.1).Perm reqs := by
  have hnodup : (order.map fun c => (c.2.1, c.1)).Nodup := by
    refine List.Nodup.of_map Prod.snd ?_
    simpa [List.map_map, Function.comp_def] using hp.nodup
  have hindices : reqs.zipIdx.Nodup := by
    refine List.Nodup.of_map Prod.snd ?_
    rw [List.zipIdx_map_snd]
    exact List.nodup_range'
  have hall : (order.map fun c => (c.2.1, c.1)).Perm reqs.zipIdx := by
    refine (List.perm_ext_iff_of_nodup hnodup hindices).mpr fun c => ?_
    obtain ⟨req, i⟩ := c
    rw [List.mem_zipIdx_iff_getElem?, List.mem_map]
    constructor
    · rintro ⟨c, hc, heq⟩
      cases heq
      exact hp.known c hc
    · intro hreq
      obtain ⟨t, ht, hstage⟩ := hp.stages i req hreq
      obtain rfl := hdone t (List.mem_of_getElem? ht)
      cases hstage with
      | done hi =>
        obtain ⟨c, hc, rfl⟩ := List.mem_map.mp hi
        have hsame := (hp.known c hc).symm.trans hreq
        cases hsame
        exact ⟨c, hc, rfl⟩
  have hfst := hall.map Prod.fst
  rw [List.zipIdx_map_fst, List.map_map] at hfst
  exact hfst

end Progress

/-! ## 4. Tags -/

theorem mem_requested_tags {req : UpdateKeyMetadataRequest} {now : Time} {m : KeyMetadata}
    {tag : String} (hremove : tag ∉ req.item.tagsToRemove)
    (h : tag ∈ m.tags ∨ tag ∈ req.item.tagsToAdd) : tag ∈ (requested req now m).tags := by
  have hkeys : (requested req now m).tags.keys =
      (KeyService.mapsCopy m.tags req.item.tagsToAdd).keys \ req.item.tagsToRemove.toFinset :=
    KeyService.keys_foldl_erase _ _
  have hcopy : tag ∈ KeyService.mapsCopy m.tags req.item.tagsToAdd := by
    simp [KeyService.mapsCopy, h.symm]
  rw [← Finmap.mem_keys, hkeys]
  simp [hremove, Finmap.mem_keys.mpr hcopy]

/-- A tag that one of the requests adds and none removes is there at the end, whatever the order. -/
theorem mem_applied_tags {order : List (UpdateKeyMetadataRequest × Time)} {tag : String}
    (hremove : ∀ c ∈ order, tag ∉ c.1.item.tagsToRemove) {m₀ : KeyMetadata}
    (hadd : tag ∈ m₀.tags ∨ ∃ c ∈ order, tag ∈ c.1.item.tagsToAdd) :
    tag ∈ (applied m₀ order).tags := by
  induction order generalizing m₀ with
  | nil => simpa [applied] using hadd
  | cons c cs ih =>
    refine ih (fun c' hc' => hremove c' (by simp [hc'])) ?_
    have hstep : tag ∈ m₀.tags ∨ tag ∈ c.1.item.tagsToAdd → tag ∈ (requested c.1 c.2 m₀).tags :=
      mem_requested_tags (hremove c (by simp))
    rcases hadd with hold | ⟨c', hc', htag⟩
    · exact .inl (hstep (.inl hold))
    · rcases List.mem_cons.mp hc' with rfl | hc'
      · exact .inl (hstep (.inr htag))
      · exact .inr ⟨c', hc', htag⟩

/-! ## 5. Updates that are not lost, and one that is -/

/-- **Serial updates are not lost.** Any number of updates of one key run interleaved, call by
call, and all of them succeed.  If every write is made by an update that has read since the last
write, the stored metadata is in the end that of all the requests carried out one after another; in
particular a tag that one of them adds and none removes is there. -/
theorem updates_not_lost {s : KeyService} {kms : KMS} {id : KeyID}
    {reqs : List UpdateKeyMetadataRequest} {w : World} {r : Row} {m₀ : KeyMetadata}
    {h : List (Nat × EffectOp)} {q : Pool Effect World (Except Err Unit)}
    (hids : ∀ req ∈ reqs, keyIDFromString s.uuid req.item.keyId = .ok id)
    (hrow : w.table.latest id = some r) (hm : r.metadata = some m₀)
    (hrun : Pool.Trace (worldSem s.uuid kms) (updatePool s w reqs) h q)
    (hdone : ∀ t ∈ q.threads, t = .ret (.ok ())) (hserial : Serial h) :
    ∃ row order, (order.map Prod.fst).Perm reqs ∧ q.state.table.latest id = some row ∧
      row.metadata = some (applied m₀ order) ∧
      ∀ tag, (∃ req ∈ reqs, tag ∈ req.item.tagsToAdd) →
        (∀ req ∈ reqs, tag ∉ req.item.tagsToRemove) → tag ∈ (applied m₀ order).tags := by
  obtain ⟨order, hp⟩ := Trace.progress hids hrow hm hrun hserial
  obtain ⟨row, hlatest, hmeta⟩ := hp.stored
  have hperm : ((order.map Prod.snd).map Prod.fst).Perm reqs := by
    rw [List.map_map]
    exact hp.perm hdone
  refine ⟨row, order.map Prod.snd, hperm, hlatest, hmeta, fun tag hadd hremove => ?_⟩
  refine mem_applied_tags (fun c hc => ?_) (.inr ?_)
  · exact hremove c.1 (hperm.mem_iff.mp (List.mem_map_of_mem hc))
  · obtain ⟨req, hreq, htag⟩ := hadd
    obtain ⟨c, hc, rfl⟩ := List.mem_map.mp (hperm.mem_iff.mpr hreq)
    exact ⟨c, hc, htag⟩

/-- A request that adds one tag to the key of the sample runs. -/
def addTag (tag : String) : UpdateKeyMetadataRequest :=
  ⟨⟨sampleText, none, none, none, Finmap.singleton tag "", [], ∅, [], []⟩, some sampleContext⟩

/-- The world once the key has been created. -/
def createdWorld : World := (samplePool [.start sampleCreate, .finish 0]).state

/-- Two updates of the key, each about to read. -/
def twoUpdates : Pool Effect World (Except Err Unit) :=
  updatePool sampleService createdWorld [addTag "env", addTag "team"]

/-- Has the update succeeded? -/
def succeeded : Prog Effect (Except Err Unit) → Bool
  | .ret (.ok _) => true
  | _ => false

theorem eq_of_succeeded {t : Prog Effect (Except Err Unit)} (h : succeeded t = true) :
    t = .ret (.ok ()) := by
  cases t with
  | ret x =>
    cases x with
    | ok _ => rfl
    | error e => cases h
  | call op k => cases h

theorem all_succeeded {q : Pool Effect World (Except Err Unit)}
    (h : q.threads.all succeeded = true) : ∀ t ∈ q.threads, t = .ret (.ok ()) := by
  intro t ht
  exact eq_of_succeeded (List.all_eq_true.mp h t ht)

theorem twoUpdates_ids : ∀ req ∈ [addTag "env", addTag "team"],
    keyIDFromString sampleService.uuid req.item.keyId = .ok sampleID := by
  intro req hreq
  simp only [List.mem_cons, List.not_mem_nil, or_false] at hreq
  rcases hreq with rfl | rfl <;> exact keyIDFromString_string _ _

/-- The key has a row, with metadata. -/
theorem createdWorld_row : ∃ r m, createdWorld.table.latest sampleID = some r ∧
    r.metadata = some m := by
  have hrow : ((createdWorld.table.latest sampleID).bind Row.metadata).isSome = true := by
    decide +kernel
  obtain ⟨m, hm⟩ := Option.isSome_iff_exists.mp hrow
  obtain ⟨r, hr, hmeta⟩ := Option.bind_eq_some_iff.mp hm
  exact ⟨r, m, hr, hmeta⟩

/-- One update after the other: both tags are there. -/
theorem updates_not_lost_two :
    ∃ row m, (Pool.scheduled sampleStep [0, 0, 0, 1, 1, 1] twoUpdates).2.state.table.latest
      sampleID = some row ∧ row.metadata = some m ∧ "env" ∈ m.tags ∧ "team" ∈ m.tags := by
  obtain ⟨r, m₀, hrow, hm⟩ := createdWorld_row
  obtain ⟨row, order, -, hlatest, hmeta, htags⟩ := updates_not_lost twoUpdates_ids hrow hm
    (Pool.scheduled_trace sampleStep_sound [0, 0, 0, 1, 1, 1] twoUpdates)
    (all_succeeded (by decide +kernel)) (by decide +kernel)
  have hremove : ∀ tag, ∀ req ∈ [addTag "env", addTag "team"], tag ∉ req.item.tagsToRemove := by
    intro tag req hreq
    simp only [List.mem_cons, List.not_mem_nil, or_false] at hreq
    rcases hreq with rfl | rfl <;> simp [addTag]
  exact ⟨row, _, hlatest, hmeta, htags "env" ⟨addTag "env", by simp, by simp [addTag]⟩ (hremove _),
    htags "team" ⟨addTag "team", by simp, by simp [addTag]⟩ (hremove _)⟩

/-- Both updates read before either writes.  Both succeed, the first one's tag is gone, and no order
of the two requests gives what is stored. -/
theorem lost_update :
    ∃ (h : List (Nat × EffectOp)) (q : Pool Effect World (Except Err Unit)) (r row : Row)
      (m₀ m : KeyMetadata), createdWorld.table.latest sampleID = some r ∧ r.metadata = some m₀ ∧
      Pool.Trace (worldSem googleUUID sampleKMS) twoUpdates h q ∧
      (∀ t ∈ q.threads, t = .ret (.ok ())) ∧ q.state.table.latest sampleID = some row ∧
      row.metadata = some m ∧ "env" ∉ m.tags ∧
      ¬ ∃ order, (order.map Prod.fst).Perm [addTag "env", addTag "team"] ∧
        m = applied m₀ order := by
  obtain ⟨r, m₀, hrow, hm⟩ := createdWorld_row
  have hlost : ((((Pool.scheduled sampleStep [0, 1, 0, 1, 0, 1] twoUpdates).2.state.table.latest
      sampleID).bind Row.metadata).any fun m => decide ("env" ∉ m.tags)) = true := by
    decide +kernel
  obtain ⟨m, hm', hnot⟩ := (Option.any_eq_true _ _).mp hlost
  obtain ⟨row, hrow', hmeta⟩ := Option.bind_eq_some_iff.mp hm'
  have henv : "env" ∉ m.tags := of_decide_eq_true hnot
  refine ⟨_, _, r, row, m₀, m, hrow, hm, Pool.scheduled_trace sampleStep_sound [0, 1, 0, 1, 0, 1] _,
    all_succeeded (by decide +kernel), hrow', hmeta, henv, ?_⟩
  rintro ⟨order, hperm, rfl⟩
  refine henv (mem_applied_tags (fun c hc => ?_) (.inr ?_))
  · have hmem := hperm.mem_iff.mp (List.mem_map_of_mem hc)
    simp only [List.mem_cons, List.not_mem_nil, or_false] at hmem
    rcases hmem with hc | hc <;> simp [hc, addTag]
  · obtain ⟨c, hc, heq⟩ := List.mem_map.mp
      (hperm.mem_iff.mpr (List.mem_cons_self (a := addTag "env")))
    exact ⟨c, hc, by simp [heq, addTag]⟩

end MetadataUpdates

end Polykey
