/-
# Concurrent service calls

Any number of calls of the service run at the same time, interleaved at the granularity of the
world's calls.  `ServiceCall` is a call with its request; a call is one thread, except that a
batch rotation is one thread per item (the goroutines of the batch processor) and that a turn of
a rotation worker is a thread of its own.

Ten of the fourteen methods create no key and write no metadata, whatever the answers of their
calls are; that is said once of each (`threads_quiet`, `threads_still`) and serves every invariant
of the development.  The other four are shown to meet their rely/guarantee obligation: every
repository call they make is `Sound` in whatever table it finds.  A creation builds fresh keys; an
update writes what it read earlier, and what was read stays known however the table moves on
(`KnownMetadata.extends`).
-/
import Polykey.Persistence.VersionChain
import Polykey.Service.KeyManager
import Polykey.Service.KeyRetriever

namespace Polykey

open Lib PSQLAdapter

/-! ## 1. Calls and pools -/

/-- A call of the service, or a turn of a rotation worker. -/
inductive ServiceCall
  | createKey (req : CreateKeyRequest)
  | batchCreateKeys (req : BatchCreateKeysRequest)
  | getKey (req : GetKeyRequest)
  | batchGetKeys (req : BatchGetRequest)
  | getKeyMetadata (req : GetKeyMetadataRequest)
  | batchGetKeyMetadata (req : BatchGetRequest)
  | listKeys (req : ListKeysRequest)
  | rotateKey (req : RotateKeyRequest)
  | batchRotateKeys (req : BatchRotateKeysRequest)
  | revokeKey (req : RevokeKeyRequest)
  | batchRevokeKeys (req : BatchRevokeKeysRequest)
  | updateKeyMetadata (req : UpdateKeyMetadataRequest)
  | batchUpdateKeyMetadata (req : BatchUpdateKeyMetadataRequest)
  | worker

/-- A thread is an action whose result nobody looks at. -/
def thread {α : Type} (p : Svc α) : Prog Effect Unit := Prog.bind p fun _ => .ret ()

/-- The threads of a call. -/
def ServiceCall.threads (s : KeyService) : ServiceCall → List (Prog Effect Unit)
  | createKey req => [thread (s.createKey req)]
  | batchCreateKeys req => [thread (s.batchCreateKeys req)]
  | getKey req => [thread (s.getKey req)]
  | batchGetKeys req => [thread (s.batchGetKeys req)]
  | getKeyMetadata req => [thread (s.getKeyMetadata req)]
  | batchGetKeyMetadata req => [thread (s.batchGetKeyMetadata req)]
  | listKeys req => [thread (s.listKeys req)]
  | rotateKey req => [thread (s.rotateKey req)]
  | batchRotateKeys req => req.keys.map fun item => thread (s.rotateItem item)
  | revokeKey req => [thread (s.revokeKey req)]
  | batchRevokeKeys req => [thread (s.batchRevokeKeys req)]
  | updateKeyMetadata req => [thread (s.updateKeyMetadata req)]
  | batchUpdateKeyMetadata req => [thread (s.batchUpdateKeyMetadata req)]
  | worker => [thread KeyService.workerTurn]

/-- The pool of the service: a world and the calls under way. -/
abbrev ServicePool := Pool Effect World Unit

/-- Any call may start at any time. -/
def starts (s : KeyService) (new : List (Prog Effect Unit)) : Prop :=
  ∃ call : ServiceCall, new = call.threads s

/-- Nothing stored, nothing under way. -/
def World.init (now : Time) : World := ⟨.empty, [], [], .new String Bool (5 * minute), [], now⟩

def emptyPool (now : Time) : ServicePool := ⟨.init now, []⟩

/-! ## 2. The calls of the methods that create no key and write no metadata

What is said here is about the text of the methods: which calls they can come to make, whatever
is answered. No invariant is involved, so it serves all of them. -/

/-- A repository call that creates no key and writes no metadata. -/
def RepoOp.Quiet (op : RepoOp) : Prop := op.created = [] ∧ op.written = []

/-- The DEKs that a call rotates keys to. -/
def RepoOp.rotated : RepoOp → List (KeyID × Bytes)
  | rotateKey id dek => [(id, dek)]
  | _ => []

/-- A quiet call that rotates no key either. -/
def RepoOp.Still (op : RepoOp) : Prop := op.Quiet ∧ op.rotated = []

/-- No call of the repository, or a quiet one. -/
def EffectOp.Quiet (op : EffectOp) : Prop := ∀ rop, op = .repo rop → rop.Quiet

/-- No call of the repository, or a still one. -/
def EffectOp.Still (op : EffectOp) : Prop := ∀ rop, op = .repo rop → rop.Still

theorem EffectOp.Still.quiet (op : EffectOp) (h : op.Still) : op.Quiet :=
  fun rop heq => (h rop heq).1

/-- A read of one key: of its latest version, or of a version by its number. -/
inductive RepoOp.SingleRead : RepoOp → Prop
  | getKey (id : KeyID) : SingleRead (.getKey id)
  | getKeyByVersion (id : KeyID) {v : Int} (hv : 0 < v) : SingleRead (.getKeyByVersion id v)
  | getKeyMetadata (id : KeyID) : SingleRead (.getKeyMetadata id)
  | getKeyMetadataByVersion (id : KeyID) {v : Int} (hv : 0 < v) :
      SingleRead (.getKeyMetadataByVersion id v)

theorem RepoOp.SingleRead.still (op : RepoOp) (h : op.SingleRead) : op.Still := by
  cases h <;> exact ⟨⟨rfl, rfl⟩, rfl⟩

/-- Neither a call of the repository nor a request to the rotation pipeline. -/
def EffectOp.isPlain : EffectOp → Bool
  | repo _ | enqueue _ => false
  | _ => true

/-- A plain call, or one of the repository of some kind. -/
def EffectOp.Within (kind : RepoOp → Prop) (op : EffectOp) : Prop :=
  op.isPlain = true ∨ ∃ rop, op = .repo rop ∧ kind rop

/-- A plain call, or a read of one key. -/
abbrev EffectOp.Reads : EffectOp → Prop := EffectOp.Within RepoOp.SingleRead

/-- A plain call, or a still one of the repository. -/
abbrev EffectOp.Passive : EffectOp → Prop := EffectOp.Within RepoOp.Still

theorem EffectOp.Within.mono {kind kind' : RepoOp → Prop} (h : ∀ rop, kind rop → kind' rop)
    (op : EffectOp) : op.Within kind → op.Within kind' := by
  rintro (hplain | ⟨rop, heq, hkind⟩)
  · exact .inl hplain
  · exact .inr ⟨rop, heq, h rop hkind⟩

theorem EffectOp.Within.repo {kind : RepoOp → Prop} {rop : RepoOp}
    (h : (EffectOp.repo rop).Within kind) : kind rop := by
  rcases h with hplain | ⟨rop', heq, hkind⟩
  · cases hplain
  · cases heq
    exact hkind

theorem EffectOp.Passive.still (op : EffectOp) (h : op.Passive) : op.Still := by
  rintro rop rfl
  exact h.repo

theorem still_other {op : EffectOp} (h : op.isRepo = false) : op.Still := by
  rintro rop rfl
  cases h

section Still

variable (s : KeyService)

/-- The action makes passive calls only. -/
abbrev IsPassive {α : Type} (p : Svc α) : Prop := Act.Only EffectOp.Passive p

theorem passive_call (op : EffectOp) (h : op.isPlain = true) :
    IsPassive (Act.call (I := Effect) op) := Act.Only.call (.inl h)

theorem passive_tryCall {α : Type} (op : EffectOp) (k : op.Res → Except Err α)
    (h : op.isPlain = true) : IsPassive (Act.tryCall (I := Effect) op k) :=
  ⟨.inl h, fun _ => trivial⟩

theorem only_repo {kind : RepoOp → Prop} {op : RepoOp} (h : kind op) :
    Act.Only (EffectOp.Within kind) (repo op) :=
  Act.Only.tryCall (.inr ⟨op, rfl, h⟩) _

theorem passive_repo {op : RepoOp} (h : op.Still) : IsPassive (repo op) := only_repo h

theorem only_processBatch {P : EffectOp → Prop} {α β : Type} {validate : α → Except Err Unit}
    {process : α → Svc β} (h : ∀ a, Act.Only P (process a)) (as : List α) :
    Act.Only P (processBatch validate process as) := by
  induction as with
  | nil => exact .pure _
  | cons a as ih =>
    refine .bind ?_ fun r => ih.bind fun rs => .pure _
    unfold processItem
    split
    · exact .pure _
    · exact (h a).attempt

theorem only_deliver {kind : RepoOp → Prop} (identity operation : String) (key : Key)
    (skip : Bool) : Act.Only (EffectOp.Within kind) (s.deliver identity operation key skip) := by
  refine .bind (.ofExcept _) fun provider => ?_
  refine .bind (Act.Only.tryCall (.inl rfl) _).attempt fun r => ?_
  cases r with
  | error e => exact .bind (.call (.inl rfl)) fun _ => .throw _
  | ok dek =>
    refine .bind (.ofExcept _) fun details => ?_
    exact .bind (.call (.inl rfl)) fun now => .bind (.call (.inl rfl)) fun _ => .pure _

theorem reads_getKey (req : GetKeyRequest) : Act.Only EffectOp.Reads (s.getKey req) := by
  refine .bind (.ofExcept _) fun keyID => .bind (Act.Only.mapError ?_) fun key => ?_
  · split
    · exact only_repo (.getKeyByVersion keyID ‹_›)
    · exact only_repo (.getKey keyID)
  · exact .ite (.throw _) (.ite (.throw _) (only_deliver s _ _ _ _))

theorem reads_getKeyMetadata (req : GetKeyMetadataRequest) :
    Act.Only EffectOp.Reads (s.getKeyMetadata req) := by
  refine .bind (.ofExcept _) fun keyID => .bind ?_ fun metadata => ?_
  · split
    · exact only_repo (.getKeyMetadataByVersion keyID ‹_›)
    · exact only_repo (.getKeyMetadata keyID)
  · refine .bind (.call (.inl rfl)) fun now => .bind (.call (.inl rfl)) fun _ => ?_
    cases metadata with
    | none => exact .throw _
    | some m => exact .pure _

theorem passive_getKey (req : GetKeyRequest) : IsPassive (s.getKey req) :=
  Prog.Only.mono (EffectOp.Within.mono RepoOp.SingleRead.still) (reads_getKey s req)

theorem passive_getKeyMetadata (req : GetKeyMetadataRequest) : IsPassive (s.getKeyMetadata req) :=
  Prog.Only.mono (EffectOp.Within.mono RepoOp.SingleRead.still) (reads_getKeyMetadata s req)

theorem passive_batchGetKeys (req : BatchGetRequest) : IsPassive (s.batchGetKeys req) := by
  unfold KeyService.batchGetKeys
  refine .ite (.throw _) (.bind (.ofExcept _) fun keyIDs => ?_)
  refine .bind (passive_repo ⟨⟨rfl, rfl⟩, rfl⟩).mapError fun keys => ?_
  refine .bind (only_processBatch (fun item => ?_) _) fun items => ?_
  · unfold KeyService.processGet
    split
    · exact .throw _
    · exact only_deliver s _ _ _ _
  · exact .bind (passive_call _ rfl) fun now => .pure _

theorem passive_metadataResults (metadataMap : AList fun _ : String => KeyMetadata)
    (items : List KeyRequestItem) : IsPassive (KeyService.metadataResults metadataMap items) := by
  induction items with
  | nil => exact .pure _
  | cons item items ih =>
    unfold KeyService.metadataResults
    split
    · exact .bind (passive_call _ rfl) fun now => ih.bind fun rs => .pure _
    · exact ih.bind fun rs => .pure _

theorem passive_batchGetKeyMetadata (req : BatchGetRequest) :
    IsPassive (s.batchGetKeyMetadata req) := by
  unfold KeyService.batchGetKeyMetadata
  refine .ite (.throw _) ?_
  split
  · exact .throw _
  · refine .bind (passive_repo ⟨⟨rfl, rfl⟩, rfl⟩).attempt fun fetched => ?_
    cases fetched with
    | error e => exact .ite (.throw _) (.bind (passive_call _ rfl) fun now => .pure _)
    | ok metadataList =>
      exact .bind (passive_metadataResults _ _) fun found =>
        .bind (passive_call _ rfl) fun now => .pure _

theorem passive_listKeys (req : ListKeysRequest) : IsPassive (s.listKeys req) := by
  refine .bind ?_ fun cursor => ?_
  · refine .ite (.pure _) ?_
    split
    · exact .throw _
    · exact .pure _
  · exact .bind (passive_repo ⟨⟨rfl, rfl⟩, rfl⟩) fun keys =>
      .bind (passive_call _ rfl) fun now => .pure _

theorem passive_revokeKey (req : RevokeKeyRequest) : IsPassive (s.revokeKey req) :=
  .bind (.ofExcept _) fun _ => (passive_repo ⟨⟨rfl, rfl⟩, rfl⟩).mapError

theorem passive_batchRevokeKeys (req : BatchRevokeKeysRequest) :
    IsPassive (s.batchRevokeKeys req) := by
  unfold KeyService.batchRevokeKeys
  refine .ite (.throw _) ?_
  split
  · exact .throw _
  · refine .bind (passive_repo ⟨⟨rfl, rfl⟩, rfl⟩).attempt fun revoked => ?_
    cases revoked with
    | error e => exact .ite (.throw _) (.bind (passive_call _ rfl) fun now => .pure _)
    | ok _ => exact .bind (passive_call _ rfl) fun now => .pure _

/-- The first half of a single rotation only reads. -/
theorem passive_rotationRequest (item : RotateKeyItem) : IsPassive (s.rotationRequest item) := by
  refine .bind (.ofExcept _) fun keyID => ?_
  refine .bind (passive_repo ⟨⟨rfl, rfl⟩, rfl⟩).mapError fun key => ?_
  exact .bind (.ofExcept _) fun provider => .bind (.ofExcept _) fun size => .pure _

/-- A single rotation leaves the table alone: the worker does the rest. -/
theorem still_rotateKey (req : RotateKeyRequest) : Act.Only EffectOp.Still (s.rotateKey req) := by
  have hcall : ∀ op : EffectOp, op.isRepo = false →
      Act.Only EffectOp.Still (Act.call (I := Effect) op : Svc op.Res) :=
    fun op hop => Act.Only.call (still_other hop)
  have hrequest : Act.Only EffectOp.Still (s.rotationRequest req.item) :=
    Prog.Only.mono EffectOp.Passive.still (passive_rotationRequest s req.item)
  refine .bind hrequest fun current => .bind (hcall _ rfl) fun accepted => ?_
  refine .ite (.throw _) (.bind (hcall _ rfl) fun received => ?_)
  cases received with
  | none => exact .throw _
  | some result =>
    simp only
    split
    · exact .throw _
    · exact .bind (hcall _ rfl) fun now => .pure _

/-- The call that rotates is quiet. -/
theorem quiet_rotate (id : KeyID) (dek : Bytes) :
    Act.Only EffectOp.Quiet (repo (.rotateKey id dek)) := by
  refine .tryCall ?_ _
  rintro rop heq
  cases heq
  exact ⟨rfl, rfl⟩

theorem quiet_of_passive {α : Type} {p : Svc α} (hp : IsPassive p) : Act.Only EffectOp.Quiet p :=
  Prog.Only.mono (fun op h => (EffectOp.Passive.still op h).quiet) hp

theorem quiet_workerTurn : Act.Only EffectOp.Quiet KeyService.workerTurn := by
  refine .bind (quiet_of_passive (passive_call _ rfl)) fun req => ?_
  refine .bind (Act.Only.attempt ?_) fun r => quiet_of_passive (passive_call _ rfl)
  refine .bind (quiet_of_passive (passive_repo ⟨⟨rfl, rfl⟩, rfl⟩).mapError) fun currentKey => ?_
  refine .bind (quiet_of_passive (passive_tryCall _ _ rfl).mapError) fun newDEK => ?_
  refine .bind (quiet_of_passive (passive_tryCall _ _ rfl).mapError) fun encrypted => ?_
  exact (quiet_rotate _ _).mapError

theorem quiet_rotateItem (item : RotateKeyItem) : Act.Only EffectOp.Quiet (s.rotateItem item) := by
  refine .bind (.ofExcept _) fun keyID => .bind ?_ fun keys => ?_
  · refine .bind (quiet_of_passive (passive_repo ⟨⟨rfl, rfl⟩, rfl⟩).mapError) fun currentKey => ?_
    refine .bind (.ofExcept _) fun provider => .bind (.ofExcept _) fun size => ?_
    refine .bind (quiet_of_passive (passive_tryCall _ _ rfl).mapError) fun newDEK => ?_
    refine .bind (quiet_of_passive (passive_tryCall _ _ rfl).mapError) fun encrypted => ?_
    exact .bind (quiet_rotate _ _).mapError fun rotatedKey => .pure _
  · exact .bind (quiet_of_passive (passive_call _ rfl)) fun now => .pure _

/-- The methods that create a key or write metadata. -/
def ServiceCall.isWriter : ServiceCall → Bool
  | createKey _ | batchCreateKeys _ | updateKeyMetadata _ | batchUpdateKeyMetadata _ => true
  | _ => false

/-- The methods that rotate a key themselves. -/
def ServiceCall.isRotation : ServiceCall → Bool
  | batchRotateKeys _ | worker => true
  | _ => false

variable {s}

theorem only_thread {P : EffectOp → Prop} {α : Type} {p : Svc α} (hp : Act.Only P p) :
    (thread p).Only P := Prog.Only.bind hp fun _ => trivial

/-- **The threads of seven methods make passive calls only.** -/
theorem threads_passive {call : ServiceCall} (hwriter : call.isWriter = false)
    (hrotation : call.isRotation = false) (hsingle : ∀ req, call ≠ .rotateKey req) :
    ∀ t ∈ call.threads s, t.Only EffectOp.Passive := by
  intro t ht
  cases call with
  | getKey req => exact List.mem_singleton.mp ht ▸ only_thread (passive_getKey s req)
  | batchGetKeys req => exact List.mem_singleton.mp ht ▸ only_thread (passive_batchGetKeys s req)
  | getKeyMetadata req =>
    exact List.mem_singleton.mp ht ▸ only_thread (passive_getKeyMetadata s req)
  | batchGetKeyMetadata req =>
    exact List.mem_singleton.mp ht ▸ only_thread (passive_batchGetKeyMetadata s req)
  | listKeys req => exact List.mem_singleton.mp ht ▸ only_thread (passive_listKeys s req)
  | revokeKey req => exact List.mem_singleton.mp ht ▸ only_thread (passive_revokeKey s req)
  | batchRevokeKeys req =>
    exact List.mem_singleton.mp ht ▸ only_thread (passive_batchRevokeKeys s req)
  | rotateKey req => exact absurd rfl (hsingle req)
  | createKey _ | batchCreateKeys _ | updateKeyMetadata _ | batchUpdateKeyMetadata _ =>
    cases hwriter
  | batchRotateKeys _ | worker => cases hrotation

/-- **The threads of eight methods make still calls only.** -/
theorem threads_still {call : ServiceCall} (hwriter : call.isWriter = false)
    (hrotation : call.isRotation = false) : ∀ t ∈ call.threads s, t.Only EffectOp.Still := by
  intro t ht
  by_cases hsingle : ∀ req, call ≠ .rotateKey req
  · exact (threads_passive hwriter hrotation hsingle t ht).mono EffectOp.Passive.still
  · obtain ⟨req, hreq⟩ := not_forall.mp hsingle
    obtain rfl := not_not.mp hreq
    exact List.mem_singleton.mp ht ▸ only_thread (still_rotateKey s req)

/-- **The threads of ten methods make quiet calls only.** -/
theorem threads_quiet {call : ServiceCall} (hwriter : call.isWriter = false) :
    ∀ t ∈ call.threads s, t.Only EffectOp.Quiet := by
  intro t ht
  cases hrotation : call.isRotation with
  | false => exact (threads_still hwriter hrotation t ht).mono EffectOp.Still.quiet
  | true =>
    cases call with
    | batchRotateKeys req =>
      obtain ⟨item, -, rfl⟩ := List.mem_map.mp ht
      exact only_thread (quiet_rotateItem s item)
    | worker => exact List.mem_singleton.mp ht ▸ only_thread quiet_workerTurn
    | _ => cases hrotation

end Still

/-! ## 3. The methods that do, under any discipline

What these four do to the table they do in their last call.  A discipline that has nothing to say
about plain calls has to look at two things: the keys that a creation builds,
and what an update makes of the key it read. -/

/-- The key is one that `createKeyObject` builds for the item. -/
def KeyService.Builds (s : KeyService) (item : CreateKeyItem) (identity : String)
    (profile : StorageProfile) (key : Key) : Prop :=
  ∃ keyID now description encryptedDEK,
    key = { s.newKey item identity profile keyID now description with encryptedDEK := encryptedDEK }

section Writers

variable {s : KeyService} {σ : Type} {D : Discipline Effect σ}
  (hplain : ∀ op : EffectOp, op.isPlain = true → D.Allows op)

include hplain

theorem spec_tryCall {P : σ → Prop} (hP : ∀ w w', D.rely w w' → P w → P w') {op : EffectOp}
    {α : Type} {k : op.Res → Except Err α} (hop : op.isPlain = true) :
    Act.Spec D P (Act.tryCall (I := Effect) op k) fun _ => P := by
  have honly : Act.Only D.Allows (Act.tryCall (I := Effect) op k) :=
    ⟨hplain op hop, fun _ => trivial⟩
  exact honly.spec hP

theorem spec_call {P : σ → Prop} (hP : ∀ w w', D.rely w w' → P w → P w') {op : EffectOp}
    (hop : op.isPlain = true) : Act.Spec D P (Act.call (I := Effect) op : Svc op.Res) fun _ => P :=
  spec_tryCall (k := Except.ok) hplain hP hop

theorem spec_createKeyObject (item : CreateKeyItem) (identity : String)
    (profile : StorageProfile) :
    Act.Spec D (fun _ => True) (s.createKeyObject item identity profile) fun key _ =>
      s.Builds item identity profile key := by
  have htrue : ∀ w w', D.rely w w' → True → True := fun _ _ _ h => h
  unfold KeyService.createKeyObject
  refine Act.Spec.bind (Act.Spec.ofExcept fun _ _ _ h => h) fun description => ?_
  refine Act.Spec.bind (Act.Spec.ofExcept fun _ _ _ h => h) fun size => ?_
  refine Act.Spec.bind (spec_tryCall hplain htrue rfl).mapError fun dek => ?_
  refine Act.Spec.bind (spec_call hplain htrue rfl) fun keyID => ?_
  refine Act.Spec.bind (spec_call hplain htrue rfl) fun now => ?_
  refine Act.Spec.bind (Act.Spec.ofExcept fun _ _ _ h => h) fun provider => ?_
  refine Act.Spec.bind (spec_tryCall hplain htrue rfl).mapError fun encryptedDEK => ?_
  exact Act.Spec.pure fun _ _ => ⟨keyID, now, description, encryptedDEK, rfl⟩

/-- A creation, from what is known of the key it builds. -/
theorem spec_createKey_of {req : CreateKeyRequest} {K : Key → σ → Prop}
    (hobject : Act.Spec D (fun _ => True) (s.createKeyObject req.item
      (identityOf req.requesterContext) (KeyService.profileOf req.requesterContext)) K)
    (hrepo : ∀ key, Act.Spec D (K key) (repo (.createKey (some key))) fun _ _ => True) :
    Act.Spec D (fun _ => True) (s.createKey req) fun _ _ => True := by
  unfold KeyService.createKey
  split
  · exact Act.Spec.throw
  · refine Act.Spec.bind (Act.Spec.ofExcept fun _ _ _ h => h) fun details => ?_
    refine Act.Spec.bind hobject fun key => Act.Spec.bind (hrepo key).mapError fun _ => ?_
    refine Act.Spec.bind (spec_call hplain (fun _ _ _ h => h) rfl) fun now => ?_
    exact Act.Spec.pure fun _ _ => trivial

theorem spec_createKey {req : CreateKeyRequest}
    (hrepo : ∀ key, s.Builds req.item (identityOf req.requesterContext)
      (KeyService.profileOf req.requesterContext) key →
      Act.Spec D (fun _ => True) (repo (.createKey (some key))) fun _ _ => True) :
    Act.Spec D (fun _ => True) (s.createKey req) fun _ _ => True := by
  refine spec_createKey_of hplain (spec_createKeyObject hplain _ _ _) fun key => ?_
  exact (Act.Spec.assume (hrepo key)).pre fun _ hkey => ⟨hkey, trivial⟩

omit hplain in
/-- A batch creation, from what is known of the keys it builds. -/
theorem spec_batchCreateKeys_of {req : BatchCreateKeysRequest} {K : CreateKeyItem → Key → σ → Prop}
    (hK : ∀ item key w w', D.rely w w' → K item key w → K item key w')
    (hobject : ∀ item ∈ req.keys, Act.Spec D (fun _ => True) (s.createKeyObject item
      (identityOf req.requesterContext) (KeyService.profileOf req.requesterContext)) (K item))
    (hrepo : ∀ keys : List Key, Act.Spec D (fun w => ∀ key ∈ keys, ∃ item ∈ req.keys, K item key w)
      (repo (.createBatchKeys keys)) fun _ _ => True) :
    Act.Spec D (fun _ => True) (s.batchCreateKeys req) fun _ _ => True := by
  unfold KeyService.batchCreateKeys
  split
  · exact Act.Spec.throw
  · refine Act.Spec.bind (spec_processBatch hK hobject) fun items => ?_
    have hkeys := (hrepo (KeyService.createdKeys items)).mapError
      (f := Err.wrap "failed to create keys in batch: ")
    refine Act.Spec.bind (hkeys.pre fun w hw key hkey => ?_) fun _ =>
      Act.Spec.pure fun _ _ => trivial
    obtain ⟨r, hr, hk⟩ := List.mem_filterMap.mp hkey
    cases r with
    | error e => cases hk
    | ok key' =>
      cases hk
      exact hw _ hr _ rfl

theorem spec_batchCreateKeys {req : BatchCreateKeysRequest}
    (hrepo : ∀ keys : List Key, (∀ key ∈ keys, ∃ item ∈ req.keys,
      s.Builds item (identityOf req.requesterContext)
        (KeyService.profileOf req.requesterContext) key) →
      Act.Spec D (fun _ => True) (repo (.createBatchKeys keys)) fun _ _ => True) :
    Act.Spec D (fun _ => True) (s.batchCreateKeys req) fun _ _ => True := by
  refine spec_batchCreateKeys_of (fun _ _ _ _ _ h => h)
    (fun item _ => spec_createKeyObject hplain item _ _) fun keys => ?_
  exact (Act.Spec.assume (hrepo keys)).pre fun _ hkeys => ⟨hkeys, trivial⟩

/-- A metadata update, from what its read gives: `G` is stable, holds of the metadata to write, and
lets it be written. -/
theorem spec_updateKeyMetadata {req : UpdateKeyMetadataRequest}
    {G : KeyID → KeyMetadata → σ → Prop}
    (hG : ∀ id m w w', D.rely w w' → G id m w → G id m w')
    (hread : ∀ id, keyIDFromString s.uuid req.item.keyId = .ok id →
      Act.Spec D (fun _ => True) (repo (.getKey id)) fun key w =>
        ∀ m description now, Key.metadata key = some m →
          G id { KeyService.applyChanges req.item description m with updatedAt := some now } w)
    (hwrite : ∀ id m, Act.Spec D (G id m) (repo (.updateKeyMetadata id (some m))) fun _ _ => True) :
    Act.Spec D (fun _ => True) (s.updateKeyMetadata req) fun _ _ => True := by
  refine Act.Spec.bind_known (F := fun id => keyIDFromString s.uuid req.item.keyId = .ok id)
    (Act.Spec.ofExcept fun id hid _ _ => hid) fun id hid => ?_
  refine Act.Spec.bind (hread id hid).mapError fun key => ?_
  refine Act.Spec.bind (Act.Spec.ofExcept fun _ _ _ h => h) fun description => ?_
  cases hm : Key.metadata key with
  | none => exact Act.Spec.throw
  | some m =>
    refine Act.Spec.bind (spec_call hplain (fun w w' hR h m' d n hm' => ?_) rfl) fun now => ?_
    · exact hG _ _ w w' hR (h m' d n hm')
    · refine Act.Spec.mapError ((hwrite id _).pre fun w hw => ?_)
      exact hw m description now rfl

/-- One turn of the loop of a batch update. -/
theorem spec_updateItem {G : Key → σ → Prop} (hG : ∀ key w w', D.rely w w' → G key w → G key w')
    {item : UpdateKeyMetadataItem}
    (hread : ∀ id, keyIDFromString s.uuid item.keyId = .ok id →
      Act.Spec D (fun _ => True) (repo (.getKey id)) fun key w =>
        ∀ m description now, Key.metadata key = some m →
          G (KeyService.applyItem item description now key m) w) :
    Act.Spec D (fun _ => True) (s.updateItem item) fun r w => ∀ key, r = .ok key → G key w := by
  unfold KeyService.updateItem
  split
  · exact Act.Spec.pure fun _ _ key hk => by cases hk
  · rename_i id hid
    refine Act.Spec.bind (hread id hid).attempt fun current => ?_
    cases current with
    | error e => exact Act.Spec.pure fun _ _ key hk => by cases hk
    | ok key =>
      simp only
      split
      · exact Act.Spec.pure fun _ _ key hk => by cases hk
      · split
        · exact Act.Spec.throw
        · rename_i description _ _ m hm
          refine Act.Spec.bind (spec_call hplain (fun w w' hR h k hk m' d n hm' => ?_) rfl)
            fun now => ?_
          · exact hG _ w w' hR (h k hk m' d n hm')
          · refine Act.Spec.pure fun w hw key' hk => ?_
            cases hk
            exact hw key rfl m description now hm

/-- The loop: what holds of each key it passes on holds of all of them at the end. -/
theorem spec_updateLoop {G : Key → σ → Prop} (hG : ∀ key w w', D.rely w w' → G key w → G key w')
    (continueOnError : Bool) {items : List UpdateKeyMetadataItem}
    (hread : ∀ item ∈ items, ∀ id, keyIDFromString s.uuid item.keyId = .ok id →
      Act.Spec D (fun _ => True) (repo (.getKey id)) fun key w =>
        ∀ m description now, Key.metadata key = some m →
          G (KeyService.applyItem item description now key m) w) :
    Act.Spec D (fun _ => True) (s.updateLoop continueOnError items) fun r w =>
      ∀ key ∈ r.1, G key w := by
  induction items with
  | nil => exact Act.Spec.pure fun _ _ k hk => by cases hk
  | cons item items ih =>
    have hitem := spec_updateItem hplain hG (hread item (by simp))
    have hrest := ih fun item' h' => hread item' (by simp [h'])
    refine Act.Spec.bind hitem fun r => ?_
    cases r with
    | error failure =>
      simp only
      split
      · exact Act.Spec.throw
      · refine Act.Spec.pre (Act.Spec.bind hrest fun r => ?_) fun _ _ => trivial
        exact Act.Spec.pure fun _ h => h
    | ok key =>
      have hframe := Act.Spec.frame (F := G key) (hG key) hrest
      refine Act.Spec.pre (Act.Spec.bind hframe fun r => ?_) fun w hr => ⟨trivial, hr key rfl⟩
      refine Act.Spec.pure fun w hw k hk => ?_
      rcases List.mem_cons.mp hk with rfl | hk
      · exact hw.2
      · exact hw.1 k hk

theorem spec_batchUpdateKeyMetadata {req : BatchUpdateKeyMetadataRequest} {G : Key → σ → Prop}
    (hG : ∀ key w w', D.rely w w' → G key w → G key w')
    (hread : ∀ item ∈ req.keys, ∀ id, keyIDFromString s.uuid item.keyId = .ok id →
      Act.Spec D (fun _ => True) (repo (.getKey id)) fun key w =>
        ∀ m description now, Key.metadata key = some m →
          G (KeyService.applyItem item description now key m) w)
    (hwrite : ∀ keys : List Key, Act.Spec D (fun w => ∀ key ∈ keys, G key w)
      (repo (.updateBatchKeyMetadata keys)) fun _ _ => True) :
    Act.Spec D (fun _ => True) (s.batchUpdateKeyMetadata req) fun _ _ => True := by
  have htime : Act.Spec D (fun _ => True) (Act.call (I := Effect) .timeNow : Svc Time)
      fun _ _ => True := spec_call hplain (fun _ _ _ h => h) rfl
  unfold KeyService.batchUpdateKeyMetadata
  split
  · exact Act.Spec.throw
  · refine Act.Spec.bind (spec_updateLoop hplain hG _ hread) fun r => ?_
    obtain ⟨keys, failed⟩ := r
    refine Act.Spec.bind (hwrite keys).attempt fun updated => Act.Spec.pre ?_ fun _ _ => trivial
    cases updated with
    | error e =>
      simp only
      split
      · exact Act.Spec.throw
      · exact Act.Spec.bind htime fun now => Act.Spec.pure fun _ _ => trivial
    | ok _ => exact Act.Spec.bind htime fun now => Act.Spec.pure fun _ _ => trivial

end Writers

/-! ## 4. Obligations -/

section Obligations

variable (s : KeyService) (kms : KMS)

/-- A call of the interface is sound when it is no repository call or a sound one. -/
def SoundCall (uuid : UUIDPkg) (op : EffectOp) (w : World) : Prop :=
  ∀ rop, op = .repo rop → Sound uuid rop w.table

/-- The discipline of the service: every repository call is sound, the table is a chain table, and
no stored version is ever taken away. -/
def chainDiscipline : Discipline Effect World where
  sem := worldSem s.uuid kms
  promise := SoundCall s.uuid
  inv w := Chain s.uuid w.table
  rely w w' := Extends w.table w'.table
  refl _ := .refl _
  trans := .trans

/-- The action keeps the discipline; `P` and `Q` speak of what it knows. -/
abbrev Keeps {α : Type} (P : World → Prop) (p : Svc α) (Q : α → World → Prop) : Prop :=
  Act.Spec (chainDiscipline s kms) P p Q

/-- The action keeps the discipline, and there is nothing to know. -/
abbrev Safe {α : Type} (p : Svc α) : Prop :=
  Keeps s kms (fun _ => True) p fun _ _ => True

/-- A fact that the others cannot spoil. -/
def Stable (P : World → Prop) : Prop :=
  ∀ w w' : World, Extends w.table w'.table → P w → P w'

theorem stable_true : Stable fun _ => True := fun _ _ _ _ => trivial

variable {s kms}

/-- A call that is not for the repository leaves the table, and takes place at its time. -/
theorem stepAt_other {uuid : UUIDPkg} {now : Time} {op : EffectOp} {w w' : World} {r : op.Res}
    (h : stepAt uuid kms now op w r w') (hop : op.isRepo = false) :
    w'.table = w.table ∧ w'.clock = now := by
  cases op with
  | repo rop => cases hop
  | newKeyID | auditLog _ | policySet _ _ _ =>
    change w' = _ at h
    subst h
    exact ⟨rfl, rfl⟩
  | enqueue req =>
    simp only [stepAt] at h
    split at h <;> obtain ⟨-, rfl⟩ := h <;> exact ⟨rfl, rfl⟩
  | awaitResult =>
    rcases h with ⟨res, rest, -, -, rfl⟩ | ⟨-, rfl⟩ <;> exact ⟨rfl, rfl⟩
  | takeRequest =>
    obtain ⟨rest, -, rfl⟩ := h
    exact ⟨rfl, rfl⟩
  | encryptDEK _ _ _ | decryptDEK _ _ | timeNow | randRead _ | sendResult _ | policyGet _ =>
    obtain ⟨-, rfl⟩ := h
    exact ⟨rfl, rfl⟩

/-- Only repository calls touch the table. -/
theorem worldSem_table {uuid : UUIDPkg} {op : EffectOp} {w w' : World} {r : op.Res}
    (h : worldSem uuid kms op w r w') (hop : op.isRepo = false) : w'.table = w.table := by
  obtain ⟨now, -, h⟩ := h
  exact (stepAt_other h hop).1

theorem worldSem_clock {uuid : UUIDPkg} {op : EffectOp} {w w' : World} {r : op.Res}
    (h : worldSem uuid kms op w r w') (hop : op.isRepo = false) : w.clock ≤ w'.clock := by
  obtain ⟨now, hnow, h⟩ := h
  rw [(stepAt_other h hop).2]
  exact hnow

/-- A repository call: it has to be sound where it is made, and what its answer tells is known
from then on. -/
theorem keeps_repo {P : World → Prop} (hP : Stable P) {op : RepoOp}
    {Q : op.Result → World → Prop}
    (hsound : ∀ w, P w → Chain s.uuid w.table → Sound s.uuid op w.table)
    (hQ : ∀ (w w' : World) (now : Time) (a : op.Result), P w' → Chain s.uuid w.table →
      Extends w.table w'.table → Answers s.uuid now op w.table (.ok a) w'.table → Q a w') :
    Keeps s kms P (repo op) Q := by
  refine Act.Spec.tryCall hP fun w hw hi => ⟨?_, fun r w' h => ?_⟩
  · rintro rop heq
    cases heq
    exact hsound w hw hi
  · obtain ⟨now, -, t', hans, rfl⟩ := h
    obtain ⟨hchain, hext⟩ := hans.change.chain (hsound w hw hi) hi
    refine ⟨hchain, hext, fun a ha => hQ w _ now a (hP w _ hext hw) hi hext ?_⟩
    rw [← ha]
    exact hans

/-- What `GetKey` returns, it read from the latest row. -/
theorem answers_getKey {uuid : UUIDPkg} {now : Time} {t t' : Table} {id : KeyID} {key : Key}
    (h : Answers uuid now (.getKey id) t (.ok key) t') :
    t' = t ∧ ∃ r, t.latest id = some r ∧ key = r.scan := by
  rcases h with h | ⟨⟨e, he⟩, -⟩
  · obtain ⟨r, hr, hkey, rfl⟩ := PSQLAdapter.exec_getKey.mp h
    exact ⟨rfl, r, hr, hkey⟩
  · cases he

/-- Metadata that a key brings with it is known. -/
def KnownKey (s : KeyService) (k : Key) (w : World) : Prop :=
  ∀ m, k.metadata = some m → KnownMetadata s.uuid w.table k.id m

theorem stable_knownKey (k : Key) : Stable (KnownKey s k) :=
  fun _ _ hext h m hm => (h m hm).extends hext

/-- A key that was read is known, under the id it was asked for. -/
theorem keeps_getKey (id : KeyID) :
    Keeps s kms (fun _ => True) (repo (.getKey id)) fun key w =>
      Key.id key = id ∧ KnownKey s key w := by
  refine keeps_repo stable_true (fun w _ _ => .of_nil rfl rfl) ?_
  intro w w' now key hw hchain hext hans
  obtain ⟨-, r, hr, rfl⟩ := answers_getKey hans
  obtain ⟨hmem, hid, -⟩ := Table.latest_eq_some.mp hr
  exact ⟨hid, fun m hm => (hchain.known hmem hm).extends hext⟩

end Obligations

/-! ## 5. Every thread of every call

Two kinds of obligation are left. A key that is inserted is fresh because it was built here;
metadata that is written is known because it was read, and what is known stays known. -/

section Methods

variable {s : KeyService} {kms : KMS}

/-- A quiet call is sound anywhere. -/
theorem allows_quiet {op : EffectOp} (h : op.Quiet) : (chainDiscipline s kms).Allows op := by
  intro w hi
  have hsound : SoundCall s.uuid op w := fun rop heq => .of_nil (h rop heq).1 (h rop heq).2
  refine ⟨hsound, fun r w' hstep => ?_⟩
  cases hop : op.isRepo with
  | false =>
    change Chain s.uuid w'.table ∧ Extends w.table w'.table
    rw [worldSem_table hstep hop]
    exact ⟨hi, .refl _⟩
  | true =>
    cases op with
    | repo rop =>
      obtain ⟨now, -, t', hans, rfl⟩ := hstep
      exact hans.change.chain (hsound rop rfl) hi
    | _ => cases hop

theorem allows_plain {op : EffectOp} (h : op.isPlain = true) :
    (chainDiscipline s kms).Allows op :=
  allows_quiet (EffectOp.Passive.still op (.inl h)).quiet

/-- A key that was built is fresh. -/
theorem KeyService.Builds.fresh {item : CreateKeyItem} {identity : String}
    {profile : StorageProfile} {key : Key} (h : s.Builds item identity profile key) :
    FreshKey s.uuid key := by
  obtain ⟨keyID, now, description, encryptedDEK, rfl⟩ := h
  exact ⟨rfl, _, rfl, rfl, rfl⟩

/-- Inserting fresh keys is sound. -/
theorem safe_create {op : RepoOp} (hfresh : ∀ k ∈ op.created, FreshKey s.uuid k)
    (hwritten : op.written = []) : Safe s kms (repo op) := by
  refine keeps_repo stable_true (fun w _ _ => ⟨hfresh, ?_⟩) fun _ _ _ _ _ _ _ _ => trivial
  rw [hwritten]
  intro u hu
  cases hu

/-- **Writing known metadata is sound.** -/
theorem safe_write {P : World → Prop} (hP : Stable P) {op : RepoOp} (hcreated : op.created = [])
    (hknown : ∀ w, P w → ∀ u ∈ op.written, ∀ m, u.2 = some m → KnownMetadata s.uuid w.table u.1 m) :
    Keeps s kms P (repo op) fun _ _ => True := by
  refine keeps_repo hP (fun w hw _ => ⟨?_, hknown w hw⟩) fun _ _ _ _ _ _ _ _ => trivial
  rw [hcreated]
  intro k hk
  cases hk

theorem safe_createKey (req : CreateKeyRequest) : Safe s kms (s.createKey req) := by
  refine spec_createKey (fun _ => allows_plain) fun key hkey => safe_create (fun k hk => ?_) rfl
  rw [List.mem_singleton.mp hk]
  exact hkey.fresh

theorem safe_batchCreateKeys (req : BatchCreateKeysRequest) :
    Safe s kms (s.batchCreateKeys req) := by
  refine spec_batchCreateKeys (fun _ => allows_plain) fun keys hkeys =>
    safe_create (fun k hk => ?_) rfl
  obtain ⟨item, -, hbuilds⟩ := hkeys k hk
  exact hbuilds.fresh

/-- **An update writes metadata that is known**: it has the version and the key id that were read,
and what was read then is known still. -/
theorem safe_updateKeyMetadata (req : UpdateKeyMetadataRequest) :
    Safe s kms (s.updateKeyMetadata req) := by
  refine spec_updateKeyMetadata (G := fun id m w => KnownMetadata s.uuid w.table id m)
    (fun _ => allows_plain) (fun _ _ _ _ hext h => h.extends hext) (fun id _ => ?_) fun id m => ?_
  · refine (keeps_getKey id).conseq (fun _ h => h) fun key w hw m description now hm => ?_
    -- the edits touch neither the version nor the key id
    obtain ⟨hid, hknown⟩ := hw
    exact hid ▸ hknown m hm
  · refine safe_write (fun _ _ hext h => h.extends hext) rfl fun w hw u hu m' hm' => ?_
    rw [List.mem_singleton.mp hu] at hm' ⊢
    cases hm'
    exact hw

theorem safe_batchUpdateKeyMetadata (req : BatchUpdateKeyMetadataRequest) :
    Safe s kms (s.batchUpdateKeyMetadata req) := by
  refine spec_batchUpdateKeyMetadata (G := KnownKey s) (fun _ => allows_plain) stable_knownKey
    (fun item _ id _ => ?_) fun keys => ?_
  · refine (keeps_getKey id).conseq (fun _ h => h) fun key w hw m description now hm m' hm' => ?_
    cases hm'
    exact hw.2 m hm
  · have hstable : Stable fun w => ∀ k ∈ keys, KnownKey s k w :=
      fun w w' hext h k hk => stable_knownKey k w w' hext (h k hk)
    refine safe_write hstable rfl fun w hw u hu m hm => ?_
    obtain ⟨k, hk, rfl⟩ := List.mem_map.mp hu
    exact hw k hk m hm

theorem meets_thread {σ : Type} {D : Discipline Effect σ} {α : Type} {p : Svc α}
    (hp : Act.Spec D (fun _ => True) p fun _ _ => True) (w : σ) :
    (thread p).Meets D (fun _ _ => True) w :=
  Prog.Meets.bind (hp.meets w trivial) fun _ _ _ => trivial

/-- **Every thread of the service meets its obligation.** -/
theorem meets_threads (new : List (Prog Effect Unit)) (hnew : starts s new) (w : World) :
    ∀ t ∈ new, t.Meets (chainDiscipline s kms) (fun _ _ => True) w := by
  obtain ⟨call, rfl⟩ := hnew
  intro t ht
  cases hwriter : call.isWriter with
  | false =>
    refine Prog.Only.meets (Prog.Only.mono (fun _ => allows_quiet) ?_) w
    exact threads_quiet hwriter t ht
  | true =>
    cases call with
    | createKey req => exact List.mem_singleton.mp ht ▸ meets_thread (safe_createKey req) w
    | batchCreateKeys req =>
      exact List.mem_singleton.mp ht ▸ meets_thread (safe_batchCreateKeys req) w
    | updateKeyMetadata req =>
      exact List.mem_singleton.mp ht ▸ meets_thread (safe_updateKeyMetadata req) w
    | batchUpdateKeyMetadata req =>
      exact List.mem_singleton.mp ht ▸ meets_thread (safe_batchUpdateKeyMetadata req) w
    | _ => cases hwriter

end Methods

/-! ## 6. Whole runs -/

section Runs

variable {s : KeyService} {kms : KMS}

/-- The steps of a pool, all calls permitted. -/
abbrev PoolReaches (s : KeyService) (kms : KMS) : ServicePool → ServicePool → Prop :=
  Pool.Reaches (worldSem s.uuid kms) (starts s)

/-- The steps of a pool in which every call meets a condition. -/
abbrev PoolReachesWhen (s : KeyService) (kms : KMS) (cond : EffectOp → World → Prop) :
    ServicePool → ServicePool → Prop :=
  Pool.Reaches ((worldSem s.uuid kms).restrict cond) (starts s)

/-- A pool that the service can be in. -/
def Reachable (s : KeyService) (kms : KMS) (p : ServicePool) : Prop :=
  ∃ now, PoolReaches s kms (emptyPool now) p

/-- **Every reachable table is a chain table**, and every thread under way meets its
obligation. -/
theorem Reachable.good {p : ServicePool} (h : Reachable s kms p) :
    Pool.Good (chainDiscipline s kms) p := by
  obtain ⟨now, hrun⟩ := h
  have hempty : Pool.Good (chainDiscipline s kms) (emptyPool now) :=
    ⟨chain_empty _, fun _ ht => by cases ht⟩
  exact (Pool.invariant meets_threads hrun hempty).1

theorem Reachable.chain {p : ServicePool} (h : Reachable s kms p) :
    Chain s.uuid p.state.table := h.good.1

/-- From a reachable pool on, the table only extends. -/
theorem Reachable.extends {p q : ServicePool} (h : Reachable s kms p)
    (hrun : PoolReaches s kms p q) : Extends p.state.table q.state.table :=
  (Pool.invariant meets_threads hrun h.good).2

/-- From a reachable pool on, an invariant that sound permitted calls keep on chain tables holds
along every run of permitted calls. -/
theorem Reachable.restrict {cond : EffectOp → World → Prop} {Inv : World → Prop}
    (hInv : ∀ op w r w', worldSem s.uuid kms op w r w' → cond op w → SoundCall s.uuid op w →
      Chain s.uuid w.table → Inv w → Inv w')
    {p q : ServicePool} (h : Reachable s kms p) (hi : Inv p.state)
    (hrun : PoolReachesWhen s kms cond p q) : Inv q.state :=
  (Pool.invariant_restrict meets_threads hInv hrun h.good hi).2.2

end Runs

end Polykey
