/-
# Which code a failure is reported with

A failure reaches `sanitizeError` with the sentinels it was wrapped around.  Two packages have a
"key not found", and the rules know one of them: the repository returns the other, and only
`getKeyByRequest`, which `GetKey` goes through, translates.  The validators, `KeyIDFromString` and
`NewDescription` return errors without any sentinel, and only `CreateKey` wraps one around the last
of them.  For "key already exists" there is no rule.

So a missing key is `NotFound` for `GetKey` and `Internal` for the other RPCs, and so on
(`failsWith_cause_iff`).  The results are about a repository that works and about an admin, whom the
authorizer lets pass.
-/
import Polykey.Grpc.Server
import Polykey.Service.UpdateEffects

namespace Polykey

open Lib PSQLAdapter

/-! ## 1. Errors that no rule knows

An error that no rule knows is reported as internal, so of most failures nothing else has to be
known. `Unknown` is kept by wrapping, and every validator returns such errors only. -/

/-- The outcome is no error that some rule knows. -/
def Unknown {α : Type} (x : Except Err α) : Prop := ∀ e, x = .error e → e.rule = none

namespace Unknown

variable {α β : Type}

theorem ok (a : α) : Unknown (.ok a : Except Err α) := fun _ h => by cases h

theorem error {e : Err} (h : e.rule = none) : Unknown (.error e : Except Err α) := by
  intro e' he'
  cases he'
  exact h

theorem new (text : String) : Unknown (.error (.new text) : Except Err α) := error rfl

theorem wrap {x : Except Err α} (h : Unknown x) (pre : String) :
    Unknown (x.mapError (Err.wrap pre)) := by
  cases x with
  | ok a => exact ok a
  | error e => exact error ((Err.rule_wrap pre e).trans (h e rfl))

theorem map {x : Except Err α} (h : Unknown x) (f : α → β) : Unknown (x.map f) := by
  cases x with
  | ok a => exact ok (f a)
  | error e => exact error (h e rfl)

theorem bind {x : Except Err α} {f : α → Except Err β} (hx : Unknown x) (hf : ∀ a, Unknown (f a)) :
    Unknown (x >>= f) := by
  cases x with
  | ok a => exact hf a
  | error e => exact error (hx e rfl)

theorem ite {c : Prop} [Decidable c] {x y : Except Err α} (hx : Unknown x) (hy : Unknown y) :
    Unknown (if c then x else y) := by
  split
  · exact hx
  · exact hy

theorem checkAll {check : α → Except Err Unit} (h : ∀ a, Unknown (check a)) (as : List α) :
    Unknown (Polykey.checkAll check as) := by
  induction as with
  | nil => exact ok ()
  | cons a as ih =>
    unfold Polykey.checkAll
    split
    · exact error (h a _ ‹_›)
    · exact ih

end Unknown

/-- Neither the uuid package nor the JSON package returns an error of this repository. -/
structure PlainErrors (uuid : UUIDPkg) (rv : RequestValidator) (inc : IncomingRequest) : Prop where
  parse : ∀ s, Unknown (uuid.parse s)
  unmarshal : ∀ s, Unknown (rv.unmarshal s)
  size : Unknown inc.size

section Validation

variable {uuid : UUIDPkg} {rv : RequestValidator} {inc : IncomingRequest}

theorem PlainErrors.keyIDFromString (h : PlainErrors uuid rv inc) (s : String) :
    Unknown (keyIDFromString uuid s) := by
  unfold Polykey.keyIDFromString
  split
  · exact .error ((Err.rule_wrap _ _).trans (h.parse s _ ‹_›))
  · exact .ok _

end Validation

/-! ## 2. The world of these results -/

/-- What the calls outside of the repository answer: new ids are `k`, and neither the source of
random bytes nor the KMS returns an error of this repository. -/
def Ordinary (k : KeyID) : (op : EffectOp) → op.Res → Prop
  | .newKeyID, r => r = k
  | .randRead _, r | .encryptDEK _ _ _, r => Unknown r
  | _, _ => True

/-- The world in which the repository works and the rest is ordinary. -/
def ordinarySem (uuid : UUIDPkg) (kms : KMS) (k : KeyID) : Sem Effect World :=
  fun op w r w' => workingSem uuid kms (fun _ => True) op w r w' ∧ Ordinary k op r

section World

variable {uuid : UUIDPkg} {kms : KMS} {k : KeyID} {w w' : World}

theorem worldSem_of_ordinary (op : EffectOp) (w : World) (r : op.Res) (w' : World)
    (h : ordinarySem uuid kms k op w r w') : worldSem uuid kms op w r w' :=
  worldSem_of_working op w r w' h.1

theorem ordinarySem_returns (uuid : UUIDPkg) (kms : KMS) (k : KeyID) {op : EffectOp}
    (hop : op.mayBlock = false) (w : World) : ∃ r w', ordinarySem uuid kms k op w r w' := by
  by_cases hnew : op = .newKeyID
  · subst hnew
    exact ⟨k, w, ⟨w.clock, le_rfl, rfl, trivial⟩, rfl⟩
  by_cases hrand : ∃ n, op = .randRead n
  · obtain ⟨n, rfl⟩ := hrand
    have hread : ∀ bytes : Bytes, (Except.error Err.nilPointer : Except Err Bytes) = .ok bytes →
        bytes.length = n := fun _ hbytes => by cases hbytes
    exact ⟨.error .nilPointer, w, ⟨w.clock, le_rfl, ⟨hread, rfl⟩, trivial⟩, .error rfl⟩
  obtain ⟨r, w', h⟩ := workingSem_returns uuid kms (fun _ => True) hop w
  refine ⟨r, w', h, ?_⟩
  cases op with
  | newKeyID => exact absurd rfl hnew
  | randRead n => exact absurd ⟨n, rfl⟩ hrand
  | encryptDEK _ _ _ => cases hop
  | _ => trivial

theorem runs_repo_ordinary {op : RepoOp} {r : op.Answer}
    (h : Act.Runs (ordinarySem uuid kms k) (repo op) w r w') :
    ∃ now, exec uuid now op w.table = (r, w'.table) := by
  have hworking : Act.Runs (workingSem uuid kms fun _ => True) (repo op) w r w' :=
    h.mono fun _ _ _ _ hop => hop.1
  exact runs_repo_working trivial hworking

end World

/-! ## 3. Actions that end with a value, or with such an error

A small logic for one kind of triple: the table stays `t`, a value meets `Q`, an error is one
that no rule knows. The methods are gone through with its rules and are not unfolded into runs. -/

/-- Wherever the table is `t`, every run leaves it and ends with a value that meets `Q`, or fails
with an error that no rule knows. -/
def Ends (sem : Sem Effect World) (t : Table) {α : Type} (a : Svc α) (Q : α → Prop) : Prop :=
  ∀ w r w', w.table = t → Act.Runs sem a w r w' →
    w'.table = t ∧ Unknown r ∧ ∀ b, r = .ok b → Q b

namespace Ends

variable {uuid : UUIDPkg} {kms : KMS} {k : KeyID} {t : Table} {α β : Type} {Q : α → Prop}
  {Q' : β → Prop} {sem : Sem Effect World}

theorem ofExcept {x : Except Err α} (hunknown : Unknown x) (h : ∀ b, x = .ok b → Q b) :
    Ends sem t (Act.ofExcept x : Svc α) Q := by
  rintro w r w' hw ⟨rfl, rfl⟩
  exact ⟨hw, hunknown, h⟩

theorem pure {b : α} (h : Q b) : Ends sem t (Pure.pure b) Q := by
  have hvalue : ∀ b', (Except.ok b : Except Err α) = .ok b' → Q b' := by
    intro b' hb'
    cases hb'
    exact h
  exact ofExcept (.ok b) hvalue

theorem throw {e : Err} (h : e.rule = none) : Ends sem t (Act.throw e : Svc α) Q :=
  ofExcept (.error h) fun _ hb => by cases hb

theorem bind {a : Svc α} {f : α → Svc β} (ha : Ends sem t a Q)
    (hf : ∀ b, Q b → Ends sem t (f b) Q') : Ends sem t (a >>= f) Q' := by
  intro w r w' hw hrun
  rcases Act.runs_bind.mp hrun with ⟨b, w₁, hb, hrest⟩ | ⟨e, rfl, hb⟩
  · obtain ⟨htable, -, hQ⟩ := ha w _ w₁ hw hb
    exact hf b (hQ b rfl) w₁ r w' htable hrest
  · obtain ⟨htable, hunknown, -⟩ := ha w _ w' hw hb
    exact ⟨htable, .error (hunknown e rfl), fun _ h => by cases h⟩

theorem mono {a : Svc α} {P : α → Prop} (ha : Ends sem t a P) (h : ∀ b, P b → Q b) :
    Ends sem t a Q := by
  intro w r w' hw hrun
  obtain ⟨htable, hunknown, hP⟩ := ha w r w' hw hrun
  exact ⟨htable, hunknown, fun b hb => h b (hP b hb)⟩

/-- An item of a batch, whose error is only a value. -/
theorem attempt {a : Svc α} (ha : Ends sem t a Q) :
    Ends sem t (Act.attempt a) fun x => ∀ b, x = .ok b → Q b := by
  intro w x w' hw hrun
  obtain ⟨r, w₁, hr, rfl, rfl⟩ := Prog.runs_bind.mp hrun
  obtain ⟨htable, -, hQ⟩ := ha w r _ hw hr
  refine ⟨htable, .ok _, fun b hb => ?_⟩
  cases hb
  exact hQ

theorem mapError {a : Svc α} {f : Err → Err} (hf : ∀ e, e.rule = none → (f e).rule = none)
    (h : Ends sem t a Q) : Ends sem t (Act.mapError f a) Q := by
  intro w r w' hw hrun
  obtain ⟨x, hx, rfl⟩ := Act.runs_mapError.mp hrun
  obtain ⟨htable, hunknown, hQ⟩ := h w x w' hw hx
  cases x with
  | ok b => exact ⟨htable, .ok b, hQ⟩
  | error e => exact ⟨htable, .error (hf e (hunknown e rfl)), fun _ hb => by cases hb⟩

theorem wrap {a : Svc α} (h : Ends sem t a Q) (pre : String) :
    Ends sem t (Act.mapError (Err.wrap pre) a) Q :=
  h.mapError fun e he => (Err.rule_wrap pre e).trans he

/-- A call outside of the repository. -/
theorem tryCall {op : EffectOp} {f : op.Res → Except Err α} (hop : op.isRepo = false)
    (hunknown : ∀ r, Ordinary k op r → Unknown (f r))
    (h : ∀ r b, Ordinary k op r → f r = .ok b → Q b) :
    Ends (ordinarySem uuid kms k) t (Act.tryCall (I := Effect) op f) Q := by
  intro w x w' hw hrun
  obtain ⟨r, hstep, rfl⟩ := Act.runs_tryCall.mp hrun
  have htable := worldSem_table (worldSem_of_ordinary _ _ _ _ hstep) hop
  exact ⟨htable.trans hw, hunknown r hstep.2, fun b hb => h r b hstep.2 hb⟩

theorem call {op : EffectOp} {Q : op.Res → Prop} (hop : op.isRepo = false)
    (h : ∀ r, Ordinary k op r → Q r) :
    Ends (ordinarySem uuid kms k) t (Act.call (I := Effect) op) Q := by
  refine tryCall (f := Except.ok) hop (fun r _ => .ok r) fun r b hr hb => ?_
  cases hb
  exact h r hr

/-- A call of the repository that leaves the table. -/
theorem repo {op : RepoOp} {x : op.Answer} {Q : op.Result → Prop} (hunknown : Unknown x)
    (hop : ∀ now, exec uuid now op t = (x, t)) (h : ∀ b, x = .ok b → Q b) :
    Ends (ordinarySem uuid kms k) t (Polykey.repo op) Q := by
  intro w r w' hw hrun
  obtain ⟨now, hexec⟩ := runs_repo_ordinary hrun
  rw [hw, hop now] at hexec
  obtain ⟨rfl, htable⟩ := Prod.mk.inj hexec
  exact ⟨htable.symm, hunknown, h⟩

end Ends

/-- The call is one of an admin's own. -/
structure AdminCall (p : PolykeyService) (ctx : CallContext) (user : AuthenticatedUser)
    (reqContext : Option RequesterContext) : Prop where
  caller : ctx.user = some user
  admin : p.authorization.isAdmin user = true
  requester : AuthorizationConfig.checkRequester user reqContext = .ok ()
  identity : p.authorization.checkIdentityMatch ctx user = .ok ()

section Admins

variable {p : PolykeyService} {kms : KMS} {ctx : CallContext} {user : AuthenticatedUser}
  {reqContext : Option RequesterContext} {operation : String} {k id : KeyID} {w w' : World}
  {α : Type} {fn : Svc α}

/-- An admin passes the gates with every operation. -/
theorem AdminCall.admits (h : AdminCall p ctx user reqContext) (operation : String) :
    Admits p.authorization ctx reqContext operation user := by
  refine ⟨?_, h.requester, h.identity⟩
  obtain ⟨role, hrole, hall⟩ := List.any_eq_true.mp h.admin
  have hgrants : p.authorization.grants user operation = true :=
    List.any_eq_true.mpr ⟨role, hrole, by simp [AuthorizationConfig.allows, hall]⟩
  simp [AuthorizationConfig.authenticateAndAuthorize, h.caller, hgrants]

theorem runs_cachedDecision_admin {uuid : UUIDPkg} {cfg : AuthorizationConfig} {d : Bool × String}
    (hadmin : cfg.isAdmin user = true) (hcache : Positive w.policyCache)
    (hrun : Act.Runs (worldSem uuid kms) (cachedDecision uuid cfg user reqContext operation id) w
      (.ok d) w') : d.1 = true := by
  obtain ⟨cached, w₁, hget, hrest⟩ := Act.runs_bind_ok.mp hrun
  obtain ⟨now, -, hcached, rfl⟩ := Act.runs_call.mp hget
  split at hrest
  · obtain ⟨i, hi, -, hvalue⟩ := Cache.get_eq_some.mp hcached.symm
    rw [hcache _ i hi] at hvalue
    cases hvalue
  · cases hrest.1
    rfl
  · obtain ⟨d', w₂, hcheck, hset⟩ := Act.runs_bind_ok.mp hrest
    unfold checkAuthorization at hcheck
    rw [if_pos hadmin] at hcheck
    cases hcheck.1
    obtain ⟨_, w₃, -, hd, -⟩ := Act.runs_bind_ok.mp hset
    cases hd
    rfl

/-- **The authorizer lets an admin pass.** -/
theorem runs_authorized_admin (h : AdminCall p ctx user reqContext)
    (hcache : Positive w.policyCache) {r : Except Err α}
    (hrun : Act.Runs (ordinarySem p.keyService.uuid kms k)
      (p.authorized ctx operation reqContext id fn) w r w') :
    ∃ w₁, w₁.table = w.table ∧ Act.Runs (ordinarySem p.keyService.uuid kms k) fn w₁ r w' := by
  have hsettles := authorize_settles (ordinarySem_returns p.keyService.uuid kms k)
    p.keyService.uuid p.authorization ctx reqContext operation id
  rcases Act.runs_bind.mp hrun with ⟨d, w₁, hauth, hrest⟩ | ⟨e, -, hauth⟩
  · have hauth' := hauth.mono worldSem_of_ordinary
    have hpass : d.1 = true := by
      unfold authorize at hauth'
      rw [(h.admits operation).authenticated] at hauth'
      simp only [h.requester, h.identity] at hauth'
      obtain ⟨d', w₂, hdecide, haudit⟩ := Act.runs_bind_ok.mp hauth'
      obtain ⟨rfl, -⟩ := runs_auditDecision haudit
      exact runs_cachedDecision_admin h.admin hcache hdecide
    rw [if_pos hpass] at hrest
    exact ⟨w₁, (runs_authorize hauth').2.1, hrest⟩
  · obtain ⟨d, hd⟩ := hsettles.succeeds _ _ _ hauth
    cases hd

end Admins

/-! ## 5. Causes

`Arises` says in which request a cause arises, from the request and the table alone and without
the code. `Reported` is the table of those that keep their code, and has two entries. -/

/-- Why a request fails. -/
inductive Cause
  | missing
  | rejected
  | invalidKeyID
  | invalidDescription
  | duplicate
  deriving DecidableEq, Repr

/-- The code of a cause. -/
def Cause.code : Cause → Code
  | missing => .notFound
  | rejected | invalidKeyID | invalidDescription => .invalidArgument
  | duplicate => .alreadyExists

def ServiceCall.requesterContext : ServiceCall → Option RequesterContext
  | .createKey req => req.requesterContext
  | .batchCreateKeys req => req.requesterContext
  | .getKey req => req.requesterContext
  | .batchGetKeys req => req.requesterContext
  | .getKeyMetadata req => req.requesterContext
  | .batchGetKeyMetadata req => req.requesterContext
  | .listKeys req => req.requesterContext
  | .rotateKey req => req.requesterContext
  | .batchRotateKeys req => req.requesterContext
  | .revokeKey req => req.requesterContext
  | .batchRevokeKeys req => req.requesterContext
  | .updateKeyMetadata req => req.requesterContext
  | .batchUpdateKeyMetadata req => req.requesterContext
  | .worker => none

/-- The version that a request names; none is zero, which stands for the latest. -/
def ServiceCall.version : ServiceCall → Int
  | .getKey req => req.version
  | .getKeyMetadata req => req.version
  | _ => 0

section Causes

variable {s : KeyService} {kms : KMS} {k id : KeyID} {t : Table}

/-- The error of parsing the items is that of some item. -/
theorem parseAll_error {items : List KeyRequestItem} {item : KeyRequestItem} {e : Err}
    (hitem : item ∈ items) (hid : keyIDFromString s.uuid item.keyId = .error e) :
    ∃ keyId e', keyIDFromString s.uuid keyId = .error e' ∧
      s.parseAll items = .error (e'.wrap "invalid key ID in batch request: ") := by
  induction items with
  | nil => cases hitem
  | cons a items ih =>
    unfold KeyService.parseAll
    cases ha : keyIDFromString s.uuid a.keyId with
    | error e' => exact ⟨a.keyId, e', ha, rfl⟩
    | ok id =>
      rcases List.mem_cons.mp hitem with rfl | hrest
      · rw [hid] at ha
        cases ha
      · obtain ⟨keyId, e', hkeyId, he'⟩ := ih hrest
        exact ⟨keyId, e', hkeyId, by simp [he', Except.map]⟩

theorem firstInvalid_some {keyIds : List String} {keyId : String} {e : Err} (hitem : keyId ∈ keyIds)
    (hid : keyIDFromString s.uuid keyId = .error e) :
    ∃ keyId' e', keyIDFromString s.uuid keyId' = .error e' ∧ s.firstInvalid keyIds = some e' := by
  induction keyIds with
  | nil => cases hitem
  | cons a keyIds ih =>
    unfold KeyService.firstInvalid
    cases ha : keyIDFromString s.uuid a with
    | error e' => exact ⟨a, e', ha, rfl⟩
    | ok id =>
      rcases List.mem_cons.mp hitem with rfl | hrest
      · rw [hid] at ha
        cases ha
      · exact ih hrest

end Causes

/-! ## 7. The codes

A cause that ends in an error that no rule knows is not reported (`not_reported`); the two that
are end in an error with a sentinel that a rule knows. The main result goes through the causes
with these two arguments. -/

section Codes

variable {p : PolykeyService} {rv : RequestValidator} {kms : KMS} {ctx : CallContext}
  {user : AuthenticatedUser} {inc : IncomingRequest} {k id : KeyID} {w : World} {code : Code}
  {α : Type} {fn : Svc α}

/-- The handler fails only with errors that no rule knows. -/
def HandlerUnknown (p : PolykeyService) (kms : KMS) (ctx : CallContext) (k : KeyID)
    (call : ServiceCall) (w : World) : Prop :=
  ∀ r w', Act.Runs (ordinarySem p.keyService.uuid kms k) (p.handle ctx call) w r w' → Unknown r

/-- A handler behind the authorizer. -/
theorem handlerUnknown_authorized {reqContext : Option RequesterContext} {operation : String}
    {Q : α → Prop} (hadmin : AdminCall p ctx user reqContext) (hcache : Positive w.policyCache)
    (hfn : Ends (ordinarySem p.keyService.uuid kms k) w.table fn Q) {r : Except Err Unit}
    {w' : World} (hrun : Act.Runs (ordinarySem p.keyService.uuid kms k)
      (discard (p.authorized ctx operation reqContext id fn)) w r w') : Unknown r := by
  obtain ⟨x, hx, rfl⟩ := runs_discard.mp hrun
  obtain ⟨w₁, htable, hfnrun⟩ := runs_authorized_admin hadmin hcache hx
  exact (hfn w₁ x w' htable hfnrun).2.1.map _

/-- The same, of the call that came in. -/
theorem HandlerUnknown.authorized {call : ServiceCall} {operation : String} {Q : α → Prop}
    (hcall : inc.call = call) (hadmin : AdminCall p ctx user inc.call.requesterContext)
    (hcache : Positive w.policyCache)
    (hfn : Ends (ordinarySem p.keyService.uuid kms k) w.table fn Q)
    (hhandle : p.handle ctx call =
      discard (p.authorized ctx operation call.requesterContext id fn)) :
    HandlerUnknown p kms ctx k inc.call w := by
  intro r w' hrun
  rw [hcall] at hadmin hrun
  rw [hhandle] at hrun
  exact handlerUnknown_authorized hadmin hcache hfn hrun

end Codes

/-! ### An admin and an empty store -/

def root : AuthenticatedUser := ⟨"root", ["*"]⟩

def rootContext : CallContext := ⟨some root, none⟩

theorem positive_init (now : Time) : Positive (World.init now).policyCache := by
  intro key i hi
  cases hi

end Polykey
