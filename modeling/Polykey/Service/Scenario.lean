/-
# Runs that can be evaluated

The world's steps are a relation, so a concrete run has to be given answer by answer.  This module
fixes one deployment, in which every call has one answer: the database works, the clock advances
by one microsecond at each call, a new id is the time it was made at, random bytes repeat the time
they were read at, and the KMS puts a byte in front of a DEK.  `sampleStep` is that deployment as
a handler, and `sampleStep_sound` says that it only does what the world allows; the runs of the
following modules are evaluated in it.
-/
import Polykey.Domain.Uuid
import Polykey.Service.Calls

namespace Polykey

open Lib

/-! ## 1. The deployment -/

/-- A KMS whose ciphertext is the DEK behind one byte. -/
def sampleKMS : KMS where
  encrypts _ dek _ r := r = .ok (1 :: dek)
  decrypts _ key r :=
    r = match key.encryptedDEK with
      | [] => .error (.new "ciphertext too short")
      | _ :: dek => .ok dek
  decrypts_total _ _ := ⟨_, rfl⟩

/-- The service over the uuid package it is built with, with the local KMS provider only. -/
def sampleService : KeyService where
  uuid := googleUUID
  defaultKMSProvider := "local"
  kmsProviders := ["local"]
  sum256 dek := toString (dek.foldl (fun n b => 256 * n + b.toNat) dek.length)
  formatTime t := toString t
  parseTime text := text.toInt?

/-- The answer of each call at time `now`; none where the call has to wait. -/
def sampleAt (now : Time) : Handler Effect World
  | .repo op, w =>
    let out := PSQLAdapter.exec googleUUID now op w.table
    some (out.1, { w with table := out.2, clock := now })
  | .encryptDEK _ dek _, w => some (.ok (1 :: dek), { w with clock := now })
  | .decryptDEK _ key, w =>
    some (match key.encryptedDEK with
      | [] => .error (.new "ciphertext too short")
      | _ :: dek => .ok dek, { w with clock := now })
  | .timeNow, w => some (now, { w with clock := now })
  | .newKeyID, w => some (⟨BitVec.ofInt 128 now⟩, { w with clock := now })
  | .randRead n, w =>
    some (.ok (List.replicate n (UInt8.ofNat (now / 1000).toNat)), { w with clock := now })
  | .auditLog event, w => some ((), { w with audit := w.audit ++ [event], clock := now })
  | .enqueue req, w =>
    if w.requests.length < queueDepth then
      some (true, { w with requests := w.requests ++ [req], clock := now })
    else some (false, { w with clock := now })
  | .awaitResult, w =>
    match w.results with
    | res :: rest => some (some res, { w with results := rest, clock := now })
    | [] => none
  | .takeRequest, w =>
    match w.requests with
    | req :: rest => some (req, { w with requests := rest, clock := now })
    | [] => none
  | .sendResult res, w =>
    if w.results.length < queueDepth then
      some ((), { w with results := w.results ++ [res], clock := now })
    else none
  | .policyGet key, w => some (w.policyCache.get now key, { w with clock := now })
  | .policySet key value ttl, w =>
    some ((), { w with policyCache := w.policyCache.set now key value ttl, clock := now })

def sampleStep : Handler Effect World := fun op w => sampleAt (w.clock + 1000) op w

theorem sampleAt_sound (now : Time) :
    (sampleAt now).Sound (stepAt googleUUID sampleKMS now) := by
  intro op w r w' h
  cases op with
  | repo op =>
    cases h
    exact ⟨_, .inl rfl, rfl⟩
  | enqueue req =>
    simp only [sampleAt] at h
    simp only [stepAt]
    split at h <;> rename_i hroom <;> cases h
    · rw [if_pos hroom]
      exact ⟨rfl, rfl⟩
    · rw [if_neg hroom]
      exact ⟨rfl, rfl⟩
  | awaitResult =>
    simp only [sampleAt] at h
    split at h
    · rename_i res rest hres
      cases h
      exact .inl ⟨res, rest, hres, rfl, rfl⟩
    · cases h
  | takeRequest =>
    simp only [sampleAt] at h
    split at h
    · rename_i req rest hreq
      cases h
      exact ⟨rest, hreq, rfl⟩
    · cases h
  | sendResult res =>
    simp only [sampleAt] at h
    split at h
    · rename_i hlt
      cases h
      exact ⟨hlt, rfl⟩
    · cases h
  | randRead n =>
    cases h
    refine ⟨fun bytes hb => ?_, rfl⟩
    cases hb
    exact List.length_replicate
  | newKeyID | auditLog _ | policySet _ _ _ =>
    cases h
    rfl
  | encryptDEK _ _ _ | decryptDEK _ _ | timeNow | policyGet _ =>
    cases h
    exact ⟨rfl, rfl⟩

/-- **The deployment is one of the world's.** -/
theorem sampleStep_sound : sampleStep.Sound (worldSem googleUUID sampleKMS) := by
  intro op w r w' h
  have hclock : w.clock ≤ w.clock + 1000 := Int.le_add_of_nonneg_right (by decide)
  exact ⟨w.clock + 1000, hclock, sampleAt_sound _ op w r w' h⟩

/-! ## 2. Runs of the service -/

/-- What happens next: a call starts, a thread makes its next call, or a thread runs to its
end. -/
inductive Turn
  | start (call : ServiceCall)
  | step (i : Nat)
  | finish (i : Nat)

def Turn.move : Turn → Pool.Move Effect Unit
  | start call => .join (call.threads sampleService)
  | step i => .step i
  | finish i => .finish i

theorem starts_of_turns {turns : List Turn} {new : List (Prog Effect Unit)}
    (h : .join new ∈ turns.map Turn.move) : starts sampleService new := by
  obtain ⟨turn, -, hturn⟩ := List.mem_map.mp h
  cases turn with
  | start call =>
    cases hturn
    exact ⟨call, rfl⟩
  | step i => cases hturn
  | finish i => cases hturn

/-- The pool after some turns; the same pool, when one of the turns cannot be made. -/
def after (h : Handler Effect World) (turns : List Turn) (p : ServicePool) : ServicePool :=
  (Pool.play h (turns.map Turn.move) p).getD p

theorem after_reaches {h : Handler Effect World} {sem : Sem Effect World} (hh : h.Sound sem)
    (turns : List Turn) (p : ServicePool) :
    Pool.Reaches sem (starts sampleService) p (after h turns p) :=
  Pool.after_reaches hh (fun _ hnew => starts_of_turns hnew) p

/-- The pool after some turns from the empty one. -/
def samplePool (turns : List Turn) : ServicePool := after sampleStep turns (emptyPool 0)

theorem samplePool_reachable (turns : List Turn) :
    Reachable sampleService sampleKMS (samplePool turns) :=
  ⟨0, after_reaches sampleStep_sound turns _⟩

/-- The deployment, stopped before a call that fails a test. -/
def guarded (ok : EffectOp → World → Bool) : Handler Effect World := fun op w =>
  if ok op w then sampleStep op w else none

theorem guarded_sound {ok : EffectOp → World → Bool} {cond : EffectOp → World → Prop}
    (hok : ∀ op w, ok op w = true → cond op w) :
    (guarded ok).Sound ((worldSem googleUUID sampleKMS).restrict cond) :=
  sampleStep_sound.guard hok

/-- Does the action, evaluated, succeed with a value that passes the test? -/
def succeeds {α : Type} (p : Svc α) (w : World) (check : α → Bool) : Bool :=
  match Prog.exec sampleStep p w with
  | some (.ok a, _) => check a
  | _ => false

/-- What evaluation finds of the result of an action holds of one of its runs. -/
theorem exists_run {α : Type} (p : Svc α) (w : World) (check : α → Bool)
    (h : succeeds p w check = true) :
    ∃ a w', Act.Runs (worldSem googleUUID sampleKMS) p w (.ok a) w' ∧ check a = true := by
  unfold succeeds at h
  split at h
  · rename_i a w' hexec
    exact ⟨a, w', Prog.exec_runs sampleStep_sound hexec, h⟩
  · cases h

/-! ### A key and some requests -/

def sampleContext : RequesterContext := ⟨"alice", .free⟩

def sampleItem : CreateKeyItem where
  keyType := .aes256
  description := ""
  tags := ∅
  expiresAt := none
  initialAuthorizedContexts := ["alice"]
  accessPolicies := ∅
  dataClassification := ""

/-- The id of the key that a creation makes when it is the first call of a run. -/
def sampleID : KeyID := ⟨2000⟩

def sampleText : String := sampleID.string googleUUID

def sampleCreate : ServiceCall := .createKey ⟨sampleItem, some sampleContext⟩

def sampleRevoke : ServiceCall := .revokeKey ⟨sampleText, some sampleContext⟩

/-- A rotation by the batch method, which needs no worker. -/
def sampleRotate : ServiceCall := .batchRotateKeys ⟨[⟨sampleText, 0⟩], false, some sampleContext⟩

/-- A batch read of the latest version. -/
def sampleBatchGet : BatchGetRequest := ⟨[⟨sampleText, 0, false⟩], false, some sampleContext⟩

/-- An update that changes nothing but the time of the update. -/
def sampleUpdate : ServiceCall :=
  .updateKeyMetadata ⟨⟨sampleText, none, none, none, ∅, [], ∅, [], []⟩, some sampleContext⟩

/-- A read of the latest version. -/
def sampleGet : GetKeyRequest := ⟨sampleText, 0, false, some sampleContext⟩

end Polykey
