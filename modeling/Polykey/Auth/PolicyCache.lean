/-
# Whose decision the policy cache repeats

The authorizer keeps its decisions under `user:operation:key`.  User ids are whatever the token
says, and the operations contain colons themselves, so the text cannot be read from the left:
`alice:keys:read:…` may begin with the user `alice` or with the user `alice:keys`.  It CAN be read
from the right.  The text of a key id has 36 characters, and no scope of `MethodScopes` ends in
another one, so that what stands before the key id is cut in one way only.

Hence the key of a decision determines its three parts (`policyKey_injective`), and what
`authorize_grounded` says of a decision from the cache, that it was made for the same text, is that
it was made for the same user and operation (`Grounded.own`).
-/
import Polykey.Auth.Authorizer

namespace Polykey

open Lib

/-! ## 1. Words that are cut off from the right -/

/-- No word of the set ends in another one. -/
def SuffixFree {α : Type} (words : Set (List α)) : Prop :=
  ∀ a ∈ words, ∀ b ∈ words, a <:+ b → a = b

/-- A text that ends in a word of the set is cut in one way only. -/
theorem SuffixFree.append_inj {α : Type} {words : Set (List α)} (h : SuffixFree words)
    {u v a b : List α} (ha : a ∈ words) (hb : b ∈ words) (heq : u ++ a = v ++ b) :
    u = v ∧ a = b := by
  have hsuffix : a <:+ v ++ b := ⟨u, heq⟩
  have hab : a = b := by
    rcases List.suffix_or_suffix_of_suffix hsuffix ⟨v, rfl⟩ with hle | hle
    · exact h a ha b hb hle
    · exact (h b hb a ha hle).symm
  subst hab
  exact ⟨List.append_cancel_right heq, rfl⟩

/-! ## 2. The scopes -/

/-- `MethodScopes`. -/
def methodScopes : List (String × String) :=
  [("GetKey", authKeysRead), ("CreateKey", authKeysCreate), ("ListKeys", authKeysList),
    ("RotateKey", authKeysRotate), ("RevokeKey", authKeysRevoke),
    ("UpdateKeyMetadata", authKeysUpdate), ("GetKeyMetadata", authKeysRead)]

/-- An operation among the scopes in `MethodScopes`. -/
def IsScope (operation : String) : Prop := operation ∈ methodScopes.map Prod.snd

instance (operation : String) : Decidable (IsScope operation) :=
  inferInstanceAs (Decidable (operation ∈ methodScopes.map Prod.snd))

/-- No scope ends in another one. -/
theorem suffixFree_scopes : SuffixFree {word | ∃ operation, IsScope operation ∧
    operation.toList = word} := by
  have hscopes : ∀ a ∈ methodScopes.map Prod.snd, ∀ b ∈ methodScopes.map Prod.snd,
      a.toList <:+ b.toList → a = b := by decide
  rintro _ ⟨a, ha, rfl⟩ _ ⟨b, hb, rfl⟩ hsuffix
  rw [hscopes a ha b hb hsuffix]

/-- What stands before the key id is cut in one way only. -/
theorem userID_scope_inj {userID userID' operation operation' : String} (hop : IsScope operation)
    (hop' : IsScope operation')
    (h : userID ++ ":" ++ operation = userID' ++ ":" ++ operation') :
    userID = userID' ∧ operation = operation' := by
  have hlists := congrArg String.toList h
  simp only [String.toList_append] at hlists
  obtain ⟨huser, hoperation⟩ :=
    suffixFree_scopes.append_inj ⟨operation, hop, rfl⟩ ⟨operation', hop', rfl⟩ hlists
  exact ⟨String.toList_injective (List.append_cancel_right huser),
    String.toList_injective hoperation⟩

/-! ## 3. The cache -/

/-- **Policy cache keys do not collide.** -/
theorem policyKey_injective (uuid : UUIDPkg) {userID userID' operation operation' : String}
    {keyID keyID' : KeyID} (hop : IsScope operation) (hop' : IsScope operation')
    (h : policyKey uuid userID operation keyID = policyKey uuid userID' operation' keyID') :
    userID = userID' ∧ operation = operation' ∧ keyID = keyID' := by
  obtain ⟨hid, htext⟩ := policyKey_eq h
  obtain ⟨huser, hoperation⟩ := userID_scope_inj hop hop' htext
  exact ⟨huser, hoperation, hid⟩

/-- A user whose id looks like another user's with an operation. -/
theorem policyKey_injective_colon :
    (IsScope authKeysRead ∧ IsScope authKeysList) ∧
    policyKey googleUUID "alice:keys:read" authKeysList sampleID ≠
      policyKey googleUUID "alice" authKeysRead sampleID := by
  have hread : IsScope authKeysRead := by decide
  have hlist : IsScope authKeysList := by decide
  refine ⟨⟨hread, hlist⟩, fun h => ?_⟩
  exact absurd (policyKey_injective googleUUID hlist hread h).1 (by decide)

/-- **A decision from the cache is the caller's own.**  Where all calls are about scopes, an entry
that `Authorize` finds was approved by a past call of the SAME user, for the same operation and the
same key. -/
theorem Grounded.own {uuid : UUIDPkg} {cfg : AuthorizationConfig} {s : AuthState}
    (h : Grounded uuid cfg s) (hpast : ∀ p ∈ s.past, IsScope p.call.operation)
    {userID operation : String} {keyID : KeyID} (hop : IsScope operation) {now : Time}
    (hget : s.world.policyCache.get now (policyKey uuid userID operation keyID) = some true) :
    ∃ p ∈ s.past, ∃ user, p.call.ctx.user = some user ∧ user.id = userID ∧
      p.call.operation = operation ∧ p.call.keyID = keyID ∧
      p.call.check cfg user p.table = true ∧ now ≤ p.time + policyTTL := by
  obtain ⟨i, hi, hlive, -⟩ := Cache.get_eq_some.mp hget
  obtain ⟨hperm, p, user, hmaker, huser, hcheck, htime⟩ := h.approved _ i hi
  obtain ⟨hp, user', huser', hkey⟩ := makerOf_mem hmaker
  obtain rfl : user = user' := Option.some.inj (huser.symm.trans huser')
  obtain ⟨hid, htext⟩ := policyKey_eq hkey
  obtain ⟨hsame, hoperation⟩ := userID_scope_inj (hpast p hp) hop htext
  have hnow : now ≤ i.expiresAt := by simpa [Cache.Item.expired, hperm] using hlive
  exact ⟨p, hp, user, huser, hsame, hoperation, hid, hcheck, hnow.trans htime⟩

end Polykey
