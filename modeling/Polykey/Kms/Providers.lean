/-
# The KMS providers of the service

The service knows its providers by name: `"local"` is the local provider, every other name the AWS
one.  The AWS client is a parameter: which answers a request for an encryption or a decryption can
get.  It is assumed that a decryption inverts the encryption, or fails because no answer came.

`KMSProviders.kms` is the KMS of the service's world, and `KMSProviders.inverts` what the service
needs of it: a provider decrypts what it encrypted for a key with the same id.
-/
import Polykey.Kms.LocalKMSProvider
import Polykey.Service.World

namespace Polykey

/-! ## 1. Retries -/

/-- `execution.WithRetry`: the results it can have, `fn` being those of one attempt.  After the last
attempt it returns what that one returned. -/
def withRetry {α : Type} (fn : Except Err α → Prop) : Nat → Except Err α → Except Err α → Prop
  | 0, last, r => r = last
  | n + 1, _, r => (∃ a, fn (.ok a) ∧ r = .ok a) ∨
      ∃ e, fn (.error e) ∧ withRetry fn n (.error e) r

section Retry

variable {α : Type} {fn : Except Err α → Prop}

/-- The result is that of an attempt. -/
theorem withRetry_attempt {n : Nat} {last r : Except Err α} (h : withRetry fn (n + 1) last r) :
    fn r := by
  induction n generalizing last with
  | zero =>
    rcases h with ⟨a, ha, rfl⟩ | ⟨e, he, rfl⟩
    · exact ha
    · exact he
  | succ n ih =>
    rcases h with ⟨a, ha, rfl⟩ | ⟨e, -, hrest⟩
    · exact ha
    · exact ih hrest

theorem exists_withRetry (h : ∃ r, fn r) (n : Nat) (last : Except Err α) :
    ∃ r, withRetry fn n last r := by
  induction n generalizing last with
  | zero => exact ⟨last, rfl⟩
  | succ n ih =>
    obtain ⟨r, hr⟩ := h
    cases r with
    | ok a => exact ⟨.ok a, .inl ⟨a, hr, rfl⟩⟩
    | error e =>
      obtain ⟨r', hr'⟩ := ih (.error e)
      exact ⟨r', .inr ⟨e, hr, hr'⟩⟩

end Retry

/-! ## 2. The AWS provider -/

/-- `kms.Client`: what `Encrypt` and `Decrypt` under the key with this ARN can return. -/
structure AWSClient where
  encrypts : (arn : String) → (plaintext : Bytes) → Except Err Bytes → Prop
  decrypts : (arn : String) → (ciphertext : Bytes) → Except Err Bytes → Prop
  /-- the errors of requests without an answer, a timeout among them -/
  outage : Err → Prop
  inverts : ∀ arn plaintext ciphertext r, encrypts arn plaintext (.ok ciphertext) →
    decrypts arn ciphertext r → r = .ok plaintext ∨ ∃ e, r = .error e ∧ outage e
  decrypts_total : ∀ arn ciphertext, ∃ r, decrypts arn ciphertext r

/-- `maxRetries`. -/
def maxRetries : Nat := 3

structure AWSKMSProvider where
  client : AWSClient
  kmsKeyARN : String

namespace AWSKMSProvider

variable (p : AWSKMSProvider)

/-- `AWSKMSProvider.EncryptDEK`, the results it can have. -/
def encryptDEK (plaintextDEK : Bytes) : Except Err Bytes → Prop :=
  withRetry (p.client.encrypts p.kmsKeyARN plaintextDEK) maxRetries (.ok [])

/-- `AWSKMSProvider.DecryptDEK`, the results it can have. -/
def decryptDEK (key : Key) : Except Err Bytes → Prop :=
  withRetry (p.client.decrypts p.kmsKeyARN key.encryptedDEK) maxRetries (.ok [])

end AWSKMSProvider

/-! ## 3. The providers by name -/

/-- The map that `initKMSProviders` fills. -/
structure KMSProviders where
  localProvider : LocalKMSProvider
  awsProvider : AWSKMSProvider

namespace KMSProviders

/-- The answers of the providers.  The local provider's cache may be any that it can have, its times
and nonces are any. -/
def kms (providers : KMSProviders) : KMS where
  encrypts name dek key r :=
    if name = "local" then
      ∃ cache now later nonce, providers.localProvider.DerivedKeys cache ∧
        (∀ n, nonce = .ok n → n.length = nonceSize) ∧
        r = (providers.localProvider.encryptDEK now later nonce dek key cache).1
    else providers.awsProvider.encryptDEK dek r
  decrypts name key r :=
    if name = "local" then
      ∃ cache now later, providers.localProvider.DerivedKeys cache ∧
        r = (providers.localProvider.decryptDEK now later key cache).1
    else providers.awsProvider.decryptDEK key r
  decrypts_total name key := by
    split
    · exact ⟨_, _, 0, 0, .new, rfl⟩
    · exact exists_withRetry (providers.awsProvider.client.decrypts_total _ _) _ _

/-- The local provider with an empty cache. -/
theorem kms_encrypts_local (providers : KMSProviders) {nonce : Bytes}
    (hnonce : nonce.length = nonceSize) (now later : Time) (dek : Bytes) (key : Key) :
    providers.kms.encrypts "local" dek key (providers.localProvider.encryptDEK now later (.ok nonce)
      dek key (.new String Bytes derivedKeyCacheTTL)).1 := by
  simp only [kms, if_pos]
  refine ⟨_, now, later, .ok nonce, .new, fun n hn => ?_, rfl⟩
  cases hn
  exact hnonce

/-- **A provider decrypts what it encrypted**, for a key with the same id.  Only AWS can fail to
answer. -/
theorem inverts {providers : KMSProviders} {name : String} {dek ciphertext : Bytes} {key key' : Key}
    {r : Except Err Bytes} (h : providers.kms.encrypts name dek key (.ok ciphertext))
    (hid : key'.id = key.id) (hdek : key'.encryptedDEK = ciphertext)
    (hr : providers.kms.decrypts name key' r) :
    r = .ok dek ∨
      name ≠ "local" ∧ ∃ e, r = .error e ∧ providers.awsProvider.client.outage e := by
  simp only [kms] at h hr
  split at h
  · rename_i hname
    rw [if_pos hname] at hr
    obtain ⟨cache, now, later, nonce, hcache, hnonce, hok⟩ := h
    obtain ⟨cache', now', later', hcache', rfl⟩ := hr
    exact .inl (LocalKMSProvider.decryptDEK_encryptDEK hnonce hcache hok.symm hcache'
      now' later' hid
      hdek)
  · rename_i hname
    rw [if_neg hname] at hr
    subst hdek
    rcases providers.awsProvider.client.inverts _ _ _ r (withRetry_attempt h) (withRetry_attempt hr)
      with hok | houtage
    · exact .inl hok
    · exact .inr ⟨hname, houtage⟩

end KMSProviders

end Polykey
