/-
# The local KMS provider

`internal/kms`: a DEK is encrypted with AES-GCM under a key that HKDF derives from the master key
and the id of the key it belongs to.  Derived keys are kept in a TTL cache.  Decryption tries the
derived key and falls back to the master key, under which DEKs were encrypted before there were
derived keys.

AES-GCM and HKDF are parameters.  Of GCM it is assumed that `Open` inverts `Seal` under the same key
and nonce and fails under another key; of HKDF that it is a function.

* Whatever the cache holds, and whether an entry has expired, the key a provider uses is the derived
  one (`getDerivedKey_eq`), so an answer does not depend on the cache.
* What `EncryptDEK` made, `DecryptDEK` decrypts (`decryptDEK_encryptDEK`), and so it does with what
  was encrypted under the master key (`decryptDEK_legacy`).
-/
import Polykey.Cache.Generic

namespace Polykey

/-! ## 1. Primitives -/

/-- `aes.NewCipher`, as far as it can fail. -/
def newCipher (key : Bytes) : Except Err Unit :=
  if key.length = 16 ∨ key.length = 24 ∨ key.length = 32 then .ok ()
  else .error (.new ("crypto/aes: invalid key size " ++ toString key.length))

/-- `gcm.NonceSize()`. -/
def nonceSize : Nat := 12

/-- AES-GCM without additional data, for keys that `newCipher` accepts. -/
structure GCM where
  aeadSeal : (key nonce plaintext : Bytes) → Bytes
  aeadOpen : (key nonce ciphertext : Bytes) → Except Err Bytes
  open_seal : ∀ key nonce plaintext, newCipher key = .ok () →
    aeadOpen key nonce (aeadSeal key nonce plaintext) = .ok plaintext
  open_other : ∀ key key' nonce plaintext, newCipher key = .ok () → newCipher key' = .ok () →
    key' ≠ key → ∃ e, aeadOpen key' nonce (aeadSeal key nonce plaintext) = .error e

/-- `hkdf.New(sha256.New, masterKey, salt, info)`, and the first bytes read from it. -/
abbrev HKDF := (masterKey salt info : Bytes) → (keyLength : Nat) → Bytes

/-- `[]byte(text)`. -/
def utf8 (text : String) : Bytes := text.toList.flatMap String.utf8EncodeChar

/-- `DeriveKey`.  HKDF has 255 blocks of the hash's size to give. -/
def deriveKey (hkdf : HKDF) (masterKey salt info : Bytes) (keyLength : Nat) : Except Err Bytes :=
  if masterKey.length = 0 then .error (.new "master key cannot be empty")
  else if salt.length = 0 then .error (.new "salt cannot be empty")
  else if 255 * 32 < keyLength then
    .error (.wrap "failed to derive key using HKDF: " (.new "hkdf: entropy limit reached"))
  else .ok (hkdf masterKey salt info keyLength)

/-! ## 2. The provider -/

/-- `derivedKeyCacheTTL`. -/
def derivedKeyCacheTTL : Duration := 60 * minute

/-- `LocalKMSProvider` without its cache, and what it uses. -/
structure LocalKMSProvider where
  uuid : UUIDPkg
  gcm : GCM
  hkdf : HKDF
  masterKey : Bytes

namespace LocalKMSProvider

variable (p : LocalKMSProvider)

/-- The key that belongs to the text of an id. -/
def derive (text : String) : Except Err Bytes :=
  (deriveKey p.hkdf p.masterKey (utf8 ("polykey-salt:" ++ text)) (utf8 text) 32).mapError
    (Err.wrap "failed to derive key: ")

/-- `getDerivedKey`: the cache is read at `now` and written at `later`. -/
def getDerivedKey (now later : Time) (key : Key) (cache : Cache String Bytes) :
    Except Err Bytes × Cache String Bytes :=
  let cacheKey := key.id.string p.uuid
  match cache.get now cacheKey with
  | some derivedKey => (.ok derivedKey, cache)
  | none =>
    match p.derive cacheKey with
    | .error e => (.error e, cache)
    | .ok derivedKey => (.ok derivedKey, cache.set later cacheKey derivedKey 0)

/-- `encryptWithKey`, given what `rand.Read` said of the nonce. -/
def encryptWithKey (nonce : Except Err Bytes) (key plaintext : Bytes) : Except Err Bytes :=
  match newCipher key with
  | .error e => .error (e.wrap "failed to create cipher: ")
  | .ok () =>
    match nonce with
    | .error e => .error (e.wrap "failed to generate nonce: ")
    | .ok nonce => .ok (nonce ++ p.gcm.aeadSeal key nonce plaintext)

/-- `decryptWithKey`. -/
def decryptWithKey (key ciphertext : Bytes) : Except Err Bytes :=
  if ciphertext.length = 0 then .error (.new "no encrypted DEK found in key")
  else
    match newCipher key with
    | .error e => .error (e.wrap "failed to create cipher: ")
    | .ok () =>
      if ciphertext.length < nonceSize then .error (.new "encrypted DEK too short")
      else p.gcm.aeadOpen key (ciphertext.take nonceSize) (ciphertext.drop nonceSize)

/-- `EncryptDEK`.  Nothing in it looks at the context, so its timeout has no effect. -/
def encryptDEK (now later : Time) (nonce : Except Err Bytes) (plaintextDEK : Bytes) (key : Key)
    (cache : Cache String Bytes) : Except Err Bytes × Cache String Bytes :=
  let out := p.getDerivedKey now later key cache
  (out.1.bind fun derivedKey => p.encryptWithKey nonce derivedKey plaintextDEK, out.2)

/-- `DecryptDEK`: the derived key, and the master key where that fails. -/
def decryptDEK (now later : Time) (key : Key) (cache : Cache String Bytes) :
    Except Err Bytes × Cache String Bytes :=
  let out := p.getDerivedKey now later key cache
  (out.1.bind fun derivedKey =>
    match p.decryptWithKey derivedKey key.encryptedDEK with
    | .ok plaintextDEK => .ok plaintextDEK
    | .error _ => p.decryptWithKey p.masterKey key.encryptedDEK, out.2)

/-! ## 3. The cache does not matter

An entry of the cache is the key derived for it, in every cache that calls and cleanups can
leave. Hit or miss, the same key is used. -/

/-- The caches a provider can have.  Several calls may be under way, so a derived key may be stored
at any time; a cleanup may come at any time too. -/
inductive DerivedKeys : Cache String Bytes → Prop
  | new : DerivedKeys (.new String Bytes derivedKeyCacheTTL)
  | set {cache : Cache String Bytes} {text : String} {derivedKey : Bytes} (now : Time)
      (h : DerivedKeys cache) (hderive : p.derive text = .ok derivedKey) :
      DerivedKeys (cache.set now text derivedKey 0)
  | cleanup {cache : Cache String Bytes} (now : Time) (h : DerivedKeys cache) :
      DerivedKeys (cache.deleteExpired now).1

variable {p} {cache : Cache String Bytes}

/-- An entry is the key derived for it. -/
theorem DerivedKeys.derive_eq (h : p.DerivedKeys cache) {text : String} {i : Cache.Item Bytes}
    (hi : cache.items.lookup text = some i) : p.derive text = .ok i.value := by
  induction h generalizing i with
  | new => cases hi
  | @set cache text' derivedKey now _ hderive ih =>
    by_cases htext : text = text'
    · subst htext
      rw [Cache.lookup_set_self] at hi
      cases hi
      rw [Cache.makeItem_value, hderive]
    · rw [Cache.lookup_set_ne _ _ _ _ htext] at hi
      exact ih hi
  | cleanup now _ ih => exact ih ((Cache.lookup_deleteExpired _ now text i).mp hi).1

/-- **Hit, miss or expiry: the key is the derived one.** -/
theorem getDerivedKey_eq (h : p.DerivedKeys cache) (now later : Time) (key : Key) :
    (p.getDerivedKey now later key cache).1 = p.derive (key.id.string p.uuid) := by
  simp only [getDerivedKey]
  cases hget : cache.get now (key.id.string p.uuid) with
  | some derivedKey =>
    obtain ⟨i, hi, -, rfl⟩ := Cache.get_eq_some.mp hget
    exact (h.derive_eq hi).symm
  | none => cases hderive : p.derive (key.id.string p.uuid) <;> rfl

/-- A call leaves a cache that the provider can have. -/
theorem DerivedKeys.getDerivedKey (h : p.DerivedKeys cache) (now later : Time) (key : Key) :
    p.DerivedKeys (p.getDerivedKey now later key cache).2 := by
  simp only [LocalKMSProvider.getDerivedKey]
  cases cache.get now (key.id.string p.uuid) with
  | some derivedKey => exact h
  | none =>
    cases hderive : p.derive (key.id.string p.uuid) with
    | error e => exact h
    | ok derivedKey => exact h.set later hderive

/-- `DecryptDEK` as a function of the derived key. -/
theorem decryptDEK_eq (h : p.DerivedKeys cache) (now later : Time) (key : Key) {derivedKey : Bytes}
    (hderive : p.derive (key.id.string p.uuid) = .ok derivedKey) :
    (p.decryptDEK now later key cache).1 =
      match p.decryptWithKey derivedKey key.encryptedDEK with
      | .ok plaintextDEK => .ok plaintextDEK
      | .error _ => p.decryptWithKey p.masterKey key.encryptedDEK := by
  simp only [decryptDEK, getDerivedKey_eq h, hderive]
  rfl

/-! ## 4. Round trips

`DecryptDEK` tries two keys, and the second only where the first fails. That the first does fail
on what was made with the second is the law of GCM about another key. -/

/-- What `encryptWithKey` returns. -/
theorem encryptWithKey_eq_ok {nonce : Except Err Bytes} {key plaintext ciphertext : Bytes} :
    p.encryptWithKey nonce key plaintext = .ok ciphertext ↔
      newCipher key = .ok () ∧ ∃ n, nonce = .ok n ∧
        ciphertext = n ++ p.gcm.aeadSeal key n plaintext := by
  unfold encryptWithKey
  cases hcipher : newCipher key with
  | error e => simp
  | ok _ => cases nonce <;> simp [eq_comm]

/-- Decryption of what was encrypted is GCM's `Open` of what GCM sealed. -/
theorem decryptWithKey_append {key nonce sealed : Bytes} (hnonce : nonce.length = nonceSize)
    (hcipher : newCipher key = .ok ()) :
    p.decryptWithKey key (nonce ++ sealed) = p.gcm.aeadOpen key nonce sealed := by
  have htake : (nonce ++ sealed).take nonceSize = nonce := by simp [← hnonce]
  have hdrop : (nonce ++ sealed).drop nonceSize = sealed := by simp [← hnonce]
  have hempty : (nonce ++ sealed).length ≠ 0 := by
    rw [List.length_append, hnonce, nonceSize]
    omega
  have hshort : ¬ (nonce ++ sealed).length < nonceSize := by
    rw [List.length_append, hnonce]
    omega
  simp only [decryptWithKey, hempty, hcipher, hshort, if_false, htake, hdrop]

/-- There is a derived key if the master key is one that AES takes. -/
theorem exists_derive (hcipher : newCipher p.masterKey = .ok ()) (text : String) :
    ∃ derivedKey, p.derive text = .ok derivedKey := by
  have hmaster : p.masterKey.length ≠ 0 := by
    intro hzero
    simp [newCipher, hzero] at hcipher
  have hsalt : (utf8 ("polykey-salt:" ++ text)).length ≠ 0 := by
    have hlen : 0 < (utf8 "polykey-salt:").length := by decide
    rw [utf8, String.toList_append, List.flatMap_append, List.length_append]
    rw [utf8] at hlen
    omega
  refine ⟨p.hkdf p.masterKey (utf8 ("polykey-salt:" ++ text)) (utf8 text) 32, ?_⟩
  simp only [derive, deriveKey, hmaster, hsalt, if_false]
  rfl

section RoundTrip

variable {nonce : Except Err Bytes} (hnonce : ∀ n, nonce = .ok n → n.length = nonceSize)

include hnonce

/-- The same key decrypts. -/
theorem decryptWithKey_self {key plaintext ciphertext : Bytes}
    (h : p.encryptWithKey nonce key plaintext = .ok ciphertext) :
    p.decryptWithKey key ciphertext = .ok plaintext := by
  obtain ⟨hcipher, n, hn, rfl⟩ := encryptWithKey_eq_ok.mp h
  rw [decryptWithKey_append (hnonce n hn) hcipher, p.gcm.open_seal _ _ _ hcipher]

/-- Another key does not. -/
theorem decryptWithKey_other {key key' plaintext ciphertext : Bytes} (hne : key' ≠ key)
    (h : p.encryptWithKey nonce key plaintext = .ok ciphertext) :
    ∃ e, p.decryptWithKey key' ciphertext = .error e := by
  obtain ⟨hcipher, n, hn, rfl⟩ := encryptWithKey_eq_ok.mp h
  cases hcipher' : newCipher key' with
  | ok _ =>
    rw [decryptWithKey_append (hnonce n hn) hcipher']
    exact p.gcm.open_other key key' n plaintext hcipher hcipher' hne
  | error e =>
    unfold decryptWithKey
    split
    · exact ⟨_, rfl⟩
    · exact ⟨_, by rw [hcipher']⟩

/-- **`DecryptDEK` inverts `EncryptDEK`**, with any two caches and at any times, for a key of the
same id. -/
theorem decryptDEK_encryptDEK {cache' : Cache String Bytes} {now later : Time} {dek : Bytes}
    {key : Key} {ciphertext : Bytes} (hcache : p.DerivedKeys cache)
    (h : (p.encryptDEK now later nonce dek key cache).1 = .ok ciphertext)
    (hcache' : p.DerivedKeys cache') (now' later' : Time) {key' : Key} (hid : key'.id = key.id)
    (hdek : key'.encryptedDEK = ciphertext) :
    (p.decryptDEK now' later' key' cache').1 = .ok dek := by
  simp only [encryptDEK, getDerivedKey_eq hcache] at h
  cases hderive : p.derive (key.id.string p.uuid) with
  | error e =>
    rw [hderive] at h
    cases h
  | ok derivedKey =>
    rw [hderive] at h
    rw [decryptDEK_eq hcache' now' later' key' (hid ▸ hderive), hdek,
      decryptWithKey_self hnonce h]

/-- **What was encrypted under the master key is decrypted**: the derived key fails, unless it is
the master key. -/
theorem decryptDEK_legacy (hcache : p.DerivedKeys cache) {plaintext ciphertext : Bytes}
    (h : p.encryptWithKey nonce p.masterKey plaintext = .ok ciphertext)
    (now later : Time) {key : Key}
    (hdek : key.encryptedDEK = ciphertext) :
    (p.decryptDEK now later key cache).1 = .ok plaintext := by
  obtain ⟨derivedKey, hderive⟩ :=
    exists_derive (encryptWithKey_eq_ok.mp h).1 (key.id.string p.uuid)
  rw [decryptDEK_eq hcache now later key hderive, hdek]
  by_cases hkey : derivedKey = p.masterKey
  · rw [hkey, decryptWithKey_self hnonce h]
  · obtain ⟨e, he⟩ := decryptWithKey_other hnonce hkey h
    rw [he, decryptWithKey_self hnonce h]

end RoundTrip

end LocalKMSProvider

end Polykey
