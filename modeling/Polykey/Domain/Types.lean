/-
# The data model: identifiers, metadata, keys and errors

The types of `internal/domain`, of the generated protobuf package they use, and the error
values of `internal/errors`, `pkg/postgres` and `internal/service`.

* **Identifiers.**  A `KeyID` wraps a 128-bit UUID.  Its text form comes from the uuid package,
  which is not part of the repository: `UUIDPkg` is what the code relies on of it, that the
  canonical text has 36 characters and parses back.
* **Optional pointers** are `Option`.  A key's metadata is one: the column is `JSONB NOT NULL`,
  but the JSON value `null` is not the SQL `NULL`.
* **Protobuf enumerations** are open (any `int32` can arrive), so they are their number.
* **Errors.**  The code tests errors with `errors.Is` and shows some of them as text, so an
  error is its text together with the sentinel values its `Unwrap` chain reaches.
-/
import Mathlib.Data.Finmap

namespace Polykey

/-! ## 1. Basic types -/

abbrev Bytes := List UInt8

/-- `time.Time`, in nanoseconds on one clock. -/
abbrev Time := Int

/-- `time.Duration`, in nanoseconds. -/
abbrev Duration := Int

def second : Duration := 1000000000
def minute : Duration := 60 * second

/-- A `map[string]string` that is stored: only its content matters. -/
abbrev StringMap := Finmap (fun _ : String => String)

/-! ## 2. Errors -/

/-- The package-level error values that `errors.Is` compares with.  Two packages have a
"key not found" of their own; they are different values with the same text. -/
inductive Sentinel
  | errKeyNotFound
  | errInvalidInput
  | errKMSFailure
  | errAuthentication
  | errAuthorization
  | errConflict
  | errRateLimit
  | errExternal
  | errKeyRotationLocked
  | errKeyRevoked
  | psqlErrKeyNotFound
  | psqlErrInvalidVersion
  | psqlErrKeyAlreadyExists
  | errInvalidRequest
  | errInvalidKeyType
  | errKeyGenerationFail
  | errMissingMetadata
  | cryptoErrInvalidKeyType
  | contextCanceled
  deriving DecidableEq, Repr

/-- The texts of the sentinel errors. -/
def Sentinel.text : Sentinel → String
  | errKeyNotFound => "key not found"
  | errInvalidInput => "invalid input"
  | errKMSFailure => "kms operation failed"
  | errAuthentication => "authentication failed"
  | errAuthorization => "authorization failed"
  | errConflict => "resource conflict"
  | errRateLimit => "rate limit exceeded"
  | errExternal => "external service error"
  | errKeyRotationLocked => "key rotation is locked"
  | errKeyRevoked => "key is revoked"
  | psqlErrKeyNotFound => "key not found"
  | psqlErrInvalidVersion => "invalid version"
  | psqlErrKeyAlreadyExists => "key already exists"
  | errInvalidRequest => "invalid request"
  | errInvalidKeyType => "invalid key type"
  | errKeyGenerationFail => "failed to generate cryptographic key"
  | errMissingMetadata => "key metadata is missing"
  | cryptoErrInvalidKeyType => "invalid key type"
  | contextCanceled => "context canceled"

/-- A Go error: what it prints, and the sentinels it wraps. -/
structure Err where
  text : String
  chain : List Sentinel
  deriving DecidableEq, Repr

namespace Err

/-- `errors.New(text)`. -/
def new (text : String) : Err := ⟨text, []⟩

/-- A sentinel, returned as it is. -/
def of (s : Sentinel) : Err := ⟨s.text, [s]⟩

/-- `fmt.Errorf(pre + "%w", e)`. -/
def wrap (pre : String) (e : Err) : Err := ⟨pre ++ e.text, e.chain⟩

/-- `fmt.Errorf("%w: " + detail, s)`. -/
def detail (s : Sentinel) (detail : String) : Err := ⟨s.text ++ ": " ++ detail, [s]⟩

/-- `fmt.Errorf("%w: %w", outer, inner)`. -/
def wrap₂ (outer inner : Err) : Err :=
  ⟨outer.text ++ ": " ++ inner.text, outer.chain ++ inner.chain⟩

/-- `errors.Is(e, s)`. -/
def is (e : Err) (s : Sentinel) : Bool := s ∈ e.chain

/-- A nil pointer is dereferenced. -/
def nilPointer : Err := new "runtime error: invalid memory address or nil pointer dereference"

end Err

/-! ## 3. Key identifiers -/

/-- What the code uses of the uuid package: parsing, and the canonical text of an identifier,
36 characters long, that parses back to it. -/
structure UUIDPkg where
  parse : String → Except Err (BitVec 128)
  text : BitVec 128 → String
  parse_text : ∀ u, parse (text u) = .ok u
  length_text : ∀ u, (text u).length = 36

/-- `domain.KeyID`. -/
@[ext] structure KeyID where
  value : BitVec 128
  deriving DecidableEq, Repr

namespace KeyID

/-- `uuid.Nil`. -/
def nil : KeyID := ⟨0⟩

/-- `KeyID.IsZero`. -/
def isZero (k : KeyID) : Bool := k = nil

/-- `KeyID.String`. -/
def string (uuid : UUIDPkg) (k : KeyID) : String := uuid.text k.value

end KeyID

/-- `domain.KeyIDFromString`. -/
def keyIDFromString (uuid : UUIDPkg) (s : String) : Except Err KeyID :=
  match uuid.parse s with
  | .error e => .error (e.wrap "invalid key id: ")
  | .ok id => .ok ⟨id⟩

@[simp] theorem keyIDFromString_string (uuid : UUIDPkg) (k : KeyID) :
    keyIDFromString uuid (k.string uuid) = .ok k := by
  simp [keyIDFromString, KeyID.string, uuid.parse_text]

/-- The canonical text determines the identifier. -/
theorem KeyID.string_injective (uuid : UUIDPkg) {k l : KeyID}
    (h : k.string uuid = l.string uuid) : k = l := by
  have hk := keyIDFromString_string uuid k
  rw [h, keyIDFromString_string] at hk
  exact (Except.ok.inj hk).symm

/-! ## 4. Descriptions -/

/-- `unicode.IsSpace`. -/
def isSpace (c : Char) : Bool :=
  c.val ∈ ([0x9, 0xA, 0xB, 0xC, 0xD, 0x20, 0x85, 0xA0, 0x1680, 0x2028, 0x2029, 0x202F, 0x205F,
    0x3000] : List UInt32) || (0x2000 ≤ c.val && c.val ≤ 0x200A)

/-- `strings.TrimSpace`. -/
def trimSpace (s : String) : String :=
  String.ofList ((s.toList.dropWhile isSpace).reverse.dropWhile isSpace).reverse

def maxDescriptionLength : Nat := 255

/-- `domain.NewDescription`, as the text of the description it makes. -/
def newDescription (s : String) : Except Err String :=
  if maxDescriptionLength < (trimSpace s).utf8ByteSize then
    .error (.new "description exceeds maximum length of 255")
  else .ok (trimSpace s)

/-! ## 5. Protobuf enumerations -/

/-- `pk.KeyType`. -/
structure KeyType where
  number : Int
  deriving DecidableEq, Repr

namespace KeyType

def unspecified : KeyType := ⟨0⟩
def apiKey : KeyType := ⟨1⟩
def aes256 : KeyType := ⟨2⟩
def rsa4096 : KeyType := ⟨3⟩
def ecdsaP384 : KeyType := ⟨4⟩

/-- `KeyType.String`. -/
def string (t : KeyType) : String :=
  if t = unspecified then "KEY_TYPE_UNSPECIFIED"
  else if t = apiKey then "KEY_TYPE_API_KEY"
  else if t = aes256 then "KEY_TYPE_AES_256"
  else if t = rsa4096 then "KEY_TYPE_RSA_4096"
  else if t = ecdsaP384 then "KEY_TYPE_ECDSA_P384"
  else toString t.number

end KeyType

/-- `pk.KeyStatus`, the status inside the metadata. -/
structure ProtoStatus where
  number : Int
  deriving DecidableEq, Repr

def ProtoStatus.active : ProtoStatus := ⟨1⟩
def ProtoStatus.revoked : ProtoStatus := ⟨4⟩

/-- `pk.StorageProfile`. -/
structure StorageProfile where
  number : Int
  deriving DecidableEq, Repr

namespace StorageProfile

def unspecified : StorageProfile := ⟨0⟩
def standard : StorageProfile := ⟨1⟩
def hardened : StorageProfile := ⟨2⟩

/-- `StorageProfile.String`. -/
def string (p : StorageProfile) : String :=
  if p = unspecified then "STORAGE_PROFILE_UNSPECIFIED"
  else if p = standard then "STORAGE_PROFILE_STANDARD"
  else if p = hardened then "STORAGE_PROFILE_HARDENED"
  else toString p.number

end StorageProfile

/-- `cmn.ClientTier`.  The code tells three tiers apart and treats every other number alike. -/
inductive ClientTier
  | free
  | pro
  | enterprise
  | other (number : Int)
  deriving DecidableEq, Repr

/-- `domain.KeyTier`. -/
inductive KeyTier
  | free
  | pro
  | enterprise
  | unknown
  deriving DecidableEq, Repr

def KeyTier.string : KeyTier → String
  | free => "free"
  | pro => "pro"
  | enterprise => "enterprise"
  | unknown => "unknown"

/-- `authorization.FromProtoTier`. -/
def fromProtoTier : ClientTier → KeyTier
  | .free => .free
  | .pro => .pro
  | .enterprise => .enterprise
  | .other _ => .unknown

/-- `authorization.GetStorageProfileForTier`. -/
def getStorageProfileForTier (tier : KeyTier) : StorageProfile :=
  if tier = .pro ∨ tier = .enterprise then .hardened else .standard

/-- `authorization.ValidateTierForProfile`: the profile's number is compared. -/
def validateTierForProfile (tier : KeyTier) (profile : StorageProfile) : Except Err Unit :=
  if (getStorageProfileForTier tier).number < profile.number then
    .error (.new ("tier '" ++ tier.string ++ "' is not permitted to use the '" ++ profile.string ++
      "' storage profile"))
  else .ok ()

/-! ## 6. Keys -/

/-- `pk.KeyMetadata`. -/
structure KeyMetadata where
  keyId : String
  keyType : KeyType
  status : ProtoStatus
  version : Int
  createdAt : Option Time
  updatedAt : Option Time
  expiresAt : Option Time
  lastAccessedAt : Option Time
  creatorIdentity : String
  authorizedContexts : List String
  accessPolicies : StringMap
  description : String
  tags : StringMap
  dataClassification : String
  metadataChecksum : String
  accessCount : Int
  storageType : StorageProfile
  deriving DecidableEq

/-- The zero message, `pk.KeyMetadata{}`. -/
def KeyMetadata.zero : KeyMetadata where
  keyId := ""
  keyType := .unspecified
  status := ⟨0⟩
  version := 0
  createdAt := none
  updatedAt := none
  expiresAt := none
  lastAccessedAt := none
  creatorIdentity := ""
  authorizedContexts := []
  accessPolicies := ∅
  description := ""
  tags := ∅
  dataClassification := ""
  metadataChecksum := ""
  accessCount := 0
  storageType := .unspecified

/-- `domain.KeyStatus`, the status column. -/
inductive KeyStatus
  | active
  | rotated
  | revoked
  deriving DecidableEq, Repr

/-- `domain.Key`. -/
structure Key where
  id : KeyID
  version : Int
  metadata : Option KeyMetadata
  encryptedDEK : Bytes
  status : KeyStatus
  createdAt : Time
  updatedAt : Time
  revokedAt : Option Time
  deriving DecidableEq

/-- `key.Metadata.GetStorageType()`, which is nil-safe. -/
def Key.storageType (k : Key) : StorageProfile := k.metadata.elim .unspecified (·.storageType)

/-- `key.Metadata.GetKeyType()`, which is nil-safe. -/
def Key.keyType (k : Key) : KeyType := k.metadata.elim .unspecified (·.keyType)

/-! ## 7. The repository interface -/

/-- A call of `domain.KeyRepository`.  Pointers that an implementation compares with nil are
optional: the key of `CreateKey` and the metadata of `UpdateKeyMetadata`. -/
inductive RepoOp
  | getKey (id : KeyID)
  | getKeyByVersion (id : KeyID) (version : Int)
  | getKeyMetadata (id : KeyID)
  | getKeyMetadataByVersion (id : KeyID) (version : Int)
  | createKey (key : Option Key)
  | createBatchKeys (keys : List Key)
  | listKeys (lastCreatedAt : Option Time) (limit : Int)
  | updateKeyMetadata (id : KeyID) (metadata : Option KeyMetadata)
  | rotateKey (id : KeyID) (newEncryptedDEK : Bytes)
  | revokeKey (id : KeyID)
  | getKeyVersions (id : KeyID)
  | exists (id : KeyID)
  | getBatchKeys (ids : List KeyID)
  | getBatchKeyMetadata (ids : List KeyID)
  | revokeBatchKeys (ids : List KeyID)
  | updateBatchKeyMetadata (updates : List Key)
  deriving DecidableEq

/-- What a successful call returns. -/
@[reducible] def RepoOp.Result : RepoOp → Type
  | getKey _ | getKeyByVersion _ _ | rotateKey _ _ => Key
  | getKeyMetadata _ | getKeyMetadataByVersion _ _ => Option KeyMetadata
  | listKeys _ _ | getKeyVersions _ | getBatchKeys _ => List Key
  | getBatchKeyMetadata _ => List KeyMetadata
  | .exists _ => Bool
  | createKey _ | createBatchKeys _ | updateKeyMetadata _ _ | revokeKey _ | revokeBatchKeys _
  | updateBatchKeyMetadata _ => Unit

/-- What a call returns: a result or an error. -/
abbrev RepoOp.Answer (op : RepoOp) : Type := Except Err op.Result

end Polykey
