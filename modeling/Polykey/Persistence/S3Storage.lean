/-
# The S3 repository

`S3Storage` keeps two JSON objects for a key: one for each of its versions, `keys/<id>/v<n>.json`,
and one for the latest, `keys/<id>/latest.json`.  Every write goes through `putKey`, which puts both
and deletes the first again when the second fails.

* **A status is a text here.**  The storage turns it into a number of the protobuf enumeration and
  back through the generated maps, whose names are not the texts that `domain.KeyStatus` has.  What
  it reads back is therefore no longer one of the three statuses (`TextKey`).
* **The world** is a bucket and a network: any call can fail, and a call that fails changes nothing.

`shows_getKeyFromPath` and `shows_putKey` say what reads and writes can do; `S3Writes.lean` is about
what follows.
-/
import Mathlib
import Polykey.Domain.Types
import Polykey.Lib.Prog

namespace Polykey

open Lib

/-- The text that a `domain.KeyStatus` is. -/
def KeyStatus.text : KeyStatus → String
  | active => "active"
  | rotated => "rotated"
  | revoked => "revoked"

namespace S3Storage

/-! ## 1. Keys and objects -/

/-- `domain.Key`, with whatever text as its status. -/
structure TextKey where
  id : KeyID
  version : Int
  metadata : Option KeyMetadata
  encryptedDEK : Bytes
  status : String
  createdAt : Time
  updatedAt : Time
  revokedAt : Option Time
  deriving DecidableEq

/-- A key with one of the three statuses. -/
def TextKey.of (key : Key) : TextKey where
  id := key.id
  version := key.version
  metadata := key.metadata
  encryptedDEK := key.encryptedDEK
  status := key.status.text
  createdAt := key.createdAt
  updatedAt := key.updatedAt
  revokedAt := key.revokedAt

/-- `s3KeyObject`. -/
structure S3KeyObject where
  id : String
  encryptedDEK : Bytes
  metadata : Option KeyMetadata
  version : Int
  status : ProtoStatus
  createdAt : Int
  updatedAt : Int
  deriving DecidableEq

/-- The generated maps of the enumeration `pk.KeyStatus`.  A protobuf enumeration has a name for
zero. -/
structure KeyStatusMaps where
  entries : List (Int × String)
  nodup_numbers : (entries.map Prod.fst).Nodup
  nodup_names : (entries.map Prod.snd).Nodup
  name_zero : ∃ name, (0, name) ∈ entries
  named : ∀ e ∈ entries, ∃ rest, e.2 = "KEY_STATUS_" ++ rest

namespace KeyStatusMaps

variable (maps : KeyStatusMaps)

def names : List String := maps.entries.map Prod.snd

/-- `pk.KeyStatus_name[n]`. -/
def name (n : Int) : String := ((maps.entries.find? (·.1 = n)).map Prod.snd).getD ""

/-- `pk.KeyStatus_value[s]`. -/
def value (s : String) : Int := ((maps.entries.find? (·.2 = s)).map Prod.fst).getD 0

variable {maps}

theorem find?_of_mem {κ : Type} [DecidableEq κ] {entries : List (Int × String)}
    {f : Int × String → κ} (hnodup : (entries.map f).Nodup) {e : Int × String} (h : e ∈ entries) :
    entries.find? (f · = f e) = some e := by
  cases hfind : entries.find? (f · = f e) with
  | none => simpa using List.find?_eq_none.mp hfind e h
  | some e' =>
    have hf : f e' = f e := by simpa using List.find?_some hfind
    rw [List.inj_on_of_nodup_map hnodup (List.mem_of_find?_eq_some hfind) h hf]

theorem name_of_mem {e : Int × String} (h : e ∈ maps.entries) : maps.name e.1 = e.2 := by
  simp [name, find?_of_mem maps.nodup_numbers h]

theorem value_of_mem {e : Int × String} (h : e ∈ maps.entries) : maps.value e.2 = e.1 := by
  simp [value, find?_of_mem maps.nodup_names h]

/-- A lookup misses silently: what is no name has the number zero. -/
theorem value_of_not_mem {s : String} (h : s ∉ maps.names) : maps.value s = 0 := by
  have hnone : maps.entries.find? (·.2 = s) = none := by
    refine List.find?_eq_none.mpr fun e he => ?_
    simp only [decide_eq_true_eq]
    rintro rfl
    exact h (List.mem_map_of_mem he)
  simp [value, hnone]

/-- **A text survives the two maps** exactly if it is one of the names. -/
theorem name_value_eq_iff {s : String} : maps.name (maps.value s) = s ↔ s ∈ maps.names := by
  constructor
  · intro h
    by_contra hs
    obtain ⟨name, hzero⟩ := maps.name_zero
    rw [value_of_not_mem hs, name_of_mem hzero] at h
    exact hs (h ▸ List.mem_map_of_mem hzero)
  · intro hs
    obtain ⟨e, he, rfl⟩ := List.mem_map.mp hs
    rw [value_of_mem he, name_of_mem he]

/-- What comes out of the map is a name, or nothing. -/
theorem name_mem (n : Int) : maps.name n ∈ maps.names ∨ maps.name n = "" := by
  unfold name
  cases hfind : maps.entries.find? (·.1 = n) with
  | none => exact .inr rfl
  | some e => exact .inl (List.mem_map_of_mem (List.mem_of_find?_eq_some hfind))

theorem text_not_mem (status : KeyStatus) : status.text ∉ maps.names := by
  intro h
  obtain ⟨e, he, hname⟩ := List.mem_map.mp h
  obtain ⟨rest, hrest⟩ := maps.named e he
  rw [hname] at hrest
  have hhead := congrArg (fun s => s.toList.head?) hrest
  cases status <;> simp [KeyStatus.text] at hhead

/-- **None of the three statuses comes out of the map**, whatever goes in. -/
theorem name_ne_text (n : Int) (status : KeyStatus) : maps.name n ≠ status.text := by
  intro heq
  rcases maps.name_mem n with h | h
  · exact text_not_mem status (heq ▸ h)
  · rw [h] at heq
    cases status <;> simp [KeyStatus.text] at heq

end KeyStatusMaps

/-- JSON for the objects; the bodies are whatever the bucket stores. -/
structure JSON (Body : Type) where
  marshal : S3KeyObject → Except Err Body
  unmarshal : Body → Except Err S3KeyObject
  unmarshal_marshal : ∀ {keyObj body}, marshal keyObj = .ok body → unmarshal body = .ok keyObj

/-- The packages that the storage uses. -/
structure Packages (Body : Type) where
  uuid : UUIDPkg
  json : JSON Body
  keyStatus : KeyStatusMaps

/-- `Time.Unix`: the seconds, rounded down. -/
def unix (t : Time) : Int := t / second

/-- `time.Unix(seconds, 0)`. -/
def ofUnix (seconds : Int) : Time := seconds * second

def versionPath (uuid : UUIDPkg) (id : KeyID) (version : Int) : String :=
  "keys/" ++ id.string uuid ++ "/v" ++ toString version ++ ".json"

def latestPath (uuid : UUIDPkg) (id : KeyID) : String :=
  "keys/" ++ id.string uuid ++ "/latest.json"

section Objects

variable {Body : Type} (pk : Packages Body)

/-- The object that `putKey` makes of a key. -/
def encode (key : TextKey) : S3KeyObject where
  id := key.id.string pk.uuid
  encryptedDEK := key.encryptedDEK
  metadata := key.metadata
  version := key.version
  status := ⟨pk.keyStatus.value key.status⟩
  createdAt := unix key.createdAt
  updatedAt := unix key.updatedAt

/-- The key that `getKeyFromPath` makes of an object. -/
def decode (keyObj : S3KeyObject) : Except Err TextKey :=
  match keyIDFromString pk.uuid keyObj.id with
  | .error e => .error e
  | .ok id => .ok {
      id := id
      version := keyObj.version
      metadata := keyObj.metadata
      encryptedDEK := keyObj.encryptedDEK
      status := pk.keyStatus.name keyObj.status.number
      createdAt := ofUnix keyObj.createdAt
      updatedAt := ofUnix keyObj.updatedAt
      revokedAt := none }

/-- What is left of a key after a round trip. -/
def roundTrip (key : TextKey) : TextKey :=
  { key with
    status := pk.keyStatus.name (pk.keyStatus.value key.status)
    createdAt := ofUnix (unix key.createdAt)
    updatedAt := ofUnix (unix key.updatedAt)
    revokedAt := none }

theorem decode_encode (key : TextKey) : decode pk (encode pk key) = .ok (roundTrip pk key) := by
  simp [decode, encode, roundTrip]

end Objects

/-! ## 2. The storage -/

/-- The calls of the S3 client, of the body's reader, the clock and the logger. -/
inductive Op (Body : Type)
  | getObject (path : String)
  /-- `json.NewDecoder(output.Body).Decode`, which reads the body as it goes -/
  | decodeBody (body : Body)
  | closeBody (body : Body)
  | putObject (path : String) (body : Body)
  | deleteObject (path : String)
  | headObject (path : String)
  | listObjects (pre : String) (delimiter : Option String)
  | timeNow
  | logError (text : String) (attrs : List (String × String))

/-- An error of `HeadObject`, and whether `errors.As` finds a `NoSuchKey` in it. -/
structure HeadErr where
  err : Err
  noSuchKey : Bool

/-- What a call answers.  A listing is the pages that the paginator gives one after the other, up to
the first error. -/
@[reducible] def Op.Res {Body : Type} : Op Body → Type
  | getObject _ => Except Err Body
  | decodeBody _ => Except Err S3KeyObject
  | closeBody _ | putObject _ _ | deleteObject _ => Except Err Unit
  | headObject _ => Except HeadErr Unit
  | listObjects _ _ => List (Except Err (List String))
  | timeNow => Time
  | logError _ _ => Unit

@[reducible] def Calls (Body : Type) : Interface := ⟨Op Body, Op.Res⟩

/-- `strings.TrimPrefix`. -/
def trimPrefix (s start : String) : String :=
  if start.toList <+: s.toList then String.ofList (s.toList.drop start.length) else s

/-- `strings.TrimSuffix`. -/
def trimSuffix (s ending : String) : String :=
  if ending.toList <:+ s.toList then
    String.ofList (s.toList.take (s.length - ending.length))
  else s

section Programs

variable {Body : Type}

abbrev call (op : Op Body) : Prog (Calls Body) op.Res := Prog.perform (I := Calls Body) op

variable (pk : Packages Body)

/-- The result of a read, for what the decoder gave. -/
def fromDecoded : Except Err S3KeyObject → Except Err TextKey
  | .error e => .error (e.wrap "failed to decode key object from S3: ")
  | .ok keyObj => decode pk keyObj

def getKeyFromPath (path : String) : Prog (Calls Body) (Except Err TextKey) := do
  match ← call (.getObject path) with
  | .error e => pure (.error (e.wrap "failed to get key object from S3: "))
  | .ok body => do
    let decoded ← call (.decodeBody body)
    -- the deferred close comes after the result has been made
    let closed ← call (.closeBody body)
    match closed with
    | .error e => call (.logError "failed to close S3 object body" [("error", e.text)])
    | .ok _ => pure ()
    pure (fromDecoded pk decoded)

def getKey (id : KeyID) : Prog (Calls Body) (Except Err TextKey) :=
  getKeyFromPath pk (latestPath pk.uuid id)

def getKeyByVersion (id : KeyID) (version : Int) : Prog (Calls Body) (Except Err TextKey) :=
  getKeyFromPath pk (versionPath pk.uuid id version)

def getKeyMetadata (id : KeyID) : Prog (Calls Body) (Except Err (Option KeyMetadata)) := do
  let key ← getKey pk id
  pure (key.map TextKey.metadata)

def getKeyMetadataByVersion (id : KeyID) (version : Int) :
    Prog (Calls Body) (Except Err (Option KeyMetadata)) := do
  let key ← getKeyByVersion pk id version
  pure (key.map TextKey.metadata)

def putKey (key : TextKey) : Prog (Calls Body) (Except Err Unit) :=
  match pk.json.marshal (encode pk key) with
  | .error e => pure (.error (e.wrap "failed to marshal key object: "))
  | .ok data => do
    match ← call (.putObject (versionPath pk.uuid key.id key.version) data) with
    | .error e => pure (.error (e.wrap "failed to put versioned key object to S3: "))
    | .ok _ =>
      match ← call (.putObject (latestPath pk.uuid key.id) data) with
      | .error e => do
        match ← call (.deleteObject (versionPath pk.uuid key.id key.version)) with
        | .error delErr =>
          call (.logError "failed to roll back S3 object"
            [("path", versionPath pk.uuid key.id key.version), ("error", delErr.text)])
        | .ok _ => pure ()
        pure (.error (e.wrap "failed to put latest key object to S3: "))
      | .ok _ => pure (.ok ())

def createKey (key : TextKey) : Prog (Calls Body) (Except Err Unit) := putKey pk key

def createBatchKeys : List TextKey → Prog (Calls Body) (Except Err Unit)
  | [] => pure (.ok ())
  | key :: keys => do
    match ← putKey pk key with
    | .error e => pure (.error e)
    | .ok _ => createBatchKeys keys

/-- The writes that put the latest version again, changed. -/
def rewriteLatest (failed : String) (change : Time → TextKey → TextKey) (id : KeyID) :
    Prog (Calls Body) (Except Err Unit) := do
  match ← getKey pk id with
  | .error e => pure (.error (e.wrap failed))
  | .ok latestKey => do
    let now ← call .timeNow
    putKey pk (change now latestKey)

def updateKeyMetadata (id : KeyID) (metadata : Option KeyMetadata) :
    Prog (Calls Body) (Except Err Unit) :=
  rewriteLatest pk "failed to get key for update: "
    (fun now latestKey => { latestKey with metadata := metadata, updatedAt := now }) id

def revokeKey (id : KeyID) : Prog (Calls Body) (Except Err Unit) :=
  rewriteLatest pk "failed to get key for revocation: "
    (fun now latestKey => { latestKey with status := KeyStatus.revoked.text, updatedAt := now }) id

/-- The key that a rotation adds; the version is an `int32`. -/
def rotated (id : KeyID) (newEncryptedDEK : Bytes) (now : Time) (latestKey : TextKey) :
    TextKey where
  id := id
  version := (latestKey.version + 1).bmod (2 ^ 32)
  metadata := latestKey.metadata
  encryptedDEK := newEncryptedDEK
  status := KeyStatus.active.text
  createdAt := now
  updatedAt := now
  revokedAt := none

def rotateKey (id : KeyID) (newEncryptedDEK : Bytes) :
    Prog (Calls Body) (Except Err TextKey) := do
  match ← getKey pk id with
  | .error e => pure (.error (e.wrap "failed to get key for rotation: "))
  | .ok latestKey => do
    let now ← call .timeNow
    match ← putKey pk (rotated id newEncryptedDEK now latestKey) with
    | .error e => pure (.error (e.wrap "failed to create new key version during rotation: "))
    | .ok _ => pure (.ok (rotated id newEncryptedDEK now latestKey))

def «exists» (id : KeyID) : Prog (Calls Body) (Except Err Bool) := do
  match ← call (.headObject (latestPath pk.uuid id)) with
  | .error e => pure (if e.noSuchKey then .ok false else .error e.err)
  | .ok _ => pure (.ok true)

/-- A loop that logs what fails and goes on: what succeeds is collected. -/
def collect {α β : Type} (text attr : String) (describe : α → String)
    (step : α → Prog (Calls Body) (Except Err β)) : List α → Prog (Calls Body) (List β)
  | [] => pure []
  | a :: as => do
    match ← step a with
    | .error e =>
      call (.logError text [(attr, describe a), ("error", e.text)])
      collect text attr describe step as
    | .ok b =>
      let bs ← collect text attr describe step as
      pure (b :: bs)

def getBatchKeys (ids : List KeyID) : Prog (Calls Body) (Except Err (List TextKey)) := do
  let keys ← collect "failed to get key in batch operation" "keyID" (·.string pk.uuid)
    (getKey pk) ids
  pure (.ok keys)

def getBatchKeyMetadata (ids : List KeyID) :
    Prog (Calls Body) (Except Err (List (Option KeyMetadata))) := do
  let metadataList ← collect "failed to get key metadata in batch operation" "keyID"
    (·.string pk.uuid) (getKeyMetadata pk) ids
  pure (.ok metadataList)

def revokeBatchKeys (ids : List KeyID) : Prog (Calls Body) (Except Err Unit) := do
  let _ ← collect "failed to revoke key in batch operation" "keyID" (·.string pk.uuid)
    (revokeKey pk) ids
  pure (.ok ())

def updateBatchKeyMetadata (updates : List TextKey) : Prog (Calls Body) (Except Err Unit) := do
  let _ ← collect "failed to update key metadata in batch operation" "keyID"
    (fun key => key.id.string pk.uuid) (fun key => updateKeyMetadata pk key.id key.metadata) updates
  pure (.ok ())

/-- The keys of the pages of a listing; the first page that fails ends it. -/
def overPages (failed : String) (page : List String → Prog (Calls Body) (List TextKey)) :
    List (Except Err (List String)) → Prog (Calls Body) (Except Err (List TextKey))
  | [] => pure (.ok [])
  | .error e :: _ => pure (.error (e.wrap failed))
  | .ok entries :: pages => do
    let keys ← page entries
    let rest ← overPages failed page pages
    pure (rest.map (keys ++ ·))

/-- The keys of the common prefixes of a page of a listing. -/
def listPage : List String → Prog (Calls Body) (List TextKey)
  | [] => pure []
  | obj :: objs =>
    let keyIDStr := trimSuffix (trimPrefix obj "keys/") "/"
    match keyIDFromString pk.uuid keyIDStr with
    | .error e => do
      call (.logError "failed to parse key id while listing"
        [("keyID", keyIDStr), ("error", e.text)])
      listPage objs
    | .ok keyID => do
      match ← getKey pk keyID with
      | .error e =>
        call (.logError "failed to get key while listing"
          [("keyID", keyID.string pk.uuid), ("error", e.text)])
        listPage objs
      | .ok key =>
        let keys ← listPage objs
        pure (key :: keys)

/-- `ListKeys` uses neither the cursor nor the limit. -/
def listKeys (_lastCreatedAt : Option Time) (_limit : Int) :
    Prog (Calls Body) (Except Err (List TextKey)) := do
  let pages ← call (.listObjects "keys/" (some "/"))
  overPages "failed to list objects from S3: " (listPage pk) pages

def getKeyVersions (id : KeyID) : Prog (Calls Body) (Except Err (List TextKey)) := do
  let pages ← call (.listObjects ("keys/" ++ id.string pk.uuid ++ "/v") none)
  let versions ← overPages "failed to list objects from S3 for versions: "
    (collect "failed to get key version from path" "path" (fun path => path) (getKeyFromPath pk))
    pages
  pure (versions.map (·.mergeSort fun i j => j.version ≤ i.version))

end Programs

/-! ## 3. The bucket -/

/-- The contents of a bucket, by path. -/
abbrev Bucket (Body : Type) : Type := String → Option Body

/-- **The world.**  Any call can fail, also for an object that is there, and a call that fails
changes nothing. -/
def sem {Body : Type} (pk : Packages Body) : Sem (Calls Body) (Bucket Body)
  | .getObject path, b, r, b' => b' = b ∧ ∀ body, r = .ok body → b path = some body
  | .decodeBody body, b, r, b' =>
    b' = b ∧ ∀ keyObj, r = .ok keyObj → pk.json.unmarshal body = .ok keyObj
  | .putObject path body, b, r, b' => b' = if r.isOk then Function.update b path (some body) else b
  | .deleteObject path, b, r, b' => b' = if r.isOk then Function.update b path none else b
  | .headObject path, b, r, b' => b' = b ∧ (r.isOk → b path ≠ none) ∧
    ∀ e, r = .error e → e.noSuchKey → b path = none
  -- an entry is a path, or what paths have in common
  | .listObjects pre _, b, r, b' => b' = b ∧ ∀ entries, .ok entries ∈ r → ∀ entry ∈ entries,
    ∃ path, b path ≠ none ∧ pre.toList <+: entry.toList ∧ entry.toList <+: path.toList
  | .closeBody _, b, _, b' | .timeNow, b, _, b' | .logError _ _, b, _, b' => b' = b

/-- What is watched: how the puts and the deletes end. -/
inductive Seen
  | put (ok : Bool)
  | deleted (ok : Bool)
  deriving DecidableEq

def see {Body : Type} : (op : Op Body) → op.Res → List Seen
  | .putObject _ _, r => [.put r.isOk]
  | .deleteObject _, r => [.deleted r.isOk]
  | _, _ => []

section Paths

variable {uuid : UUIDPkg} {id id' : KeyID} {v v' : Int}

/-- The id is read off a path. -/
theorem path_inj {rest rest' : String}
    (h : "keys/" ++ id.string uuid ++ rest = "keys/" ++ id'.string uuid ++ rest') :
    id = id' ∧ rest = rest' := by
  rw [String.append_assoc, String.append_assoc, String.append_right_inj] at h
  have hchars := congrArg String.toList h
  simp only [String.toList_append] at hchars
  have hlen : (id.string uuid).toList.length = (id'.string uuid).toList.length := by
    rw [String.length_toList, String.length_toList]
    exact (uuid.length_text _).trans (uuid.length_text _).symm
  obtain ⟨hid, hrest⟩ := List.append_inj hchars hlen
  exact ⟨KeyID.string_injective uuid (String.toList_inj.mp hid), String.toList_inj.mp hrest⟩

theorem versionPath_eq (uuid : UUIDPkg) (id : KeyID) (v : Int) : versionPath uuid id v =
    "keys/" ++ id.string uuid ++ ("/v" ++ (toString v ++ ".json")) := by
  simp only [versionPath, String.append_assoc]

theorem latestPath_injective (h : latestPath uuid id = latestPath uuid id') : id = id' :=
  (path_inj h).1

theorem versionPath_injective (h : versionPath uuid id v = versionPath uuid id' v') :
    id = id' ∧ v = v' := by
  rw [versionPath_eq, versionPath_eq] at h
  obtain ⟨hid, hrest⟩ := path_inj h
  rw [String.append_right_inj, String.append_left_inj] at hrest
  exact ⟨hid, Int.repr_injective hrest⟩

theorem latestPath_ne_versionPath : latestPath uuid id ≠ versionPath uuid id' v := by
  intro h
  rw [versionPath_eq] at h
  have hsecond := congrArg (fun s => s.toList[1]?) (path_inj h).2
  simp at hsecond

end Paths

section Specs

variable {Body : Type} {pk : Packages Body} {b b' : Bucket Body}

/-- What a read of a path can answer. -/
def Reads (pk : Packages Body) (b : Bucket Body) (path : String) (r : Except Err TextKey) : Prop :=
  (∃ e, r = .error (Err.wrap "failed to get key object from S3: " e)) ∨
    ∃ body, b path = some body ∧
      ((∃ e, r = .error (Err.wrap "failed to decode key object from S3: " e)) ∨
        ∃ keyObj, pk.json.unmarshal body = .ok keyObj ∧ r = decode pk keyObj)

theorem shows_getKeyFromPath {path : String} {r : Except Err TextKey} {seen : List Seen} :
    (getKeyFromPath pk path).Shows (sem pk) see b r b' seen ↔
      Reads pk b path r ∧ b' = b ∧ seen = [] := by
  constructor
  · rintro ⟨got, b₁, _, ⟨rfl, hgot⟩, rfl, h⟩
    cases got with
    | error e =>
      obtain ⟨rfl, rfl, rfl⟩ := h
      exact ⟨.inl ⟨e, rfl⟩, rfl, rfl⟩
    | ok body =>
      obtain ⟨decoded, b₂, _, ⟨rfl, hdecoded⟩, rfl, closed, b₃, rest, rfl, hrest, h⟩ := h
      have hend : r = fromDecoded pk decoded ∧ b' = b₃ ∧ rest = [] := by
        cases closed with
        | error e =>
          obtain ⟨_, _, _, rfl, rfl, h⟩ := h
          exact h
        | ok _ => exact h
      obtain ⟨rfl, rfl, rfl⟩ := hend
      refine ⟨.inr ⟨body, hgot body rfl, ?_⟩, rfl, hrest⟩
      cases decoded with
      | error e => exact .inl ⟨e, rfl⟩
      | ok keyObj => exact .inr ⟨keyObj, hdecoded keyObj rfl, rfl⟩
  · rintro ⟨⟨e, rfl⟩ | ⟨body, hbody, ⟨e, rfl⟩ | ⟨keyObj, hkeyObj, rfl⟩⟩, rfl, rfl⟩
    · exact ⟨.error e, b', [], ⟨rfl, fun _ h => by cases h⟩, rfl, rfl, rfl, rfl⟩
    · exact ⟨.ok body, b', [], ⟨rfl, fun _ h => by cases h; exact hbody⟩, rfl, .error e, b', [],
        ⟨rfl, fun _ h => by cases h⟩, rfl, .ok (), b', [], rfl, rfl, rfl, rfl, rfl⟩
    · exact ⟨.ok body, b', [], ⟨rfl, fun _ h => by cases h; exact hbody⟩, rfl, .ok keyObj, b', [],
        ⟨rfl, fun _ h => by cases h; exact hkeyObj⟩, rfl, .ok (), b', [], rfl, rfl, rfl, rfl, rfl⟩

theorem runs_getKeyFromPath {path : String} {r : Except Err TextKey} :
    (getKeyFromPath pk path).Runs (sem pk) b r b' ↔ Reads pk b path r ∧ b' = b := by
  rw [Prog.runs_iff_shows see]
  simp only [shows_getKeyFromPath, exists_and_left, exists_eq, and_true]

/-- A program that begins with a read goes on with what it may answer. -/
theorem shows_read_bind {α : Type} {path : String} {f : Except Err TextKey → Prog (Calls Body) α}
    {a : α} {seen : List Seen} :
    ((getKeyFromPath pk path).bind f).Shows (sem pk) see b a b' seen ↔
      ∃ read, Reads pk b path read ∧ (f read).Shows (sem pk) see b a b' seen := by
  simp only [Prog.shows_bind, shows_getKeyFromPath]
  constructor
  · rintro ⟨read, _, _, _, ⟨hread, rfl, rfl⟩, h, rfl⟩
    exact ⟨read, hread, h⟩
  · rintro ⟨read, hread, h⟩
    exact ⟨read, b, [], seen, ⟨hread, rfl, rfl⟩, h, rfl⟩

/-- How `putKey` can end. -/
inductive Put (pk : Packages Body) (key : TextKey) (b : Bucket Body) :
    Except Err Unit → Bucket Body → List Seen → Prop
  | unencoded {e : Err} (h : pk.json.marshal (encode pk key) = .error e) :
      Put pk key b (.error (e.wrap "failed to marshal key object: ")) b []
  | refused {data : Body} (e : Err) (h : pk.json.marshal (encode pk key) = .ok data) :
      Put pk key b (.error (e.wrap "failed to put versioned key object to S3: ")) b [.put false]
  | rolledBack {data : Body} (e : Err) (h : pk.json.marshal (encode pk key) = .ok data) :
      Put pk key b (.error (e.wrap "failed to put latest key object to S3: "))
        (Function.update b (versionPath pk.uuid key.id key.version) none)
        [.put true, .put false, .deleted true]
  | left {data : Body} (e : Err) (h : pk.json.marshal (encode pk key) = .ok data) :
      Put pk key b (.error (e.wrap "failed to put latest key object to S3: "))
        (Function.update b (versionPath pk.uuid key.id key.version) (some data))
        [.put true, .put false, .deleted false]
  | stored {data : Body} (h : pk.json.marshal (encode pk key) = .ok data) :
      Put pk key b (.ok ())
        (Function.update (Function.update b (versionPath pk.uuid key.id key.version) (some data))
          (latestPath pk.uuid key.id) (some data))
        [.put true, .put true]

/-- **What `putKey` does.** -/
theorem shows_putKey {key : TextKey} {r : Except Err Unit} {seen : List Seen} :
    (putKey pk key).Shows (sem pk) see b r b' seen ↔ Put pk key b r b' seen := by
  constructor
  · intro h
    unfold putKey at h
    cases hdata : pk.json.marshal (encode pk key) with
    | error e =>
      rw [hdata] at h
      obtain ⟨rfl, rfl, rfl⟩ := h
      exact .unencoded hdata
    | ok data =>
      rw [hdata] at h
      obtain ⟨first, _, _, rfl, rfl, h⟩ := h
      cases first with
      | error e =>
        obtain ⟨rfl, rfl, rfl⟩ := h
        exact .refused e hdata
      | ok _ =>
        obtain ⟨second, _, _, rfl, rfl, h⟩ := h
        cases second with
        | ok _ =>
          obtain ⟨rfl, rfl, rfl⟩ := h
          exact .stored hdata
        | error e =>
          obtain ⟨rollback, _, _, rfl, rfl, h⟩ := h
          cases rollback with
          | ok _ =>
            obtain ⟨rfl, rfl, rfl⟩ := h
            change Put pk key b _ (Function.update (Function.update b _ (some data)) _ none) _
            rw [Function.update_idem]
            exact .rolledBack e hdata
          | error delErr =>
            obtain ⟨_, _, _, rfl, rfl, rfl, rfl, rfl⟩ := h
            exact .left e hdata
  · intro h
    unfold putKey
    cases h with
    | unencoded h =>
      rw [h]
      exact ⟨rfl, rfl, rfl⟩
    | refused e h =>
      rw [h]
      exact ⟨.error e, _, _, rfl, rfl, rfl, rfl, rfl⟩
    | rolledBack e h =>
      rw [h]
      exact ⟨.ok (), _, _, rfl, rfl, .error e, _, _, rfl, rfl, .ok (), _, _, rfl, rfl, rfl,
        (Function.update_idem ..).symm, rfl⟩
    | left e h =>
      rw [h]
      exact ⟨.ok (), _, _, rfl, rfl, .error e, _, _, rfl, rfl, .error e, _, _, rfl, rfl, (), _, _,
        rfl, rfl, rfl, rfl, rfl⟩
    | stored h =>
      rw [h]
      exact ⟨.ok (), _, _, rfl, rfl, .ok (), _, _, rfl, rfl, rfl, rfl, rfl⟩

/-- **What `UpdateKeyMetadata` and `RevokeKey` do.** -/
theorem shows_rewriteLatest {failed : String} {change : Time → TextKey → TextKey} {id : KeyID}
    {r : Except Err Unit} {seen : List Seen} :
    (rewriteLatest pk failed change id).Shows (sem pk) see b r b' seen ↔
      (∃ e, Reads pk b (latestPath pk.uuid id) (.error e) ∧ r = .error (e.wrap failed) ∧ b' = b ∧
        seen = []) ∨
      ∃ latestKey now, Reads pk b (latestPath pk.uuid id) (.ok latestKey) ∧
        Put pk (change now latestKey) b r b' seen := by
  refine shows_read_bind.trans ⟨?_, ?_⟩
  · rintro ⟨read, hread, h⟩
    cases read with
    | error e =>
      obtain ⟨rfl, rfl, rfl⟩ := h
      exact .inl ⟨e, hread, rfl, rfl, rfl⟩
    | ok latestKey =>
      obtain ⟨now, _, _, rfl, rfl, h⟩ := h
      exact .inr ⟨latestKey, now, hread, shows_putKey.mp h⟩
  · rintro (⟨e, hread, rfl, rfl, rfl⟩ | ⟨latestKey, now, hread, hput⟩)
    · exact ⟨.error e, hread, rfl, rfl, rfl⟩
    · exact ⟨.ok latestKey, hread, now, b, seen, rfl, rfl, shows_putKey.mpr hput⟩

end Specs

end S3Storage

end Polykey
