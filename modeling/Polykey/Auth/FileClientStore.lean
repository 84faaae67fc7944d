/-
# The client file

`NewFileClientStore` reads the clients of the service from a file, which
`scripts/generate_client_config.go` writes.  The loader goes through a Go map, in an order that is
different each time; reading and writing YAML, and bcrypt, are parameters.

* The order does not matter to what is loaded: a file is taken exactly if it has clients and all of
  them are valid, and then the store is the file (`newFileClientStore_lookup`).
* What the script writes is what the service reads: the client can authenticate with its secret, and
  is an administrator whatever the roles of the configuration are (`generated_authenticates`).  Only
  for the empty id does the script write a file that the service refuses.
-/
import Polykey.Auth.AuthService
import Polykey.Auth.Authorizer

namespace Polykey

namespace FileClientStore

/-! ## 1. Loading -/

/-- `clientData`. -/
structure ClientData where
  hashedAPIKey : String
  permissions : List String
  description : String
  deriving DecidableEq

/-- `clientConfig`, as its map. -/
abbrev ClientConfig := AList fun _ : String => ClientData

/-- What the two programs use of the YAML library. -/
structure YAML where
  marshal : ClientConfig → Except Err Bytes
  unmarshal : Bytes → Except Err ClientConfig
  unmarshal_marshal : ∀ {config data}, marshal config = .ok data → unmarshal data = .ok config

/-- The formats of bcrypt. -/
def bcryptPrefixes : List String := ["$2a$", "$2b$", "$2y$"]

/-- `validateClientData`. -/
def validateClientData (id : String) (data : ClientData) : Except Err Unit :=
  if id = "" then .error (.new "client ID cannot be empty")
  else if data.hashedAPIKey = "" then .error (.new "hashed_api_key cannot be empty")
  else if data.permissions = [] then .error (.new "permissions cannot be empty")
  else if data.hashedAPIKey.utf8ByteSize < 60 ∨
    ∀ p ∈ bcryptPrefixes, ¬ p.toList <+: data.hashedAPIKey.toList then
    .error (.new "hashed_api_key must be a valid bcrypt hash")
  else .ok ()

/-- The client that is made of an entry. -/
def toClient (id : String) (data : ClientData) : Client := ⟨id, data.hashedAPIKey, data.permissions⟩

/-- The loop of `NewFileClientStore`. -/
def addClients : List (Sigma fun _ : String => ClientData) → AList (fun _ : String => Client) →
    Except Err (AList fun _ : String => Client)
  | [], clients => .ok clients
  | ⟨id, data⟩ :: rest, clients =>
    match validateClientData id data with
    | .error e => .error (e.wrap ("invalid client " ++ id ++ ": "))
    | .ok () => addClients rest (clients.insert id (toClient id data))

/-- `NewFileClientStore`, over what reading the file gives and the order in which the map is gone
through. -/
def newFileClientStore (yaml : YAML) (filePath : String) (readFile : Except Err Bytes)
    (order : List (Sigma fun _ : String => ClientData) →
      List (Sigma fun _ : String => ClientData)) :
    Except Err (AList fun _ : String => Client) :=
  match readFile with
  | .error e => .error (e.wrap ("failed to read client config file " ++ filePath ++ ": "))
  | .ok data =>
    match yaml.unmarshal data with
    | .error e => .error (e.wrap "failed to unmarshal client config: ")
    | .ok config =>
      if config.entries = [] then .error (.new "invalid client configuration: no clients defined")
      else addClients (order config.entries) ∅

/-! ## 2. What is loaded

The loop stops at the first entry that is not valid, and which one that is depends on the order.
Whether there is one does not, and neither does the map that the loop fills. -/

section Loading

variable {entries : List (Sigma fun _ : String => ClientData)}
  {clients store : AList fun _ : String => Client}

/-- The loop ends well exactly if every entry is valid. -/
theorem exists_addClients_iff (entries : List (Sigma fun _ : String => ClientData))
    (clients : AList fun _ : String => Client) :
    (∃ store, addClients entries clients = .ok store) ↔
      ∀ entry ∈ entries, validateClientData entry.1 entry.2 = .ok () := by
  induction entries generalizing clients with
  | nil => simp [addClients]
  | cons entry rest ih =>
    rw [addClients, List.forall_mem_cons]
    cases hvalid : validateClientData entry.1 entry.2 with
    | error e => simp
    | ok _ => simpa using ih _

/-- What the loop has put in, where no id comes twice. -/
theorem lookup_addClients (hnodup : (entries.map Sigma.fst).Nodup)
    (h : addClients entries clients = .ok store) (id : String) :
    store.lookup id = ((entries.dlookup id).map (toClient id)).or (clients.lookup id) := by
  induction entries generalizing clients with
  | nil =>
    cases h
    rfl
  | cons entry rest ih =>
    obtain ⟨name, data⟩ := entry
    obtain ⟨hnew, hrest⟩ := List.nodup_cons.mp hnodup
    rw [addClients] at h
    split at h
    · cases h
    rw [ih hrest h]
    by_cases hid : id = name
    · subst hid
      have hnone : rest.dlookup id = none := List.dlookup_eq_none.mpr hnew
      simp [hnone]
    · rw [AList.lookup_insert_ne hid, List.dlookup_cons_ne _ _ hid]

end Loading

section Store

variable {yaml : YAML} {filePath : String} {readFile : Except Err Bytes}
  {order : List (Sigma fun _ : String => ClientData) → List (Sigma fun _ : String => ClientData)}

/-- All clients of the file are valid. -/
def AllValid (config : ClientConfig) : Prop :=
  ∀ id data, config.lookup id = some data → validateClientData id data = .ok ()

theorem forall_entries_iff {config : ClientConfig} (horder : ∀ l, (order l).Perm l) :
    (∀ entry ∈ order config.entries, validateClientData entry.1 entry.2 = .ok ()) ↔
      AllValid config := by
  constructor
  · intro h id data hlookup
    exact h ⟨id, data⟩ ((horder _).mem_iff.mpr (AList.mem_lookup_iff.mp hlookup))
  · intro h entry hentry
    exact h entry.1 entry.2 (AList.mem_lookup_iff.mpr ((horder _).mem_iff.mp hentry))

/-- Which files are taken. -/
theorem exists_newFileClientStore_iff (horder : ∀ l, (order l).Perm l) :
    (∃ store, newFileClientStore yaml filePath readFile order = .ok store) ↔
      ∃ data config, readFile = .ok data ∧ yaml.unmarshal data = .ok config ∧
        config.entries ≠ [] ∧ AllValid config := by
  unfold newFileClientStore
  cases readFile with
  | error e => simp
  | ok data =>
    cases hconfig : yaml.unmarshal data with
    | error e => simp [hconfig]
    | ok config =>
      by_cases hempty : config.entries = []
      · simp [hconfig, hempty]
      · have hloop := (exists_addClients_iff (order config.entries) ∅).trans
          (forall_entries_iff horder)
        simpa [hconfig, hempty] using hloop

/-- The store has the clients of the file, each under its own id. -/
theorem lookup_newFileClientStore (horder : ∀ l, (order l).Perm l)
    {store : AList fun _ : String => Client}
    (h : newFileClientStore yaml filePath readFile order = .ok store) :
    ∃ data config, readFile = .ok data ∧ yaml.unmarshal data = .ok config ∧
      ∀ id, store.lookup id = (config.lookup id).map (toClient id) := by
  unfold newFileClientStore at h
  split at h
  · cases h
  rename_i data
  split at h
  · cases h
  rename_i config hconfig
  split at h
  · cases h
  refine ⟨data, config, rfl, hconfig, fun id => ?_⟩
  have hnodup : (order config.entries).NodupKeys :=
    (List.perm_nodupKeys (horder _)).mpr config.nodupKeys
  rw [lookup_addClients hnodup h, List.perm_dlookup id hnodup (horder _)]
  simp [AList.lookup]

/-- **The order does not matter.**  However the map is gone through, the same files are taken and
the same clients are found. -/
theorem newFileClientStore_order (yaml : YAML) (filePath : String) (readFile : Except Err Bytes)
    {order order' : List (Sigma fun _ : String => ClientData) →
      List (Sigma fun _ : String => ClientData)}
    (horder : ∀ l, (order l).Perm l) (horder' : ∀ l, (order' l).Perm l) :
    ((∃ store, newFileClientStore yaml filePath readFile order = .ok store) ↔
      ∃ store, newFileClientStore yaml filePath readFile order' = .ok store) ∧
    ∀ store store', newFileClientStore yaml filePath readFile order = .ok store →
      newFileClientStore yaml filePath readFile order' = .ok store' →
        ∀ id, store.lookup id = store'.lookup id := by
  refine ⟨?_, fun store store' h h' id => ?_⟩
  · rw [exists_newFileClientStore_iff horder, exists_newFileClientStore_iff horder']
  · obtain ⟨data, config, hdata, hconfig, hlookup⟩ := lookup_newFileClientStore horder h
    obtain ⟨data', config', hdata', hconfig', hlookup'⟩ := lookup_newFileClientStore horder' h'
    cases hdata.symm.trans hdata'
    cases hconfig.symm.trans hconfig'
    rw [hlookup, hlookup']

end Store

/-! ## 3. The script -/

/-- What the two programs use of bcrypt. -/
structure Bcrypt where
  generateFromPassword : String → Except Err String
  compareHashAndPassword : String → String → Bool
  generated : ∀ {password hash}, generateFromPassword password = .ok hash →
    hash.utf8ByteSize = 60 ∧ "$2a$".toList <+: hash.toList ∧
      compareHashAndPassword hash password = true

/-- `generateServerConfig`, as the text of the file. -/
def generateServerConfig (yaml : YAML) (bcrypt : Bcrypt)
    (clientID clientSecret description : String) : Except Err Bytes :=
  match bcrypt.generateFromPassword clientSecret with
  | .error e => .error (e.wrap "generating bcrypt hash: ")
  | .ok hashedSecret =>
    match yaml.marshal (AList.singleton clientID ⟨hashedSecret, ["*"], description⟩) with
    | .error e => .error (e.wrap "marshalling YAML: ")
    | .ok yamlData => .ok yamlData

section Script

variable {yaml : YAML} {bcrypt : Bcrypt} {clientID clientSecret description : String}
  {yamlData : Bytes}

theorem lookup_singleton {β : Type} (name id : String) (b : β) :
    (AList.singleton name b : AList fun _ : String => β).lookup id =
      if id = name then some b else none := by
  rw [← AList.insert_empty]
  by_cases h : id = name
  · subst h
    rw [AList.lookup_insert, if_pos rfl]
  · rw [AList.lookup_insert_ne h, if_neg h, AList.lookup_empty]

/-- The file that the script writes. -/
theorem generateServerConfig_eq_ok
    (h : generateServerConfig yaml bcrypt clientID clientSecret description = .ok yamlData) :
    ∃ hashedSecret, bcrypt.generateFromPassword clientSecret = .ok hashedSecret ∧
      yaml.unmarshal yamlData =
        .ok (AList.singleton clientID ⟨hashedSecret, ["*"], description⟩) := by
  unfold generateServerConfig at h
  split at h
  · cases h
  rename_i hashedSecret hhash
  split at h
  · cases h
  rename_i hmarshal
  cases h
  exact ⟨hashedSecret, hhash, yaml.unmarshal_marshal hmarshal⟩

/-- A hash of bcrypt is one that the loader accepts. -/
theorem validateClientData_generated {hashedSecret : String} (clientID description : String)
    (h : bcrypt.generateFromPassword clientSecret = .ok hashedSecret) :
    validateClientData clientID ⟨hashedSecret, ["*"], description⟩ = .ok () ↔ clientID ≠ "" := by
  obtain ⟨hsize, hprefix, -⟩ := bcrypt.generated h
  have hne : hashedSecret ≠ "" := by
    rintro rfl
    cases hsize
  have hformat : ¬ ∀ p ∈ bcryptPrefixes, ¬ p.toList <+: hashedSecret.toList :=
    fun hall => hall "$2a$" (by simp [bcryptPrefixes]) hprefix
  by_cases hid : clientID = ""
  · simp [validateClientData, hid]
  · simp [validateClientData, hid, hne, hsize, hformat]

/-- **What the script writes, the service takes**, unless the id is empty: the client is found under
its id, its secret is its key, so that it gets a token, and it is an administrator. -/
theorem generated_authenticates (filePath : String)
    {order : List (Sigma fun _ : String => ClientData) → List (Sigma fun _ : String => ClientData)}
    (horder : ∀ l, (order l).Perm l)
    (h : generateServerConfig yaml bcrypt clientID clientSecret description = .ok yamlData) :
    ((∃ store, newFileClientStore yaml filePath (.ok yamlData) order = .ok store) ↔
      clientID ≠ "") ∧
    (∀ store jwt ttl now later id token,
      newFileClientStore yaml filePath (.ok yamlData) order = .ok store → clientSecret ≠ "" →
      TokenManager.generateToken jwt now later id clientID ["*"] ttl = .ok token →
        AuthService.serve ⟨store, bcrypt.compareHashAndPassword, jwt, ttl⟩ now later id
          ⟨clientID, clientSecret⟩ = .ok ⟨token, "Bearer", ttl.tdiv second⟩) ∧
    ∀ cfg : AuthorizationConfig, cfg.isAdmin ⟨clientID, ["*"]⟩ = true := by
  obtain ⟨hashedSecret, hhash, hconfig⟩ := generateServerConfig_eq_ok h
  have hvalid : AllValid (AList.singleton clientID ⟨hashedSecret, ["*"], description⟩) ↔
      clientID ≠ "" := by
    rw [← validateClientData_generated clientID description hhash]
    constructor
    · exact fun hall => hall _ _ (by rw [lookup_singleton, if_pos rfl])
    · intro hone id data hlookup
      rw [lookup_singleton] at hlookup
      split at hlookup
      · rename_i hid
        cases hlookup
        rwa [hid]
      · cases hlookup
  have htaken : (∃ store, newFileClientStore yaml filePath (.ok yamlData) order = .ok store) ↔
      clientID ≠ "" := by
    rw [exists_newFileClientStore_iff horder, ← hvalid]
    simp [hconfig, AList.singleton]
  refine ⟨htaken, ?_, fun cfg => by
    simp [AuthorizationConfig.isAdmin, AuthorizationConfig.allowsAll]⟩
  intro store jwt ttl now later id token hstore hsecret htoken
  have hid := htaken.mp ⟨store, hstore⟩
  obtain ⟨data, config, hdata, hconfig', hlookup⟩ := lookup_newFileClientStore horder hstore
  cases hdata
  cases hconfig.symm.trans hconfig'
  have hclient : store.lookup clientID = some ⟨clientID, hashedSecret, ["*"]⟩ := by
    rw [hlookup, lookup_singleton, if_pos rfl]
    rfl
  simp [AuthService.serve, validateAuthenticateRequest, hid, hsecret, AuthService.handle,
    AuthService.authenticate, AuthService.findClientByID, hclient,
    (bcrypt.generated hhash).2.2, htoken]

end Script

/-! ### One client -/

def sampleHash : String := "$2a$10$abcdefghijklmnopqrstuvabcdefghijklmnopqrstuvabcdefghi"

def oneClient : ClientConfig := AList.singleton "alice" ⟨sampleHash, ["*"], ""⟩

/-- A library that knows one file. -/
def oneFile : YAML where
  marshal config := if config = oneClient then .ok [1] else .error (.new "")
  unmarshal data := if data = [1] then .ok oneClient else .error (.new "")
  unmarshal_marshal := by
    intro config data h
    split at h
    · cases h
      simp_all
    · cases h

/-- A hash of one password. -/
def onePassword : Bcrypt where
  generateFromPassword password := if password = "secret" then .ok sampleHash else .error (.new "")
  compareHashAndPassword hash password := hash == sampleHash && password == "secret"
  generated := by
    intro password hash h
    split at h
    · cases h
      exact ⟨by decide, by decide, by simp_all⟩
    · cases h

/-- Alice's file, from the script to the login. -/
theorem generated_authenticates_alice :
    ∃ store, newFileClientStore oneFile "clients.yaml" (.ok [1]) id = .ok store ∧
      AuthService.serve ⟨store, onePassword.compareHashAndPassword, aliceAuth.jwt, 60 * minute⟩ 0 0
        "id" ⟨"alice", "secret"⟩ = .ok ⟨"id.3600.signed", "Bearer", 3600⟩ := by
  have hscript : generateServerConfig oneFile onePassword "alice" "secret" "" = .ok [1] := by
    simp [generateServerConfig, onePassword, oneFile, oneClient]
  have hid : ∀ l : List (Sigma fun _ : String => ClientData), (id l).Perm l := fun _ => .refl _
  obtain ⟨htaken, hserve, -⟩ := generated_authenticates "clients.yaml" hid hscript
  obtain ⟨store, hstore⟩ := htaken.mpr (by decide)
  exact ⟨store, hstore, hserve store aliceAuth.jwt (60 * minute) 0 0 "id" "id.3600.signed" hstore
    (by decide) (by rfl)⟩

/-- Two ways through the file. -/
theorem newFileClientStore_order_reverse :
    ∃ store store', newFileClientStore oneFile "" (.ok [1]) id = .ok store ∧
      newFileClientStore oneFile "" (.ok [1]) List.reverse = .ok store' ∧
      store.lookup "alice" = store'.lookup "alice" := by
  have hid : ∀ l : List (Sigma fun _ : String => ClientData), (id l).Perm l := fun _ => .refl _
  obtain ⟨htaken, hsame⟩ :=
    newFileClientStore_order oneFile "" (.ok [1]) hid List.reverse_perm
  obtain ⟨store, h⟩ : ∃ store, newFileClientStore oneFile "" (.ok [1]) id = .ok store :=
    ⟨_, rfl⟩
  obtain ⟨store', h'⟩ := htaken.mp ⟨store, h⟩
  exact ⟨store, store', h, h', hsame store store' h h' "alice"⟩

end FileClientStore

end Polykey
