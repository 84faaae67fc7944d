/-
# Authenticating a client

`service.authService` over `auth.FileClientStore`, and the `Authenticate` RPC.  The store is a map
that is read once, at the start; comparing a key with its bcrypt hash is a parameter.

`Authenticate` is the one handler that does not go through `sanitizeError`: it writes the error of
the service into the status.  So an unknown client and a wrong key get different answers
(`authenticate_unknown`, `authenticate_wrong`).
-/
import Polykey.Auth.Token
import Polykey.Errors.Classifier

namespace Polykey

/-! ## 1. The service -/

/-- `domain.Client`. -/
structure Client where
  id : String
  hashedAPIKey : String
  permissions : List String
  deriving DecidableEq, Repr

/-- `service.AuthenticationResult`. -/
structure AuthenticationResult where
  accessToken : String
  tokenType : String
  expiresIn : Int
  deriving DecidableEq, Repr

/-- `authService`, with the clients of its store. -/
structure AuthService where
  clients : AList (fun _ : String => Client)
  compareHashAndPassword : String → String → Bool
  jwt : JWT
  tokenTTL : Duration

namespace AuthService

/-- `FileClientStore.FindClientByID`. -/
def findClientByID (a : AuthService) (clientID : String) : Except Err Client :=
  match a.clients.lookup clientID with
  | none => .error (.new ("client not found: client ID '" ++ clientID ++ "'"))
  | some client => .ok client

/-- `authService.Authenticate`; the clock is read twice, and `id` is the id of the new token. -/
def authenticate (a : AuthService) (now later : Time) (id clientID clientSecret : String) :
    Except Err AuthenticationResult :=
  match a.findClientByID clientID with
  | .error e => .error (e.wrap "authentication failed: ")
  | .ok client =>
    if !a.compareHashAndPassword client.hashedAPIKey clientSecret then
      .error (.new "authentication failed: invalid credentials")
    else
      match TokenManager.generateToken a.jwt now later id client.id client.permissions
        a.tokenTTL with
      | .error e => .error (e.wrap "failed to generate token: ")
      | .ok accessToken => .ok ⟨accessToken, "Bearer", a.tokenTTL.tdiv second⟩

end AuthService

/-! ## 2. The RPC -/

structure AuthenticateRequest where
  clientId : String
  apiKey : String
  deriving DecidableEq, Repr

/-- `ValidateAuthenticateRequest`. -/
def validateAuthenticateRequest (req : AuthenticateRequest) : Except Err Unit :=
  if req.clientId = "" then .error (.new "client_id is required")
  else if req.apiKey = "" then .error (.new "api_key is required")
  else .ok ()

/-- `PolykeyService.Authenticate`: the result that is made into the response. -/
def AuthService.handle (a : AuthService) (now later : Time) (id : String)
    (req : AuthenticateRequest) :
    Except Status AuthenticationResult :=
  if req.clientId = "" ∨ req.apiKey = "" then
    .error ⟨.invalidArgument, "client_id and api_key are required"⟩
  else
    match a.authenticate now later id req.clientId req.apiKey with
    | .error e => .error ⟨.unauthenticated, "authentication failed: " ++ e.text⟩
    | .ok result => .ok result

/-- The RPC behind the validation interceptor. -/
def AuthService.serve (a : AuthService) (now later : Time) (id : String)
    (req : AuthenticateRequest) :
    Except Status AuthenticationResult :=
  match validateAuthenticateRequest req with
  | .error e => .error (sanitizeError e)
  | .ok () => a.handle now later id req

/-- What the status of a failure is made of: the error that the interceptor classifies, or the error
of the service. -/
theorem serve_error {a : AuthService} {now later : Time} {id : String} {req : AuthenticateRequest}
    {status : Status} (h : a.serve now later id req = .error status) :
    (∃ e, validateAuthenticateRequest req = .error e ∧ status = sanitizeError e) ∨
      validateAuthenticateRequest req = .ok () ∧
        ∃ e, a.authenticate now later id req.clientId req.apiKey = .error e ∧
          status = ⟨.unauthenticated, "authentication failed: " ++ e.text⟩ := by
  unfold AuthService.serve at h
  split at h
  · cases h
    exact .inl ⟨_, ‹_›, rfl⟩
  · rename_i hvalid
    unfold AuthService.handle at h
    split at h
    · -- the interceptor has refused what the handler would refuse
      rename_i hempty
      unfold validateAuthenticateRequest at hvalid
      split at hvalid
      · cases hvalid
      · split at hvalid
        · cases hvalid
        · rcases hempty with hid | hkey
          · exact absurd hid ‹_›
          · exact absurd hkey ‹_›
    · split at h
      · cases h
        exact .inr ⟨hvalid, _, ‹_›, rfl⟩
      · cases h

/-! ## 3. What the error tells -/

section Errors

variable {a : AuthService} {clientID clientSecret : String}

/-- The client does not exist. -/
theorem authenticate_unknown (h : a.clients.lookup clientID = none) (now later : Time)
    (id : String) :
    a.authenticate now later id clientID clientSecret =
      .error (.new ("authentication failed: client not found: client ID '" ++
        clientID ++ "'")) := by
  simp [AuthService.authenticate, AuthService.findClientByID, h, Err.wrap, Err.new,
    ← String.append_assoc]

/-- The client exists and the key is not its key. -/
theorem authenticate_wrong {client : Client} (h : a.clients.lookup clientID = some client)
    (hwrong : a.compareHashAndPassword client.hashedAPIKey clientSecret = false) (now later : Time)
    (id : String) : a.authenticate now later id clientID clientSecret =
      .error (.new "authentication failed: invalid credentials") := by
  simp [AuthService.authenticate, AuthService.findClientByID, h, hwrong]

end Errors

/-- A store with one client, and a hash that puts a letter in front. -/
def aliceAuth : AuthService where
  clients := AList.singleton "alice" ⟨"alice", "#secret", ["staff"]⟩
  compareHashAndPassword hash password := hash == "#" ++ password
  jwt := sampleJWT
  tokenTTL := 15 * minute

theorem aliceAuth_wrong (now later : Time) (id : String) :
    aliceAuth.authenticate now later id "alice" "guess" =
      .error (.new "authentication failed: invalid credentials") := by
  have hclient : aliceAuth.clients.lookup "alice" = some ⟨"alice", "#secret", ["staff"]⟩ := by
    decide
  exact authenticate_wrong hclient (by decide) now later id

theorem aliceAuth_unknown (now later : Time) (id : String) :
    aliceAuth.authenticate now later id "mallory" "guess" =
      .error (.new "authentication failed: client not found: client ID 'mallory'") :=
  authenticate_unknown (by decide) now later id

end Polykey
