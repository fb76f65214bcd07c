import Golusoris.Lib.Machine
import Golusoris.Oauth2server.Server
import Mathlib.Data.Finmap

/-!
# Concurrent requests

One `Server` over a `MemoryClientStore` and a `MemoryCodeStore`. Each method of
a store runs under that store's mutex, so a request is cut where it calls one and
where it reads the clock; between two cuts other requests may do anything. The
random values and the readings of the clock are whatever the run says.

The number of an issue is not data of the program. It tells two codes of one
value apart, should the random source repeat itself.
-/

namespace Golusoris.Oauth2server

open Lib

/-- The options that the handlers read. -/
structure Options where
  issuer : Text
  accessTTL : Time
  codeTTL : Time
  library : Library

/-- A code that `issueCode` stored, and the request that it answers. -/
structure Issue where
  number : Nat
  request : AuthorizeRequest
  code : Code

/-- A token request whose client is authenticated. -/
structure Session where
  request : TokenRequest
  form : Values
  secret : Text
  client : Client

structure Entry where
  code : Code
  issue : Nat

/-- Where a request stands. -/
inductive Work where
  /-- `handleAuthorize` before it looks the client up. -/
  | authorizing (request : AuthorizeRequest)
  /-- `issueCode` before it saves the code. -/
  | issuing (request : AuthorizeRequest) (draft : AuthRequest)
  /-- `handleToken` before it looks the client up. -/
  | exchanging (request : TokenRequest) (form : Values) (id secret : Text)
  /-- `resolveCode` before it takes the code. -/
  | taking (session : Session)
  /-- `resolveCode` before it reads the clock. -/
  | resolving (session : Session) (entry : Entry)
  /-- `mintAccessToken`, after every check of the code at the time `checkedAt`. -/
  | minting (session : Session) (entry : Entry) (checkedAt : Time) (req : AuthRequest)

/-- The issue whose code the request has taken. -/
def Work.holds : Work → Option Nat
  | .resolving _ entry | .minting _ entry _ _ => some entry.issue
  | _ => none

/-- A token that was signed, with the request that it answers. -/
structure Mint where
  session : Session
  issue : Nat
  checkedAt : Time
  claims : AccessTokenClaims

inductive Event where
  | registered (client : Client)
  | silent
  | authorizeRefused (reply : AuthorizeReply)
  | issued (issue : Issue)
  | tokenRefused (error : TokenError)
  | minted (mint : Mint)

structure State where
  clients : Finmap fun _ : Text => Client := ∅
  codes : Finmap fun _ : Text => Entry := ∅
  works : Nat → Option Work := fun _ => none
  issues : Nat := 0

def State.put (state : State) (worker : Nat) (work : Option Work) : State :=
  { state with works := Function.update state.works worker work }

/-- What `issueCode` stores. -/
def stamp (options : Options) (draft : AuthRequest) (value : Text) (now : Time) : Code where
  value := value
  req := { draft with issuedAt := now, expiresAt := now + options.codeTTL }

def codeNotFound : TokenError := ⟨400, "invalid_grant", "code not found"⟩

def signFailed : TokenError := ⟨500, "server_error", "sign"⟩

inductive Step (options : Options) : State → Event → State → Prop where
  /- `Register`; `Add` only drops its error. -/
  | register {state : State} {client : Client}
      (valid : validateClient options.library client = .ok ()) :
      Step options state (.registered client)
        { state with clients := state.clients.insert client.id client }
  | authorize {state : State} {worker : Nat} (request : AuthorizeRequest)
      (idle : state.works worker = none) :
      Step options state .silent (state.put worker (some (.authorizing request)))
  | authorizeRefused {state : State} {worker : Nat} {request : AuthorizeRequest}
      {reply : AuthorizeReply} (stands : state.works worker = some (.authorizing request))
      (refused : handleAuthorize options.library request
        (state.clients.lookup (request.query.get "client_id")) = .error reply) :
      Step options state (.authorizeRefused reply) (state.put worker none)
  | authorized {state : State} {worker : Nat} {request : AuthorizeRequest} {draft : AuthRequest}
      (stands : state.works worker = some (.authorizing request))
      (accepted : handleAuthorize options.library request
        (state.clients.lookup (request.query.get "client_id")) = .ok draft) :
      Step options state .silent (state.put worker (some (.issuing request draft)))
  /- The random source fails. -/
  | issueFailed {state : State} {worker : Nat} {request : AuthorizeRequest} {draft : AuthRequest}
      (stands : state.works worker = some (.issuing request draft)) :
      Step options state
        (.authorizeRefused (.redirected draft.redirectURI "error" (textBytes "server_error")))
        (state.put worker none)
  | issue {state : State} {worker : Nat} {request : AuthorizeRequest} {draft : AuthRequest}
      (value : Text) (now : Time) (stands : state.works worker = some (.issuing request draft)) :
      Step options state (.issued ⟨state.issues, request, stamp options draft value now⟩)
        { state.put worker none with
          codes := state.codes.insert value ⟨stamp options draft value now, state.issues⟩
          issues := state.issues + 1 }
  | tokenRefused {state : State} (request : TokenRequest) {error : TokenError}
      (refused : tokenCredentials request = .error error) :
      Step options state (.tokenRefused error) state
  | token {state : State} {worker : Nat} (request : TokenRequest) {form : Values}
      {id secret : Text} (idle : state.works worker = none)
      (accepted : tokenCredentials request = .ok (form, id, secret)) :
      Step options state .silent (state.put worker (some (.exchanging request form id secret)))
  | clientRefused {state : State} {worker : Nat} {request : TokenRequest} {form : Values}
      {id secret : Text} {error : TokenError}
      (stands : state.works worker = some (.exchanging request form id secret))
      (refused : authenticateClient options.library (state.clients.lookup id) id secret =
        .error error) :
      Step options state (.tokenRefused error) (state.put worker none)
  | authenticated {state : State} {worker : Nat} {request : TokenRequest} {form : Values}
      {id secret : Text} {client : Client}
      (stands : state.works worker = some (.exchanging request form id secret))
      (accepted : authenticateClient options.library (state.clients.lookup id) id secret =
        .ok client) :
      Step options state .silent
        (state.put worker (some (.taking ⟨request, form, secret, client⟩)))
  | notFound {state : State} {worker : Nat} {session : Session}
      (stands : state.works worker = some (.taking session))
      (absent : state.codes.lookup (session.form.get "code") = none) :
      Step options state (.tokenRefused codeNotFound) (state.put worker none)
  | take {state : State} {worker : Nat} {session : Session} {entry : Entry}
      (stands : state.works worker = some (.taking session))
      (found : state.codes.lookup (session.form.get "code") = some entry) :
      Step options state .silent
        { state.put worker (some (.resolving session entry)) with
          codes := state.codes.erase (session.form.get "code") }
  | codeRefused {state : State} {worker : Nat} {session : Session} {entry : Entry}
      {error : TokenError} (now : Time)
      (stands : state.works worker = some (.resolving session entry))
      (refused : checkCode options.library session.form session.client now entry.code =
        .error error) :
      Step options state (.tokenRefused error) (state.put worker none)
  | resolved {state : State} {worker : Nat} {session : Session} {entry : Entry}
      {req : AuthRequest} (now : Time)
      (stands : state.works worker = some (.resolving session entry))
      (accepted : checkCode options.library session.form session.client now entry.code =
        .ok req) :
      Step options state .silent (state.put worker (some (.minting session entry now req)))
  /- The random source or the signer fails. -/
  | mintFailed {state : State} {worker : Nat} {session : Session} {entry : Entry}
      {checkedAt : Time} {req : AuthRequest}
      (stands : state.works worker = some (.minting session entry checkedAt req)) :
      Step options state (.tokenRefused signFailed) (state.put worker none)
  | mint {state : State} {worker : Nat} {session : Session} {entry : Entry}
      {checkedAt : Time} {req : AuthRequest} (jti : Text) (now : Time)
      (stands : state.works worker = some (.minting session entry checkedAt req)) :
      Step options state
        (.minted {
          session := session
          issue := entry.issue
          checkedAt := checkedAt
          claims := mintAccessToken options.issuer options.accessTTL session.client.id req jti
            now })
        (state.put worker none)

/-- The runs of a server over two new stores. -/
def server (options : Options) : Machine State Event where
  Initial state := state = {}
  Step := Step options

end Golusoris.Oauth2server
