import Golusoris.Lib.Utf8
import Mathlib.Tactic.Common

/-!
# The authorization server

The pure parts of `auth/oauth2server`: what each handler decides between two
accesses to a store or to the clock, with the error that it answers. Strings are
byte strings. `Library` has the functions of other packages whose results the
handlers only pass on or compare: URL parsing, the loopback test, the S256 hash.
-/

namespace Golusoris.Oauth2server

open Lib

abbrev Text := Bytes
abbrev Time := Int

/-- The parts of a `url.URL` that the server looks at. -/
structure URL where
  scheme : Text
  hasUser : Bool
  host : Text
  hostname : Text
  port : Text
  path : Text
  escapedPath : Text
  rawQuery : Text
  forceQuery : Bool
  fragment : Text
  opaqueData : Text

structure Library where
  parseURL : Text → Option URL
  urlString : URL → Text
  isLoopbackIP : Text → Bool
  joinHostPort : Text → Text → Text
  /-- `base64.RawURLEncoding` of the SHA-256 sum. -/
  s256 : Text → Text

def maxScopeBytes : Nat := 1024
def maxRequestedScope : Nat := 64

structure Client where
  id : Text
  redirectURIs : List Text
  publicClient : Bool
  secret : Text
  scopes : List Text
  deriving DecidableEq

structure AuthRequest where
  clientID : Text
  userID : Text
  scope : Text
  redirectURI : Text
  codeChallenge : Text
  codeChallengeMethod : Text
  issuedAt : Time := 0
  expiresAt : Time := 0
  deriving DecidableEq

structure Code where
  value : Text
  req : AuthRequest
  deriving DecidableEq

/-- `url.Values`, in the order of the pairs. -/
abbrev Values := List (Text × Text)

def Values.get (values : Values) (name : String) : Text :=
  ((values.find? fun pair => pair.1 = textBytes name).map Prod.snd).getD []

def Values.has (values : Values) (name : String) : Bool :=
  values.any fun pair => pair.1 = textBytes name

def validScopeByte (char : UInt8) : Bool :=
  char = 0x21 ∨ (0x23 ≤ char ∧ char ≤ 0x5b) ∨ (0x5d ≤ char ∧ char ≤ 0x7e)

def validScopeToken (scope : Text) : Bool :=
  scope ≠ [] ∧ scope.all validScopeByte

/-- The loop of `authorizedScopes`. -/
def normalizeScopes (allowed : List Text) : List Text → List Text → Option (List Text)
  | [], normalized => some normalized
  | scope :: rest, normalized =>
      if ¬validScopeToken scope ∨ scope ∉ allowed then none
      else if scope ∈ normalized then normalizeScopes allowed rest normalized
      else normalizeScopes allowed rest (normalized ++ [scope])

def authorizedScopes (requested : Text) (allowed : List Text) : Option Text :=
  if maxScopeBytes < requested.length then none
  else if requested = [] then some []
  else if maxRequestedScope < (requested.splitOn 0x20).length then none
  else (normalizeScopes allowed (requested.splitOn 0x20) []).map ([0x20].intercalate ·)

def pkceByte (char : UInt8) : Bool :=
  (0x41 ≤ char ∧ char ≤ 0x5a) ∨ (0x61 ≤ char ∧ char ≤ 0x7a) ∨ (0x30 ≤ char ∧ char ≤ 0x39) ∨
    char = 0x2e ∨ char = 0x5f ∨ char = 0x7e ∨ char = 0x2d

/-- `pkceValuePattern`. -/
def validPKCEValue (value : Text) : Bool :=
  43 ≤ value.length ∧ value.length ≤ 128 ∧ value.all pkceByte

def verifyPKCE (lib : Library) (challenge method verifier : Text) : Bool :=
  method = textBytes "S256" ∧ validPKCEValue challenge ∧ validPKCEValue verifier ∧
    challenge = lib.s256 verifier

def atoi (text : Text) : Option Int :=
  let digits := fun (text : Text) =>
    if text ≠ [] ∧ text.all fun char => 0x30 ≤ char ∧ char ≤ 0x39 then
      some (text.foldl (fun (value : Nat) char => value * 10 + (char.toNat - 0x30)) 0)
    else none
  match text with
  | 0x2d :: rest => (digits rest).map fun value => -(value : Int)
  | 0x2b :: rest => (digits rest).map fun value => (value : Int)
  | _ => (digits text).map fun value => (value : Int)

/-- An absent port yields 0. -/
def redirectPort (port : Text) : Option Int :=
  if port = [] then some 0
  else (atoi port).filter fun number => 0 < number ∧ number ≤ 65535

def isLoopbackRedirect (lib : Library) (uri : URL) : Bool :=
  uri.scheme = textBytes "http" ∧ ¬uri.hasUser ∧ uri.fragment = [] ∧ uri.opaqueData = [] ∧
    lib.isLoopbackIP uri.hostname ∧ (redirectPort uri.port).isSome

def loopbackRedirectsMatch (lib : Library) (registered candidate : URL) : Bool :=
  isLoopbackRedirect lib registered ∧ isLoopbackRedirect lib candidate ∧
    registered.hostname = candidate.hostname ∧ registered.escapedPath = candidate.escapedPath ∧
    registered.rawQuery = candidate.rawQuery ∧ registered.forceQuery = candidate.forceQuery

def registeredRedirectWithPort (lib : Library) (registered : URL) (port : Int) : Text :=
  let host :=
    if port ≠ 0 then lib.joinHostPort registered.hostname (textBytes (toString port))
    else if 0x3a ∈ registered.hostname then [0x5b] ++ registered.hostname ++ [0x5d]
    else registered.hostname
  lib.urlString { registered with host := host }

def pickRegistered (lib : Library) (registered : List Text) (candidate : Text)
    (publicClient : Bool) : Text :=
  if candidate ∈ registered then candidate
  else if ¬publicClient then []
  else
    match lib.parseURL candidate with
    | none => []
    | some candidateURL =>
        if ¬isLoopbackRedirect lib candidateURL then []
        else
          match redirectPort candidateURL.port with
          | none => []
          | some port =>
              (registered.findSome? fun raw =>
                ((lib.parseURL raw).filter fun uri =>
                  loopbackRedirectsMatch lib uri candidateURL).map fun uri =>
                    registeredRedirectWithPort lib uri port).getD []

inductive ClientError where
  | idRequired
  | redirectRequired
  | invalidRedirect (uri : Text)
  | duplicateRedirect (uri : Text)
  | invalidScope (scope : Text)
  | duplicateScope (scope : Text)
  | secretRequired
  deriving DecidableEq

def validRedirectBase (uri : URL) : Bool :=
  uri.scheme ≠ [] ∧ ¬uri.hasUser ∧ uri.fragment = [] ∧ uri.opaqueData = []

def isWebRedirect (lib : Library) (uri : URL) (publicClient : Bool) : Bool :=
  (uri.scheme = textBytes "https" ∧ uri.host ≠ []) ∨ (publicClient ∧ isLoopbackRedirect lib uri)

def isPrivateUseRedirect (raw : Text) (uri : URL) : Bool :=
  let privateStart := uri.scheme ++ textBytes ":/"
  0x2e ∈ uri.scheme ∧ uri.host = [] ∧ uri.path ≠ [] ∧ privateStart.isPrefixOf raw ∧
    ¬(privateStart ++ textBytes "/").isPrefixOf raw

def validateRedirectURI (lib : Library) (raw : Text) (publicClient : Bool) :
    Except ClientError Unit :=
  match lib.parseURL raw with
  | none => .error (.invalidRedirect raw)
  | some uri =>
      if validRedirectBase uri ∧ (isWebRedirect lib uri publicClient ∨
          (publicClient ∧ isPrivateUseRedirect raw uri)) then .ok ()
      else .error (.invalidRedirect raw)

/-- The loops of `validateRedirectURIs` and `validateClientScopes`. -/
def validateEach (check : Text → Except ClientError Unit) (duplicate : Text → ClientError) :
    List Text → List Text → Except ClientError Unit
  | [], _ => .ok ()
  | item :: rest, seen =>
      match check item with
      | .error cause => .error cause
      | .ok () =>
          if item ∈ seen then .error (duplicate item)
          else validateEach check duplicate rest (item :: seen)

def validateClientScope (scope : Text) : Except ClientError Unit :=
  if maxScopeBytes < scope.length ∨ ¬validScopeToken scope then .error (.invalidScope scope)
  else .ok ()

def validateClient (lib : Library) (client : Client) : Except ClientError Unit := do
  if (Utf8.decodeLossy client.id.length client.id).all isSpace then throw .idRequired
  if client.redirectURIs = [] then throw .redirectRequired
  validateEach (validateRedirectURI lib · client.publicClient) .duplicateRedirect
    client.redirectURIs []
  validateEach validateClientScope .duplicateScope client.scopes []
  if ¬client.publicClient ∧ client.secret = [] then throw .secretRequired

/-- `registeredClient`: what the client store returned for an id. -/
def registeredClient (lib : Library) (found : Option Client) (id : Text) : Option Client :=
  found.filter fun client => client.id = id ∧ (validateClient lib client).isOk

/-- A request; `user` is what `Authenticate` returns for it. -/
structure AuthorizeRequest where
  method : Text
  query : Values
  user : Text

inductive AuthorizeReply where
  | httpError (status : Nat) (text : String)
  | redirected (redirect : Text) (parameter : String) (value : Text)

/-- `authorizePKCE`; every error is answered alike. -/
def authorizePKCE (query : Values) : Option (Text × Text) :=
  if query.get "code_challenge" = [] then none
  else if query.get "code_challenge_method" ≠ textBytes "S256" then none
  else if ¬validPKCEValue (query.get "code_challenge") then none
  else some (query.get "code_challenge", query.get "code_challenge_method")

/-- `handleAuthorize` up to `issueCode`, with the client that was found. -/
def handleAuthorize (lib : Library) (request : AuthorizeRequest) (found : Option Client) :
    Except AuthorizeReply AuthRequest :=
  if request.method ≠ textBytes "GET" then .error (.httpError 405 "method not allowed")
  else
    match registeredClient lib found (request.query.get "client_id") with
    | none => .error (.httpError 400 "unknown client")
    | some client =>
        let redirect := pickRegistered lib client.redirectURIs (request.query.get "redirect_uri")
          client.publicClient
        if redirect = [] then .error (.httpError 400 "redirect_uri not registered")
        else if request.query.get "response_type" ≠ textBytes "code" then
          .error (.redirected redirect "error" (textBytes "unsupported_response_type"))
        else
          match authorizePKCE request.query with
          | none => .error (.redirected redirect "error" (textBytes "invalid_request"))
          | some (challenge, method) =>
              match authorizedScopes (request.query.get "scope") client.scopes with
              | none => .error (.redirected redirect "error" (textBytes "invalid_scope"))
              | some scope =>
                  if request.user = [] then .error (.httpError 401 "login required")
                  else
                    .ok {
                      clientID := request.query.get "client_id"
                      userID := request.user
                      scope := scope
                      redirectURI := redirect
                      codeChallenge := challenge
                      codeChallengeMethod := method }

/-- A request; `form` is none when it does not parse, `basic` is what
`BasicAuth` returns. -/
structure TokenRequest where
  method : Text
  form : Option Values
  authorization : Text
  basic : Option (Text × Text)

/-- `tokenErrInfo`. -/
structure TokenError where
  status : Nat
  code : String
  desc : String
  deriving DecidableEq

def hexDigit (char : UInt8) : Option UInt8 :=
  if 0x30 ≤ char ∧ char ≤ 0x39 then some (char - 0x30)
  else if 0x41 ≤ char ∧ char ≤ 0x46 then some (char - 0x41 + 10)
  else if 0x61 ≤ char ∧ char ≤ 0x66 then some (char - 0x61 + 10)
  else none

/-- `url.QueryUnescape`. -/
def queryUnescape : Text → Option Text
  | [] => some []
  | 0x25 :: high :: low :: rest => do
      let high ← hexDigit high
      let low ← hexDigit low
      let rest ← queryUnescape rest
      return (high * 16 + low) :: rest
  | 0x25 :: _ => none
  | 0x2b :: rest => (queryUnescape rest).map (0x20 :: ·)
  | char :: rest => (queryUnescape rest).map (char :: ·)

def invalidBasicCredentials : TokenError := ⟨401, "invalid_client", "malformed Basic credentials"⟩

def clientCredentials (request : TokenRequest) (form : Values) :
    Except TokenError (Text × Text) :=
  if request.authorization = [] then .ok (form.get "client_id", form.get "client_secret")
  else if form.has "client_id" ∨ form.has "client_secret" then
    .error ⟨400, "invalid_request", "multiple client authentication methods"⟩
  else
    match request.basic with
    | none => .error invalidBasicCredentials
    | some (user, password) =>
        match queryUnescape user, queryUnescape password with
        | some id, some secret => .ok (id, secret)
        | _, _ => .error invalidBasicCredentials

/-- `handleToken` up to the look-up of the client. -/
def tokenCredentials (request : TokenRequest) : Except TokenError (Values × Text × Text) :=
  if request.method ≠ textBytes "POST" then .error ⟨405, "invalid_request", "method must be POST"⟩
  else
    match request.form with
    | none => .error ⟨400, "invalid_request", "form parse failed"⟩
    | some form =>
        if form.get "grant_type" ≠ textBytes "authorization_code" then
          .error ⟨400, "unsupported_grant_type", "only authorization_code"⟩
        else (clientCredentials request form).map fun credentials => (form, credentials)

/-- `authenticateClient`, with the client that was found. -/
def authenticateClient (lib : Library) (found : Option Client) (id secret : Text) :
    Except TokenError Client :=
  match registeredClient lib found id with
  | none => .error ⟨400, "invalid_client", "unknown client"⟩
  | some client =>
      if ¬client.publicClient ∧ secret ≠ client.secret then
        .error ⟨401, "invalid_client", "bad secret"⟩
      else .ok client

/-- `resolveCode`, with the code that was taken and a reading of the clock. -/
def resolveCode (form : Values) (clientID : Text) (now : Time) (code : Code) :
    Except TokenError Code :=
  if code.req.expiresAt ≤ now then .error ⟨400, "invalid_grant", "code expired"⟩
  else if form.get "redirect_uri" ≠ code.req.redirectURI then
    .error ⟨400, "invalid_grant", "redirect_uri mismatch"⟩
  else if clientID ≠ code.req.clientID then .error ⟨400, "invalid_client", "client mismatch"⟩
  else .ok code

/-- The checks of `handleToken` on the code, in its order. -/
def checkCode (lib : Library) (form : Values) (client : Client) (now : Time) (code : Code) :
    Except TokenError AuthRequest :=
  match resolveCode form client.id now code with
  | .error cause => .error cause
  | .ok code =>
      match authorizedScopes code.req.scope client.scopes with
      | none => .error ⟨400, "invalid_scope", "scope no longer allowed"⟩
      | some scope =>
          if ¬verifyPKCE lib code.req.codeChallenge code.req.codeChallengeMethod
              (form.get "code_verifier") then
            .error ⟨400, "invalid_grant", "PKCE verification failed"⟩
          else .ok { code.req with scope := scope }

structure AccessTokenClaims where
  issuer : Text
  subject : Text
  audience : List Text
  issuedAt : Time
  expiresAt : Time
  id : Text
  scope : Text
  deriving DecidableEq

/-- The claims that `mintAccessToken` signs. -/
def mintAccessToken (issuer : Text) (accessTTL : Time) (clientID : Text) (req : AuthRequest)
    (jti : Text) (now : Time) : AccessTokenClaims where
  issuer := issuer
  subject := req.userID
  audience := [clientID]
  issuedAt := now
  expiresAt := now + accessTTL
  id := jti
  scope := req.scope

end Golusoris.Oauth2server
