import Golusoris.Lib.Digits
import Golusoris.Lib.Results
import Golusoris.Oauth2server.Redirects

/-!
# The redirect that a code is bound to

`/authorize` keeps the redirect as `net/url` writes it, and `/token` compares texts.
A client that repeats its redirect is answered if the text is registered, or if it
was written that way in the first place.
-/

namespace Golusoris.Oauth2server

open Lib
open Lib.NetUrl (Url Web hostPort parse queryText)
open Digits

variable {lib : Library}

theorem encode_digitChar {value : Nat} (small : value < 10) :
    Utf8.encode [value.digitChar] = [digit value] := by
  have all : ∀ value < 10, Utf8.encode [value.digitChar] = [digit value] := by decide
  exact all value small

theorem textBytes_natText (value : Nat) : textBytes (toString (value : Int)) = natText value := by
  rw [textBytes_toString]
  induction value using Nat.strongRecOn with
  | ind value ih =>
    rw [Nat.toDigits_eq_if (by omega), natText_eq]
    split_ifs with small
    · exact encode_digitChar small
    · rw [Utf8.encode_append, ih (value / 10) (by omega),
        encode_digitChar (Nat.mod_lt value (by omega))]

theorem foldl_of_readNatFrom {text : Bytes} {start value : Nat}
    (read : readNatFrom start text = some value) :
    text.foldl (fun (value : Nat) char => value * 10 + (char.toNat - 0x30)) start = value := by
  induction text generalizing start with
  | nil => exact Option.some.inj read
  | cons byte rest ih =>
    rw [readNatFrom] at read
    split_ifs at read
    exact ih read

theorem atoi_natText (value : Nat) : atoi (natText value) = some (value : Int) := by
  have digits := all_natText value
  have read := foldl_of_readNatFrom (readNatFrom_natText value)
  obtain ⟨first, rest, text, own, -⟩ := natText_cons value
  rw [text] at digits read ⊢
  have minus : first ≠ 0x2d := by
    rintro rfl
    exact absurd own (by decide)
  have plus : first ≠ 0x2b := by
    rintro rfl
    exact absurd own (by decide)
  have all : (first :: rest).all fun char => decide (0x30 ≤ char ∧ char ≤ 0x39) := by
    simpa [Digits.isDigit] using digits
  unfold atoi
  split
  · rename_i same
    exact absurd (List.cons.inj same).1 minus
  · rename_i same
    exact absurd (List.cons.inj same).1 plus
  · simp only [ne_eq, reduceCtorEq, not_false_eq_true, all, and_self, if_true, read]
    rfl

theorem redirectPort_portText {port : Nat} (small : port ≤ 65535) :
    redirectPort (portText port) = some (port : Int) := by
  rw [portText]
  split_ifs with none
  · subst none
    rfl
  · rw [redirectPort, if_neg (toString_ne_nil port), textBytes_natText, atoi_natText,
      Option.filter_some, if_pos]
    simp only [decide_eq_true_eq]
    omega

/-- A redirect to an address as `net/url` writes it: the scheme in lower case, a port in
decimal or none, a path that is a valid encoding, and no fragment. -/
inductive Normal : Text → Prop where
  | web (host path decoded query : Bytes) (port : Nat) : IpAddr.isLoopback host → port ≤ 65535 →
      path = [] ∨ path.head? = some 0x2F → NetUrl.validEncoded path .path →
      NetUrl.unescape .path path = some decoded → query = [] ∨ query.head? = some 0x3F →
      (∀ byte ∈ query, byte ≠ 0x23 ∧ NetUrl.isControlByte byte = false) →
      Normal (textBytes "http://" ++ (hostPort host (portText port) ++ (path ++ query)))

/-- The text with the parts that the server compares. -/
def Spelled (uri : Url) (port : Nat) (text : Text) : Prop :=
  text = textBytes "http://" ++ (hostPort uri.hostname (portText port) ++
    (uri.escapedPath ++ queryText uri))

theorem http_bytes : textBytes "http://" = [0x68, 0x74, 0x74, 0x70, 0x3A, 0x2F, 0x2F] := by decide

theorem spelled_withPort {raw : Bytes} {uri : Url} (read : parse raw = some uri)
    (loopback : Loopback uri) (port : Nat) :
    Spelled uri port { uri with host := hostPort uri.hostname (portText port) }.string := by
  rw [Spelled, http_bytes, NetUrl.string_web (web_of_loopback read loopback port)]
  rfl

theorem queryText_tail {query : Bytes} (start : query = [] ∨ query.head? = some 0x3F) :
    (if (query == [0x3F]) ∨ query.tail ≠ [] then 0x3F :: query.tail else []) = query := by
  cases query with
  | nil => rfl
  | cons first rest =>
    obtain rfl : first = 0x3F := by simpa using start
    cases rest <;> simp

/-- A redirect in normal form is read part by part. -/
theorem Normal.read {text : Text} (normal : Normal text) :
    ∃ (uri : Url) (port : Nat), parse text = some uri ∧
      redirectPort uri.port = some (port : Int) ∧ Spelled uri port text := by
  obtain ⟨host, path, decoded, query, port, loopback, small, rooted, valid, unescaped, start, clean⟩ :=
    normal
  have digits := isDigit_portText port
  let uri : Url := {
    scheme := textBytes "http"
    host := hostPort host (portText port)
    path := decoded
    rawPath := NetUrl.rawHint .path decoded path
    forceQuery := query == [0x3F]
    rawQuery := query.tail }
  have root : NetUrl.Rooted uri := ⟨path, rooted, unescaped, rfl⟩
  have escaped : uri.escapedPath = path :=
    NetUrl.escaped_rawHint_text valid unescaped (NetUrl.path_ne_star root)
  have asked : queryText uri = query := queryText_tail start
  have web : Web uri := {
    query := fun byte found => clean byte (List.mem_of_mem_tail found)
    force := fun forced => by
      have whole : query = [0x3F] := by simpa [uri] using forced
      show query.tail = []
      rw [whole]
      rfl
    rooted := fun _ => root
    scheme := rfl
    opaqueData := rfl
    user := rfl
    host := NetUrl.hostPort_ne_nil loopback
    plain := NetUrl.hostPlain_hostPort loopback digits
    fragment := rfl }
  have written : uri.string =
      textBytes "http://" ++ (hostPort host (portText port) ++ (path ++ query)) := by
    rw [NetUrl.string_web web, escaped, asked, http_bytes]
  have split := NetUrl.splitHostPort_hostPort loopback digits
  have again := NetUrl.parse_string web (NetUrl.parseHost_hostPort loopback digits)
  rw [written] at again
  refine ⟨_, port, again, ?_, ?_⟩
  · have number : (NetUrl.splitHostPort uri.host).2 = portText port := congrArg Prod.snd split
    show redirectPort (NetUrl.splitHostPort uri.host).2 = some (port : Int)
    rw [number]
    exact redirectPort_portText small
  · have hostname : (NetUrl.splitHostPort uri.host).1 = host := congrArg Prod.fst split
    have kept : NetUrl.escaped .path decoded (NetUrl.rawHint .path decoded uri.escapedPath) = path := by
      rw [escaped]
      exact NetUrl.escaped_rawHint_text valid unescaped (NetUrl.path_ne_star root)
    show _ = textBytes "http://" ++ (hostPort (NetUrl.splitHostPort uri.host).1 (portText port) ++
      (NetUrl.escaped .path decoded (NetUrl.rawHint .path decoded uri.escapedPath) ++ queryText uri))
    rw [hostname, kept, asked]

/-- What was built for a registered redirect is in normal form. -/
theorem normal_of_spelled {raw text : Bytes} {uri : Url} {port : Nat} (read : parse raw = some uri)
    (loopback : Loopback uri) (small : port ≤ 65535) (spelled : Spelled uri port text) :
    Normal text := by
  have web := web_of_loopback read loopback port
  have rooted := web.rooted web.host
  have clean : ∀ byte ∈ queryText uri, byte ≠ 0x23 ∧ NetUrl.isControlByte byte = false := by
    intro byte found
    rw [queryText] at found
    split_ifs at found
    · obtain rfl | own := List.mem_cons.mp found
      · decide
      · exact web.query byte own
    · cases found
  have start : queryText uri = [] ∨ (queryText uri).head? = some 0x3F := by
    rw [queryText]
    split_ifs
    · exact .inr rfl
    · exact .inl rfl
  rw [Spelled] at spelled
  rw [spelled]
  exact .web uri.hostname uri.escapedPath uri.path (queryText uri) port loopback.address small
    (NetUrl.head_escapedPath rooted) (NetUrl.validEncoded_escaped uri.path uri.rawPath)
    (NetUrl.unescape_escaped uri.path uri.rawPath (by decide)) start clean

/-- The redirect that is picked is the candidate, or the candidate in normal form. -/
theorem pickRegistered_eq_iff (net : lib.Net) {registered : List Text} {candidate : Text}
    {publicClient : Bool} (picked : pickRegistered lib registered candidate publicClient ≠ []) :
    pickRegistered lib registered candidate publicClient = candidate ↔
      candidate ∈ registered ∨ Normal candidate := by
  obtain ⟨known, same⟩ |
      ⟨-, candidateURL, number, raw, parsed, asked, read, -, found, fits, same⟩ :=
    pickRegistered_cases picked
  · exact ⟨fun _ => .inl known, fun _ => same⟩
  obtain ⟨port, rfl, small⟩ := redirectPort_spec read
  rw [net.parseURL] at asked found
  obtain ⟨candidateUri, own, rfl⟩ := Option.map_eq_some_iff.mp asked
  obtain ⟨uri, listed, rfl⟩ := Option.map_eq_some_iff.mp found
  simp only [loopbackRedirectsMatch, decide_eq_true_eq] at fits
  obtain ⟨loopback, -, hostname, path, query, force⟩ := fits
  have address := ((isLoopbackRedirect_iff net).mp loopback).1
  have spelled := spelled_withPort listed address port
  rw [← registeredRedirectWithPort_eq net address, ← same] at spelled
  constructor
  · intro kept
    rw [kept] at spelled
    exact .inr (normal_of_spelled listed address small spelled)
  · rintro (known | normal)
    · rw [pickRegistered, if_pos known]
    · obtain ⟨again, port', parsed', read', text⟩ := normal.read
      obtain rfl := Option.some.inj (own.symm.trans parsed')
      obtain rfl : port = port' := Int.ofNat.inj (Option.some.inj (read.symm.trans read'))
      -- The registered redirect has the parts of the candidate.
      have parts : uri.hostname = candidateUri.hostname ∧ uri.escapedPath = candidateUri.escapedPath ∧
          queryText uri = queryText candidateUri := by
        refine ⟨hostname, path, ?_⟩
        rw [queryText, queryText, show uri.rawQuery = candidateUri.rawQuery from query,
          show uri.forceQuery = candidateUri.forceQuery from force]
      rw [Spelled] at spelled text
      rw [spelled, parts.1, parts.2.1, parts.2.2, ← text]

theorem redirectURI_handleAuthorize {request : AuthorizeRequest} {client : Client}
    {issued : AuthRequest} (accepted : handleAuthorize lib request (some client) = .ok issued) :
    issued.redirectURI ≠ [] ∧ issued.redirectURI = pickRegistered lib client.redirectURIs
      (request.query.get "redirect_uri") client.publicClient := by
  have sent : sentTo (handleAuthorize lib request (some client)) = some issued.redirectURI := by
    rw [accepted]
    rfl
  obtain ⟨known, found, some, picked⟩ := sentTo_handleAuthorize sent
  obtain ⟨same, -⟩ := Option.filter_eq_some_iff.mp found
  cases same
  exact ⟨some, picked⟩

/-- A code is redeemed with the redirect that was asked for if the redirect is registered as
it stands or in normal form, and with no other spelling. -/
theorem resolveCode_repeated (lib : Library) (net : lib.Net) (request : AuthorizeRequest)
    (client : Client) (issued : AuthRequest)
    (accepted : handleAuthorize lib request (some client) = .ok issued) (form : Values)
    (repeated : form.get "redirect_uri" = request.query.get "redirect_uri")
    (value : Text) (issuedAt expiresAt now : Time) (code : Code)
    (stored : code = ⟨value, { issued with issuedAt := issuedAt, expiresAt := expiresAt }⟩) :
    (form.get "redirect_uri" = code.req.redirectURI ↔
        request.query.get "redirect_uri" ∈ client.redirectURIs ∨
          Normal (request.query.get "redirect_uri")) ∧
      (resolveCode form issued.clientID now code = .ok code ↔
        now < expiresAt ∧ (request.query.get "redirect_uri" ∈ client.redirectURIs ∨
          Normal (request.query.get "redirect_uri"))) := by
  obtain ⟨some, picked⟩ := redirectURI_handleAuthorize accepted
  subst stored
  have compared : form.get "redirect_uri" = issued.redirectURI ↔
      request.query.get "redirect_uri" ∈ client.redirectURIs ∨
        Normal (request.query.get "redirect_uri") := by
    rw [repeated, picked, ← pickRegistered_eq_iff net (picked ▸ some), eq_comm]
  refine ⟨compared, ?_⟩
  rw [← compared, resolveCode]
  split_ifs with expired other foreign
  · simp [Int.not_lt.mpr expired]
  · simp [other]
  · exact absurd rfl foreign
  · simp [Int.not_le.mp expired, not_not.mp other]

/-- A public client whose redirect has no port. -/
def nativeClient : Client where
  id := textBytes "app"
  redirectURIs := [textBytes "http://127.0.0.1/cb"]
  publicClient := true
  secret := []
  scopes := []

def challenge : Text := List.replicate 43 0x41

def askFor (redirect : Text) : AuthorizeRequest where
  method := textBytes "GET"
  query := [(textBytes "client_id", textBytes "app"), (textBytes "redirect_uri", redirect),
    (textBytes "response_type", textBytes "code"), (textBytes "code_challenge", challenge),
    (textBytes "code_challenge_method", textBytes "S256")]
  user := textBytes "alice"

/-- What is stored when the browser is sent to `redirect`. -/
def storedFor (redirect : Text) : Code where
  value := textBytes "code"
  req := {
    clientID := textBytes "app"
    userID := textBytes "alice"
    scope := []
    redirectURI := redirect
    codeChallenge := challenge
    codeChallengeMethod := textBytes "S256"
    issuedAt := 0
    expiresAt := 10 }

def repeatOf (redirect : Text) : Values := [(textBytes "redirect_uri", redirect)]

/-- The requests with the redirect of a free port and with the same port, zero-padded. -/
theorem computed :
    ((handleAuthorize netLibrary (askFor (textBytes "http://127.0.0.1:9/cb"))
        (some nativeClient)).toOption =
      some { (storedFor (textBytes "http://127.0.0.1:9/cb")).req with issuedAt := 0, expiresAt := 0 } ∧
      textBytes "http://127.0.0.1:9/cb" = textBytes "http://" ++
        (hostPort (textBytes "127.0.0.1") (portText 9) ++ (textBytes "/cb" ++ [])) ∧
      IpAddr.isLoopback (textBytes "127.0.0.1")) ∧
    (handleAuthorize netLibrary (askFor (textBytes "http://127.0.0.1:09/cb"))
        (some nativeClient)).toOption =
      some { (storedFor (textBytes "http://127.0.0.1:9/cb")).req with issuedAt := 0, expiresAt := 0 } ∧
    resolveCode (repeatOf (textBytes "http://127.0.0.1:09/cb")) (textBytes "app") 5
        (storedFor (textBytes "http://127.0.0.1:9/cb")) =
      .error ⟨400, "invalid_grant", "redirect_uri mismatch"⟩ := by
  decide +kernel

/-- The port is free, and the redirect is not the one that is registered. -/
theorem resolveCode_repeated_port :
    resolveCode (repeatOf (textBytes "http://127.0.0.1:9/cb")) (textBytes "app") 5
        (storedFor (textBytes "http://127.0.0.1:9/cb")) =
      .ok (storedFor (textBytes "http://127.0.0.1:9/cb")) := by
  obtain ⟨⟨accepted, text, loopback⟩, -⟩ := computed
  have normal : Normal (textBytes "http://127.0.0.1:9/cb") := by
    rw [text]
    exact .web (textBytes "127.0.0.1") (textBytes "/cb") (textBytes "/cb") [] 9 loopback (by omega)
      (by decide) (by decide) (by decide) (by decide) (by simp)
  exact (resolveCode_repeated netLibrary netLibrary_net (askFor (textBytes "http://127.0.0.1:9/cb"))
    nativeClient _ (ok_of_toOption accepted) (repeatOf (textBytes "http://127.0.0.1:9/cb")) rfl
    (textBytes "code") 0 10 5 _ rfl).2.mpr ⟨by decide, .inr normal⟩

/-- A client that repeats a port with a leading zero does not get its tokens. -/
theorem resolveCode_leading_zero :
    ¬∀ (lib : Library) (_ : lib.Net) (request : AuthorizeRequest) (client : Client)
      (issued : AuthRequest), handleAuthorize lib request (some client) = .ok issued →
      ∀ form : Values, form.get "redirect_uri" = request.query.get "redirect_uri" →
        form.get "redirect_uri" = issued.redirectURI := by
  intro agreement
  obtain ⟨-, accepted, refused⟩ := computed
  have same := agreement netLibrary netLibrary_net (askFor (textBytes "http://127.0.0.1:09/cb"))
    nativeClient _ (ok_of_toOption accepted) (repeatOf (textBytes "http://127.0.0.1:09/cb")) rfl
  rw [resolveCode, if_neg (by decide), if_neg (not_not.mpr same)] at refused
  cases refused

end Golusoris.Oauth2server
