import Golusoris.Lib.NetUrlText
import Golusoris.Oauth2server.Server

/-!
# Where a browser is sent

A redirect is a registered one as it stands, or one that `registeredRedirectWithPort`
builds from a registered one and a number. Read again it differs from the registered
one in its port only: the host is an address, so writing it escapes nothing, and the
path is written in the escaped form that was compared.
-/

namespace Golusoris.Oauth2server

open Lib
open Lib.NetUrl (Rooted Shape Url Web hostPort parse)
open NetUrl

/-- What the server looks at. -/
def URL.of (url : Url) : URL where
  scheme := url.scheme
  hasUser := url.user.isSome
  host := url.host
  hostname := url.hostname
  port := url.port
  path := url.path
  escapedPath := url.escapedPath
  rawQuery := url.rawQuery
  forceQuery := url.forceQuery
  fragment := url.fragment
  opaqueData := url.opaqueData

/-- `net.JoinHostPort`. -/
def joinHostPort (host port : Bytes) : Bytes :=
  if 0x3A ∈ host ∨ 0x25 ∈ host then 0x5B :: (host ++ 0x5D :: 0x3A :: port)
  else host ++ 0x3A :: port

structure Library.Net (lib : Library) : Prop where
  parseURL : ∀ text, lib.parseURL text = (parse text).map URL.of
  /-- Nothing else is written than the URL of a host without a user and a fragment. -/
  urlString : ∀ (url : Url) (host : Bytes), url.user = none → url.fragment = [] → host ≠ [] →
    lib.urlString { URL.of url with host := host } = { url with host := host }.string
  isLoopbackIP : ∀ host, lib.isLoopbackIP host = IpAddr.isLoopback host
  joinHostPort : ∀ host port, lib.joinHostPort host port = Oauth2server.joinHostPort host port

/-- A port in decimal; none is zero. -/
def portText (port : Nat) : Bytes := if port = 0 then [] else textBytes (toString (port : Int))

theorem textBytes_toString (value : Nat) :
    textBytes (toString (value : Int)) = Utf8.encode (Nat.toDigits 10 value) := by
  have shown : toString (value : Int) = Nat.repr value := rfl
  rw [textBytes, shown, Nat.repr_eq_ofList_toDigits, String.toList_ofList]

theorem isDigit_encode {text : List Char} (digits : ∀ rune ∈ text, rune.isDigit) :
    (Utf8.encode text).all Digits.isDigit := by
  induction text with
  | nil => rfl
  | cons rune rest ih =>
    obtain ⟨own, later⟩ := List.forall_mem_cons.mp digits
    have range : 48 ≤ rune.toNat ∧ rune.toNat ≤ 57 := by
      simpa [Char.isDigit, UInt32.le_iff_toNat_le] using own
    rw [Utf8.encode_cons, Utf8.encodeChar_ascii (by omega), List.all_append, ih later, Bool.and_true]
    have zero : (0x30 : UInt8).toNat = 48 := rfl
    have nine : (0x39 : UInt8).toNat = 57 := rfl
    simp only [List.all_cons, List.all_nil, Bool.and_true, Digits.isDigit, Bool.and_eq_true,
      decide_eq_true_eq, UInt8.le_iff_toNat_le, UInt8.toNat_ofNat', zero, nine]
    omega

theorem isDigit_toString (value : Nat) : (textBytes (toString (value : Int))).all Digits.isDigit := by
  rw [textBytes_toString]
  exact isDigit_encode fun rune found => Nat.isDigit_of_mem_toDigits (by omega) (by omega) found

theorem toString_ne_nil (value : Nat) : textBytes (toString (value : Int)) ≠ [] := by
  rw [textBytes_toString]
  intro empty
  have none : Nat.toDigits 10 value = [] := Utf8.encode_injective empty
  exact Nat.toDigits_ne_nil none

theorem isDigit_portText (port : Nat) : (portText port).all Digits.isDigit := by
  rw [portText]
  split_ifs
  · rfl
  · exact isDigit_toString port

theorem redirectPort_spec {port : Text} {number : Int} (read : redirectPort port = some number) :
    ∃ value : Nat, number = value ∧ value ≤ 65535 := by
  rw [redirectPort] at read
  split_ifs at read with none
  · cases read
    exact ⟨0, rfl, by omega⟩
  · obtain ⟨-, range⟩ := Option.filter_eq_some_iff.mp read
    simp only [decide_eq_true_eq] at range
    exact ⟨number.toNat, by omega, by omega⟩

/-- A URI of an address of the loopback interface. -/
structure Loopback (uri : Url) : Prop where
  scheme : uri.scheme = textBytes "http"
  user : uri.user = none
  fragment : uri.fragment = []
  opaqueData : uri.opaqueData = []
  address : IpAddr.isLoopback uri.hostname

/-- The target is the registered URI with another port, or with none. -/
structure OnlyPort (uri target : Url) (port : Nat) : Prop where
  scheme : target.scheme = uri.scheme
  user : target.user = none
  hostname : target.hostname = uri.hostname
  port : target.port = portText port
  path : target.path = uri.path
  escapedPath : target.escapedPath = uri.escapedPath
  rawQuery : target.rawQuery = uri.rawQuery
  forceQuery : target.forceQuery = uri.forceQuery
  fragment : target.fragment = []
  opaqueData : target.opaqueData = []

variable {lib : Library}

theorem isLoopbackRedirect_iff (net : lib.Net) {uri : Url} :
    isLoopbackRedirect lib (URL.of uri) ↔ Loopback uri ∧ (redirectPort uri.port).isSome := by
  simp only [isLoopbackRedirect, URL.of, net.isLoopbackIP, decide_eq_true_eq]
  constructor
  · rintro ⟨scheme, user, fragment, opaqueData, address, port⟩
    exact ⟨⟨scheme, by simpa using user, fragment, opaqueData, address⟩, port⟩
  · rintro ⟨loopback, port⟩
    exact ⟨loopback.scheme, by simp [loopback.user], loopback.fragment, loopback.opaqueData,
      loopback.address, port⟩

theorem joinHostPort_eq {host port : Bytes} (loopback : IpAddr.isLoopback host) (some : port ≠ []) :
    joinHostPort host port = hostPort host port := by
  have unzoned : 0x25 ∉ host := (not_mem_host loopback).2.2
  by_cases six : 0x3A ∈ host
  · simp [joinHostPort, hostPort, six, some]
  · simp [joinHostPort, hostPort, six, unzoned, some]

theorem registeredRedirectWithPort_eq (net : lib.Net) {uri : Url} (loopback : Loopback uri)
    (port : Nat) : registeredRedirectWithPort lib (URL.of uri) port =
      { uri with host := hostPort uri.hostname (portText port) }.string := by
  have written := net.urlString uri (hostPort uri.hostname (portText port)) loopback.user
    loopback.fragment (hostPort_ne_nil loopback.address)
  rw [registeredRedirectWithPort, ← written]
  congr 2
  by_cases none : port = 0
  · simp only [none, portText, hostPort, URL.of]
    by_cases six : 0x3A ∈ uri.hostname <;> simp [six]
  · rw [if_pos (by simpa using none), net.joinHostPort, portText, if_neg none]
    exact joinHostPort_eq loopback.address (toString_ne_nil port)

/-- A registered URI of an address, with a host that was made for it. -/
theorem web_of_loopback {raw : Bytes} {uri : Url} (read : parse raw = some uri)
    (loopback : Loopback uri) (port : Nat) :
    Web { uri with host := hostPort uri.hostname (portText port) } := by
  have shape := shape_of_parse read
  have host : uri.host ≠ [] := by
    intro none
    have address := loopback.address
    rw [Url.hostname, none] at address
    exact absurd address (by decide)
  exact {
    query := shape.query
    force := shape.force
    rooted := fun _ => shape.rooted host
    scheme := loopback.scheme
    opaqueData := loopback.opaqueData
    user := loopback.user
    host := hostPort_ne_nil loopback.address
    plain := hostPlain_hostPort loopback.address (isDigit_portText port)
    fragment := loopback.fragment }

theorem parse_withPort {raw : Bytes} {uri : Url} (read : parse raw = some uri)
    (loopback : Loopback uri) (port : Nat) :
    ∃ target, parse { uri with host := hostPort uri.hostname (portText port) }.string = some target ∧
      OnlyPort uri target port := by
  have web := web_of_loopback read loopback port
  have digits := isDigit_portText port
  have split := splitHostPort_hostPort loopback.address digits
  have hostname := congrArg Prod.fst split
  have number := congrArg Prod.snd split
  refine ⟨_, parse_string web (parseHost_hostPort loopback.address digits), ?_⟩
  exact {
    scheme := rfl
    user := loopback.user
    hostname := hostname
    port := number
    path := rfl
    escapedPath := escaped_rawHint uri.path uri.rawPath (by decide)
      (path_ne_star (web.rooted web.host))
    rawQuery := rfl
    forceQuery := rfl
    fragment := loopback.fragment
    opaqueData := loopback.opaqueData }

/-- What a client may be sent to that registered some redirects. -/
inductive Allowed (registered : List Text) (publicClient : Bool) (target : Text) : Prop where
  | verbatim : target ∈ registered → Allowed registered publicClient target
  /-- The text depends on the registered URI and on the number alone. -/
  | loopback (raw : Text) (uri redirect : Url) (port : Nat) : publicClient → raw ∈ registered →
      parse raw = some uri → Loopback uri → port ≤ 65535 →
      target = { uri with host := hostPort uri.hostname (portText port) }.string →
      parse target = some redirect → OnlyPort uri redirect port →
      Allowed registered publicClient target

/-- What picks a redirect: the candidate itself, or a registered URI and a port. -/
theorem pickRegistered_cases {registered : List Text} {candidate : Text} {publicClient : Bool}
    (picked : pickRegistered lib registered candidate publicClient ≠ []) :
    (candidate ∈ registered ∧ pickRegistered lib registered candidate publicClient = candidate) ∨
      (publicClient ∧ ∃ candidateURL port raw uri, lib.parseURL candidate = some candidateURL ∧
        redirectPort candidateURL.port = some port ∧ raw ∈ registered ∧ lib.parseURL raw = some uri ∧
        loopbackRedirectsMatch lib uri candidateURL ∧
        pickRegistered lib registered candidate publicClient =
          registeredRedirectWithPort lib uri port) := by
  by_cases known : candidate ∈ registered
  · exact .inl ⟨known, by rw [pickRegistered, if_pos known]⟩
  generalize target : pickRegistered lib registered candidate publicClient = redirect at picked ⊢
  rw [pickRegistered, if_neg known] at target
  by_cases confidential : ¬publicClient
  · rw [if_pos confidential] at target
    exact absurd target.symm picked
  rw [if_neg confidential] at target
  rw [not_not] at confidential
  cases read : lib.parseURL candidate with
  | none =>
    rw [read] at target
    exact absurd target.symm picked
  | some candidateURL =>
    simp only [read] at target
    by_cases other : ¬isLoopbackRedirect lib candidateURL
    · rw [if_pos other] at target
      exact absurd target.symm picked
    rw [if_neg other] at target
    cases number : redirectPort candidateURL.port with
    | none =>
      rw [number] at target
      exact absurd target.symm picked
    | some port =>
      simp only [number] at target
      cases found : registered.findSome? (fun raw => ((lib.parseURL raw).filter fun uri =>
          loopbackRedirectsMatch lib uri candidateURL).map fun uri =>
            registeredRedirectWithPort lib uri port) with
      | none =>
        rw [found] at target
        exact absurd target.symm picked
      | some own =>
        rw [found, Option.getD_some] at target
        obtain ⟨raw, listed, mapped⟩ := List.exists_of_findSome?_eq_some found
        obtain ⟨uri, fits, same⟩ := Option.map_eq_some_iff.mp mapped
        obtain ⟨parsed, accepted⟩ := Option.filter_eq_some_iff.mp fits
        exact .inr ⟨confidential, candidateURL, port, raw, uri, rfl, number, listed, parsed,
          by simpa using accepted, target.symm.trans same.symm⟩

/-- Where the browser is sent: at once with an error, or with the code that is issued. -/
def sentTo : Except AuthorizeReply AuthRequest → Option Text
  | .error (.redirected redirect _ _) => some redirect
  | .error (.httpError _ _) => none
  | .ok issued => some issued.redirectURI

theorem sentTo_handleAuthorize {request : AuthorizeRequest} {found : Option Client}
    {redirect : Text} (sent : sentTo (handleAuthorize lib request found) = some redirect) :
    ∃ client, registeredClient lib found (request.query.get "client_id") = some client ∧
      redirect ≠ [] ∧ redirect = pickRegistered lib client.redirectURIs
        (request.query.get "redirect_uri") client.publicClient := by
  rw [handleAuthorize] at sent
  by_cases method : request.method ≠ textBytes "GET"
  · rw [if_pos method] at sent
    cases sent
  rw [if_neg method] at sent
  cases known : registeredClient lib found (request.query.get "client_id") with
  | none =>
    rw [known] at sent
    cases sent
  | some client =>
    refine ⟨client, rfl, ?_⟩
    simp only [known] at sent
    generalize pickRegistered lib client.redirectURIs (request.query.get "redirect_uri")
      client.publicClient = picked at sent ⊢
    by_cases none : picked = []
    · rw [if_pos none] at sent
      cases sent
    rw [if_neg none] at sent
    -- Every other answer names the redirect that was picked.
    suffices same : picked = redirect from ⟨same ▸ none, same.symm⟩
    by_cases type : request.query.get "response_type" ≠ textBytes "code"
    · rw [if_pos type] at sent
      exact Option.some.inj sent
    rw [if_neg type] at sent
    cases challenge : authorizePKCE request.query with
    | none =>
      rw [challenge] at sent
      exact Option.some.inj sent
    | some proof =>
      simp only [challenge] at sent
      cases scope : authorizedScopes (request.query.get "scope") client.scopes with
      | none =>
        rw [scope] at sent
        exact Option.some.inj sent
      | some scopes =>
        simp only [scope] at sent
        by_cases user : request.user = []
        · rw [if_pos user] at sent
          cases sent
        · rw [if_neg user] at sent
          exact Option.some.inj sent

theorem pickRegistered_allowed (lib : Library) (net : lib.Net) (registered : List Text)
    (candidate : Text) (publicClient : Bool)
    (picked : pickRegistered lib registered candidate publicClient ≠ []) :
    Allowed registered publicClient (pickRegistered lib registered candidate publicClient) := by
  obtain ⟨known, same⟩ | ⟨client, _, number, raw, parsed, -, read, listed, found, fits, same⟩ :=
    pickRegistered_cases picked
  · rw [same]
    exact .verbatim known
  · obtain ⟨port, rfl, small⟩ := redirectPort_spec read
    rw [net.parseURL] at found
    obtain ⟨uri, own, rfl⟩ := Option.map_eq_some_iff.mp found
    have loopback : Loopback uri := by
      simp only [loopbackRedirectsMatch, decide_eq_true_eq] at fits
      exact ((isLoopbackRedirect_iff net).mp fits.1).1
    rw [same, registeredRedirectWithPort_eq net loopback]
    obtain ⟨redirect, again, only⟩ := parse_withPort own loopback port
    exact .loopback raw uri redirect port client listed own loopback small rfl again only

theorem escaped_escaped (mode : NetUrl.Encoding) (decoded raw : Bytes)
    (outside : mode ≠ .host ∧ mode ≠ .zone) :
    escaped mode decoded (escaped mode decoded raw) = escaped mode decoded raw := by
  have read := unescape_escaped decoded raw outside
  have valid : validEncoded (escaped mode decoded raw) mode := validEncoded_escaped decoded raw
  generalize escaped mode decoded raw = form at read valid ⊢
  by_cases some : form = []
  · subst some
    rw [unescape, Option.some.injEq] at read
    rw [← read, escaped, if_neg (by simp), if_neg (by simp)]
    rfl
  · rw [escaped, if_pos ⟨some, valid, read⟩]

/-- The URL that the server looks at, if it has no user. -/
def URL.back (uri : URL) : Url where
  scheme := uri.scheme
  opaqueData := uri.opaqueData
  host := uri.host
  path := uri.path
  rawPath := uri.escapedPath
  forceQuery := uri.forceQuery
  rawQuery := uri.rawQuery
  fragment := uri.fragment

/-- `net` and `net/url`, without the hash. -/
def netLibrary : Library where
  parseURL text := (parse text).map URL.of
  urlString uri := uri.back.string
  isLoopbackIP := IpAddr.isLoopback
  joinHostPort := joinHostPort
  s256 text := text

theorem netLibrary_net : netLibrary.Net where
  parseURL _ := rfl
  urlString url host user fragment some := by
    have path : (URL.back { URL.of url with host := host }).escapedPath =
        ({ url with host := host } : Url).escapedPath :=
      escaped_escaped .path url.path url.rawPath (by decide)
    have rebuilt := string_of_host path some rfl fragment
    have written := @string_of_host { url with host := host } _ rfl some user fragment
    exact rebuilt.trans written.symm
  isLoopbackIP _ := rfl
  joinHostPort _ _ := rfl

/-- A native client listens at port 9 instead of the registered 8080. -/
theorem pickRegistered_allowed_port :
    pickRegistered netLibrary [textBytes "http://[::1]:8080/cb"] (textBytes "http://[::1]:9/cb") true =
        textBytes "http://[::1]:9/cb" ∧
      Allowed [textBytes "http://[::1]:8080/cb"] true
        (pickRegistered netLibrary [textBytes "http://[::1]:8080/cb"]
          (textBytes "http://[::1]:9/cb") true) :=
  ⟨by decide +kernel, pickRegistered_allowed netLibrary netLibrary_net _ _ _ (by decide +kernel)⟩

end Golusoris.Oauth2server
