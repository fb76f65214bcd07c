import Golusoris.Oauth2server.Requests

/-!
# What the handlers check

One lemma for each handler: what holds of the request when it gets through. The
scopes of a stored code are text again, so the lemma on `authorizedScopes` is
about the text that it returns and not about the list that it joined.
-/

namespace Golusoris.Oauth2server

open Lib

variable {library : Library}

/-- A scope text as a request or a token has it: the empty text has no scope. -/
def scopesOf (text : Text) : List Text :=
  (text.splitOn 0x20).filter (· ≠ [])

variable {scope id : Text}

theorem mem_scopesOf {text : Text} :
    scope ∈ scopesOf text ↔ scope ∈ text.splitOn 0x20 ∧ scope ≠ [] := by
  simp [scopesOf]

theorem scopesOf_nil : scopesOf [] = [] := by
  decide

theorem validScopeToken_spec (valid : validScopeToken scope = true) :
    scope ≠ [] ∧ 0x20 ∉ scope := by
  simp only [validScopeToken, decide_eq_true_eq, List.all_eq_true] at valid
  constructor
  · exact valid.1
  · intro blank
    exact absurd (valid.2 _ blank) (by decide)

/-- The loop keeps only valid scopes that are allowed and were asked for. -/
theorem normalizeScopes_sound {allowed requested normalized result : List Text}
    (accepted : normalizeScopes allowed requested normalized = some result)
    (member : scope ∈ result) :
    scope ∈ normalized ∨ (validScopeToken scope = true ∧ scope ∈ allowed ∧ scope ∈ requested) := by
  induction requested generalizing normalized with
  | nil =>
    rw [normalizeScopes, Option.some.injEq] at accepted
    exact .inl (accepted ▸ member)
  | cons head rest ih =>
    rw [normalizeScopes] at accepted
    by_cases bad : ¬validScopeToken head ∨ head ∉ allowed
    · rw [if_pos bad] at accepted
      cases accepted
    rw [if_neg bad] at accepted
    simp only [not_or, not_not] at bad
    by_cases seen : head ∈ normalized
    · rw [if_pos seen] at accepted
      rcases ih accepted with kept | ⟨valid, permitted, asked⟩
      · exact .inl kept
      · exact .inr ⟨valid, permitted, List.mem_cons_of_mem _ asked⟩
    · rw [if_neg seen] at accepted
      rcases ih accepted with kept | ⟨valid, permitted, asked⟩
      · rcases List.mem_append.mp kept with kept | added
        · exact .inl kept
        · obtain rfl := List.mem_singleton.mp added
          exact .inr ⟨bad.1, bad.2, List.mem_cons_self⟩
      · exact .inr ⟨valid, permitted, List.mem_cons_of_mem _ asked⟩

/-- Every scope of the text that `authorizedScopes` returns is allowed and was
asked for. -/
theorem authorizedScopes_sound {requested : Text} {allowed : List Text}
    (accepted : authorizedScopes requested allowed = some scope) {one : Text}
    (member : one ∈ scopesOf scope) : one ∈ allowed ∧ one ∈ scopesOf requested := by
  unfold authorizedScopes at accepted
  by_cases long : maxScopeBytes < requested.length
  · simp [long] at accepted
  rw [if_neg long] at accepted
  by_cases empty : requested = []
  · rw [if_pos empty, Option.some.injEq] at accepted
    simp [← accepted, scopesOf_nil] at member
  rw [if_neg empty] at accepted
  by_cases many : maxRequestedScope < (requested.splitOn 0x20).length
  · simp [many] at accepted
  rw [if_neg many, Option.map_eq_some_iff] at accepted
  obtain ⟨normalized, normalizes, rfl⟩ := accepted
  have sound : ∀ one ∈ normalized, validScopeToken one = true ∧ one ∈ allowed ∧
      one ∈ requested.splitOn 0x20 := by
    intro one kept
    exact (normalizeScopes_sound normalizes kept).resolve_left List.not_mem_nil
  obtain ⟨split, nonempty⟩ := mem_scopesOf.mp member
  by_cases none : normalized = []
  · rw [none] at split
    simp at split
    exact absurd split nonempty
  rw [List.splitOn_intercalate _ (fun one kept => (validScopeToken_spec (sound one kept).1).2)
    none] at split
  exact ⟨(sound one split).2.1, mem_scopesOf.mpr ⟨(sound one split).2.2, nonempty⟩⟩

variable {found : Option Client} {client : Client}

theorem registeredClient_spec (registered : registeredClient library found id = some client) :
    found = some client ∧ client.id = id := by
  obtain ⟨present, matching⟩ := Option.filter_eq_some_iff.mp registered
  simp only [decide_eq_true_eq] at matching
  exact ⟨present, matching.1⟩

/-- What a code request says of the request that it was made for. -/
structure Draft (request : AuthorizeRequest) (draft : AuthRequest) : Prop where
  clientID : draft.clientID = request.query.get "client_id"
  userID : draft.userID = request.user
  authenticated : request.user ≠ []
  scope : ∀ scope ∈ scopesOf draft.scope, scope ∈ scopesOf (request.query.get "scope")

theorem handleAuthorize_spec {request : AuthorizeRequest} {draft : AuthRequest}
    (accepted : handleAuthorize library request found = .ok draft) : Draft request draft := by
  unfold handleAuthorize at accepted
  by_cases method : request.method ≠ textBytes "GET"
  · simp [method] at accepted
  rw [if_neg method] at accepted
  cases registered : registeredClient library found (request.query.get "client_id") with
  | none => simp [registered] at accepted
  | some client =>
    simp only [registered] at accepted
    split at accepted
    · cases accepted
    split at accepted
    · cases accepted
    cases challenged : authorizePKCE request.query with
    | none => simp [challenged] at accepted
    | some challenge =>
      cases permits : authorizedScopes (request.query.get "scope") client.scopes with
      | none => simp [challenged, permits] at accepted
      | some scope =>
        simp only [challenged, permits] at accepted
        by_cases anonymous : request.user = []
        · simp [anonymous] at accepted
        rw [if_neg anonymous, Except.ok.injEq] at accepted
        subst accepted
        exact ⟨rfl, rfl, anonymous, fun one member => (authorizedScopes_sound permits member).2⟩

variable {form : Values}

/-- `handleToken` reads the credentials and the form of a POST request for a
code. -/
theorem tokenCredentials_spec {request : TokenRequest} {secret : Text}
    (accepted : tokenCredentials request = .ok (form, id, secret)) :
    request.form = some form ∧ clientCredentials request form = .ok (id, secret) := by
  unfold tokenCredentials at accepted
  by_cases method : request.method ≠ textBytes "POST"
  · simp [method] at accepted
  rw [if_neg method] at accepted
  cases parsed : request.form with
  | none => simp [parsed] at accepted
  | some parsedForm =>
    simp only [parsed] at accepted
    by_cases grant : parsedForm.get "grant_type" ≠ textBytes "authorization_code"
    · simp [grant] at accepted
    rw [if_neg grant] at accepted
    cases given : clientCredentials request parsedForm with
    | error cause => simp [given, Except.map] at accepted
    | ok credentials =>
      simp only [given, Except.map, Except.ok.injEq, Prod.mk.injEq] at accepted
      obtain ⟨rfl, rfl⟩ := accepted
      exact ⟨rfl, given⟩

theorem authenticateClient_spec {secret : Text}
    (accepted : authenticateClient library found id secret = .ok client) :
    found = some client ∧ client.id = id ∧
      (client.publicClient = true ∨ secret = client.secret) := by
  unfold authenticateClient at accepted
  cases registered : registeredClient library found id with
  | none => simp [registered] at accepted
  | some known =>
    simp only [registered] at accepted
    by_cases bad : ¬known.publicClient = true ∧ secret ≠ known.secret
    · simp [bad] at accepted
    rw [if_neg bad, Except.ok.injEq] at accepted
    subst accepted
    obtain ⟨present, matching⟩ := registeredClient_spec registered
    refine ⟨present, matching, ?_⟩
    by_cases open_client : known.publicClient = true
    · exact .inl open_client
    · exact .inr (by_contra fun differs => bad ⟨open_client, differs⟩)

/-- What the checks of `handleToken` say of the code that was taken. -/
structure Accepted (library : Library) (form : Values) (client : Client) (now : Time)
    (code : Code) (req : AuthRequest) : Prop where
  unexpired : now < code.req.expiresAt
  redirect : form.get "redirect_uri" = code.req.redirectURI
  sameClient : client.id = code.req.clientID
  verifier : code.req.codeChallenge = library.s256 (form.get "code_verifier")
  userID : req.userID = code.req.userID
  scope : ∀ scope ∈ scopesOf req.scope, scope ∈ client.scopes ∧ scope ∈ scopesOf code.req.scope

theorem resolveCode_spec {clientID : Text} {now : Time} {code resolved : Code}
    (accepted : resolveCode form clientID now code = .ok resolved) :
    resolved = code ∧ now < code.req.expiresAt ∧
      form.get "redirect_uri" = code.req.redirectURI ∧ clientID = code.req.clientID := by
  unfold resolveCode at accepted
  by_cases expired : code.req.expiresAt ≤ now
  · simp [expired] at accepted
  rw [if_neg expired] at accepted
  by_cases redirected : form.get "redirect_uri" ≠ code.req.redirectURI
  · simp [redirected] at accepted
  rw [if_neg redirected] at accepted
  by_cases foreign : clientID ≠ code.req.clientID
  · simp [foreign] at accepted
  rw [if_neg foreign, Except.ok.injEq] at accepted
  exact ⟨accepted.symm, not_le.mp expired, not_not.mp redirected, not_not.mp foreign⟩

theorem checkCode_spec {now : Time} {code : Code} {req : AuthRequest}
    (accepted : checkCode library form client now code = .ok req) :
    Accepted library form client now code req := by
  unfold checkCode at accepted
  cases resolves : resolveCode form client.id now code with
  | error cause => simp [resolves] at accepted
  | ok resolved =>
    obtain ⟨rfl, unexpired, redirect, same⟩ := resolveCode_spec resolves
    simp only [resolves] at accepted
    cases permits : authorizedScopes resolved.req.scope client.scopes with
    | none => simp [permits] at accepted
    | some scope =>
      simp only [permits] at accepted
      by_cases failed : ¬verifyPKCE library resolved.req.codeChallenge
          resolved.req.codeChallengeMethod (form.get "code_verifier") = true
      · simp [failed] at accepted
      rw [if_neg failed, Except.ok.injEq] at accepted
      subst accepted
      simp only [not_not, verifyPKCE, decide_eq_true_eq] at failed
      exact ⟨unexpired, redirect, same, failed.2.2.2, rfl,
        fun one member => authorizedScopes_sound permits member⟩

end Golusoris.Oauth2server
