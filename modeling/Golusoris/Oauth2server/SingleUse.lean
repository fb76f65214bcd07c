import Golusoris.Oauth2server.Checks

/-!
# Codes are single-use and bound

Two invariants carry the result. `Custody` follows each issue through its life:
in the store, with one request, spent. `Provenance` keeps for every request what
the steps before have established, in terms of what has happened so far.
-/

namespace Golusoris.Oauth2server

open List
open Function (update update_of_ne update_self)
open Lib

variable {options : Options} {history events : List Event} {event : Event}
variable {state next finish : State}

variable {worker : Nat} {work : Option Work}

/-- A request after another one has moved is that one, or stands as before. -/
theorem State.put_works {other : Nat} {found : Work}
    (stands : (state.put worker work).works other = some found) :
    (other = worker ∧ work = some found) ∨ (other ≠ worker ∧ state.works other = some found) := by
  by_cases same : other = worker
  · subst same
    exact .inl ⟨rfl, by simpa [State.put] using stands⟩
  · exact .inr ⟨same, by simpa [State.put, same] using stands⟩

/-- Where the code of an issue may be. -/
inductive Place where
  | pending
  | stored (value : Text)
  | held (worker : Nat)
  | spent

def Event.mints (number : Nat) : Event → Bool
  | .minted mint => mint.issue = number
  | _ => false

/-- The tokens minted for an issue. -/
def mintCount (number : Nat) (events : List Event) : Nat :=
  events.countP (Event.mints number)

/-- Every issue has one place, and the store, the requests and the tokens
already minted agree with it. -/
structure Custody (place : Nat → Place) (history : List Event) (state : State) : Prop where
  pending : ∀ number, state.issues ≤ number → place number = .pending
  stored : ∀ {value : Text} {entry : Entry}, state.codes.lookup value = some entry →
    place entry.issue = .stored value
  held : ∀ {worker : Nat} {work : Work} {number : Nat}, state.works worker = some work →
    work.holds = some number → place number = .held worker
  spent : ∀ number, place number ≠ .spent → mintCount number history = 0
  once : ∀ number, mintCount number history ≤ 1

variable {place : Nat → Place}

theorem mintCount_snoc (number : Nat) :
    mintCount number (history ++ [event]) =
      mintCount number history + if event.mints number then 1 else 0 := by
  simp [mintCount, countP_append, countP_singleton]

variable (custody : Custody place history state)

include custody in
/-- A step that mints nothing and moves one request, which then holds at most
what it held, keeps the custody of every issue. -/
theorem Custody.put (quiet : ∀ number, event.mints number = false)
    (kept : ∀ {found : Work} {number : Nat}, work = some found → found.holds = some number →
      ∃ old, state.works worker = some old ∧ old.holds = some number) :
    Custody place (history ++ [event]) (state.put worker work) where
  pending := custody.pending
  stored := custody.stored
  held := by
    intro other found number stands holds
    rcases State.put_works stands with ⟨rfl, moved⟩ | ⟨_, before⟩
    · obtain ⟨old, stood, held⟩ := kept moved holds
      exact custody.held stood held
    · exact custody.held before holds
  spent := by
    intro number unspent
    simpa [mintCount_snoc, quiet number] using custody.spent number unspent
  once := by
    intro number
    simpa [mintCount_snoc, quiet number] using custody.once number

variable {value : Text}

include custody in
/-- Storing a code gives its issue a place; an overwritten code is lost. -/
theorem Custody.issue {code : Code} {issue : Issue} :
    Custody (update place state.issues (.stored value)) (history ++ [.issued issue])
      { state.put worker none with
        codes := state.codes.insert value ⟨code, state.issues⟩
        issues := state.issues + 1 } where
  pending := by
    intro number later
    rw [update_of_ne (by simp at later; omega)]
    exact custody.pending number (Nat.le_of_succ_le later)
  stored := by
    intro other entry found
    by_cases same : other = value
    · subst same
      simp only [Finmap.lookup_insert, Option.some.injEq] at found
      rw [← found, update_self]
    · simp only [Finmap.lookup_insert_of_ne _ same] at found
      have placed := custody.stored found
      have older : entry.issue ≠ state.issues := by
        intro fresh
        rw [fresh, custody.pending _ le_rfl] at placed
        cases placed
      rw [update_of_ne older, placed]
  held := by
    intro other found number stands holds
    rcases State.put_works stands with ⟨_, moved⟩ | ⟨_, before⟩
    · cases moved
    have placed := custody.held before holds
    have older : number ≠ state.issues := by
      intro fresh
      rw [fresh, custody.pending _ le_rfl] at placed
      cases placed
    rw [update_of_ne older, placed]
  spent := by
    intro number unspent
    have before : mintCount number history = 0 := by
      by_cases fresh : number = state.issues
      · apply custody.spent
        rw [fresh, custody.pending _ le_rfl]
        simp
      · rw [update_of_ne fresh] at unspent
        exact custody.spent number unspent
    simpa [mintCount_snoc, Event.mints] using before
  once := by
    intro number
    simpa [mintCount_snoc, Event.mints] using custody.once number

variable {session : Session} {entry : Entry}

include custody in
/-- `Take` moves a code from the store to the request. -/
theorem Custody.take (found : state.codes.lookup value = some entry) :
    Custody (update place entry.issue (.held worker)) (history ++ [.silent])
      { state.put worker (some (.resolving session entry)) with
        codes := state.codes.erase value } where
  pending := by
    intro number later
    have placed := custody.stored found
    have older : number ≠ entry.issue := by
      rintro rfl
      rw [custody.pending _ later] at placed
      cases placed
    rw [update_of_ne older]
    exact custody.pending number later
  stored := by
    intro other stored lookup
    by_cases same : other = value
    · subst same
      simp at lookup
    · simp only [Finmap.lookup_erase_ne same] at lookup
      have placed := custody.stored lookup
      have differs : stored.issue ≠ entry.issue := by
        intro equal
        rw [equal, custody.stored found, Place.stored.injEq] at placed
        exact same placed.symm
      rw [update_of_ne differs, placed]
  held := by
    intro other work number stands holds
    rcases State.put_works stands with ⟨rfl, moved⟩ | ⟨_, before⟩
    · rw [Option.some.injEq] at moved
      subst moved
      cases holds
      exact update_self ..
    · have placed := custody.held before holds
      have differs : number ≠ entry.issue := by
        rintro rfl
        rw [custody.stored found] at placed
        cases placed
      rw [update_of_ne differs, placed]
  spent := by
    intro number unspent
    have before : mintCount number history = 0 := by
      by_cases same : number = entry.issue
      · apply custody.spent
        rw [same, custody.stored found]
        simp
      · rw [update_of_ne same] at unspent
        exact custody.spent number unspent
    simpa [mintCount_snoc, Event.mints] using before
  once := by
    intro number
    simpa [mintCount_snoc, Event.mints] using custody.once number

include custody in
/-- Minting spends the issue that the request held. -/
theorem Custody.mint {work : Work} {mint : Mint} (stands : state.works worker = some work)
    (holds : work.holds = some mint.issue) :
    Custody (update place mint.issue .spent) (history ++ [.minted mint])
      (state.put worker none) where
  pending := by
    intro number later
    have placed := custody.held stands holds
    have older : number ≠ mint.issue := by
      rintro rfl
      rw [custody.pending _ later] at placed
      cases placed
    rw [update_of_ne older]
    exact custody.pending number later
  stored := by
    intro value entry lookup
    have placed := custody.stored lookup
    have differs : entry.issue ≠ mint.issue := by
      intro equal
      rw [equal, custody.held stands holds] at placed
      cases placed
    rw [update_of_ne differs]
    exact placed
  held := by
    intro other found number stood held
    rcases State.put_works stood with ⟨_, moved⟩ | ⟨apart, before⟩
    · cases moved
    have placed := custody.held before held
    have differs : number ≠ mint.issue := by
      rintro rfl
      rw [custody.held stands holds, Place.held.injEq] at placed
      exact apart placed.symm
    rw [update_of_ne differs, placed]
  spent := by
    intro number unspent
    have differs : number ≠ mint.issue := by
      rintro rfl
      simp at unspent
    rw [update_of_ne differs] at unspent
    simpa [mintCount_snoc, Event.mints, Ne.symm differs] using custody.spent number unspent
  once := by
    intro number
    by_cases same : number = mint.issue
    · have before : mintCount number history = 0 := by
        apply custody.spent
        rw [same, custody.held stands holds]
        simp
      simp [mintCount_snoc, before]
      split <;> simp
    · simpa [mintCount_snoc, Event.mints, Ne.symm same] using custody.once number

include custody in
theorem custody_step (step : Step options state event next) :
    ∃ place', Custody place' (history ++ [event]) next := by
  cases step with
  | register _ | tokenRefused _ _ =>
    refine ⟨place, custody.pending, custody.stored, custody.held, ?_, ?_⟩
    · intro number unspent
      simpa [mintCount_snoc, Event.mints] using custody.spent number unspent
    · intro number
      simpa [mintCount_snoc, Event.mints] using custody.once number
  | issue value now stands => exact ⟨_, custody.issue⟩
  | take stands found => exact ⟨_, custody.take found⟩
  | mint jti now stands => exact ⟨_, custody.mint stands rfl⟩
  | resolved now stands accepted =>
    refine ⟨place, custody.put (fun _ => rfl) ?_⟩
    intro found number moved holds
    cases moved
    exact ⟨_, stands, holds⟩
  | authorize _ _ | authorized _ _ | token _ _ _ | authenticated _ _ =>
    exact ⟨place, custody.put (fun _ => rfl) (by rintro _ _ ⟨⟩ ⟨⟩)⟩
  | authorizeRefused _ _ | issueFailed _ | clientRefused _ _ | notFound _ _ | codeRefused _ _ _
  | mintFailed _ =>
    exact ⟨place, custody.put (fun _ => rfl) (nofun)⟩

theorem server_custody (run : (server options).Run events finish) :
    ∃ place, Custody place events finish := by
  refine run.history_invariant (fun history state => ∃ place, Custody place history state) ?_ ?_
  · rintro _ rfl
    refine ⟨fun _ => .pending, fun _ _ => rfl, ?_, ?_, fun _ _ => rfl, fun _ => Nat.zero_le _⟩
    · intro value entry found
      simp at found
    · intro worker work number stands
      cases stands
  · rintro history before event after ⟨place, custody⟩ step
    exact custody_step custody step

/-- What authenticating the client has established of a token request. -/
structure Known (history : List Event) (session : Session) : Prop where
  registered : .registered session.client ∈ history
  parsed : session.request.form = some session.form
  credentials : clientCredentials session.request session.form =
    .ok (session.client.id, session.secret)
  authenticated : session.client.publicClient = true ∨ session.secret = session.client.secret

/-- The code is the one that the request named, and it was issued. -/
def Taken (history : List Event) (value : Text) (entry : Entry) : Prop :=
  entry.code.value = value ∧ ∃ request, .issued ⟨entry.issue, request, entry.code⟩ ∈ history

/-- What the steps so far have established of a request. -/
def Established (options : Options) (history : List Event) : Work → Prop
  | .authorizing _ => True
  | .issuing request draft => Draft request draft
  | .exchanging request form id secret => tokenCredentials request = .ok (form, id, secret)
  | .taking session => Known history session
  | .resolving session entry =>
      Known history session ∧ Taken history (session.form.get "code") entry
  | .minting session entry checkedAt req =>
      Known history session ∧ Taken history (session.form.get "code") entry ∧
        Accepted options.library session.form session.client checkedAt entry.code req

def Event.issueNumber : Event → Option Nat
  | .issued issue => some issue.number
  | _ => none

structure Provenance (options : Options) (history : List Event) (state : State) : Prop where
  clients : ∀ {id : Text} {client : Client}, state.clients.lookup id = some client →
    .registered client ∈ history
  codes : ∀ {value : Text} {entry : Entry}, state.codes.lookup value = some entry →
    Taken history value entry
  works : ∀ {worker : Nat} {work : Work}, state.works worker = some work →
    Established options history work
  issues : ∀ {issue : Issue}, .issued issue ∈ history → Draft issue.request issue.code.req
  numbers : history.filterMap Event.issueNumber = List.range state.issues

theorem Known.snoc (known : Known history session) : Known (history ++ [event]) session :=
  { known with registered := mem_append_left _ known.registered }

theorem Taken.snoc (taken : Taken history value entry) :
    Taken (history ++ [event]) value entry := by
  obtain ⟨named, request, issued⟩ := taken
  exact ⟨named, request, mem_append_left _ issued⟩

/-- What is established stays so as more happens. -/
theorem Established.snoc {work : Work} (established : Established options history work) :
    Established options (history ++ [event]) work := by
  cases work with
  | authorizing request => trivial
  | issuing _ _ | exchanging _ _ _ _ => exact established
  | taking session => exact Known.snoc established
  | resolving session entry => exact ⟨established.1.snoc, established.2.snoc⟩
  | minting session entry checkedAt req =>
    exact ⟨established.1.snoc, established.2.1.snoc, established.2.2⟩

theorem mem_snoc_of_issueNumber_none {issue : Issue} (none : event.issueNumber = none)
    (member : .issued issue ∈ history ++ [event]) : .issued issue ∈ history := by
  rcases mem_append.mp member with before | last
  · exact before
  · rw [← mem_singleton.mp last] at none
    cases none

theorem issueNumbers_snoc (none : event.issueNumber = none) :
    (history ++ [event]).filterMap Event.issueNumber = history.filterMap Event.issueNumber := by
  simp [filterMap_append, none]

variable (provenance : Provenance options history state)

include provenance in
/-- A step that issues nothing and moves one request keeps the provenance if the
new stand of the request is established. -/
theorem Provenance.put (none : event.issueNumber = none)
    (established : ∀ {found : Work}, work = some found → Established options history found) :
    Provenance options (history ++ [event]) (state.put worker work) where
  clients found := mem_append_left _ (provenance.clients found)
  codes found := (provenance.codes found).snoc
  works := by
    intro other found stands
    rcases State.put_works stands with ⟨_, moved⟩ | ⟨_, before⟩
    · exact (established moved).snoc
    · exact (provenance.works before).snoc
  issues member := provenance.issues (mem_snoc_of_issueNumber_none none member)
  numbers := (issueNumbers_snoc none).trans provenance.numbers

include provenance in
theorem Provenance.register {client : Client} :
    Provenance options (history ++ [.registered client])
      { state with clients := state.clients.insert client.id client } where
  clients := by
    intro id other found
    by_cases same : id = client.id
    · subst same
      simp only [Finmap.lookup_insert, Option.some.injEq] at found
      simp [found]
    · rw [Finmap.lookup_insert_of_ne _ same] at found
      exact mem_append_left _ (provenance.clients found)
  codes found := (provenance.codes found).snoc
  works stands := (provenance.works stands).snoc
  issues member := provenance.issues (mem_snoc_of_issueNumber_none rfl member)
  numbers := (issueNumbers_snoc rfl).trans provenance.numbers

include provenance in
theorem Provenance.issue {request : AuthorizeRequest} {draft : AuthRequest} {now : Time}
    (drafted : Draft request draft) :
    Provenance options (history ++ [.issued ⟨state.issues, request, stamp options draft value now⟩])
      { state.put worker none with
        codes := state.codes.insert value ⟨stamp options draft value now, state.issues⟩
        issues := state.issues + 1 } where
  clients found := mem_append_left _ (provenance.clients found)
  codes := by
    intro other entry found
    by_cases same : other = value
    · subst same
      simp only [Finmap.lookup_insert, Option.some.injEq] at found
      subst found
      exact ⟨rfl, request, by simp⟩
    · simp only [Finmap.lookup_insert_of_ne _ same] at found
      exact (provenance.codes found).snoc
  works := by
    intro other found stands
    rcases State.put_works stands with ⟨_, moved⟩ | ⟨_, before⟩
    · cases moved
    · exact (provenance.works before).snoc
  issues := by
    intro issue member
    rcases mem_append.mp member with before | last
    · exact provenance.issues before
    · obtain rfl := Event.issued.inj (mem_singleton.mp last)
      exact ⟨drafted.clientID, drafted.userID, drafted.authenticated, drafted.scope⟩
  numbers := by
    rw [filterMap_append, provenance.numbers, range_succ]
    simp [Event.issueNumber]

include provenance in
theorem Provenance.take (stands : state.works worker = some (.taking session))
    (found : state.codes.lookup (session.form.get "code") = some entry) :
    Provenance options (history ++ [.silent])
      { state.put worker (some (.resolving session entry)) with
        codes := state.codes.erase (session.form.get "code") } := by
  have moved : Provenance options (history ++ [.silent])
      (state.put worker (some (.resolving session entry))) := by
    apply provenance.put rfl
    rintro _ ⟨⟩
    exact ⟨provenance.works stands, provenance.codes found⟩
  refine ⟨moved.clients, ?_, moved.works, moved.issues, moved.numbers⟩
  intro value other lookup
  by_cases same : value = session.form.get "code"
  · subst same
    simp at lookup
  · simp only [Finmap.lookup_erase_ne same] at lookup
    exact moved.codes lookup

include provenance in
theorem provenance_step (step : Step options state event next) :
    Provenance options (history ++ [event]) next := by
  cases step with
  | register valid => exact provenance.register
  | issue value now stands => exact provenance.issue (provenance.works stands)
  | take stands found => exact provenance.take stands found
  | tokenRefused request refused =>
    exact ⟨fun found => mem_append_left _ (provenance.clients found),
      fun found => (provenance.codes found).snoc, fun stands => (provenance.works stands).snoc,
      fun member => provenance.issues (mem_snoc_of_issueNumber_none rfl member),
      (issueNumbers_snoc rfl).trans provenance.numbers⟩
  | authorize request idle =>
    apply provenance.put rfl
    rintro _ ⟨⟩
    trivial
  | authorized stands accepted =>
    apply provenance.put rfl
    rintro _ ⟨⟩
    exact handleAuthorize_spec accepted
  | token request idle accepted =>
    apply provenance.put rfl
    rintro _ ⟨⟩
    exact accepted
  | authenticated stands accepted =>
    apply provenance.put rfl
    rintro _ ⟨⟩
    obtain ⟨present, rfl, proved⟩ := authenticateClient_spec accepted
    obtain ⟨parsed, credentials⟩ := tokenCredentials_spec (provenance.works stands)
    exact ⟨provenance.clients present, parsed, credentials, proved⟩
  | resolved now stands accepted =>
    apply provenance.put rfl
    rintro _ ⟨⟩
    obtain ⟨known, taken⟩ := provenance.works stands
    exact ⟨known, taken, checkCode_spec accepted⟩
  | authorizeRefused _ _ | issueFailed _ | clientRefused _ _ | notFound _ _ | codeRefused _ _ _
  | mintFailed _ | mint _ _ _ =>
    apply provenance.put rfl
    rintro _ ⟨⟩

theorem server_provenance (run : (server options).Run events finish) :
    Provenance options events finish := by
  refine run.history_invariant (Provenance options) ?_ ?_
  · rintro _ rfl
    refine ⟨?_, ?_, ?_, ?_, rfl⟩
    · intro id client found
      simp at found
    · intro value entry found
      simp at found
    · intro worker work stands
      cases stands
    · intro issue member
      cases member
  · intro history before event after provenance step
    exact provenance_step provenance step

/-- A token is bound to the issue of the code that it was minted for. -/
structure Bound (options : Options) (issue : Issue) (mint : Mint) : Prop where
  credentials : clientCredentials mint.session.request mint.session.form =
    .ok (mint.session.client.id, mint.session.secret)
  authenticated : mint.session.client.publicClient = true ∨
    mint.session.secret = mint.session.client.secret
  code : mint.session.form.get "code" = issue.code.value
  clientID : issue.code.req.clientID = mint.session.client.id
  authorizedClient : issue.request.query.get "client_id" = mint.session.client.id
  redirect : mint.session.form.get "redirect_uri" = issue.code.req.redirectURI
  unexpired : mint.checkedAt < issue.code.req.expiresAt
  verifier : options.library.s256 (mint.session.form.get "code_verifier") =
    issue.code.req.codeChallenge
  scopes : ∀ scope ∈ scopesOf mint.claims.scope, scope ∈ mint.session.client.scopes ∧
    scope ∈ scopesOf (issue.request.query.get "scope")
  subject : mint.claims.subject = issue.request.user ∧ issue.request.user ≠ []

include provenance in
/-- A minting step signs what the request has established. -/
theorem mint_bound {mint : Mint} (step : Step options state (.minted mint) next) :
    ∃ issue, .issued issue ∈ history ∧ issue.number = mint.issue ∧
      .registered mint.session.client ∈ history ∧ Bound options issue mint := by
  cases step with
  | mint jti now stands =>
    obtain ⟨known, ⟨named, request, issued⟩, accepted⟩ := provenance.works stands
    have drafted := provenance.issues issued
    refine ⟨_, issued, rfl, known.registered, ?_⟩
    exact {
      credentials := known.credentials
      authenticated := known.authenticated
      code := named.symm
      clientID := accepted.sameClient.symm
      authorizedClient := drafted.clientID.symm.trans accepted.sameClient.symm
      redirect := accepted.redirect
      unexpired := accepted.unexpired
      verifier := accepted.verifier.symm
      scopes := fun scope member =>
        ⟨(accepted.scope scope member).1,
          drafted.scope scope (accepted.scope scope member).2⟩
      subject := ⟨accepted.userID.trans drafted.userID, drafted.authenticated⟩ }

/-- In every run each issue leads to at most one token, and every token was
minted for a registered client that authenticated, from a code issued before to
that client, with every check of the code passed. -/
theorem codes_single_use_and_bound (run : (server options).Run events finish) :
    (events.filterMap Event.issueNumber).Nodup ∧
    (∀ number, mintCount number events ≤ 1) ∧
    ∀ earlier mint later, events = earlier ++ .minted mint :: later →
      ∃ issue, .issued issue ∈ earlier ∧ issue.number = mint.issue ∧
        .registered mint.session.client ∈ earlier ∧ Bound options issue mint := by
  obtain ⟨place, custody⟩ := server_custody run
  refine ⟨?_, custody.once, ?_⟩
  · rw [(server_provenance run).numbers]
    exact List.nodup_range
  · rintro earlier mint later rfl
    obtain ⟨before, after, first, step, _⟩ := run.cut
    exact mint_bound (server_provenance first) step

def sampleRedirect : Text := textBytes "https://app.example/cb"

def sampleVerifier : Text := textBytes "dBjftJeZ4CVP-mB92K27uhbUJU1p1r_wW1gFWFOEjXk"

def sampleChallenge : Text := textBytes "E9Melhoa2OwvFrEMTJguCHaoeK1t8URWbuGJSstw-cM"

/-- The library on the one redirect and the one verifier of the run. -/
def sampleLibrary : Library where
  parseURL text :=
    if text = sampleRedirect then
      some {
        scheme := textBytes "https"
        hasUser := false
        host := textBytes "app.example"
        hostname := textBytes "app.example"
        port := []
        path := textBytes "/cb"
        escapedPath := textBytes "/cb"
        rawQuery := []
        forceQuery := false
        fragment := []
        opaqueData := [] }
    else none
  urlString _ := sampleRedirect
  isLoopbackIP _ := false
  joinHostPort host port := host ++ [0x3a] ++ port
  s256 _ := sampleChallenge

def sampleOptions : Options where
  issuer := textBytes "https://issuer.example"
  accessTTL := 3600
  codeTTL := 60
  library := sampleLibrary

def sampleClient : Client where
  id := textBytes "app"
  redirectURIs := [sampleRedirect]
  publicClient := false
  secret := textBytes "s3cret"
  scopes := [textBytes "read", textBytes "write"]

def sampleAuthorize : AuthorizeRequest where
  method := textBytes "GET"
  query := [(textBytes "client_id", textBytes "app"),
    (textBytes "redirect_uri", sampleRedirect),
    (textBytes "response_type", textBytes "code"),
    (textBytes "code_challenge", sampleChallenge),
    (textBytes "code_challenge_method", textBytes "S256"),
    (textBytes "scope", textBytes "read read")]
  user := textBytes "alice"

def sampleDraft : AuthRequest where
  clientID := textBytes "app"
  userID := textBytes "alice"
  scope := textBytes "read"
  redirectURI := sampleRedirect
  codeChallenge := sampleChallenge
  codeChallengeMethod := textBytes "S256"

def sampleForm : Values :=
  [(textBytes "grant_type", textBytes "authorization_code"),
    (textBytes "client_id", textBytes "app"),
    (textBytes "client_secret", textBytes "s3cret"),
    (textBytes "code", textBytes "c0de"),
    (textBytes "redirect_uri", sampleRedirect),
    (textBytes "code_verifier", sampleVerifier)]

def sampleToken : TokenRequest where
  method := textBytes "POST"
  form := some sampleForm
  authorization := []
  basic := none

def sampleSession : Session := ⟨sampleToken, sampleForm, textBytes "s3cret", sampleClient⟩

def sampleIssue : Issue :=
  ⟨0, sampleAuthorize, stamp sampleOptions sampleDraft (textBytes "c0de") 1000⟩

def sampleMint : Mint where
  session := sampleSession
  issue := 0
  checkedAt := 1059
  claims := mintAccessToken sampleOptions.issuer sampleOptions.accessTTL (textBytes "app")
    sampleIssue.code.req (textBytes "jti") 1060

def sampleEvents : List Event :=
  [.registered sampleClient, .silent, .silent, .issued sampleIssue, .silent, .silent, .silent,
    .silent, .minted sampleMint]

theorem sampleEvents_run : ∃ finish, (server sampleOptions).Run sampleEvents finish := by
  have start : (server sampleOptions).Run [] {} := ⟨{}, rfl, .nil _⟩
  have registered := start.snoc (@Step.register sampleOptions _ sampleClient rfl)
  have arrived := registered.snoc (@Step.authorize sampleOptions _ 0 sampleAuthorize rfl)
  have authorized := arrived.snoc
    (@Step.authorized sampleOptions _ 0 sampleAuthorize sampleDraft rfl rfl)
  have issued := authorized.snoc
    (@Step.issue sampleOptions _ 0 sampleAuthorize sampleDraft (textBytes "c0de") 1000 rfl)
  have posted := issued.snoc
    (@Step.token sampleOptions _ 1 sampleToken sampleForm (textBytes "app") (textBytes "s3cret")
      rfl rfl)
  have authenticated := posted.snoc
    (@Step.authenticated sampleOptions _ 1 sampleToken sampleForm (textBytes "app")
      (textBytes "s3cret") sampleClient rfl rfl)
  have taken := authenticated.snoc
    (@Step.take sampleOptions _ 1 sampleSession ⟨sampleIssue.code, 0⟩ rfl rfl)
  have resolved := taken.snoc
    (@Step.resolved sampleOptions _ 1 sampleSession ⟨sampleIssue.code, 0⟩ sampleIssue.code.req
      1059 rfl rfl)
  have minted := resolved.snoc
    (@Step.mint sampleOptions _ 1 sampleSession ⟨sampleIssue.code, 0⟩ 1059 sampleIssue.code.req
      (textBytes "jti") 1060 rfl)
  exact ⟨_, minted⟩

theorem sampleEvents_bound :
    mintCount 0 sampleEvents = 1 ∧ ∃ issue, issue.number = 0 ∧
      Bound sampleOptions issue sampleMint := by
  obtain ⟨finish, run⟩ := sampleEvents_run
  obtain ⟨issue, _, number, _, bound⟩ := (codes_single_use_and_bound run).2.2
    (sampleEvents.take 8) sampleMint [] rfl
  exact ⟨rfl, issue, number, bound⟩

end Golusoris.Oauth2server
