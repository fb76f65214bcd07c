import Golusoris.Idempotency.SqlSimulation
import Golusoris.Lib.Placement

/-!
# Every interleaving has a sequential order

A claim takes effect at the reservation that succeeds or at the lookup that
finds a record; a commit at the completion, or at the owner query that explains
why it failed. One case looks back: when the owner query finds the caller's own
reservation after all, it was made after the failed completion, and the commit
is placed there. `Explained` is the invariant that carries the marks along.
-/

namespace Golusoris.Idempotency

open Function (update update_of_ne update_self)
open Lib
open MemoryStore
open Session
open Request (begin claim token?)

/-- Everything the call passes to the table fits its columns. -/
def Request.Storable : Request → Prop
  | .claim _ _ _ ttl _ => 1000 ∣ ttl
  | .commit _ key token fingerprint response ttl =>
      Textual key ∧ Textual token ∧ Textual fingerprint ∧ Header.Storable response.header ∧
        -2147483648 ≤ response.statusCode ∧ response.statusCode ≤ 2147483647 ∧ 1000 ∣ ttl
  | .release _ key token => Textual key ∧ Textual token
  | .sweep _ _ => True

/-- The request is a claim with this token and fingerprint. -/
def Request.Claims (request : Request) (token fingerprint : String) : Prop :=
  ∃ ctx key ttl, request = .claim ctx key fingerprint ttl token

/-- The call passed its argument checks. -/
def Request.Valid (request : Request) : Prop :=
  ∀ answer, request.begin ≠ .returned answer

/-- The event is a step of the operation's session, at its clock reading. -/
def SessionEvent.Decides (event : SessionEvent) (operation : Operation) : Prop :=
  event.session = operation.session ∧
    ∀ time order, event.action = .statement time order → operation.time = reading time

/-- The points stand for the replies given so far. -/
structure Marked (events : List SessionEvent) (sessions : Nat → Option Session)
    (points : Nat → Option Operation) : Prop where
  /-- A point is a step of its own session, and its session got its reply. -/
  own : ∀ index operation, points index = some operation →
    (∃ event, events[index]? = some event ∧ event.Decides operation) ∧
    sessions operation.session = some ⟨operation.request, .returned (.replied operation.reply)⟩
  /-- A session that got a reply has a point. -/
  answered : ∀ id request reply, sessions id = some ⟨request, .returned (.replied reply)⟩ →
    ∃ index operation, points index = some operation ∧ operation.session = id
  /-- No session has two. -/
  once : ∀ first second left right, points first = some left → points second = some right →
    left.session = right.session → first = second

/-- The sequential operations at `points` explain the calls made so far. -/
structure Linearizes (events : List SessionEvent) (state : Replicas)
    (stores : Nat → MemoryStore) (points : Nat → Option Operation) : Prop where
  /-- The operations, in the order of their points, are a run of the store. -/
  sequential : memory.Run (Placed.operations points events.length) (stores events.length)
  marked : Marked events state.sessions points
  /-- A call that ends otherwise is a claim and holds no reservation. -/
  failed : ∀ id request failure,
    state.sessions id = some ⟨request, .returned (.failed failure)⟩ →
    ∃ token fingerprint, request.Claims token fingerprint ∧
      ∀ key row, state.table.lookup key = some row → row.token ≠ token

/-- A failed completion before the owner query: it was lost there, or a claim with
another fingerprint was given its token. -/
def Awaits (events : List SessionEvent) (state : Replicas) (stores : Nat → MemoryStore)
    (points : Nat → Option Operation) (id : Nat) (now : Time) : Request → Prop
  | .commit ctx key token fingerprint response ttl =>
      ∃ index order, events[index]? = some ⟨id, .statement now order⟩ ∧ points index = none ∧
        ((stores index).commit ctx (reading now) key token fingerprint response ttl =
            (.error .reservationLost, stores index) ∨
          ∃ other session print, state.sessions other = some session ∧
            session.request.Claims token print ∧ print ≠ fingerprint)
  | _ => True

structure Explained (events : List SessionEvent) (state : Replicas)
    (stores : Nat → MemoryStore) (points : Nat → Option Operation) : Prop where
  start : stores 0 = {}
  placed : Placed memory stores points events.length
  mirrors : state.table.Mirrors (stores events.length)
  wellFormed : state.table.WellFormed
  marked : Marked events state.sessions points
  failed : ∀ id request failure,
    state.sessions id = some ⟨request, .returned (.failed failure)⟩ →
    ∃ token fingerprint, request.Claims token fingerprint
  storable : ∀ id session, state.sessions id = some session → session.request.Storable
  valid : ∀ id session, state.sessions id = some session →
    (∃ answer, session.progress = .returned answer) ∨ session.request.Valid
  distinct : ∀ first second left right token print other, state.sessions first = some left →
    state.sessions second = some right → left.request.Claims token print →
    right.request.Claims token other → first = second
  /-- A row carries the token and the fingerprint of a claim that was granted. -/
  owners : ∀ key row, state.table.lookup key = some row →
    ∃ id request, request.Claims row.token row.fingerprint ∧
      state.sessions id = some ⟨request,
        .returned (.replied (.claimed (.ok { state := .acquired, token := row.token })))⟩
  awaits : ∀ id request now, state.sessions id = some ⟨request, .owner now⟩ →
    Awaits events state stores points id now request

variable {events : List SessionEvent} {state : Replicas} {stores : Nat → MemoryStore}
variable {points : Nat → Option Operation}

theorem Explained.linearizes (explained : Explained events state stores points) :
    Linearizes events state stores points where
  sequential := ⟨stores 0, explained.start, explained.placed.trace⟩
  marked := explained.marked
  failed := by
    intro id request failure found
    obtain ⟨token, fingerprint, claims⟩ := explained.failed id request failure found
    refine ⟨token, fingerprint, claims, ?_⟩
    rintro key row stored rfl
    -- The row's own claim was granted, and no other session has its token.
    obtain ⟨owner, other, owned, granted⟩ := explained.owners key row stored
    obtain rfl := explained.distinct id owner _ _ _ _ _ found granted claims owned
    rw [found] at granted
    cases granted

theorem explained_initial : Explained [] {} (fun _ => {}) (fun _ => none) where
  start := rfl
  placed := ⟨by simp, by simp, by simp⟩
  mirrors := by
    intro key
    simp
  wellFormed := by simp [Table.WellFormed]
  marked := ⟨by simp, by simp, by simp⟩
  failed := by simp
  storable := by simp
  valid := by simp
  distinct := by simp
  owners := by simp
  awaits := by simp

variable {index id : Nat}

section Marks

variable {sessions : Nat → Option Session} {event : SessionEvent} {session : Session}

theorem getElem?_concat {found : SessionEvent} (earlier : events[index]? = some found) :
    (events ++ [event])[index]? = some found := by
  obtain ⟨bound, _⟩ := List.getElem?_eq_some_iff.mp earlier
  rw [List.getElem?_append_left bound, earlier]

variable (marked : Marked events sessions points)
variable (pending : ∀ request answer, sessions event.session ≠ some ⟨request, .returned answer⟩)

include marked pending

/-- A session that has not returned has no point. -/
theorem Marked.unmarked {operation : Operation} (point : points index = some operation) :
    operation.session ≠ event.session := by
  intro same
  have returned := (marked.own index operation point).2
  rw [same] at returned
  exact pending _ _ returned

/-- A step that gives no reply needs no point. -/
theorem Marked.keep (unreplied : ∀ reply, session.progress ≠ .returned (.replied reply)) :
    Marked (events ++ [event]) (update sessions event.session (some session)) points where
  own := by
    intro index operation point
    obtain ⟨⟨found, earlier, decides⟩, returned⟩ := marked.own index operation point
    refine ⟨⟨found, getElem?_concat earlier, decides⟩, ?_⟩
    rw [update_of_ne (marked.unmarked pending point), returned]
  answered := by
    intro id request reply found
    by_cases same : id = event.session
    · subst same
      rw [update_self] at found
      cases found
      exact absurd rfl (unreplied reply)
    · rw [update_of_ne same] at found
      exact marked.answered id request reply found
  once := marked.once

/-- A reply is placed at a step of its session. -/
theorem Marked.place {operation : Operation} (own : operation.session = event.session)
    (unmarked : points index = none)
    (decided : ∃ found, (events ++ [event])[index]? = some found ∧ found.Decides operation)
    (replied : session = ⟨operation.request, .returned (.replied operation.reply)⟩) :
    Marked (events ++ [event]) (update sessions event.session (some session))
      (update points index (some operation)) where
  own := by
    intro other mark point
    by_cases here : other = index
    · subst here
      rw [update_self] at point
      cases point
      refine ⟨decided, ?_⟩
      rw [own, update_self, replied]
    · rw [update_of_ne here] at point
      obtain ⟨⟨found, earlier, decides⟩, returned⟩ := marked.own other mark point
      refine ⟨⟨found, getElem?_concat earlier, decides⟩, ?_⟩
      rw [update_of_ne (marked.unmarked pending point), returned]
  answered := by
    intro id request reply found
    by_cases same : id = event.session
    · exact ⟨index, operation, update_self .., own.trans same.symm⟩
    · rw [update_of_ne same] at found
      obtain ⟨other, mark, point, session⟩ := marked.answered id request reply found
      have different : other ≠ index := by
        rintro rfl
        rw [unmarked] at point
        cases point
      exact ⟨other, mark, by rw [update_of_ne different, point], session⟩
  once := by
    intro first second left right pointLeft pointRight same
    by_cases atFirst : first = index
    · by_cases atSecond : second = index
      · rw [atFirst, atSecond]
      · rw [update_of_ne atSecond] at pointRight
        subst atFirst
        rw [update_self] at pointLeft
        cases pointLeft
        exact absurd (same.symm.trans own) (marked.unmarked pending pointRight)
    · rw [update_of_ne atFirst] at pointLeft
      by_cases atSecond : second = index
      · subst atSecond
        rw [update_self] at pointRight
        cases pointRight
        exact absurd (same.trans own) (marked.unmarked pending pointLeft)
      · rw [update_of_ne atSecond] at pointRight
        exact marked.once first second left right pointLeft pointRight same

end Marks

/-- What a step does to the sessions and to the table, apart from the reply. -/
structure Handover (state : Replicas) (event : SessionEvent) (session : Session)
    (after : Replicas) : Prop where
  sessions : after.sessions = Function.update state.sessions event.session (some session)
  pending : ∀ request answer, state.sessions event.session ≠ some ⟨request, .returned answer⟩
  request : ∀ old, state.sessions event.session = some old → old.request = session.request
  fresh : state.sessions event.session = none → state.Fresh session.request
  storable : session.request.Storable
  valid : (∃ answer, session.progress = .returned answer) ∨ session.request.Valid
  failed : ∀ failure, session.progress = .returned (.failed failure) →
    ∃ token fingerprint, session.request.Claims token fingerprint
  wellFormed : after.table.WellFormed
  rows : ∀ key row, after.table.lookup key = some row →
    (∃ other old, state.table.lookup other = some old ∧ old.token = row.token ∧
      old.fingerprint = row.fingerprint) ∨
    session.request.Claims row.token row.fingerprint ∧ session.progress =
      .returned (.replied (.claimed (.ok { state := .acquired, token := row.token })))

variable {request : Request} {token fingerprint key : String}

theorem Request.Claims.token? (claims : request.Claims token fingerprint) :
    request.token? = some token := by
  obtain ⟨_, _, _, rfl⟩ := claims
  rfl

theorem stable_update (next : MemoryStore) :
    ∀ index ≤ events.length, update stores (events.length + 1) next index = stores index := by
  intro index bound
  rw [update_of_ne (by omega)]

section Step

variable {event : SessionEvent} {session : Session} {after : Replicas}
variable (explained : Explained events state stores points)
variable (handover : Handover state event session after)

include handover

theorem Handover.of_ne (different : id ≠ event.session) :
    after.sessions id = state.sessions id := by
  rw [handover.sessions, update_of_ne different]

theorem Handover.self : after.sessions event.session = some session := by
  rw [handover.sessions, update_self]

/-- A claim that was made stays made. -/
theorem Handover.claims {old : Session} {print : String} (found : state.sessions id = some old)
    (claims : old.request.Claims token print) :
    ∃ now, after.sessions id = some now ∧ now.request.Claims token print := by
  by_cases same : id = event.session
  · subst same
    exact ⟨session, handover.self, handover.request old found ▸ claims⟩
  · exact ⟨old, by rw [handover.of_ne same, found], claims⟩

include explained

theorem Handover.distinct (first second : Nat) (left right : Session)
    (token print other : String) (foundLeft : after.sessions first = some left)
    (foundRight : after.sessions second = some right) (claimsLeft : left.request.Claims token print)
    (claimsRight : right.request.Claims token other) : first = second := by
  -- A session other than the acting one cannot have the acting one's token.
  have apart : ∀ {id : Nat} {old : Session} {token print other : String},
      state.sessions id = some old → old.request.Claims token print →
      session.request.Claims token other → id = event.session := by
    intro id old token print other found claims mine
    cases known : state.sessions event.session with
    | none => exact absurd claims.token? (handover.fresh known token mine.token? id old found)
    | some prior =>
      rw [← handover.request prior known] at mine
      exact explained.distinct id event.session old prior token print other found known claims mine
  by_cases atFirst : first = event.session
  · subst atFirst
    rw [handover.self] at foundLeft
    cases foundLeft
    by_cases atSecond : second = event.session
    · exact atSecond.symm
    · rw [handover.of_ne atSecond] at foundRight
      exact (apart foundRight claimsRight claimsLeft).symm
  · rw [handover.of_ne atFirst] at foundLeft
    by_cases atSecond : second = event.session
    · subst atSecond
      rw [handover.self] at foundRight
      cases foundRight
      exact apart foundLeft claimsLeft claimsRight
    · rw [handover.of_ne atSecond] at foundRight
      exact explained.distinct first second left right token print other foundLeft foundRight
        claimsLeft claimsRight

theorem Handover.owners (key : String) (row : Row) (stored : after.table.lookup key = some row) :
    ∃ id request, request.Claims row.token row.fingerprint ∧
      after.sessions id = some ⟨request,
        .returned (.replied (.claimed (.ok { state := .acquired, token := row.token })))⟩ := by
  rcases handover.rows key row stored with ⟨other, old, earlier, token, print⟩ | ⟨claims, granted⟩
  · obtain ⟨id, request, claims, returned⟩ := explained.owners other old earlier
    have different : id ≠ event.session := by
      rintro rfl
      exact handover.pending _ _ returned
    rw [token, print] at claims
    rw [token] at returned
    exact ⟨id, request, claims, by rw [handover.of_ne different, returned]⟩
  · exact ⟨event.session, session.request, claims, by rw [handover.self, ← granted]⟩

/-- Assemble the invariant after a step from the marks it made. -/
theorem Handover.assemble {nextStores : Nat → MemoryStore} {nextPoints : Nat → Option Operation}
    (placed : Placed memory nextStores nextPoints (events.length + 1))
    (stable : ∀ index ≤ events.length, nextStores index = stores index)
    (kept : ∀ index found, events[index]? = some found → found.session ≠ event.session →
      points index = none → nextPoints index = none)
    (mirrors : after.table.Mirrors (nextStores (events.length + 1)))
    (marked : Marked (events ++ [event]) after.sessions nextPoints)
    (awaits : ∀ now, session.progress = .owner now →
      Awaits (events ++ [event]) after nextStores nextPoints event.session now session.request) :
    Explained (events ++ [event]) after nextStores nextPoints where
  start := by rw [stable 0 (Nat.zero_le _), explained.start]
  placed := by simpa using placed
  mirrors := by simpa using mirrors
  wellFormed := handover.wellFormed
  marked := marked
  failed := by
    intro id request failure found
    by_cases same : id = event.session
    · subst same
      rw [handover.self] at found
      cases found
      exact handover.failed failure rfl
    · rw [handover.of_ne same] at found
      exact explained.failed id request failure found
  storable := by
    intro id other found
    by_cases same : id = event.session
    · subst same
      rw [handover.self] at found
      cases found
      exact handover.storable
    · rw [handover.of_ne same] at found
      exact explained.storable id other found
  valid := by
    intro id other found
    by_cases same : id = event.session
    · subst same
      rw [handover.self] at found
      cases found
      exact handover.valid
    · rw [handover.of_ne same] at found
      exact explained.valid id other found
  distinct := handover.distinct explained
  owners := handover.owners explained
  awaits := by
    intro id request now found
    by_cases same : id = event.session
    · subst same
      rw [handover.self] at found
      cases found
      exact awaits now rfl
    · rw [handover.of_ne same] at found
      have waiting := explained.awaits id request now found
      cases request with
      | claim | release | sweep => trivial
      | commit ctx key token fingerprint response ttl =>
        obtain ⟨index, order, earlier, unmarked, cause⟩ := waiting
        obtain ⟨bound, _⟩ := List.getElem?_eq_some_iff.mp earlier
        refine ⟨index, order, getElem?_concat earlier, kept index _ earlier same unmarked, ?_⟩
        rw [stable index bound.le]
        rcases cause with lost | ⟨other, claimant, print, known, claims, different⟩
        · exact .inl lost
        · obtain ⟨later, knownLater, claimsLater⟩ := handover.claims known claims
          exact .inr ⟨other, later, print, knownLater, claimsLater, different⟩

/-- A step without a reply. -/
theorem Handover.quiet (mirrors : after.table.Mirrors (stores events.length))
    (unreplied : ∀ reply, session.progress ≠ .returned (.replied reply))
    (awaits : ∀ now, session.progress = .owner now →
      Awaits (events ++ [event]) after
        (update stores (events.length + 1) (stores events.length)) points event.session
        now session.request) :
    ∃ nextStores nextPoints, Explained (events ++ [event]) after nextStores nextPoints := by
  refine ⟨_, points, handover.assemble explained explained.placed.extend_quiet
    (stable_update _) (fun _ _ _ _ unmarked => unmarked) ?_ ?_ awaits⟩
  · rwa [update_self]
  · rw [handover.sessions]
    exact explained.marked.keep handover.pending unreplied

/-- A step that decides its call. -/
theorem Handover.point {next : MemoryStore} {reply : Reply} {time : Time}
    (decides : ∀ now order, event.action = .statement now order → time = reading now)
    (step : memory.Step (stores events.length) ⟨event.session, session.request, time, reply⟩ next)
    (mirrors : after.table.Mirrors next)
    (replied : session.progress = .returned (.replied reply)) :
    ∃ nextStores nextPoints, Explained (events ++ [event]) after nextStores nextPoints := by
  have unmarked : points events.length = none := explained.placed.future _ le_rfl
  refine ⟨_, _, handover.assemble explained (explained.placed.extend_step step)
    (stable_update next) ?_ ?_ ?_ ?_⟩
  · intro index found earlier _ none
    obtain ⟨bound, _⟩ := List.getElem?_eq_some_iff.mp earlier
    rw [update_of_ne bound.ne, none]
  · rwa [update_self]
  · rw [handover.sessions]
    refine explained.marked.place handover.pending rfl unmarked ⟨event, by simp, rfl, decides⟩ ?_
    rw [← replied]
  · intro now owner
    rw [replied] at owner
    cases owner

/-- A step that learns that its call was decided earlier. -/
theorem Handover.late {found : SessionEvent} {reply : Reply} (time : Time)
    (earlier : events[index]? = some found) (unmarked : points index = none)
    (decides : found.Decides ⟨event.session, session.request, time, reply⟩)
    (step : memory.Step (stores index) ⟨event.session, session.request, time, reply⟩ (stores index))
    (mirrors : after.table.Mirrors (stores events.length))
    (replied : session.progress = .returned (.replied reply)) :
    ∃ nextStores nextPoints, Explained (events ++ [event]) after nextStores nextPoints := by
  obtain ⟨bound, _⟩ := List.getElem?_eq_some_iff.mp earlier
  refine ⟨_, _, handover.assemble explained
    (explained.placed.insert bound unmarked step).extend_quiet
    (stable_update _) ?_ ?_ ?_ ?_⟩
  · intro other otherFound otherEarlier foreign none
    have different : other ≠ index := by
      rintro rfl
      rw [earlier] at otherEarlier
      cases otherEarlier
      exact foreign decides.1
    rw [update_of_ne different, none]
  · rwa [update_self]
  · rw [handover.sessions]
    refine explained.marked.place handover.pending rfl unmarked
      ⟨found, getElem?_concat earlier, decides⟩ ?_
    rw [← replied]
  · intro now owner
    rw [replied] at owner
    cases owner

end Step

/-- The answer to arguments that fail their check is the sequential one. -/
theorem begin_returned {answer : Answer} (returned : request.begin = .returned answer) (id : Nat)
    (time : Time) (store : MemoryStore) :
    ∃ reply, answer = .replied reply ∧ memory.Step store ⟨id, request, time, reply⟩ store := by
  cases request with
  | claim ctx key fingerprint ttl token =>
    cases valid : validateClaim ctx key fingerprint ttl with
    | ok _ => simp [begin, valid] at returned
    | error cause =>
      simp only [begin, valid, Progress.returned.injEq] at returned
      exact ⟨_, returned.symm, by simp [memory, claimAs, valid]⟩
  | commit ctx key token fingerprint response ttl =>
    cases valid : validateCommit ctx key token ttl with
    | ok _ => simp [begin, valid] at returned
    | error cause =>
      simp only [begin, valid, Progress.returned.injEq] at returned
      exact ⟨_, returned.symm, by simp [memory, serve, commit, valid]⟩
  | release ctx key token =>
    cases valid : validateRelease ctx key token with
    | ok _ => simp [begin, valid] at returned
    | error cause =>
      simp only [begin, valid, Progress.returned.injEq] at returned
      exact ⟨_, returned.symm, by simp [memory, serve, release, valid]⟩
  | sweep ctx limit =>
    cases valid : validateSweep ctx limit maxSweepBatch with
    | ok _ => simp [begin, valid] at returned
    | error cause =>
      simp only [begin, valid, Progress.returned.injEq] at returned
      refine ⟨_, returned.symm, store.entries.keys.toList, ⟨?_, ?_⟩, ?_⟩
      · exact Finset.nodup_toList _
      · exact Finset.toList_toFinset _
      · simp [serve, sweep, valid]

variable {ctx : Context} {ttl : Duration}

theorem Request.Valid.claim (valid : (claim ctx key fingerprint ttl token).Valid) :
    validateClaim ctx key fingerprint ttl = .ok () := by
  cases checked : validateClaim ctx key fingerprint ttl with
  | ok _ => rfl
  | error cause => simp [Request.Valid, begin, checked] at valid

variable {response : CachedResponse}

theorem Request.Valid.commit
    (valid : (Request.commit ctx key token fingerprint response ttl).Valid) :
    validateCommit ctx key token ttl = .ok () := by
  cases checked : validateCommit ctx key token ttl with
  | ok _ => rfl
  | error cause => simp [Request.Valid, begin, checked] at valid

theorem Request.Valid.release (valid : (Request.release ctx key token).Valid) :
    validateRelease ctx key token = .ok () := by
  cases checked : validateRelease ctx key token with
  | ok _ => rfl
  | error cause => simp [Request.Valid, begin, checked] at valid

theorem Request.Valid.sweep {limit : Int} (valid : (Request.sweep ctx limit).Valid) :
    validateSweep ctx limit maxSweepBatch = .ok () := by
  cases checked : validateSweep ctx limit maxSweepBatch with
  | ok _ => rfl
  | error cause => simp [Request.Valid, begin, checked] at valid

theorem begin_ne_owner (request : Request) (now : Time) : request.begin ≠ .owner now := by
  unfold begin
  split <;> split <;> simp

section Step

variable {event : SessionEvent} {after : Replicas}
variable (explained : Explained events state stores points)

include explained

theorem explained_begin (action : event.action = .begin request)
    (unused : state.sessions event.session = none) (fresh : state.Fresh request)
    (storable : request.Storable)
    (result : after = state.setSession event.session { request, progress := request.begin }) :
    ∃ nextStores nextPoints, Explained (events ++ [event]) after nextStores nextPoints := by
  subst result
  have handover : Handover state event ⟨request, request.begin⟩
      (state.setSession event.session ⟨request, request.begin⟩) := by
    refine ⟨rfl, by simp [unused], by simp [unused], fun _ => fresh, storable, ?_, ?_,
      explained.wellFormed, ?_⟩
    · by_cases returned : ∃ answer, request.begin = .returned answer
      · exact .inl returned
      · exact .inr fun answer same => returned ⟨answer, same⟩
    · intro failure failed
      obtain ⟨_, replied, _⟩ := begin_returned failed 0 0 {}
      cases replied
    · intro key row stored
      exact .inl ⟨key, row, stored, rfl, rfl⟩
  by_cases returned : ∃ answer, request.begin = .returned answer
  · obtain ⟨answer, returned⟩ := returned
    obtain ⟨reply, rfl, step⟩ := begin_returned returned event.session 0 (stores events.length)
    refine handover.point explained ?_ step explained.mirrors returned
    intro now order statement
    rw [action] at statement
    cases statement
  · refine handover.quiet explained explained.mirrors ?_ ?_
    · intro reply same
      exact returned ⟨_, same⟩
    · intro now owner
      exact absurd owner (begin_ne_owner request now)

variable {request : Request} {progress next : Progress} {table : Table}
variable {time : Time} {order : List String}

/-- The session part of a statement. -/
theorem Explained.handover (known : state.sessions event.session = some ⟨request, progress⟩)
    (pending : ∀ answer, progress ≠ .returned answer) (wellFormed : table.WellFormed)
    (failed : ∀ failure, next = .returned (.failed failure) →
      ∃ token fingerprint, request.Claims token fingerprint)
    (rows : ∀ key row, table.lookup key = some row →
      (∃ other old, state.table.lookup other = some old ∧ old.token = row.token ∧
        old.fingerprint = row.fingerprint) ∨
      request.Claims row.token row.fingerprint ∧ next =
        .returned (.replied (.claimed (.ok { state := .acquired, token := row.token })))) :
    Handover state event ⟨request, next⟩
      ({ state with table }.setSession event.session ⟨request, next⟩) where
  sessions := rfl
  pending := by
    intro other answer found
    rw [known] at found
    obtain ⟨rfl, rfl⟩ := Session.mk.inj (Option.some.inj found)
    exact pending answer rfl
  request := by
    intro old found
    rw [known] at found
    cases found
    rfl
  fresh := by
    intro unused
    rw [known] at unused
    cases unused
  storable := explained.storable event.session ⟨request, progress⟩ known
  valid := by
    rcases explained.valid event.session _ known with ⟨answer, returned⟩ | valid
    · exact absurd returned (pending answer)
    · exact .inr valid
  failed := failed
  wellFormed := wellFormed
  rows := rows

theorem Explained.valid_of_pending (known : state.sessions event.session = some ⟨request, progress⟩)
    (pending : ∀ answer, progress ≠ .returned answer) : request.Valid := by
  rcases explained.valid event.session _ known with ⟨answer, returned⟩ | valid
  · exact absurd returned (pending answer)
  · exact valid

omit explained in
theorem rows_kept (key : String) (row : Row) (stored : state.table.lookup key = some row) :
    (∃ other old, state.table.lookup other = some old ∧ old.token = row.token ∧
      old.fingerprint = row.fingerprint) ∨
    request.Claims row.token row.fingerprint ∧ next =
      .returned (.replied (.claimed (.ok { state := .acquired, token := row.token }))) :=
  .inl ⟨key, row, stored, rfl, rfl⟩

omit explained in
theorem reads_statement (action : event.action = .statement time order) :
    ∀ now order, event.action = .statement now order → reading time = reading now := by
  intro now order statement
  rw [action] at statement
  cases statement
  rfl

omit explained in
theorem lookup_insert_cases {key other : String} {row stored : Row}
    (found : (state.table.insert key row).lookup other = some stored) :
    stored = row ∨ state.table.lookup other = some stored := by
  by_cases same : other = key
  · subst same
    rw [Finmap.lookup_insert] at found
    exact .inl (Option.some.inj found).symm
  · rw [Finmap.lookup_insert_of_ne _ same] at found
    exact .inr found

/-- A claim that goes on, or gives up, has changed nothing. -/
theorem claim_quiet
    (known : state.sessions event.session = some ⟨.claim ctx key fingerprint ttl token, progress⟩)
    (pending : ∀ answer, progress ≠ .returned answer)
    (unreplied : ∀ reply, next ≠ .returned (.replied reply)) (same : table = state.table)
    (result : after = { state with table }.setSession event.session
      ⟨.claim ctx key fingerprint ttl token, next⟩) :
    ∃ nextStores nextPoints, Explained (events ++ [event]) after nextStores nextPoints := by
  subst same result
  have handover : Handover state event ⟨.claim ctx key fingerprint ttl token, next⟩ _ :=
    explained.handover known pending explained.wellFormed
      (fun _ _ => ⟨token, fingerprint, ctx, key, ttl, rfl⟩) rows_kept
  refine handover.quiet explained explained.mirrors unreplied ?_
  intro now _
  trivial

variable (action : event.action = .statement time order)

include action in
theorem explained_claim
    (known : state.sessions event.session = some ⟨.claim ctx key fingerprint ttl token, progress⟩)
    (advanced : (Session.mk (.claim ctx key fingerprint ttl token) progress).advance state.table
      time order = some (next, table))
    (result : after = { state with table }.setSession event.session
      ⟨.claim ctx key fingerprint ttl token, next⟩) :
    ∃ nextStores nextPoints, Explained (events ++ [event]) after nextStores nextPoints := by
  have whole : 1000 ∣ ttl := explained.storable event.session _ known
  have reads := reads_statement action
  cases progress with
  | complete | owner | release | sweep | returned => simp [advance] at advanced
  | reserve attempt =>
    have valid := (explained.valid_of_pending known (by simp)).claim
    simp only [advance] at advanced
    split at advanced
    · cases advanced
      exact claim_quiet explained known (by simp) (by simp) rfl result
    · rename_i reserved
      cases advanced
      obtain ⟨store, claimed, mirrors, expiresAt, rfl⟩ :=
        Table.reserve_acquired explained.mirrors valid whole reserved
      subst result
      refine Handover.point explained (explained.handover known (by simp) ?_
        (fun _ _ => ⟨token, fingerprint, ctx, key, ttl, rfl⟩) ?_) reads ?_ mirrors rfl
      · intro other stored lookup
        rcases lookup_insert_cases lookup with rfl | earlier
        · exact .inl rfl
        · exact explained.wellFormed other stored earlier
      · intro other stored lookup
        rcases lookup_insert_cases lookup with rfl | earlier
        · exact .inr ⟨⟨ctx, key, ttl, rfl⟩, rfl⟩
        · exact rows_kept other stored earlier
      · simp [memory, claimed]
    · rename_i refused
      cases advanced
      exact claim_quiet explained known (by simp) (by simp) (Table.reserve_refused refused) result
  | lookup attempt now =>
    have valid := (explained.valid_of_pending known (by simp)).claim
    simp only [advance] at advanced
    split at advanced
    · cases advanced
    · rename_i same
      obtain rfl := not_not.mp same
      split at advanced
      · cases advanced
        exact claim_quiet explained known (by simp) (by simp) rfl result
      · rename_i record found
        cases advanced
        obtain ⟨claim, replied, claimed⟩ := Table.lookup_found token explained.mirrors
          explained.wellFormed valid found
        subst result
        rw [replied]
        refine Handover.point explained (explained.handover known (by simp)
          explained.wellFormed (fun _ _ => ⟨token, fingerprint, ctx, key, ttl, rfl⟩) rows_kept)
          reads ?_ explained.mirrors rfl
        simp [memory, claimed]
      · split at advanced
        · cases advanced
          exact claim_quiet explained known (by simp) (by simp) rfl result
        · cases advanced
          exact claim_quiet explained known (by simp) (by simp) rfl result

omit explained in
theorem Request.Storable.complete {ctx : Context} {key token fingerprint : String}
    {response : CachedResponse} {ttl : Duration} {cause : DatabaseError} {now : Time}
    (storable : (Request.commit ctx key token fingerprint response ttl).Storable) :
    table.complete {
      key, token, fingerprint
      status := response.statusCode
      header := encodeHeader response.header
      body := response.body
      now
      expires := now + ttl } ≠ .error cause := by
  obtain ⟨keyed, named, printed, headed, low, high, _⟩ := storable
  have fits := encodeHeader_storable headed
  unfold Table.complete
  simp only [keyed, named, printed, fits, low, high, and_self, not_true_eq_false, if_false]
  split
  · split <;> simp
  · simp

omit explained in
theorem Request.Storable.owner {ctx : Context} {key token fingerprint : String}
    {response : CachedResponse} {ttl : Duration} {cause : DatabaseError} {now : Time}
    (storable : (Request.commit ctx key token fingerprint response ttl).Storable) :
    table.owner key token now ≠ .error cause := by
  obtain ⟨keyed, named, _⟩ := storable
  unfold Table.owner
  simp only [keyed, named, and_self, not_true_eq_false, if_false]
  split
  · split <;> simp
  · simp

/-- A commit whose completion failed waits for the owner query. -/
theorem awaits_complete (valid : validateCommit ctx key token ttl = .ok ())
    (foreign : ∀ row, state.table.lookup key = some row → row.token = token →
      row.state = rowInFlight → timestamptz time < row.expiresAt →
      row.fingerprint ≠ fingerprint)
    (kept : ∀ other old, state.sessions other = some old → ∀ token print,
      old.request.Claims token print → ∃ now, after.sessions other = some now ∧
        now.request.Claims token print) :
    Awaits (events ++ [⟨id, .statement time order⟩]) after
      (update stores (events.length + 1) (stores events.length)) points id time
      (.commit ctx key token fingerprint response ttl) := by
  refine ⟨events.length, order, by simp, explained.placed.future _ le_rfl, ?_⟩
  rw [update_of_ne (by omega)]
  by_cases mine : ∃ row, state.table.lookup key = some row ∧ row.token = token ∧
      row.state = rowInFlight ∧ timestamptz time < row.expiresAt
  · obtain ⟨row, found, rfl, inFlight, live⟩ := mine
    obtain ⟨other, request, claims, returned⟩ := explained.owners key row found
    obtain ⟨session, stays, claims⟩ := kept other _ returned _ _ claims
    exact .inr ⟨other, session, row.fingerprint, stays, claims, foreign row found rfl inFlight live⟩
  · refine .inl (Table.commit_lost explained.mirrors valid ?_)
    intro row found owner inFlight live
    exact mine ⟨row, found, owner, inFlight, live⟩

include action in
theorem explained_complete
    (known : state.sessions event.session =
      some ⟨.commit ctx key token fingerprint response ttl, .complete⟩)
    (advanced : (Session.mk (.commit ctx key token fingerprint response ttl) .complete).advance
      state.table time order = some (next, table))
    (result : after = { state with table }.setSession event.session
      ⟨.commit ctx key token fingerprint response ttl, next⟩) :
    ∃ nextStores nextPoints, Explained (events ++ [event]) after nextStores nextPoints := by
  have storable : (Request.commit ctx key token fingerprint response ttl).Storable :=
    explained.storable event.session _ known
  have valid := (explained.valid_of_pending known (by simp)).commit
  simp only [advance] at advanced
  split at advanced
  · rename_i cause failed
    exact absurd failed storable.complete
  · rename_i done
    cases advanced
    obtain ⟨_, _, _, headed, _, _, whole⟩ := storable
    obtain ⟨store, committed, mirrors, row, changed, found, sameToken, samePrint, completed, rfl⟩ :=
      Table.complete_done explained.mirrors valid whole headed done
    subst result
    refine Handover.point explained (explained.handover known (by simp) ?_ (by simp) ?_)
      (reads_statement action) ?_ mirrors rfl
    · intro other stored lookup
      rcases lookup_insert_cases lookup with rfl | earlier
      · exact .inr completed
      · exact explained.wellFormed other stored earlier
    · intro other stored lookup
      rcases lookup_insert_cases lookup with rfl | earlier
      · exact .inl ⟨key, row, found, sameToken.symm, samePrint.symm⟩
      · exact rows_kept other stored earlier
    · simp [memory, serve, committed]
  · rename_i refused
    cases advanced
    obtain ⟨rfl, foreign⟩ := Table.complete_refused refused
    subst result
    have handover : Handover state event
        ⟨.commit ctx key token fingerprint response ttl, .owner time⟩ _ :=
      explained.handover known (by simp) explained.wellFormed (by simp) rows_kept
    refine handover.quiet explained explained.mirrors (by simp) ?_
    intro now same
    cases same
    obtain ⟨session, _⟩ := event
    subst action
    refine awaits_complete explained valid foreign ?_
    intro other old found token print claims
    exact handover.claims found claims

include action in
theorem explained_owner {now : Time}
    (known : state.sessions event.session =
      some ⟨.commit ctx key token fingerprint response ttl, .owner now⟩)
    (advanced : (Session.mk (.commit ctx key token fingerprint response ttl) (.owner now)).advance
      state.table time order = some (next, table))
    (result : after = { state with table }.setSession event.session
      ⟨.commit ctx key token fingerprint response ttl, next⟩) :
    ∃ nextStores nextPoints, Explained (events ++ [event]) after nextStores nextPoints := by
  have storable : (Request.commit ctx key token fingerprint response ttl).Storable :=
    explained.storable event.session _ known
  have valid := (explained.valid_of_pending known (by simp)).commit
  have handover : ∀ next, (∀ failure, next ≠ .returned (.failed failure)) →
      Handover state event ⟨.commit ctx key token fingerprint response ttl, next⟩
        (state.setSession event.session ⟨.commit ctx key token fingerprint response ttl, next⟩) := by
    intro next unfailed
    exact explained.handover known (by simp) explained.wellFormed
      (fun failure failed => absurd failed (unfailed failure)) rows_kept
  simp only [advance] at advanced
  split at advanced
  · cases advanced
  · rename_i same
    obtain rfl := not_not.mp same
    split at advanced
    · rename_i cause failed
      exact absurd failed storable.owner
    · rename_i owned answered
      obtain ⟨row, found, owner, inFlight, live, rfl⟩ := Table.owner_spec answered
      split at advanced
      · rename_i foreign
        cases advanced
        subst result
        refine (handover _ (by simp)).point explained (reads_statement action) ?_
          explained.mirrors rfl
        simp [memory, serve,
          Table.commit_mismatch explained.mirrors valid found owner inFlight live foreign]
      · rename_i mine
        obtain rfl := not_not.mp mine
        cases advanced
        subst result owner
        obtain ⟨index, order, earlier, unmarked, lost | ⟨other, claimant, print, found', claims,
          different⟩⟩ := explained.awaits event.session _ time known
        · refine (handover _ (by simp)).late explained (reading time) earlier unmarked
            ⟨rfl, ?_⟩ ?_ explained.mirrors rfl
          · exact reads_statement rfl
          · simp [memory, serve, lost]
        · -- The reservation found is the claim with the other fingerprint.
          obtain ⟨id, request, owned, granted⟩ := explained.owners key row found
          obtain rfl := explained.distinct id other _ _ _ _ _ granted found' owned claims
          rw [granted] at found'
          cases found'
          obtain ⟨_, _, _, rfl⟩ := owned
          obtain ⟨_, _, _, repeated⟩ := claims
          cases repeated
          exact absurd rfl different
    · rename_i answered
      cases advanced
      subst result
      refine (handover _ (by simp)).point explained (reads_statement action) ?_
        explained.mirrors rfl
      simp [memory, serve, Table.commit_lost explained.mirrors valid (Table.owner_spec answered)]

include action in
theorem explained_release
    (known : state.sessions event.session = some ⟨.release ctx key token, .release⟩)
    (advanced : (Session.mk (.release ctx key token) .release).advance state.table time order =
      some (next, table))
    (result : after = { state with table }.setSession event.session
      ⟨.release ctx key token, next⟩) :
    ∃ nextStores nextPoints, Explained (events ++ [event]) after nextStores nextPoints := by
  have valid := (explained.valid_of_pending known (by simp)).release
  have kept : ∀ {table : Table}, table = state.table ∨ table = state.table.erase key →
      ∀ other stored, table.lookup other = some stored →
        state.table.lookup other = some stored := by
    rintro table (rfl | rfl) other stored found
    · exact found
    · by_cases same : other = key
      · subst same
        simp at found
      · rwa [Finmap.lookup_erase_ne same] at found
  have decide : ∀ {released : Bool} {table : Table} {reply : Reply},
      state.table.release key token = .ok (released, table) →
      reply = .settled (if released then .ok () else .error .reservationLost) →
      ∃ nextStores nextPoints, Explained (events ++ [event])
        ({ state with table }.setSession event.session
          ⟨.release ctx key token, .returned (.replied reply)⟩) nextStores nextPoints := by
    rintro released table reply answered rfl
    obtain ⟨store, settled, mirrors, changed⟩ := Table.release_spec explained.mirrors valid answered
    refine Handover.point explained (explained.handover known (by simp) ?_ (by simp) ?_)
      (reads_statement action) ?_ mirrors rfl
    · intro other stored found
      exact explained.wellFormed other stored (kept changed other stored found)
    · intro other stored found
      exact rows_kept other stored (kept changed other stored found)
    · simp [memory, serve, settled]
  simp only [advance] at advanced
  split at advanced
  · rename_i cause failed
    obtain ⟨keyed, named⟩ := explained.storable event.session _ known
    unfold Table.release at failed
    simp only [keyed, named, and_self, not_true_eq_false, if_false] at failed
    split at failed
    · split at failed <;> cases failed
    · cases failed
  · rename_i answered
    cases advanced
    subst result
    exact decide answered rfl
  · rename_i answered
    cases advanced
    subst result
    exact decide answered rfl

include action in
theorem explained_sweep {limit : Int}
    (known : state.sessions event.session = some ⟨.sweep ctx limit, .sweep⟩)
    (scans : state.table.Scans order)
    (advanced : (Session.mk (.sweep ctx limit) .sweep).advance state.table time order =
      some (next, table))
    (result : after = { state with table }.setSession event.session ⟨.sweep ctx limit, next⟩) :
    ∃ nextStores nextPoints, Explained (events ++ [event]) after nextStores nextPoints := by
  have valid := (explained.valid_of_pending known (by simp)).sweep
  obtain ⟨iterates, store, swept, mirrors, kept⟩ :=
    Table.sweep_spec time explained.mirrors valid scans
  simp only [advance] at advanced
  cases advanced
  subst result
  refine Handover.point explained (explained.handover known (by simp) ?_ (by simp) ?_)
    (reads_statement action) ?_ mirrors rfl
  · intro other stored found
    exact explained.wellFormed other stored (kept other stored found)
  · intro other stored found
    exact rows_kept other stored (kept other stored found)
  · exact ⟨order, iterates, by simp [serve, swept]⟩

/-- Every step keeps the calls explained. -/
theorem explained_step (step : replicas.Step state event after)
    (storable : ∀ request, event.action = .begin request → request.Storable) :
    ∃ nextStores nextPoints, Explained (events ++ [event]) after nextStores nextPoints := by
  cases action : event.action with
  | begin request =>
    simp only [replicas, action] at step
    obtain ⟨unused, fresh, result⟩ := step
    exact explained_begin explained action unused fresh (storable request action) result
  | statement time order =>
    simp only [replicas, action] at step
    obtain ⟨⟨request, progress⟩, next, table, known, scans, advanced, result⟩ := step
    cases request with
    | claim => exact explained_claim explained action known advanced result
    | commit =>
      cases progress with
      | complete => exact explained_complete explained action known advanced result
      | owner => exact explained_owner explained action known advanced result
      | reserve | lookup | release | sweep | returned => simp [advance] at advanced
    | release =>
      cases progress with
      | release => exact explained_release explained action known advanced result
      | reserve | lookup | complete | owner | sweep | returned =>
        simp [advance] at advanced
    | sweep =>
      cases progress with
      | sweep => exact explained_sweep explained action known (scans rfl) advanced result
      | reserve | lookup | complete | owner | release | returned =>
        simp [advance] at advanced

end Step

theorem step_begin {state : Replicas} (unused : state.sessions id = none)
    (fresh : state.Fresh request) :
    replicas.Step state ⟨id, .begin request⟩ (state.setSession id ⟨request, request.begin⟩) :=
  ⟨unused, fresh, rfl⟩

theorem step_statement {state : Replicas} {progress next : Progress} {table : Table} {time : Time}
    (known : state.sessions id = some ⟨request, progress⟩) (awake : progress ≠ .sweep)
    (advanced : (Session.mk request progress).advance state.table time [] = some (next, table)) :
    replicas.Step state ⟨id, .statement time []⟩
      ({ state with table }.setSession id ⟨request, next⟩) :=
  ⟨⟨request, progress⟩, next, table, known, fun sweeping => absurd sweeping awake, advanced, rfl⟩

def firstClaim : Request := .claim {} "k" "f" 1000000 "t"

def onlyCommit (response : CachedResponse) : Request := .commit {} "k" "t" "f" response 1000000

def secondClaim : Request := .claim {} "k" "f" 1000000 "u"

/-- What the second claim of the run below is answered with. -/
def replayed (response : CachedResponse) : ClaimResult where
  state := .completed
  fingerprint := "f"
  response := { response with header := decodeHeader (encodeHeader response.header) }

/-- The sessions after the three calls have returned. -/
def finished (response : CachedResponse) : Nat → Option Session
  | 0 => some ⟨firstClaim,
      .returned (.replied (.claimed (.ok { state := .acquired, token := "t" })))⟩
  | 1 => some ⟨onlyCommit response, .returned (.replied (.settled (.ok ())))⟩
  | 2 => some ⟨secondClaim, .returned (.replied (.claimed (.ok (replayed response))))⟩
  | _ => none

def history (response : CachedResponse) : List SessionEvent :=
  [⟨0, .begin firstClaim⟩, ⟨0, .statement 0 []⟩, ⟨1, .begin (onlyCommit response)⟩,
    ⟨1, .statement 0 []⟩, ⟨2, .begin secondClaim⟩, ⟨2, .statement 0 []⟩, ⟨2, .statement 0 []⟩]

theorem exists_replay (response : CachedResponse)
    (fits : (encodeHeader response.header).Storable) (success : response.statusCode = 200) :
    ∃ state, replicas.Run (history response) state ∧ state.sessions = finished response := by
  let reserved : Row := { state := rowInFlight, token := "t", fingerprint := "f", expiresAt := 1000 }
  let completed : Row :=
    { reserved with
      state := rowCompleted
      statusCode := response.statusCode
      header := encodeHeader response.header
      body := response.body }
  let first : Table := Finmap.insert "k" reserved ∅
  let second : Table := Finmap.insert "k" completed first
  have claimed : (Session.mk firstClaim (.reserve 0)).advance ∅ 0 [] =
      some (.returned (.replied (.claimed (.ok { state := .acquired, token := "t" }))), first) := rfl
  have committed : (Session.mk (onlyCommit response) .complete).advance first 0 [] =
      some (.returned (.replied (.settled (.ok ()))), second) := by
    simp [advance, onlyCommit, Table.complete, fits, success, first, second, reserved,
      completed, Textual, timestamptz, rowInFlight]
  have refused : (Session.mk secondClaim (.reserve 0)).advance second 0 [] =
      some (.lookup 0 0, second) := by
    simp [advance, secondClaim, Table.reserve, second, completed, reserved, Textual, timestamptz]
  have found : (Session.mk secondClaim (.lookup 0 0)).advance second 0 [] =
      some (.returned (.replied (.claimed (.ok (replayed response)))), second) := by
    simp [advance, secondClaim, Table.lookupRecord, second, completed, reserved, Textual,
      timestamptz, Record.claimResult, replayed, rowCompleted, rowInFlight]
  have fresh : ∀ (table : Table) (sessions : Nat → Option Session),
      (∀ id session, sessions id = some session → session.request.token? ≠ some "u") →
      Replicas.Fresh ⟨table, sessions⟩ secondClaim := by
    intro table sessions others token same other session known
    cases same
    exact others other session known
  have reserving : Progress.reserve 0 ≠ .sweep := by simp
  have completing : Progress.complete ≠ .sweep := by simp
  have looking : Progress.lookup 0 0 ≠ .sweep := by simp
  refine ⟨_, ⟨{}, rfl, .cons (step_begin rfl ?_) (.cons (step_statement rfl reserving claimed)
    (.cons (step_begin rfl ?_) (.cons (step_statement rfl completing committed)
      (.cons (step_begin rfl (fresh _ _ ?_)) (.cons (step_statement rfl reserving refused)
        (.cons (step_statement rfl looking found) (.nil _)))))))⟩, ?_⟩
  · intro token _ other session known
    cases known
  · intro token unnamed
    cases unnamed
  · rintro (_ | _ | id) session known
    · cases known
      simp [firstClaim, token?]
    · cases known
      simp [onlyCommit, token?]
    · cases known
  · funext id
    rcases id with _ | _ | _ | id
    · rfl
    · rfl
    · rfl
    · rfl

/-- A sequential store returns only responses that were committed to it. -/
theorem completed_committed {operations : List Operation} {store : MemoryStore}
    {expected : CachedResponse} (run : memory.Run operations store)
    (committed : ∀ operation ∈ operations, ∀ ctx key token fingerprint response ttl,
      operation.request = .commit ctx key token fingerprint response ttl → response = expected) :
    ∀ key entry, store.entries.lookup key = some entry → entry.state = .completed →
      entry.resp = expected := by
  obtain ⟨start, rfl, trace⟩ := run
  refine trace.invariant_of (fun store => ∀ key entry, store.entries.lookup key = some entry →
    entry.state = .completed → entry.resp = expected) (fun operation =>
      ∀ ctx key token fingerprint response ttl,
        operation.request = .commit ctx key token fingerprint response ttl → response = expected)
    ?_ committed (by simp)
  intro before operation after admitted holds step key entry found completed
  have served : ∀ call, before.serve operation.time call = (operation.reply, after) →
      (∀ ctx key token fingerprint response ttl,
        call = .commit ctx key token fingerprint response ttl → response = expected) →
      entry.resp = expected := by
    intro call result commits
    have effect : before.Effect ⟨operation.time, call, operation.reply⟩ after := serve_effect result
    rcases completed_cases effect found completed with
      earlier | ⟨_, _, _, _, called, _⟩
    · exact holds key entry earlier completed
    · exact commits _ _ _ _ _ _ called
  cases request : operation.request with
  | claim ctx other fingerprint ttl token =>
    simp only [memory, request] at step
    obtain ⟨_, rfl⟩ := step
    exact holds key entry (completed_of_claimAs found completed) completed
  | commit ctx other token fingerprint response ttl =>
    simp only [memory, request] at step
    refine served _ step ?_
    rintro _ _ _ _ _ _ ⟨⟩
    exact admitted _ _ _ _ _ _ request
  | release ctx other token =>
    simp only [memory, request] at step
    exact served _ step nofun
  | sweep ctx limit =>
    simp only [memory, request] at step
    obtain ⟨order, _, result⟩ := step
    exact served _ result nofun

/-- `é` in Latin-1, as a header value. -/
def latin : CachedResponse where
  statusCode := 200
  header := Finmap.singleton [88] [[0xE9]]

theorem encodeHeader_latin : encodeHeader latin.header = [("X", ["\uFFFD"])] := by
  simp [encodeHeader, latin]
  decide

end Golusoris.Idempotency
