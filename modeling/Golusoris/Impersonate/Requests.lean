import Golusoris.Lib.Machine
import Golusoris.Lib.Results
import Golusoris.Lib.Spaces
import Mathlib.Logic.Function.Basic

/-!
# Impersonation in one session

`Begin` and the exit handler of `auth/impersonate` read the session, record what they
are about to do and write the session, with no lock: the steps of the requests of one
session interleave freely. An exit leads back to the user that logged in, and to no
other, if trimming leaves the ID of that user as it is.
-/

namespace Golusoris.Impersonate

open Lib
open Lib.Spaces (trimSpace trimSpace_trimSpace)

/-- What the session store holds; `original` is empty when nobody is impersonated. -/
structure Session where
  current : Bytes
  original : Bytes := []
deriving DecidableEq

/-- The hooks that are set. -/
structure Options where
  sessionGet : Bool := true
  sessionSet : Bool := true
  onImpersonate : Bool := true
  onExit : Bool := true

inductive Failure where
  | plain (message : String)
  | validation (message : String)
  | forbidden (message : String)
  | http (status : Nat) (message : String)
deriving DecidableEq

inductive Hook where
  | onImpersonate
  | onExit
deriving DecidableEq

/-- What a request is going to record and write. -/
structure Move where
  hook : Hook
  actor : Bytes
  target : Bytes
deriving DecidableEq

/-- The arguments of `SessionSet`. -/
def Move.session (move : Move) : Session :=
  match move.hook with
  | .onImpersonate => ⟨move.target, move.actor⟩
  | .onExit => ⟨move.actor, []⟩

def Move.auditFailure (move : Move) : Failure :=
  match move.hook with
  | .onImpersonate => .plain "impersonate: audit begin"
  | .onExit => .http 500 "audit error"

def Move.setFailure (move : Move) : Failure :=
  match move.hook with
  | .onImpersonate => .plain "impersonate: set session"
  | .onExit => .http 500 "session error"

def validateOptions (opts : Options) : Except Failure Unit :=
  if ¬opts.sessionGet ∨ ¬opts.sessionSet then
    .error (.plain "impersonate: SessionGet + SessionSet required")
  else .ok ()

/-- `Begin` up to the audit; `none` is a session that is not there. -/
def beginMove (opts : Options) (session : Option Session) (targetUserID : Bytes) :
    Except Failure Move :=
  (validateOptions opts).bind fun _ =>
    if ¬opts.onImpersonate then .error (.plain "impersonate: OnImpersonate audit hook required")
    else
      match session with
      | none => .error (.plain "impersonate: no session")
      | some ⟨cur, orig⟩ =>
          let actor := trimSpace cur
          let target := trimSpace targetUserID
          if actor = [] ∨ target = [] then .error (.validation "impersonate: actor and target required")
          else if actor = target then .error (.validation "impersonate: target must differ from actor")
          else if orig ≠ [] then .error (.forbidden "already impersonating")
          else .ok ⟨.onImpersonate, actor, target⟩

/-- `ExitHandler` for a request, and `exit` up to the audit. Without its hooks there is no
handler to ask. -/
def exitMove (opts : Options) (session : Option Session) (method : Bytes) : Except Failure Move :=
  (validateOptions opts).bind fun _ =>
    if ¬opts.onExit then .error (.plain "impersonate: OnExit audit hook required")
    else if method ≠ textBytes "POST" then .error (.http 405 "method not allowed")
    else
      match session with
      | none => .error (.http 401 "session required")
      | some ⟨cur, orig⟩ =>
          if orig = [] then .error (.http 409 "not impersonating")
          else
            let target := trimSpace cur
            let actor := trimSpace orig
            if target = [] ∨ actor = [] ∨ target = actor then
              .error (.http 409 "invalid impersonation session")
            else .ok ⟨.onExit, actor, target⟩

inductive Call where
  | begins (targetUserID : Bytes)
  | exits (method : Bytes)

def Call.move (opts : Options) (session : Option Session) : Call → Except Failure Move
  | .begins targetUserID => beginMove opts session targetUserID
  | .exits method => exitMove opts session method

/-- How far a request is: it has a hook to call, or a session to write, or it is over. -/
inductive Phase where
  | idle
  | auditing (move : Move)
  | setting (move : Move)
  | done
  | failed (failure : Failure)

def Phase.read : Except Failure Move → Phase
  | .ok move => .auditing move
  | .error failure => .failed failure

structure State where
  session : Session
  requests : Nat → Phase

/-- A step of one request; each can go wrong. -/
inductive Event where
  | get (request : Nat) (call : Call) (ok : Bool)
  | audit (request : Nat) (move : Move) (ok : Bool)
  | set (request : Nat) (move : Move) (ok : Bool)

def Event.request : Event → Nat
  | .get request _ _ => request
  | .audit request _ _ => request
  | .set request _ _ => request

inductive Step (opts : Options) : State → Event → State → Prop where
  | get {state : State} {request : Nat} {call : Call} {ok : Bool} (new : state.requests request = .idle) :
      Step opts state (.get request call ok)
        { state with
          requests := Function.update state.requests request
            (.read (call.move opts (if ok then some state.session else none))) }
  | audit {state : State} {request : Nat} {move : Move} {ok : Bool}
      (here : state.requests request = .auditing move) :
      Step opts state (.audit request move ok)
        { state with
          requests := Function.update state.requests request
            (if ok then .setting move else .failed move.auditFailure) }
  | set {state : State} {request : Nat} {move : Move} {ok : Bool}
      (here : state.requests request = .setting move) :
      Step opts state (.set request move ok)
        { session := if ok then move.session else state.session
          requests := Function.update state.requests request
            (if ok then .done else .failed move.setFailure) }

/-- The requests of the session that starts when `user` has logged in. -/
def machine (opts : Options) (user : Bytes) : Machine State Event where
  Initial state := state = ⟨⟨user, []⟩, fun _ => .idle⟩
  Step := Step opts

/-- What was recorded and then written. -/
def Impersonated (user target : Bytes) (events : List Event) : Prop :=
  ∃ request, .audit request ⟨.onImpersonate, user, target⟩ true ∈ events ∧
    .set request ⟨.onImpersonate, user, target⟩ true ∈ events

/-- Every run stays with the user that logged in: the session is that of the user, or of a
target whose impersonation was recorded; an exit that succeeds gives the session back to
the user and was recorded for a target that was impersonated; a request that fails has
not touched the session. -/
structure LeadsBack (opts : Options) (user : Bytes) : Prop where
  reached {events : List Event} {state : State} (run : (machine opts user).Run events state) :
    state.session = ⟨user, []⟩ ∨
      ∃ target, state.session = ⟨target, user⟩ ∧ target ≠ user ∧
        ∃ request, .audit request ⟨.onImpersonate, user, target⟩ true ∈ events
  exits {events : List Event} {before after : State} {request : Nat} {actor target : Bytes}
    (run : (machine opts user).Run events before)
    (step : Step opts before (.set request ⟨.onExit, actor, target⟩ true) after) :
    actor = user ∧ after.session = ⟨user, []⟩ ∧
      .audit request ⟨.onExit, user, target⟩ true ∈ events ∧ Impersonated user target events
  fails {first later : List Event} {event : Event} {before after state : State} {failure : Failure}
    (run : (machine opts user).Run first before) (step : Step opts before event after)
    (rest : (machine opts user).Trace after later state)
    (failed : state.requests event.request = .failed failure) : after.session = before.session

variable {opts : Options} {user : Bytes}

/-- A request can begin only with its hooks. -/
def Options.begins (opts : Options) : Prop := validateOptions opts = .ok () ∧ opts.onImpersonate

variable {session : Option Session} {move : Move}

theorem beginMove_ok {targetUserID : Bytes}
    (moved : beginMove opts session targetUserID = .ok move) :
    ∃ cur, session = some ⟨cur, []⟩ ∧ opts.begins ∧ trimSpace cur ≠ trimSpace targetUserID ∧
      move = ⟨.onImpersonate, trimSpace cur, trimSpace targetUserID⟩ := by
  obtain ⟨checked, valid, moved⟩ := exists_of_bind_eq_ok moved
  split_ifs at moved with hook
  obtain _ | ⟨cur, orig⟩ := session
  · cases moved
  · dsimp only at moved
    split_ifs at moved with blank same nested
    cases moved
    exact ⟨cur, by rw [not_not.mp nested], ⟨valid, hook⟩, same, rfl⟩

theorem exitMove_ok {method : Bytes} (moved : exitMove opts session method = .ok move) :
    ∃ cur orig, session = some ⟨cur, orig⟩ ∧ orig ≠ [] ∧ trimSpace cur ≠ trimSpace orig ∧
      move = ⟨.onExit, trimSpace orig, trimSpace cur⟩ := by
  obtain ⟨checked, valid, moved⟩ := exists_of_bind_eq_ok moved
  split_ifs at moved with hook post
  obtain _ | ⟨cur, orig⟩ := session
  · cases moved
  · dsimp only at moved
    split_ifs at moved with nobody invalid
    cases moved
    simp only [not_or] at invalid
    exact ⟨cur, orig, rfl, nobody, invalid.2.2, rfl⟩

variable {events : List Event}

theorem Impersonated.snoc {target : Bytes} (before : Impersonated user target events)
    (event : Event) : Impersonated user target (events ++ [event]) := by
  obtain ⟨request, recorded, written⟩ := before
  exact ⟨request, List.mem_append_left _ recorded, List.mem_append_left _ written⟩

/-- A request acts for the user, whose ID trimming leaves alone, on another; one that exits
has seen that one impersonated. -/
structure Sound (user : Bytes) (events : List Event) (move : Move) : Prop where
  plain : trimSpace user = user
  actor : move.actor = user
  other : move.target ≠ user
  trimmed : trimSpace move.target = move.target
  seen (exits : move.hook = .onExit) : Impersonated user move.target events

theorem Sound.snoc (sound : Sound user events move) (event : Event) :
    Sound user (events ++ [event]) move :=
  { sound with seen := fun exits => (sound.seen exits).snoc event }

/-- The session is that of the user, or of one that the user impersonates. -/
def Kept (user : Bytes) (events : List Event) (session : Session) : Prop :=
  session = ⟨user, []⟩ ∨
    ∃ target, session = ⟨target, user⟩ ∧ trimSpace user = user ∧ target ≠ user ∧
      trimSpace target = target ∧ Impersonated user target events

theorem Kept.snoc {session : Session} (kept : Kept user events session) (event : Event) :
    Kept user (events ++ [event]) session := by
  obtain own | ⟨target, shape, plain, other, trimmed, seen⟩ := kept
  · exact .inl own
  · exact .inr ⟨target, shape, plain, other, trimmed, seen.snoc event⟩

/-- What a request reads from such a session is sound. -/
theorem Call.move_sound {call : Call} (named : user ≠ [])
    (plain : opts.begins → trimSpace user = user)
    (kept : ∀ stored, session = some stored → Kept user events stored)
    (moved : call.move opts session = .ok move) : Sound user events move := by
  cases call with
  | begins targetUserID =>
    obtain ⟨cur, stored, begins, other, rfl⟩ := beginMove_ok moved
    obtain own | ⟨target, nested, -⟩ := kept _ stored
    · obtain rfl := (Session.mk.inj own).1
      rw [plain begins] at other ⊢
      exact ⟨plain begins, rfl, other.symm, trimSpace_trimSpace targetUserID, nofun⟩
    · exact absurd (Session.mk.inj nested).2.symm named
  | exits method =>
    obtain ⟨cur, orig, stored, nested, other, rfl⟩ := exitMove_ok moved
    obtain own | ⟨target, same, plain, apart, trimmed, seen⟩ := kept _ stored
    · exact absurd (Session.mk.inj own).2 nested
    · obtain ⟨rfl, rfl⟩ := Session.mk.inj same
      rw [plain, trimmed]
      exact ⟨plain, rfl, apart, trimmed, fun _ => seen⟩

/-- What a request is about to do is sound, and what it is going to write was recorded. -/
def Phase.Sound (user : Bytes) (events : List Event) (request : Nat) : Phase → Prop
  | .auditing move => Impersonate.Sound user events move
  | .setting move => Impersonate.Sound user events move ∧ .audit request move true ∈ events
  | _ => True

variable {request : Nat}

theorem Phase.Sound.snoc {phase : Phase} (sound : phase.Sound user events request) (event : Event) :
    phase.Sound user (events ++ [event]) request := by
  cases phase with
  | auditing move => exact Impersonate.Sound.snoc sound event
  | setting move => exact ⟨sound.1.snoc event, List.mem_append_left _ sound.2⟩
  | _ => exact sound

structure Invariant (user : Bytes) (events : List Event) (state : State) : Prop where
  session : Kept user events state.session
  requests (request : Nat) : (state.requests request).Sound user events request

/-- A sound request leaves a session that is kept. -/
theorem Sound.written (sound : Sound user events move)
    (recorded : .audit request move true ∈ events) :
    Kept user (events ++ [.set request move true]) move.session := by
  obtain ⟨hook, actor, target⟩ := move
  obtain ⟨plain, rfl, other, trimmed, -⟩ := sound
  cases hook with
  | onExit => exact .inl rfl
  | onImpersonate =>
    refine .inr ⟨target, rfl, plain, other, trimmed, request, List.mem_append_left _ recorded, ?_⟩
    exact List.mem_append_right _ List.mem_cons_self

variable {before after : State}

theorem Invariant.step {event : Event} (named : user ≠ [])
    (plain : opts.begins → trimSpace user = user) (invariant : Invariant user events before)
    (step : Step opts before event after) : Invariant user (events ++ [event]) after := by
  have others (request : Nat) := (invariant.requests request).snoc event
  cases step with
  | @get request call ok new =>
    refine ⟨invariant.session.snoc _, ?_⟩
    refine (Function.forall_update_iff _ fun request phase => Phase.Sound user _ request phase).mpr
      ⟨?_, fun request _ => others request⟩
    cases moved : call.move opts (if ok then some before.session else none) with
    | error failure => trivial
    | ok move =>
      refine (Call.move_sound named plain (fun stored same => ?_) moved).snoc _
      cases ok with
      | false => cases same
      | true => exact Option.some.inj same ▸ invariant.session
  | @audit request move ok here =>
    refine ⟨invariant.session.snoc _, ?_⟩
    refine (Function.forall_update_iff _ fun request phase => Phase.Sound user _ request phase).mpr
      ⟨?_, fun request _ => others request⟩
    cases ok with
    | false => trivial
    | true =>
      have sound : (Phase.auditing move).Sound user events request := here ▸ invariant.requests request
      exact ⟨Sound.snoc sound _, List.mem_append_right _ List.mem_cons_self⟩
  | @set request move ok here =>
    obtain ⟨sound, recorded⟩ : (Phase.setting move).Sound user events request :=
      here ▸ invariant.requests request
    refine ⟨?_, ?_⟩
    · cases ok with
      | false => exact invariant.session.snoc _
      | true => exact sound.written recorded
    · refine (Function.forall_update_iff _ fun request phase => Phase.Sound user _ request phase).mpr
        ⟨?_, fun request _ => others request⟩
      cases ok <;> trivial

theorem invariant_of_run {state : State} (named : user ≠ [])
    (plain : opts.begins → trimSpace user = user) (run : (machine opts user).Run events state) :
    Invariant user events state := by
  refine run.history_invariant (Invariant user) ?_ fun _ _ _ _ invariant step =>
    invariant.step named plain step
  rintro state rfl
  exact ⟨.inl rfl, fun _ => trivial⟩

/-- A request that succeeded stays so. -/
theorem done_of_trace (trace : (machine opts user).Trace before events after)
    (done : before.requests request = .done) : after.requests request = .done := by
  refine trace.invariant (fun state => state.requests request = .done) ?_ done
  intro before event after done step
  have apart {other : Nat} {phase : Phase} (here : before.requests other = phase) (running : phase ≠ .done)
      (next : Phase) : Function.update before.requests other next request = .done := by
    rw [Function.update_of_ne, done]
    rintro rfl
    exact running (here.symm.trans done)
  cases step with
  | get new => exact apart new nofun _
  | audit here | set here => exact apart here nofun _

/-- A request that fails has not written the session. -/
theorem session_of_failed {event : Event} {later : List Event} {state : State} {failure : Failure}
    (step : Step opts before event after) (rest : (machine opts user).Trace after later state)
    (failed : state.requests event.request = .failed failure) : after.session = before.session := by
  cases step with
  | get => rfl
  | audit => rfl
  | @set request move ok here =>
    cases ok with
    | false => rfl
    | true =>
      have done : state.requests request = .done := done_of_trace rest (Function.update_self ..)
      cases done.symm.trans failed

/-- Somebody else can be impersonated. -/
theorem exists_target (actor : Bytes) :
    ∃ target, trimSpace target ≠ [] ∧ actor ≠ trimSpace target := by
  by_cases first : actor = trimSpace (textBytes "a")
  · refine ⟨textBytes "b", by decide +kernel, ?_⟩
    rw [first]
    decide +kernel
  · exact ⟨textBytes "a", by decide +kernel, first⟩

/-- Alone, a request that begins writes what it has read, trimmed. -/
theorem run_begins {target : Bytes} (begins : opts.begins) (named : trimSpace user ≠ [])
    (some : trimSpace target ≠ []) (other : trimSpace user ≠ trimSpace target) :
    ∃ events state, (machine opts user).Run events state ∧
      state.session = ⟨trimSpace target, trimSpace user⟩ := by
  have moved : (Call.begins target).move opts (Option.some ⟨user, []⟩) =
      .ok ⟨.onImpersonate, trimSpace user, trimSpace target⟩ := by
    rw [Call.move, beginMove, begins.1]
    simp only [Except.bind, begins.2, named, some, other, not_true_eq_false, or_self, ne_eq, if_false]
  let idle : Nat → Phase := fun _ => .idle
  let move : Move := ⟨.onImpersonate, trimSpace user, trimSpace target⟩
  let auditing : Nat → Phase := Function.update idle 0 (.auditing move)
  let setting : Nat → Phase := Function.update auditing 0 (.setting move)
  have read : Step opts ⟨⟨user, []⟩, idle⟩ (.get 0 (.begins target) true) ⟨⟨user, []⟩, auditing⟩ := by
    have step : Step opts ⟨⟨user, []⟩, idle⟩ (.get 0 (.begins target) true) _ := .get rfl
    rwa [if_pos rfl, moved] at step
  have recorded : Step opts ⟨⟨user, []⟩, auditing⟩ (.audit 0 move true) ⟨⟨user, []⟩, setting⟩ :=
    .audit (Function.update_self 0 (.auditing move) idle)
  have written : Step opts ⟨⟨user, []⟩, setting⟩ (.set 0 move true) _ :=
    .set (Function.update_self 0 (.setting move) auditing)
  exact ⟨_, _, ⟨_, rfl, .cons read (.cons recorded (.singleton written))⟩, rfl⟩

/-- Impersonation leads back just when trimming leaves the ID that logged in alone, unless
nothing can begin. -/
theorem leadsBack_iff (opts : Options) (user : Bytes) (named : trimSpace user ≠ []) :
    LeadsBack opts user ↔ (opts.begins → trimSpace user = user) := by
  constructor
  · intro leads begins
    obtain ⟨target, some, other⟩ := exists_target (trimSpace user)
    obtain ⟨events, state, run, shape⟩ := run_begins begins named some other
    obtain own | ⟨target, same, -⟩ := leads.reached run
    · exact absurd (Session.mk.inj (shape.symm.trans own)).2 named
    · exact (Session.mk.inj (shape.symm.trans same)).2
  · intro plain
    have present : user ≠ [] := by
      rintro rfl
      exact named rfl
    refine ⟨fun run => ?_, fun {events before after request actor target} run step => ?_,
      fun _ => session_of_failed⟩
    · obtain own | ⟨target, shape, -, other, -, request, recorded, -⟩ :=
        (invariant_of_run present plain run).session
      · exact .inl own
      · exact .inr ⟨target, shape, other, request, recorded⟩
    · cases step with
      | set here =>
        obtain ⟨sound, recorded⟩ : (Phase.setting ⟨.onExit, actor, target⟩).Sound user events request :=
          here ▸ (invariant_of_run present plain run).requests request
        obtain rfl := sound.actor
        exact ⟨rfl, rfl, recorded, sound.seen rfl⟩

theorem leadsBack_alice : trimSpace (textBytes "alice") ≠ [] ∧ LeadsBack {} (textBytes "alice") := by
  have named : trimSpace (textBytes "alice") ≠ [] := by decide +kernel
  exact ⟨named, (leadsBack_iff {} _ named).mpr fun _ => by decide +kernel⟩

/-- The ID ends with a space: the session is written without it. -/
theorem space_lost : trimSpace (textBytes "alice ") ≠ [] ∧ ¬LeadsBack {} (textBytes "alice ") := by
  refine ⟨by decide +kernel, fun leads => ?_⟩
  obtain ⟨events, state, run, shape⟩ : ∃ events state, (machine {} (textBytes "alice ")).Run events state ∧
      state.session = ⟨trimSpace (textBytes "bob"), trimSpace (textBytes "alice ")⟩ :=
    run_begins ⟨rfl, rfl⟩ (by decide +kernel) (by decide +kernel) (by decide +kernel)
  obtain own | ⟨target, same, -⟩ := leads.reached run
  · exact absurd (Session.mk.inj (shape.symm.trans own)).2 (by decide +kernel)
  · exact absurd (Session.mk.inj (shape.symm.trans same)).2 (by decide +kernel)

end Golusoris.Impersonate
