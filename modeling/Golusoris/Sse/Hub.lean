import Golusoris.Lib.Machine
import Golusoris.Sse.Format
import Mathlib.Data.List.Perm.Basic

/-!
# The hub of server-sent events

`Publish` offers an event to the clients of the moment, one after another under the read
lock, and skips those whose channel is full. A client comes and goes under the write
lock, and its handler closes the channel after that.
-/

namespace Golusoris.Sse

open List
open Golusoris.Lib Golusoris.Lib.EventStream
open Function (update update_of_ne update_self)

/-- Where the handler of a client stands; at the end its channel is closed. -/
inductive Stage where
  | unknown
  | streaming
  | returning
  | removed
  | closed
  deriving DecidableEq

/-- A client with the events in its channel and the response that was written. -/
structure Client (Value : Type) where
  stage : Stage := .unknown
  ch : List (Event Value) := []
  written : Bytes := []

/-- The hub, and for each publisher its event and the clients it has yet to visit. -/
structure Hub (Value : Type) where
  clients : List Nat := []
  client : Nat → Client Value := fun _ => {}
  calls : Nat := 0
  publishing : Nat → Option (Event Value × List Nat) := fun _ => none
  panicked : Bool := false

inductive Action (Value : Type) where
  | added (client : Nat)
  | began (call : Nat) (event : Event Value) (order : List Nat)
  | offered (call client : Nat) (event : Event Value) (took : Bool)
  | returned (call : Nat)
  | received (client : Nat) (event : Event Value)
  | failed (client : Nat) (event : Event Value)
  | stopped (client : Nat)
  | deleted (client : Nat)
  | closed (client : Nat)

variable {Value : Type}

def Client.room (bufSize : Nat) (client : Client Value) : Bool := client.ch.length < bufSize

/-- The send that does not block: without room the event is dropped. -/
def Client.offer (bufSize : Nat) (event : Event Value) (client : Client Value) : Client Value :=
  if client.room bufSize then { client with ch := client.ch ++ [event] } else client

@[simp] def Hub.set (hub : Hub Value) (c : Nat) (client : Client Value) : Hub Value :=
  { hub with client := update hub.client c client }

/-- A closed channel panics when it is sent to or closed again. -/
@[simp] def Hub.touch (hub : Hub Value) (c : Nat) : Hub Value :=
  { hub with panicked := hub.panicked || (hub.client c).stage = .closed }

@[simp] def Hub.hold (hub : Hub Value) (call : Nat) (visits : Option (Event Value × List Nat)) :
    Hub Value :=
  { hub with publishing := update hub.publishing call visits }

inductive Step (marshal : Value → Except String Bytes) (bufSize : Nat) :
    Hub Value → Action Value → Hub Value → Prop where
  | add {hub c} (free : ∀ call, hub.publishing call = none)
      (fresh : hub.client c = {}) :
      Step marshal bufSize hub (.added c)
        { hub.set c { stage := .streaming } with clients := c :: hub.clients }
  | begin {hub event order}
      (visits : order.Perm hub.clients) :
      Step marshal bufSize hub (.began hub.calls event order)
        { hub.hold hub.calls (some (event, order)) with calls := hub.calls + 1 }
  | offer {hub call c event rest}
      (holds : hub.publishing call = some (event, c :: rest)) :
      Step marshal bufSize hub (.offered call c event ((hub.client c).room bufSize))
        (((hub.touch c).set c ((hub.client c).offer bufSize event)).hold call (some (event, rest)))
  | done {hub call event}
      (holds : hub.publishing call = some (event, [])) :
      Step marshal bufSize hub (.returned call) (hub.hold call none)
  /-- An event without a frame is logged and skipped. -/
  | receive {hub c event rest}
      (streams : (hub.client c).stage = .streaming) (head : (hub.client c).ch = event :: rest) :
      Step marshal bufSize hub (.received c event) (hub.set c {
        hub.client c with
        ch := rest
        written := (hub.client c).written ++ frames marshal [event] })
  /-- A write that fails may have written a part. -/
  | fail {hub c event rest part} (streams : (hub.client c).stage = .streaming)
      (head : (hub.client c).ch = event :: rest) (cut : part <+: frames marshal [event]) :
      Step marshal bufSize hub (.failed c event) (hub.set c
        { stage := .returning, ch := rest, written := (hub.client c).written ++ part })
  | stop {hub c} (streams : (hub.client c).stage = .streaming) :
      Step marshal bufSize hub (.stopped c) (hub.set c { hub.client c with stage := .returning })
  | delete {hub c} (free : ∀ call, hub.publishing call = none)
      (returns : (hub.client c).stage = .returning) :
      Step marshal bufSize hub (.deleted c)
        { hub.set c { hub.client c with stage := .removed } with clients := hub.clients.erase c }
  | close {hub c} (removed : (hub.client c).stage = .removed) :
      Step marshal bufSize hub (.closed c)
        ((hub.touch c).set c { hub.client c with stage := .closed })

/-- `NewHub`, with any size of the channels. -/
def hub (marshal : Value → Except String Bytes) (bufSize : Nat) :
    Machine (Hub Value) (Action Value) where
  Initial start := start = {}
  Step := Step marshal bufSize

def Action.accepts (c : Nat) : Action Value → Option (Event Value)
  | .offered _ other event true => if other = c then some event else none
  | _ => none

def Action.takes (c : Nat) : Action Value → Option (Event Value)
  | .received other event | .failed other event => if other = c then some event else none
  | _ => none

/-- The visit of a publisher. -/
def Action.visits (call : Nat) : Action Value → Option (Nat × Event Value)
  | .offered other c event _ => if other = call then some (c, event) else none
  | _ => none

/-- The visits that a publisher has before it. -/
def Hub.left (call : Nat) (hub : Hub Value) : List (Nat × Event Value) :=
  match hub.publishing call with
  | some (event, rest) => rest.map (·, event)
  | none => []

/-- The events that the channel of a client took. -/
def buffered (c : Nat) (history : List (Action Value)) : List (Event Value) :=
  history.filterMap (Action.accepts c)

/-- The events that its handler took from there. -/
def consumed (c : Nat) (history : List (Action Value)) : List (Event Value) :=
  history.filterMap (Action.takes c)

variable {marshal : Value → Except String Bytes} {bufSize call c : Nat}
  {history : List (Action Value)} {before after : Hub Value} {action : Action Value}
  {client : Client Value} {queue taken : List (Event Value)} {listed : Prop} {event : Event Value}

structure Client.Sound (marshal : Value → Except String Bytes) (bufSize : Nat)
    (queue taken : List (Event Value)) (listed : Prop) (client : Client Value) : Prop where
  listed : listed ↔ client.stage = .streaming ∨ client.stage = .returning
  bounded : client.ch.length ≤ bufSize
  queued : queue = taken ++ client.ch
  whole : client.stage = .unknown ∨ client.stage = .streaming →
    client.written = frames marshal taken

/-- No publisher is yet to visit a client that the hub has let go of. -/
structure Sound (marshal : Value → Except String Bytes) (bufSize : Nat)
    (history : List (Action Value)) (hub : Hub Value) : Prop where
  calm : hub.panicked = false
  distinct : hub.clients.Nodup
  visiting : ∀ call event rest, hub.publishing call = some (event, rest) → rest ⊆ hub.clients
  client : ∀ c, (hub.client c).Sound marshal bufSize (buffered c history) (consumed c history)
    (c ∈ hub.clients)

variable (sound : client.Sound marshal bufSize queue taken listed)

include sound in
theorem Client.Sound.offer : (client.offer bufSize event).Sound marshal bufSize
    (queue ++ if client.room bufSize then [event] else []) taken listed := by
  rw [Client.offer]
  split_ifs with room
  · refine { sound with bounded := ?_, queued := ?_ }
    · rw [length_append]
      exact of_decide_eq_true room
    · rw [sound.queued, append_assoc]
  · rwa [append_nil]

include sound in
/-- The handler takes the first event, and goes on after it has written the frame. -/
theorem Client.Sound.take {rest : List (Event Value)} {written : Bytes} {stage : Stage}
    (head : client.ch = event :: rest) (streams : client.stage = .streaming)
    (next : stage = .streaming ∧ written = client.written ++ frames marshal [event] ∨
      stage = .returning) :
    Client.Sound marshal bufSize queue (taken ++ [event]) listed ⟨stage, rest, written⟩ where
  listed := by
    rw [sound.listed, streams]
    rcases next with ⟨rfl, -⟩ | rfl <;> simp
  bounded := by
    have short := sound.bounded
    rw [head, length_cons] at short
    exact Nat.le_of_succ_le short
  queued := by
    rw [sound.queued, head, append_assoc]
    rfl
  whole stays := by
    rcases next with ⟨-, rfl⟩ | rfl
    · rw [sound.whole (.inr streams)]
      exact flatMap_append.symm
    · simp at stays

include sound in
theorem Client.Sound.go (stage : Stage) {now : Prop}
    (shows : now ↔ stage = .streaming ∨ stage = .returning) (known : stage ≠ .unknown)
    (starts : stage = .streaming → client.stage = .unknown) :
    Client.Sound marshal bufSize queue taken now { client with stage } where
  listed := shows
  bounded := sound.bounded
  queued := sound.queued
  whole stays := sound.whole (.inl (starts (stays.resolve_left known)))

theorem filterMap_snoc {α β : Type} (f : α → Option β) (events : List α) (event : α) :
    (events ++ [event]).filterMap f = events.filterMap f ++ (f event).toList := by
  cases found : f event <;> simp [found]

variable (safe : Sound marshal bufSize history before)

include safe in
/-- What holds of the clients after an action that concerns one. -/
theorem Sound.set {clients : List Nat} (others : ∀ d, d ≠ c → action.accepts d = none ∧
      action.takes d = none ∧ (d ∈ clients ↔ d ∈ before.clients))
    (own : client.Sound marshal bufSize (buffered c history ++ (action.accepts c).toList)
      (consumed c history ++ (action.takes c).toList) (c ∈ clients)) (d : Nat) :
    (update before.client c client d).Sound marshal bufSize (buffered d (history ++ [action]))
      (consumed d (history ++ [action])) (d ∈ clients) := by
  rw [buffered, consumed, filterMap_snoc, filterMap_snoc]
  by_cases same : d = c
  · subst same
    rwa [update_self]
  · obtain ⟨accepts, takes, lists⟩ := others d same
    rw [update_of_ne same, accepts, takes, Option.toList_none, append_nil, append_nil]
    exact { safe.client d with listed := lists.trans (safe.client d).listed }

include safe in
/-- A publisher's own step leaves the clients it has yet to visit among those there are. -/
theorem Sound.hold {visits : Option (Event Value × List Nat)}
    (inside : ∀ event rest, visits = some (event, rest) → rest ⊆ before.clients) (other : Nat)
    (event : Event Value) (rest : List Nat)
    (holds : update before.publishing call visits other = some (event, rest)) :
    rest ⊆ before.clients := by
  by_cases same : other = call
  · rw [same, update_self] at holds
    exact inside event rest holds
  · rw [update_of_ne same] at holds
    exact safe.visiting other event rest holds

include safe in
theorem Sound.quiet (still : ∀ c, action.accepts c = none ∧ action.takes c = none) (c : Nat) :
    (before.client c).Sound marshal bufSize (buffered c (history ++ [action]))
      (consumed c (history ++ [action])) (c ∈ before.clients) := by
  rw [buffered, consumed, filterMap_snoc, filterMap_snoc, (still c).1, (still c).2,
    Option.toList_none, append_nil, append_nil]
  exact safe.client c

include safe in
theorem Sound.step (step : Step marshal bufSize before action after) :
    Sound marshal bufSize (history ++ [action]) after := by
  have open_ {c : Nat} (here : c ∈ before.clients) : (before.client c).stage ≠ .closed := by
    intro shut
    have stage := (safe.client c).listed.mp here
    simp [shut] at stage
  cases step with
  | @add c free fresh =>
    have own := safe.client c
    have new : c ∉ before.clients := by simp [own.listed, fresh]
    refine ⟨safe.calm, safe.distinct.cons new, fun call _ _ holds => ?_, safe.set
      (fun d other => ⟨rfl, rfl, by simp [other]⟩) ?_⟩
    · cases (free call).symm.trans holds
    · rw [fresh] at own
      simpa [Action.accepts, Action.takes] using own.go .streaming (by simp) (by simp) fun _ => rfl
  | begin visits =>
    refine ⟨safe.calm, safe.distinct, safe.hold ?_, safe.quiet fun _ => ⟨rfl, rfl⟩⟩
    rintro _ _ ⟨⟩
    exact visits.subset
  | @offer call c event rest holds =>
    have ahead := safe.visiting call event _ holds
    refine ⟨?_, safe.distinct, safe.hold ?_, safe.set ?_ ?_⟩
    · simp [Hub.hold, Hub.set, Hub.touch, safe.calm, open_ (ahead mem_cons_self)]
    · rintro _ _ ⟨⟩ d found
      exact ahead (mem_cons_of_mem c found)
    · intro d other
      cases took : (before.client c).room bufSize <;> simp [Action.accepts, Action.takes, Ne.symm other]
    · have own : ((before.client c).offer bufSize event).Sound marshal bufSize _ _ _ :=
        (safe.client c).offer
      cases took : (before.client c).room bufSize <;>
        simpa [took, Action.accepts, Action.takes] using own
  | done holds =>
    exact ⟨safe.calm, safe.distinct, safe.hold nofun, safe.quiet fun _ => ⟨rfl, rfl⟩⟩
  | @receive c event rest streams head =>
    refine ⟨safe.calm, safe.distinct, safe.visiting, safe.set
      (fun d other => ⟨rfl, if_neg other.symm, .rfl⟩) ?_⟩
    simpa [Action.accepts, Action.takes] using
      (safe.client c).take head streams (.inl ⟨streams, rfl⟩)
  | @fail c event rest part streams head cut =>
    refine ⟨safe.calm, safe.distinct, safe.visiting, safe.set
      (fun d other => ⟨rfl, if_neg other.symm, .rfl⟩) ?_⟩
    simpa [Action.accepts, Action.takes] using (safe.client c).take head streams (.inr rfl)
  | @stop c streams =>
    have own := safe.client c
    refine ⟨safe.calm, safe.distinct, safe.visiting, safe.set (fun _ _ => ⟨rfl, rfl, .rfl⟩) ?_⟩
    simpa [Action.accepts, Action.takes] using
      own.go .returning (by rw [own.listed, streams]; simp) (by simp) nofun
  | @delete c free returns =>
    refine ⟨safe.calm, safe.distinct.erase c, fun call _ _ holds => ?_, safe.set
      (fun d other => ⟨rfl, rfl, mem_erase_of_ne other⟩) ?_⟩
    · cases (free call).symm.trans holds
    · simpa [Action.accepts, Action.takes] using
        (safe.client c).go .removed (by simp [safe.distinct.mem_erase_iff]) (by simp) nofun
  | @close c removed =>
    have own := safe.client c
    refine ⟨?_, safe.distinct, safe.visiting, safe.set (fun _ _ => ⟨rfl, rfl, .rfl⟩) ?_⟩
    · simp [Hub.set, Hub.touch, safe.calm, removed]
    · simpa [Action.accepts, Action.takes] using
        own.go .closed (by rw [own.listed, removed]; simp) (by simp) nofun

variable {state : Hub Value} (run : (hub marshal bufSize).Run history state)

include run in
theorem hub_sound : Sound marshal bufSize history state := by
  refine run.history_invariant (Sound marshal bufSize) ?_ fun _ _ _ _ safe step => safe.step step
  rintro _ rfl
  exact ⟨rfl, nodup_nil, nofun, fun c => ⟨by simp, Nat.zero_le _, rfl, fun _ => rfl⟩⟩

/-- No publisher sends on a closed channel, no channel is closed twice, and none holds more
than its size. -/
theorem hub_never_panics (run : (hub marshal bufSize).Run history state) :
    state.panicked = false ∧ ∀ c, (state.client c).ch.length ≤ bufSize :=
  ⟨(hub_sound run).calm, fun c => ((hub_sound run).client c).bounded⟩

include run in
/-- A client that is served has read the events that its channel took, less those that wait
there: each is one message, in order. -/
theorem client_reads (streams : (state.client c).stage = .streaming) :
    ∃ taken, buffered c history = taken ++ (state.client c).ch ∧
      Told marshal (accepted marshal taken) (parse (state.client c).written) := by
  have own := (hub_sound run).client c
  refine ⟨consumed c history, own.queued, ?_⟩
  rw [own.whole (.inr streams), parse, decodeStream_frames, read_frames rfl rfl]
  exact publishAll_told _

/-- The state of a call that is to make these visits. -/
structure Serving (call : Nat) (visits : List (Nat × Event Value))
    (past : List (Action Value)) (hub : Hub Value) : Prop where
  known : call < hub.calls
  visited : past.filterMap (Action.visits call) ++ hub.left call = visits
  ended : .returned call ∈ past → hub.left call = []

theorem Serving.step {visits : List (Nat × Event Value)} (serving : Serving call visits history before)
    (step : Step marshal bufSize before action after) :
    Serving call visits (history ++ [action]) after := by
  obtain ⟨known, visited, ended⟩ := serving
  cases step with
  | begin order =>
    have other : call ≠ before.calls := Nat.ne_of_lt known
    exact ⟨Nat.lt_succ_of_lt known,
      by simpa [filterMap_cons, Action.visits, Hub.left, other] using visited,
      by simpa [Hub.left, other] using ended⟩
  | @offer other c event rest holds =>
    by_cases same : call = other
    · subst same
      refine ⟨known, ?_, fun early => ?_⟩
      · rw [← visited]
        simp [Action.visits, Hub.left, holds]
      · have none := ended (by simpa using early)
        simp [Hub.left, holds] at none
    · exact ⟨known, by simpa [filterMap_cons, Action.visits, Hub.left, same, Ne.symm same] using visited,
        by simpa [Hub.left, same] using ended⟩
  | @done other event holds =>
    by_cases same : call = other
    · subst same
      refine ⟨known, ?_, fun _ => by simp [Hub.left]⟩
      rw [← visited]
      simp [Action.visits, Hub.left, holds]
    · exact ⟨known, by simpa [filterMap_cons, Action.visits, Hub.left, same] using visited,
        by simpa [Hub.left, same] using ended⟩
  | add _ _ | receive _ _ | fail _ _ _ | stop _ | delete _ _ | close _ =>
    exact ⟨known, by simpa [filterMap_cons, Action.visits, Hub.left] using visited,
      by simpa [Hub.left] using ended⟩

/-- Some text for every client. -/
def greeting : Event Unit := ⟨[], [], .text (textBytes "hello"), 0⟩

def sampleHub : List (Action Unit) :=
  [.added 0, .began 0 greeting [0], .offered 0 0 greeting true, .returned 0, .received 0 greeting]

theorem sampleHub_run : ∃ state, (hub (fun _ : Unit => .ok []) 1).Run sampleHub state ∧
    (state.client 0).stage = .streaming :=
  ⟨_, ⟨{}, rfl, .cons (.add (fun _ => rfl) rfl) (.cons (.begin (.refl _)) (.cons (.offer rfl)
    (.cons (.done rfl) (.cons (.receive rfl rfl) (.nil _)))))⟩, rfl⟩

theorem hub_never_panics_sample : ∃ state, (hub (fun _ : Unit => .ok []) 1).Run sampleHub state ∧
    state.panicked = false ∧ ∀ c, (state.client c).ch.length ≤ 1 :=
  sampleHub_run.imp fun _ ⟨run, _⟩ => ⟨run, hub_never_panics run⟩

theorem client_reads_sample : ∃ state : Hub Unit, ∃ taken,
    buffered 0 sampleHub = taken ++ (state.client 0).ch ∧
      Told (fun _ => .ok []) (accepted (fun _ => .ok []) taken) (parse (state.client 0).written) :=
  sampleHub_run.imp fun _ ⟨run, streams⟩ => client_reads run streams

end Golusoris.Sse
