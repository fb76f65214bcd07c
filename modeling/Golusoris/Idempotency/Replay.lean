import Golusoris.Idempotency.Middleware

/-!
# Recorded and replayed responses

`Server` is the part of a `net/http` response a handler can reach: 1xx codes
other than 101 are informational, the first other code is final and freezes the
header, a body is refused for 204, 304 and 101 and beyond the declared length. A
code outside 100..999 panics. What the server derives from status, header and
body alone (framing, sniffing) is left out. Header names are canonical, as the
methods of `http.Header` keep them.
-/

namespace Golusoris.Idempotency

open List

/-- The values under a name, as `http.Header` reads them. -/
def Header.values (header : Header) (name : Bytes) : List Bytes := (header.lookup name).getD []

def Header.add (header : Header) (name value : Bytes) : Header :=
  header.insert name (header.values name ++ [value])

def Header.set (header : Header) (name value : Bytes) : Header := header.insert name [value]

structure Server where
  header : Header
  sent : Option (Int × Header) := none
  written : Nat := 0
  body : Bytes := []

/-- What a client received: final status, header and body. -/
@[ext] structure Received where
  status : Int
  header : Bytes → List Bytes
  body : Bytes

inductive Panic where
  | invalidStatus (code : Int)

namespace Server

def writeHeader (server : Server) (code : Int) : Except Panic Server :=
  match server.sent with
  | some _ => .ok server
  | none =>
      if code < 100 ∨ 999 < code then .error (.invalidStatus code)
      else if code ≤ 199 ∧ code ≠ 101 then .ok server
      else .ok { server with sent := some (code, server.header) }

def bodyAllowed (status : Int) : Bool := ¬ (status ≤ 199 ∨ status = 204 ∨ status = 304)

/-- The final status and header, which a first write or the end of the handler
fixes with 200. -/
def final (server : Server) : Int × Header := server.sent.getD (200, server.header)

/-- `Write`; the result is the number of bytes taken. `declared` reads the length
announced in a header. -/
def write (declared : (Bytes → List Bytes) → Option Nat) (server : Server) (data : Bytes) :
    Nat × Server :=
  let server := { server with sent := some server.final }
  if data = [] ∨ ¬ bodyAllowed server.final.1 then (0, server)
  else
    let written := server.written + data.length
    let server := { server with written }
    if (declared server.final.2.values).any (· < written) then (0, server)
    else (data.length, { server with body := server.body ++ data })

/-- The response once the handler has returned. -/
def received (server : Server) : Received where
  status := server.final.1
  header := server.final.2.values
  body := server.body

end Server

/-- `http.Error`. -/
def httpError (declared : (Bytes → List Bytes) → Option Nat) (server : Server)
    (message : String) (code : Int) : Server :=
  let header := server.header.erase (textBytes "Content-Length")
  let header := Header.set header (textBytes "Content-Type")
    (textBytes "text/plain; charset=utf-8")
  let header := Header.set header (textBytes "X-Content-Type-Options") (textBytes "nosniff")
  let server := { server with header }
  match server.writeHeader code with
  | .error _ => server
  | .ok server => (server.write declared (textBytes (message ++ "\n"))).2

structure ResponseRecorder where
  target : Server
  header : Header := ∅
  code : Int := 0
  body : Bytes := []
  limit : Int
  wroteHeader : Bool := false
  overflow : Bool := false

namespace ResponseRecorder

/-- `WriteHeader`; the recorder is marked before the target can panic. -/
def writeHeader (recorder : ResponseRecorder) (code : Int) : Option Panic × ResponseRecorder :=
  if recorder.wroteHeader then (none, recorder)
  else
    let recorder := { recorder with wroteHeader := true, code, header := recorder.target.header }
    match recorder.target.writeHeader code with
    | .error panic => (some panic, recorder)
    | .ok target => (none, { recorder with target })

def capture (recorder : ResponseRecorder) (body : Bytes) : ResponseRecorder :=
  let remaining := recorder.limit - recorder.body.length
  if remaining ≤ 0 then
    { recorder with overflow := recorder.overflow || decide (0 < body.length) }
  else if remaining < body.length then
    { recorder with overflow := true, body := recorder.body ++ body.take remaining.toNat }
  else { recorder with body := recorder.body ++ body }

/-- Write 200 unless a status was written before. -/
def ensureHeader (recorder : ResponseRecorder) : ResponseRecorder :=
  if recorder.wroteHeader then recorder else (recorder.writeHeader 200).2

def write (declared : (Bytes → List Bytes) → Option Nat) (recorder : ResponseRecorder)
    (body : Bytes) : ResponseRecorder :=
  let recorder := recorder.ensureHeader
  let (written, target) := recorder.target.write declared body
  { recorder with target }.capture (body.take written)

def response (recorder : ResponseRecorder) : CachedResponse where
  statusCode := recorder.code
  header := recorder.header
  body := recorder.body

end ResponseRecorder

/-- What a handler does with its `ResponseWriter`; `recovers` tells whether it
recovers from the panic an invalid code raises. -/
inductive HandlerCall where
  | mutate (change : Header → Header)
  | writeHeader (code : Int) (recovers : Bool)
  | write (data : Bytes)

/-- Run a handler against the recorder; `none` when it panics. -/
def runHandler (declared : (Bytes → List Bytes) → Option Nat) :
    List HandlerCall → ResponseRecorder → Option ResponseRecorder
  | [], recorder => some recorder
  | .mutate change :: rest, recorder =>
      runHandler declared rest
        { recorder with target :=
            { recorder.target with header := change recorder.target.header } }
  | .writeHeader code recovers :: rest, recorder =>
      match recorder.writeHeader code with
      | (none, recorder) => runHandler declared rest recorder
      | (some _, recorder) => if recovers then runHandler declared rest recorder else none
  | .write data :: rest, recorder => runHandler declared rest (recorder.write declared data)

/-- `captureResponse` on a writer that carries the headers `outer`. -/
def captureResponse (declared : (Bytes → List Bytes) → Option Nat) (outer : Header)
    (calls : List HandlerCall) (limit : Int) : Option ResponseRecorder :=
  (runHandler declared calls { target := { header := outer }, limit }).map
    ResponseRecorder.ensureHeader

/-- `replay`; `order` is the order in which the header map is iterated. -/
def replay (declared : (Bytes → List Bytes) → Option Nat) (server : Server)
    (response : CachedResponse) (order : List Bytes) : Server :=
  let header := order.foldl (fun header name =>
    (response.header.values name).foldl (fun header value => header.add name value) header)
    server.header
  let status := if response.statusCode = 0 then 200 else response.statusCode
  match { server with header }.writeHeader status with
  | .error _ => { server with header }
  | .ok server => (server.write declared response.body).2

/-- A request answered from a claim, on a writer that carries `outer`. -/
def answerClaim (declared : (Bytes → List Bytes) → Option Nat) (outer : Header)
    (fingerprint : String) (claim : ClaimResult) (order : List Bytes) : Option Received :=
  match handleClaim fingerprint claim with
  | .execute _ => none
  | .replay response => some (replay declared { header := outer } response order).received
  | .respond status message =>
      some (httpError declared { header := outer } message status).received

/-- The code of the handler's first `WriteHeader`, unless a `Write` precedes it. -/
def firstCode : List HandlerCall → Option Int
  | [] => none
  | .mutate _ :: rest => firstCode rest
  | .writeHeader code _ :: _ => some code
  | .write _ :: _ => none

variable {declared : (Bytes → List Bytes) → Option Nat}

namespace Server

@[simp] theorem final_of_sent {server : Server} {status : Int} {header : Header}
    (sent : server.sent = some (status, header)) : server.final = (status, header) := by
  rw [final, sent, Option.getD_some]

/-- A code of 200 or more is final. -/
theorem writeHeader_final {server : Server} {code : Int} (unsent : server.sent = none)
    (low : 200 ≤ code) (high : code ≤ 999) :
    server.writeHeader code = .ok { server with sent := some (code, server.header) } := by
  simp only [writeHeader, unsent]
  rw [if_neg (by omega), if_neg (by omega)]

/-- A write fixes status and header, and takes all of the data or nothing. -/
theorem write_spec (declared : (Bytes → List Bytes) → Option Nat) (server : Server) (data : Bytes) :
    (server.write declared data).2.sent = some server.final ∧
      ((server.write declared data).2.body = server.body ∧ (server.write declared data).1 = 0 ∧
          server.written ≤ (server.write declared data).2.written ∨
        (server.write declared data).2.body = server.body ++ data ∧
        (server.write declared data).1 = data.length ∧
        (server.write declared data).2.written = server.written + data.length ∧
        bodyAllowed server.final.1 = true ∧
        ∀ length, declared server.final.2.values = some length →
          server.written + data.length ≤ length) := by
  have same : ({ server with sent := some server.final } : Server).final = server.final := rfl
  unfold write
  simp only [same]
  by_cases refused : data = [] ∨ ¬ bodyAllowed server.final.1
  · rw [if_pos refused]
    exact ⟨rfl, .inl ⟨rfl, rfl, le_rfl⟩⟩
  · rw [if_neg refused]
    by_cases exceeds : (declared server.final.2.values).any (· < server.written + data.length)
    · have same' : ({ server with
          sent := some server.final
          written := server.written + data.length } : Server).final = server.final := rfl
      rw [same', if_pos exceeds]
      exact ⟨rfl, .inl ⟨rfl, rfl, Nat.le_add_right _ _⟩⟩
    · have same' : ({ server with
          sent := some server.final
          written := server.written + data.length } : Server).final = server.final := rfl
      rw [same', if_neg exceeds]
      refine ⟨rfl, .inr ⟨rfl, rfl, rfl, ?_, ?_⟩⟩
      · exact not_not.mp fun forbidden => refused (.inr forbidden)
      · intro length announced
        rw [announced] at exceeds
        simpa using exceeds

/-- Data that the status and the declared length admit is taken. -/
theorem write_accepted {server : Server} {data : Bytes}
    (allowed : data ≠ [] → bodyAllowed server.final.1 = true ∧
      ∀ length, declared server.final.2.values = some length →
        server.written + data.length ≤ length) :
    (server.write declared data).2.body = server.body ++ data := by
  by_cases empty : data = []
  · subst empty
    simp [write]
  · obtain ⟨admitted, announced⟩ := allowed empty
    have fits : (declared server.final.2.values).any (· < server.written + data.length) = false := by
      cases known : declared server.final.2.values with
      | none => rfl
      | some length => simpa using announced length known
    have same : ∀ written, ({ server with
        sent := some server.final
        written } : Server).final = server.final := fun _ => rfl
    simp [write, empty, same, admitted, fits]

end Server

/-- What the recorder knows about the response its target sends. -/
structure ResponseRecorder.Tracks (declared : (Bytes → List Bytes) → Option Nat)
    (recorder : ResponseRecorder) : Prop where
  unsent : recorder.wroteHeader = false → recorder.target.sent = none
  final : recorder.wroteHeader = true → 200 ≤ recorder.code → recorder.code ≤ 999 →
    recorder.target.sent = some (recorder.code, recorder.header)
  provisional : recorder.wroteHeader = true → recorder.code < 200 →
    ∀ status header, recorder.target.sent = some (status, header) → status = 200 ∨ status = 101
  copied : recorder.overflow = false → recorder.body = recorder.target.body
  counted : recorder.target.body.length ≤ recorder.target.written
  accepted : recorder.target.body ≠ [] → ∃ status header,
    recorder.target.sent = some (status, header) ∧ Server.bodyAllowed status = true ∧
      ∀ length, declared header.values = some length → recorder.target.body.length ≤ length

namespace ResponseRecorder

variable {recorder : ResponseRecorder}

theorem Tracks.start (outer : Header) (limit : Int) :
    Tracks declared { target := { header := outer }, limit } where
  unsent := fun _ => rfl
  final := nofun
  provisional := nofun
  copied := fun _ => rfl
  counted := le_rfl
  accepted := fun wrote => absurd rfl wrote

variable (tracks : recorder.Tracks declared)

include tracks in
theorem Tracks.mutate (header : Header) :
    Tracks declared { recorder with target := { recorder.target with header } } :=
  { tracks with }

include tracks in
/-- The first status code, whatever it is, becomes the recorded one. -/
theorem Tracks.writeHeader (code : Int) : Tracks declared (recorder.writeHeader code).2 := by
  unfold ResponseRecorder.writeHeader
  by_cases wrote : recorder.wroteHeader
  · simpa [wrote] using tracks
  · have unsent := tracks.unsent (by simpa using wrote)
    simp only [wrote, Bool.false_eq_true, if_false, Server.writeHeader, unsent]
    have empty : recorder.target.body = [] := by
      by_contra some
      obtain ⟨_, _, sent, _⟩ := tracks.accepted some
      rw [unsent] at sent
      cases sent
    by_cases invalid : code < 100 ∨ 999 < code
    · rw [if_pos invalid]
      refine ⟨nofun, ?_, ?_, tracks.copied, tracks.counted, tracks.accepted⟩
      · intro _ low high
        simp only at low high
        omega
      · intro _ _ status header sent
        rw [unsent] at sent
        cases sent
    · rw [if_neg invalid]
      by_cases informational : code ≤ 199 ∧ code ≠ 101
      · rw [if_pos informational]
        refine ⟨nofun, ?_, ?_, tracks.copied, tracks.counted, tracks.accepted⟩
        · intro _ low high
          simp only at low high
          omega
        · intro _ _ status header sent
          rw [unsent] at sent
          cases sent
      · rw [if_neg informational]
        refine ⟨nofun, fun _ _ _ => rfl, ?_, tracks.copied, tracks.counted, ?_⟩
        · rintro _ low status header sent
          simp only at low
          cases sent
          omega
        · intro wrote
          exact absurd empty wrote

include tracks in
theorem Tracks.ensureHeader :
    Tracks declared recorder.ensureHeader ∧ recorder.ensureHeader.wroteHeader = true := by
  unfold ResponseRecorder.ensureHeader
  by_cases wrote : recorder.wroteHeader
  · simpa [wrote] using tracks
  · refine ⟨by simpa [wrote] using tracks.writeHeader 200, ?_⟩
    simp only [wrote, Bool.false_eq_true, if_false, ResponseRecorder.writeHeader]
    split <;> rfl

/-- Unless it overflows, the recorder captures everything. -/
theorem capture_spec (recorder : ResponseRecorder) (body : Bytes) :
    (recorder.capture body).target = recorder.target ∧
      (recorder.capture body).wroteHeader = recorder.wroteHeader ∧
      (recorder.capture body).code = recorder.code ∧
      (recorder.capture body).header = recorder.header ∧
      ((recorder.capture body).overflow = false →
        recorder.overflow = false ∧ (recorder.capture body).body = recorder.body ++ body) := by
  unfold capture
  dsimp only
  split
  · refine ⟨rfl, rfl, rfl, rfl, ?_⟩
    intro fits
    obtain ⟨before, empty⟩ := Bool.or_eq_false_iff.mp fits
    have nothing : body = [] := by
      simpa [length_pos_iff] using empty
    exact ⟨before, by simp [nothing]⟩
  · split
    · exact ⟨rfl, rfl, rfl, rfl, nofun⟩
    · exact ⟨rfl, rfl, rfl, rfl, fun fits => ⟨fits, rfl⟩⟩

include tracks in
theorem Tracks.write (data : Bytes) : Tracks declared (recorder.write declared data) := by
  obtain ⟨ready, wrote⟩ := tracks.ensureHeader
  unfold ResponseRecorder.write
  generalize recorder.ensureHeader = recorder at ready wrote
  obtain ⟨sent, taken⟩ := Server.write_spec declared recorder.target data
  dsimp only
  obtain ⟨target, written, code, header, body⟩ := capture_spec
    { recorder with target := (recorder.target.write declared data).2 }
    (data.take (recorder.target.write declared data).1)
  -- The target has fixed its status, and everything else is as before the write.
  constructor
  case unsent =>
    intro unwritten
    rw [written, wrote] at unwritten
    cases unwritten
  case final =>
    intro _ low high
    rw [code] at low high ⊢
    rw [target, header, sent, Server.final_of_sent (ready.final wrote low high)]
  case provisional =>
    intro _ low status frozen known
    rw [code] at low
    rw [target, sent, Option.some.injEq] at known
    cases before : recorder.target.sent with
    | none =>
      rw [Server.final, before] at known
      exact .inl (Prod.mk.inj known).1.symm
    | some first =>
      obtain ⟨first, kept⟩ := first
      rw [Server.final_of_sent before] at known
      rw [← (Prod.mk.inj known).1]
      exact ready.provisional wrote low first kept before
  case copied =>
    intro fits
    obtain ⟨before, captured⟩ := body fits
    rw [captured, target]
    have copied : recorder.body = recorder.target.body := ready.copied before
    rcases taken with ⟨kept, none, _⟩ | ⟨grown, all, _⟩
    · rw [kept, none, take_zero, append_nil, copied]
    · rw [grown, all, take_length, copied]
  case counted =>
    rw [target]
    have counted := ready.counted
    rcases taken with ⟨kept, _, later⟩ | ⟨grown, _, later, _⟩
    · rw [kept]
      exact counted.trans later
    · rw [grown, length_append, later]
      omega
  case accepted =>
    rw [target, sent]
    intro wrote
    refine ⟨recorder.target.final.1, recorder.target.final.2, rfl, ?_⟩
    rcases taken with ⟨kept, _, _⟩ | ⟨grown, _, _, allowed, announced⟩
    · rw [kept] at wrote ⊢
      obtain ⟨status, frozen, before, allowed, announced⟩ := ready.accepted wrote
      rw [Server.final_of_sent before]
      exact ⟨allowed, announced⟩
    · refine ⟨allowed, ?_⟩
      intro length known
      have counted := ready.counted
      have bound := announced length known
      rw [grown, length_append]
      omega

end ResponseRecorder

/-- A handler leaves the recorder in step with its target. -/
theorem runHandler_tracks {calls : List HandlerCall} {recorder final : ResponseRecorder}
    (tracks : recorder.Tracks declared) (ran : runHandler declared calls recorder = some final) :
    final.Tracks declared := by
  induction calls generalizing recorder with
  | nil =>
    cases ran
    exact tracks
  | cons call rest ih =>
    cases call with
    | mutate change => exact ih (tracks.mutate (change recorder.target.header)) ran
    | write data => exact ih (tracks.write data) ran
    | writeHeader code recovers =>
      have written := tracks.writeHeader code
      simp only [runHandler] at ran
      split at ran
      · rename_i next result
        rw [result] at written
        exact ih written ran
      · rename_i next result
        rw [result] at written
        cases recovers with
        | false => simp at ran
        | true => exact ih written (by simpa using ran)

theorem writeHeader_code (recorder : ResponseRecorder) (code : Int) :
    (recorder.writeHeader code).2.wroteHeader = true ∧
      (recorder.writeHeader code).2.code = if recorder.wroteHeader then recorder.code else code := by
  unfold ResponseRecorder.writeHeader
  cases wrote : recorder.wroteHeader with
  | true => exact ⟨wrote, rfl⟩
  | false =>
    simp only [Bool.false_eq_true, if_false]
    split <;> exact ⟨rfl, rfl⟩

theorem ensureHeader_code (recorder : ResponseRecorder) :
    recorder.ensureHeader.wroteHeader = true ∧
      recorder.ensureHeader.code = if recorder.wroteHeader then recorder.code else 200 := by
  unfold ResponseRecorder.ensureHeader
  cases wrote : recorder.wroteHeader with
  | true => exact ⟨wrote, rfl⟩
  | false => simpa [wrote] using writeHeader_code recorder 200

theorem write_code (declared : (Bytes → List Bytes) → Option Nat) (recorder : ResponseRecorder)
    (data : Bytes) : (recorder.write declared data).wroteHeader = true ∧
      (recorder.write declared data).code =
        if recorder.wroteHeader then recorder.code else 200 := by
  obtain ⟨ready, status⟩ := ensureHeader_code recorder
  unfold ResponseRecorder.write
  obtain ⟨_, wrote, code, _⟩ := ResponseRecorder.capture_spec
    { recorder.ensureHeader with target := (recorder.ensureHeader.target.write declared data).2 }
    (data.take (recorder.ensureHeader.target.write declared data).1)
  exact ⟨wrote.trans ready, code.trans status⟩

/-- The recorded code is the first one written, informational or not. -/
theorem runHandler_code {calls : List HandlerCall} {recorder final : ResponseRecorder}
    (ran : runHandler declared calls recorder = some final) :
    final.ensureHeader.code =
      if recorder.wroteHeader then recorder.code else (firstCode calls).getD 200 := by
  induction calls generalizing recorder with
  | nil =>
    obtain rfl := Option.some.inj ran
    exact (ensureHeader_code recorder).2
  | cons call rest ih =>
    cases call with
    | mutate change =>
      let target := { recorder.target with header := change recorder.target.header }
      have mutated : runHandler declared rest { recorder with target } = some final := ran
      have recorded := ih mutated
      exact recorded
    | write data =>
      obtain ⟨wrote, code⟩ := write_code declared recorder data
      rw [ih ran, wrote, if_pos rfl, code]
      rfl
    | writeHeader code recovers =>
      obtain ⟨wrote, recorded⟩ := writeHeader_code recorder code
      have later : ∀ {next : ResponseRecorder}, (recorder.writeHeader code).2 = next →
          runHandler declared rest next = some final →
          final.ensureHeader.code = if recorder.wroteHeader then recorder.code else code := by
        rintro next rfl ran
        rw [ih ran, wrote, if_pos rfl, recorded]
      simp only [runHandler] at ran
      split at ran
      · rename_i next result
        exact later (congrArg Prod.snd result) ran
      · rename_i panic next result
        cases recovers with
        | false => simp at ran
        | true => exact later (congrArg Prod.snd result) (by simpa using ran)

theorem values_add (header : Header) (name other value : Bytes) :
    (Header.add header name value).values other =
      if other = name then header.values name ++ [value] else header.values other := by
  by_cases same : other = name
  · subst same
    simp [Header.add, Header.values]
  · simp [Header.add, Header.values, same, Finmap.lookup_insert_of_ne]

theorem values_foldl_add (header : Header) (name other : Bytes) (values : List Bytes) :
    Header.values (values.foldl (fun header value => header.add name value) header) other =
      if other = name then header.values name ++ values else header.values other := by
  induction values generalizing header with
  | nil => by_cases same : other = name <;> simp [same]
  | cons value values ih =>
    rw [foldl_cons, ih, values_add, values_add]
    by_cases same : other = name
    · simp [same]
    · simp [same]

/-- Replaying appends the stored values to what the writer carries already. -/
theorem values_replay (header stored : Header) (order : List Bytes) (distinct : order.Nodup)
    (name : Bytes) :
    Header.values (order.foldl (fun header name =>
      (stored.values name).foldl (fun header value => header.add name value) header) header) name =
      header.values name ++ if name ∈ order then stored.values name else [] := by
  induction order generalizing header with
  | nil => simp
  | cons head rest ih =>
    obtain ⟨fresh, distinct⟩ := nodup_cons.mp distinct
    rw [foldl_cons, ih _ distinct, values_foldl_add]
    by_cases same : name = head
    · subst same
      simp [fresh]
    · simp [same]

/-- The second client of a recorded final status gets it with the values `outer`
carried in front of the recorded ones. -/
theorem replay_received (declared : (Bytes → List Bytes) → Option Nat) (server : Server)
    {response : CachedResponse} {order : List Bytes}
    (iterates : order.Nodup ∧ order.toFinset = response.header.keys)
    (unsent : server.sent = none) (empty : server.body = []) (unwritten : server.written = 0)
    (low : 200 ≤ response.statusCode) (high : response.statusCode ≤ 599) :
    (replay declared server response order).received.status = response.statusCode ∧
      (replay declared server response order).received.header =
        (fun name => server.header.values name ++ response.header.values name) ∧
      ((∀ name, server.header.values name = []) →
        (response.body ≠ [] → Server.bodyAllowed response.statusCode = true ∧
          ∀ length, declared response.header.values = some length → response.body.length ≤ length) →
        (replay declared server response order).received.body = response.body) := by
  let header := order.foldl (fun header name =>
    (response.header.values name).foldl (fun header value => header.add name value) header)
    server.header
  have merged : header.values =
      fun name => server.header.values name ++ response.header.values name := by
    funext name
    rw [values_replay _ _ _ iterates.1]
    by_cases listed : name ∈ order
    · rw [if_pos listed]
    · have missing : name ∉ response.header.keys := by
        rw [← iterates.2, mem_toFinset]
        exact listed
      rw [Finmap.mem_keys, ← Finmap.lookup_eq_none] at missing
      simp [listed, Header.values, missing]
  have status : (if response.statusCode = 0 then 200 else response.statusCode) =
      response.statusCode := if_neg (by omega)
  have written : ({ server with header } : Server).writeHeader response.statusCode =
      .ok { server with header, sent := some (response.statusCode, header) } :=
    Server.writeHeader_final unsent low (by omega)
  have replayed : replay declared server response order =
      (Server.write declared { server with header, sent := some (response.statusCode, header) }
        response.body).2 := by
    unfold replay
    dsimp only
    rw [status, written]
  obtain ⟨sent, taken⟩ := Server.write_spec declared
    { server with header, sent := some (response.statusCode, header) } response.body
  rw [← replayed] at sent taken
  have final : (replay declared server response order).final = (response.statusCode, header) :=
    Server.final_of_sent sent
  refine ⟨by rw [Server.received, final], by rw [Server.received, final, merged], ?_⟩
  intro bare accepted
  have same : header.values = response.header.values := by
    rw [merged]
    funext name
    rw [bare, nil_append]
  rw [Server.received, replayed]
  have taken : (Server.write declared
      { server with header, sent := some (response.statusCode, header) } response.body).2.body =
        server.body ++ response.body := by
    refine Server.write_accepted ?_
    rw [Server.final_of_sent rfl, unwritten, same]
    simpa using accepted
  rw [taken, empty, nil_append]

/-- A record with a status below 200 is answered with an error. -/
theorem answer_provisional (declared : (Bytes → List Bytes) → Option Nat) (outer : Header)
    (fingerprint : String) (response : CachedResponse) (order : List Bytes)
    (low : response.statusCode < 200) :
    ∃ received, answerClaim declared outer fingerprint
        { state := .completed, fingerprint, response } order = some received ∧
      received.status = 500 := by
  have decided : handleClaim fingerprint { state := .completed, fingerprint, response } =
      .respond 500 "idempotency: invalid stored response" := by
    simp [handleClaim, low]
  have status : ∀ server : Server, server.sent = none → ∀ message,
      (httpError declared server message 500).received.status = 500 := by
    intro server unsent message
    unfold httpError
    dsimp only
    generalize Header.set _ (textBytes "X-Content-Type-Options") _ = header
    have written : ({ server with header } : Server).writeHeader 500 =
        .ok { server with header, sent := some (500, header) } :=
      Server.writeHeader_final unsent (by decide) (by decide)
    rw [written]
    exact congrArg Prod.fst (Server.final_of_sent (Server.write_spec declared _ _).1)
  refine ⟨_, by rw [answerClaim, decided], status _ rfl _⟩

theorem answer_final {outer : Header} {fingerprint : String} {response : CachedResponse}
    {order : List Bytes} (low : 200 ≤ response.statusCode) (high : response.statusCode ≤ 599) :
    answerClaim declared outer fingerprint { state := .completed, fingerprint, response } order =
      some (replay declared { header := outer } response order).received := by
  have decided : handleClaim fingerprint { state := .completed, fingerprint, response } =
      .replay response := by
    simp [handleClaim, not_lt.mpr low, not_lt.mpr high]
  rw [answerClaim, decided]

/-- A handler that answers 201 with a two-byte body, after an early hint or not. -/
def created : List HandlerCall := [.writeHeader 201 false, .write [111, 107]]

def hinted : List HandlerCall := .writeHeader 103 false :: created

def undeclared : (Bytes → List Bytes) → Option Nat := fun _ => none

/-- The header an outer layer has set on the writer. -/
def tagged : Header := Finmap.singleton [84] [[49]]

end Golusoris.Idempotency
