import Golusoris.Idempotency.Replay

/-!
# What the recorder captures

`responseRecorder` of `idempotency/idempotency.go` over any `http.ResponseWriter`: a
writer takes some of the bytes of a call, from the front, and may fail. The recorder
hands every call on as it is and keeps a bounded prefix of what was taken.

`Replay` has the same recorder over `net/http`'s own writer; `write_server` says so.
-/

namespace Golusoris.Idempotency.Capture

open List
open ResponseRecorder

/-- An `http.ResponseWriter`, as far as the recorder calls it. -/
structure Writer (Target Failure : Type) where
  header : Target → Header
  writeHeader : Int → Target → Target
  write : Bytes → Target → (Nat × Option Failure) × Target

structure Recorder (Target : Type) where
  target : Target
  header : Header := ∅
  code : Int := 0
  body : Bytes := []
  limit : Int
  wroteHeader : Bool := false
  overflow : Bool := false

variable {Target Failure : Type} (writer : Writer Target Failure)

namespace Recorder

def writeHeader (code : Int) (recorder : Recorder Target) : Recorder Target :=
  if recorder.wroteHeader then recorder
  else
    { recorder with
      wroteHeader := true, code, header := writer.header recorder.target
      target := writer.writeHeader code recorder.target }

def capture (body : Bytes) (recorder : Recorder Target) : Recorder Target :=
  let remaining := recorder.limit - recorder.body.length
  if remaining ≤ 0 then { recorder with overflow := recorder.overflow || decide (0 < body.length) }
  else if remaining < body.length then
    { recorder with overflow := true, body := recorder.body ++ body.take remaining.toNat }
  else { recorder with body := recorder.body ++ body }

/-- The recorder before a write reaches the target. -/
def ready (recorder : Recorder Target) : Recorder Target :=
  if !recorder.wroteHeader then recorder.writeHeader writer 200 else recorder

/-- `Write`: how many bytes the target took, and its error. -/
def write (body : Bytes) (recorder : Recorder Target) : (Nat × Option Failure) × Recorder Target :=
  let recorder := recorder.ready writer
  let ((written, failure), target) := writer.write body recorder.target
  ((written, failure), { recorder with target }.capture (body.take written))

/-- Write after write. -/
def writes : List Bytes → Recorder Target → List (Nat × Option Failure) × Recorder Target
  | [], recorder => ([], recorder)
  | body :: bodies, recorder =>
      let (answer, recorder) := recorder.write writer body
      let (answers, recorder) := writes bodies recorder
      (answer :: answers, recorder)

end Recorder

/-- The same calls on the target itself. -/
def targetWrites : List Bytes → Target → List (Nat × Option Failure) × Target
  | [], target => ([], target)
  | body :: bodies, target =>
      let (answer, target) := writer.write body target
      let (answers, target) := targetWrites bodies target
      (answer :: answers, target)

/-- `captureResponse`, for a handler that writes. -/
def captureResponse (bodies : List Bytes) (target : Target) (limit : Int) :
    List (Nat × Option Failure) × Recorder Target :=
  let (answers, recorder) := Recorder.writes writer bodies { target, limit }
  (answers, recorder.ready writer)

/-- The bytes that were taken, call by call. -/
def taken : List Bytes → List (Nat × Option Failure) → Bytes
  | body :: bodies, (written, _) :: answers => body.take written ++ taken bodies answers
  | _, _ => []

/-- The recorder holds the beginning of what was taken, up to its limit, and knows
whether there was more. -/
structure Captures (recorder : Recorder Target) (all : Bytes) : Prop where
  body : recorder.body = all.take recorder.limit.toNat
  overflow : recorder.overflow = true ↔ max recorder.limit 0 < all.length

variable {recorder : Recorder Target} {all : Bytes}

variable (captures : Captures recorder all)

include captures in
theorem Captures.capture (body : Bytes) : Captures (recorder.capture body) (all ++ body) := by
  obtain ⟨held, overflow⟩ := captures
  have length : recorder.body.length = min recorder.limit.toNat all.length := by
    rw [held, length_take]
  rw [Recorder.capture]
  split
  · -- The limit was reached before.
    rename_i full
    have reached : recorder.limit.toNat ≤ all.length := by omega
    constructor
    · rw [take_append_of_le_length reached]
      exact held
    · simp only [Bool.or_eq_true, overflow, decide_eq_true_eq, length_append]
      omega
  · rename_i room
    have whole : all.length < recorder.limit.toNat := by omega
    have uncut : all.take recorder.limit.toNat = all := take_of_length_le (by omega)
    have before : recorder.body = all := held.trans uncut
    split
    · rename_i more
      constructor
      · dsimp only
        rw [take_append, uncut, before]
        congr 2
        omega
      · dsimp only
        rw [eq_self, true_iff, length_append]
        omega
    · rename_i fits
      constructor
      · dsimp only
        rw [take_of_length_le (by rw [length_append]; omega), before]
      · dsimp only
        rw [overflow, length_append]
        omega

@[simp] theorem capture_target (body : Bytes) : (recorder.capture body).target = recorder.target := by
  rw [Recorder.capture]
  split_ifs <;> rfl

@[simp] theorem capture_wroteHeader (body : Bytes) :
    (recorder.capture body).wroteHeader = recorder.wroteHeader := by
  rw [Recorder.capture]
  split_ifs <;> rfl

@[simp] theorem ready_wroteHeader (recorder : Recorder Target) :
    (recorder.ready writer).wroteHeader = true := by
  rw [Recorder.ready, Recorder.writeHeader]
  by_cases wrote : recorder.wroteHeader <;> simp [wrote]

theorem ready_of_wroteHeader (wrote : recorder.wroteHeader = true) :
    recorder.ready writer = recorder := by
  rw [Recorder.ready, wrote]
  rfl

include captures in
theorem Captures.ready : Captures (recorder.ready writer) all := by
  rw [Recorder.ready, Recorder.writeHeader]
  split_ifs <;> exact ⟨captures.body, captures.overflow⟩

include captures in
/-- A write hands its bytes on and captures what is taken of them. -/
theorem Captures.write (body : Bytes) :
    ((recorder.write writer body).1, (recorder.write writer body).2.target) =
        writer.write body (recorder.ready writer).target ∧
      (recorder.write writer body).2.wroteHeader = true ∧
      Captures (recorder.write writer body).2 (all ++ body.take (recorder.write writer body).1.1) := by
  have ready := captures.ready writer
  refine ⟨?_, ?_, ?_⟩
  · simp [Recorder.write]
  · simp [Recorder.write]
  · have held : Captures { recorder.ready writer with
        target := (writer.write body (recorder.ready writer).target).2 } all :=
      ⟨ready.body, ready.overflow⟩
    exact held.capture _

include captures in
theorem Captures.writes (bodies : List Bytes) :
    ((recorder.writes writer bodies).1, ((recorder.writes writer bodies).2.ready writer).target) =
        targetWrites writer bodies (recorder.ready writer).target ∧
      Captures (recorder.writes writer bodies).2
      (all ++ taken bodies (recorder.writes writer bodies).1) := by
  induction bodies generalizing recorder all with
  | nil => exact ⟨rfl, by simpa [Recorder.writes, taken] using captures⟩
  | cons body bodies ih =>
    obtain ⟨passed, wrote, held⟩ := captures.write writer body
    obtain ⟨later, rest⟩ := ih held
    rw [ready_of_wroteHeader writer wrote] at later
    constructor
    · rw [targetWrites, ← passed]
      dsimp only
      rw [← later]
      rfl
    · rw [append_assoc] at rest
      exact rest

@[simp] theorem capture_limit (body : Bytes) : (recorder.capture body).limit = recorder.limit := by
  rw [Recorder.capture]
  split_ifs <;> rfl

@[simp] theorem ready_limit : (recorder.ready writer).limit = recorder.limit := by
  rw [Recorder.ready, Recorder.writeHeader]
  split_ifs <;> rfl

@[simp] theorem writes_limit (bodies : List Bytes) :
    (recorder.writes writer bodies).2.limit = recorder.limit := by
  induction bodies generalizing recorder with
  | nil => rfl
  | cons body bodies ih =>
    rw [Recorder.writes]
    dsimp only
    rw [ih]
    simp [Recorder.write]

/-- Whatever the writer does with the calls, it gets them as they are, after the status;
the recorder holds the first bytes that were taken, no more than its limit, and overflows
just when more were taken. -/
theorem captureResponse_faithful (bodies : List Bytes) (target : Target) (limit : Int) :
    let (answers, recorder) := captureResponse writer bodies target limit
    let all := taken bodies answers
    recorder.body = all.take (min all.length limit.toNat) ∧
      (recorder.overflow = true ↔ max limit 0 < all.length) ∧
      (answers, recorder.target) = targetWrites writer bodies (writer.writeHeader 200 target) := by
  have start : Captures ({ target, limit } : Recorder Target) [] :=
    ⟨take_nil.symm, by simp⟩
  obtain ⟨passed, captures⟩ := start.writes writer bodies
  obtain ⟨body, overflow⟩ := captures.ready writer
  rw [ready_limit, writes_limit, nil_append] at body overflow
  refine ⟨?_, overflow, passed⟩
  rw [take_eq_take_min, min_comm] at body
  exact body

variable {declared : (Bytes → List Bytes) → Option Nat}

/-- `net/http`'s own writer; a refused write is a write that takes nothing. -/
def serverWriter (declared : (Bytes → List Bytes) → Option Nat) : Writer Server Unit where
  header server := server.header
  writeHeader code server :=
    match server.writeHeader code with
    | .error _ => server
    | .ok server => server
  write data server :=
    let (written, server) := server.write declared data
    ((written, none), server)

/-- A recorder over that writer. -/
def overServer (recorder : ResponseRecorder) : Recorder Server where
  target := recorder.target
  header := recorder.header
  code := recorder.code
  body := recorder.body
  limit := recorder.limit
  wroteHeader := recorder.wroteHeader
  overflow := recorder.overflow

variable (recorder : ResponseRecorder)

theorem capture_server (body : Bytes) :
    (overServer recorder).capture body = overServer (recorder.capture body) := by
  by_cases full : recorder.limit - recorder.body.length ≤ 0
  · simp [Recorder.capture, capture, overServer, full]
  · by_cases more : recorder.limit - recorder.body.length < body.length
    · simp [Recorder.capture, capture, overServer, full, more]
    · simp [Recorder.capture, capture, overServer, full, more]

theorem ready_server :
    (overServer recorder).ready (serverWriter declared) = overServer recorder.ensureHeader := by
  obtain ⟨target, header, code, body, limit, wrote, overflow⟩ := recorder
  cases wrote with
  | true => rfl
  | false =>
    cases status : target.writeHeader 200 with
    | error _ | ok _ =>
      simp [Recorder.ready, Recorder.writeHeader, ensureHeader,
        writeHeader, overServer, serverWriter, status]

/-- The recorder that replays are proved about is this one. -/
theorem write_server (body : Bytes) :
    ((overServer recorder).write (serverWriter declared) body).2 =
      overServer (recorder.write declared body) := by
  rw [Recorder.write, ready_server, write, ← capture_server]
  rfl

end Golusoris.Idempotency.Capture
