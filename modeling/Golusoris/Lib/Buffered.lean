import Golusoris.Lib.TextLines

/-!
# Buffered readers

A reader with a buffer in front of a source, after `bufio.Reader` of the Go standard
library. The source hands over its bytes in blocks, one block at most for a read, and
then reports its end. What a call returns depends on the bytes that are pending only.
-/

namespace Golusoris.Lib

open List

structure BufferedReader where
  buf : Bytes
  source : List Bytes
  /-- The bytes that the source has handed over. -/
  fetched : ℕ

/-- What `ReadSlice` finds: a line without its feed, a full buffer without one, or the
end of the source with what stands before it. -/
inductive Slice where
  | line (text : Bytes)
  | full (text : Bytes)
  | ended (text : Bytes)
  deriving DecidableEq

namespace BufferedReader

variable (size : ℕ)

/-- The bytes that are not read yet. -/
def pending (r : BufferedReader) : Bytes := r.buf ++ r.source.flatten

/-- All bytes of the source. -/
def total (r : BufferedReader) : ℕ := r.fetched + r.source.flatten.length

/-- One read into the free part of the buffer. Reads without bytes are repeated. -/
def fillFrom (buf : Bytes) (fetched : ℕ) : List Bytes → Option BufferedReader
  | [] => none
  | block :: rest =>
      if block = [] then fillFrom buf fetched rest
      else some {
        buf := buf ++ block.take (size - buf.length)
        source := block.drop (size - buf.length) :: rest
        fetched := fetched + (block.take (size - buf.length)).length }

def fill (r : BufferedReader) : Option BufferedReader := fillFrom size r.buf r.fetched r.source

/-- The text up to the first line feed, and what follows it. -/
def cutLine : Bytes → Option (Bytes × Bytes)
  | [] => none
  | byte :: rest =>
      if byte = lineFeed then some ([], rest)
      else (cutLine rest).map fun (line, rest) => (byte :: line, rest)

/-- The loop of `ReadSlice('\\n')`, for at most some reads of the source. -/
def readSliceFrom : ℕ → BufferedReader → Slice × BufferedReader
  | 0, r => (.ended r.buf, { r with buf := [] })
  | reads + 1, r =>
      match cutLine r.buf with
      | some (line, rest) => (.line line, { r with buf := rest })
      | none =>
          if r.buf.length ≥ size then (.full r.buf, { r with buf := [] })
          else
            match r.fill size with
            | none => (.ended r.buf, { r with buf := [] })
            | some r => readSliceFrom reads r

def readSlice (r : BufferedReader) : Slice × BufferedReader :=
  r.readSliceFrom size (r.source.flatten.length + 1)

/-- `ReadLine`: a piece of a line, with whether the line goes on; nothing at the end. -/
def readLine (r : BufferedReader) : Option (Bytes × Bool) × BufferedReader :=
  match r.readSlice size with
  | (.line text, r) => (some (dropReturn text, false), r)
  | (.full text, r) =>
      -- A carriage return may belong to the end of the line: it is put back.
      if text.getLast? = some carriageReturn then
        (some (text.dropLast, true), { r with buf := carriageReturn :: r.buf })
      else (some (text, true), r)
  | (.ended text, r) => if text = [] then (none, r) else (some (text, false), r)

/-- The slice at the front of some bytes, and what is left of them. -/
inductive Slices : Bytes → Slice → Bytes → Prop where
  | line {text rest : Bytes} (short : text.length < size) (free : lineFeed ∉ text) :
      Slices (text ++ lineFeed :: rest) (.line text) rest
  | full {text rest : Bytes} (length : text.length = size) (free : lineFeed ∉ text) :
      Slices (text ++ rest) (.full text) rest
  | ended {text : Bytes} (short : text.length < size) (free : lineFeed ∉ text) :
      Slices text (.ended text) []

variable {size}

theorem cutLine_eq_none {text : Bytes} (none : cutLine text = none) : lineFeed ∉ text := by
  induction text with
  | nil => exact not_mem_nil
  | cons byte text ih =>
    rw [cutLine] at none
    split_ifs at none with fed
    rw [Option.map_eq_none_iff] at none
    exact not_mem_cons_of_ne_of_not_mem (Ne.symm fed) (ih none)

theorem cutLine_eq_some {text line rest : Bytes} (cut : cutLine text = some (line, rest)) :
    text = line ++ lineFeed :: rest ∧ lineFeed ∉ line := by
  induction text generalizing line with
  | nil => cases cut
  | cons byte text ih =>
    rw [cutLine] at cut
    split_ifs at cut with fed
    · cases cut
      exact ⟨by rw [fed]; rfl, not_mem_nil⟩
    · obtain ⟨⟨before, after⟩, found, same⟩ := Option.map_eq_some_iff.mp cut
      obtain ⟨rfl, rfl⟩ := Prod.mk.inj same
      obtain ⟨rfl, free⟩ := ih found
      exact ⟨rfl, not_mem_cons_of_ne_of_not_mem (Ne.symm fed) free⟩

theorem fillFrom_spec {buf : Bytes} (fetched : ℕ) (room : buf.length < size) :
    ∀ (source : List Bytes), (fillFrom size buf fetched source = none → source.flatten = []) ∧
      ∀ r, fillFrom size buf fetched source = some r →
        r.pending = buf ++ source.flatten ∧ r.total = fetched + source.flatten.length ∧
        r.buf.length ≤ size ∧ r.source.flatten.length < source.flatten.length
  | [] => ⟨fun _ => rfl, nofun⟩
  | block :: rest => by
    rw [fillFrom]
    split_ifs with none
    · rw [none, flatten_cons, nil_append]
      exact fillFrom_spec fetched room rest
    · refine ⟨fun none => (by cases none), fun r found => ?_⟩
      cases found
      have some := length_pos_iff.mpr none
      refine ⟨?_, ?_, ?_, ?_⟩
      · rw [pending, flatten_cons, append_assoc, ← append_assoc (block.take _),
          take_append_drop, flatten_cons]
      · simp only [total, flatten_cons, length_append, length_take, length_drop]
        omega
      · simp only [length_append, length_take]
        omega
      · simp only [flatten_cons, length_append, length_drop]
        omega

/-- What a call of `ReadSlice` takes from the front, and what it keeps. -/
structure Took (size : ℕ) (r : BufferedReader) (taken : Slice × BufferedReader) : Prop where
  slices : Slices size r.pending taken.1 taken.2.pending
  total : taken.2.total = r.total
  fits : taken.2.buf.length ≤ size
  full : ∀ text, taken.1 = .full text → taken.2.buf = []
  ended : ∀ text, taken.1 = .ended text → taken.2.source.flatten = []

theorem readSliceFrom_spec : ∀ {reads : ℕ} {r : BufferedReader}, r.buf.length ≤ size →
    r.source.flatten.length < reads → Took size r (r.readSliceFrom size reads) := by
  intro reads
  induction reads with
  | zero => exact fun _ few => absurd few (Nat.not_lt_zero _)
  | succ reads ih =>
    intro r fits few
    rw [readSliceFrom]
    cases cut : cutLine r.buf with
    | some parts =>
      obtain ⟨line, rest⟩ := parts
      obtain ⟨whole, free⟩ := cutLine_eq_some cut
      rw [whole, length_append, length_cons] at fits
      refine ⟨?_, rfl, ?_, fun _ other => (by cases other), fun _ other => (by cases other)⟩
      · rw [pending, whole, append_assoc, cons_append]
        exact .line (by omega) free
      · simp only
        omega
    | none =>
      have free := cutLine_eq_none cut
      simp only
      split_ifs with filled
      · exact ⟨.full (Nat.le_antisymm fits filled) free, rfl, Nat.zero_le _, fun _ _ => rfl,
          fun _ other => (by cases other)⟩
      · have room : r.buf.length < size := Nat.not_le.mp filled
        obtain ⟨last, more⟩ := fillFrom_spec r.fetched room r.source
        cases next : r.fill size with
        | none =>
          have empty := last next
          refine ⟨?_, rfl, Nat.zero_le _, fun _ other => (by cases other), fun _ _ => empty⟩
          rw [pending, pending, empty, append_nil]
          exact .ended room free
        | some r' =>
          obtain ⟨same, count, fits', less⟩ := more r' next
          have took := ih fits' (by omega)
          refine ⟨?_, took.total.trans count, took.fits, took.full, took.ended⟩
          rw [pending, ← same]
          exact took.slices

theorem readSlice_took {r : BufferedReader} (fits : r.buf.length ≤ size) :
    Took size r (r.readSlice size) :=
  readSliceFrom_spec fits (Nat.lt_succ_self _)

/-- What a call of `ReadLine` takes from the front of the pending bytes. -/
inductive Reads (size : ℕ) : Bytes → Option (Bytes × Bool) → Bytes → Prop where
  | line {text rest : Bytes} (short : text.length < size) (free : lineFeed ∉ text) :
      Reads size (text ++ lineFeed :: rest) (some (dropReturn text, false)) rest
  | full {text rest : Bytes} (length : text.length = size) (free : lineFeed ∉ text)
      (last : text.getLast? ≠ some carriageReturn) : Reads size (text ++ rest) (some (text, true)) rest
  | back {text rest : Bytes} (length : text.length + 1 = size) (free : lineFeed ∉ text) :
      Reads size (text ++ carriageReturn :: rest) (some (text, true)) (carriageReturn :: rest)
  | last {text : Bytes} (short : text.length < size) (free : lineFeed ∉ text) (some : text ≠ []) :
      Reads size text (.some (text, false)) []
  | nothing : Reads size [] none []

/-- A call of `ReadLine` keeps the count of the source, and at the end the source is read. -/
theorem readLine_reads {r : BufferedReader} (fits : r.buf.length ≤ size) (positive : 0 < size) :
    Reads size r.pending (r.readLine size).1 (r.readLine size).2.pending ∧
      (r.readLine size).2.total = r.total ∧ (r.readLine size).2.buf.length ≤ size ∧
      ((r.readLine size).1 = none → (r.readLine size).2.source.flatten = []) := by
  obtain ⟨slices, total, fits', full, ended⟩ := readSlice_took fits
  rw [readLine]
  generalize r.readSlice size = taken at *
  obtain ⟨slice, r'⟩ := taken
  generalize r.pending = bytes at slices ⊢
  generalize after : r'.pending = rest at slices
  cases slices with
  | line short free => exact ⟨after ▸ .line short free, total, fits', fun none => (by cases none)⟩
  | @full text rest length free =>
    simp only
    split_ifs with last
    · obtain ⟨front, rfl⟩ := getLast?_eq_some_iff.mp last
      have empty := full _ rfl
      rw [length_append, length_singleton] at length
      rw [dropLast_concat, append_assoc, singleton_append]
      have put : pending { r' with buf := carriageReturn :: r'.buf } = carriageReturn :: rest := by
        rw [← after]
        rfl
      rw [put]
      refine ⟨.back length fun fed => free (mem_append_left _ fed), total, ?_,
        fun none => (by cases none)⟩
      have empty : r'.buf = [] := empty
      simp only [empty, length_singleton]
      omega
    · exact ⟨after ▸ .full length free last, total, fits', fun none => (by cases none)⟩
  | ended short free =>
    simp only
    split_ifs with none
    · rw [none, after]
      exact ⟨.nothing, total, fits', fun _ => ended _ rfl⟩
    · exact ⟨after ▸ .last short free none, total, fits', fun none => (by cases none)⟩

end BufferedReader

end Golusoris.Lib
