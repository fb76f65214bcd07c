import Golusoris.Lib.JsonString
import Golusoris.Lib.Timestamp

/-!
# JUnit reports

Source: `junit/junit.go` and `wire.go`. Strings are bytes. A duration is a signed word of
nanoseconds that wraps when the source adds. The document is the tree that the encoder
of another package writes.
-/

namespace Golusoris.Junit

open Lib

/-- A status is a `uint8`, of which four values are named. -/
abbrev Status := UInt8

namespace Status

def passed : Status := 0
def failed : Status := 1
def errored : Status := 2
def skipped : Status := 3

end Status

structure Case where
  name : Bytes
  classname : Bytes := []
  duration : Int64 := 0
  status : Status := Status.passed
  message : Bytes := []
  type : Bytes := []
  details : Bytes := []
  systemOut : Bytes := []
  systemErr : Bytes := []

structure Property where
  name : Bytes
  value : Bytes

/-- The zero `time.Time`. -/
def zeroTime : Timestamp.Time := ⟨-719162 * 86400 * 1000000000, 0⟩

structure Suite where
  name : Bytes
  timestamp : Timestamp.Time := zeroTime
  hostname : Bytes := []
  duration : Int64 := 0
  properties : List Property := []
  cases : List Case := []
  systemOut : Bytes := []
  systemErr : Bytes := []

structure Report where
  name : Bytes := []
  suites : List Suite := []

structure XmlResult where
  message : Bytes
  type : Bytes
  body : Bytes

structure XmlCase where
  name : Bytes
  classname : Bytes
  time : Bytes
  failure : Option XmlResult := none
  error : Option XmlResult := none
  skipped : Option XmlResult := none
  systemOut : Bytes
  systemErr : Bytes

structure XmlProperty where
  name : Bytes
  value : Bytes

structure XmlSuite where
  name : Bytes
  tests : ℕ
  failures : ℕ := 0
  errors : ℕ := 0
  skipped : ℕ := 0
  time : Bytes := []
  timestamp : Bytes := []
  hostname : Bytes
  properties : Option (List XmlProperty) := none
  cases : List XmlCase := []
  systemOut : Bytes
  systemErr : Bytes

structure XmlSuites where
  name : Bytes
  tests : ℕ := 0
  failures : ℕ := 0
  errors : ℕ := 0
  time : Bytes := []
  suites : List XmlSuite := []

def xmlChar (r : ℕ) : Bool :=
  if r = 0x09 ∨ r = 0x0A ∨ r = 0x0D then true
  else if r < 0x20 then false
  else if 0xD800 ≤ r ∧ r ≤ 0xDFFF then false
  else if r = 0xFFFE ∨ r = 0xFFFF then false
  else r ≤ 0x10FFFF

/-- All runes of a text that `utf8.ValidString` accepts are characters of XML. The fuel is
the number of bytes left. -/
def xmlSafeFrom : ℕ → Bytes → Bool
  | 0, _ => true
  | _ + 1, [] => true
  | fuel + 1, byte :: rest =>
      match Utf8.decodeRune (byte :: rest) with
      | none => false
      | some r => xmlChar r.toNat && xmlSafeFrom fuel ((byte :: rest).drop r.utf8Size)

def xmlSafe (s : Bytes) : Bool := xmlSafeFrom s.length s

/-- The format `\x%02x`. -/
def escapeByte (value : ℕ) : Bytes :=
  [0x5C, 0x78, Json.hexLower (value / 16), Json.hexLower (value % 16)]

/-- The loop of `clean`; what is wider than a byte here is below 0x10000, so that `\u%04x`
is four digits. -/
def cleanFrom : ℕ → Bytes → Bytes
  | 0, _ => []
  | _ + 1, [] => []
  | fuel + 1, byte :: rest =>
      match Utf8.decodeRune (byte :: rest) with
      | none => escapeByte byte.toNat ++ cleanFrom fuel rest
      | some r =>
          (if !xmlChar r.toNat then
            if r.toNat < 0x100 then escapeByte r.toNat else Json.unitEscape r.toNat
          else (byte :: rest).take r.utf8Size) ++
            cleanFrom fuel ((byte :: rest).drop r.utf8Size)

def clean (s : Bytes) : Bytes := if xmlSafe s then s else cleanFrom s.length s

def lessThanHalf (x y : Int64) : Bool := x.toUInt64 + x.toUInt64 < y.toUInt64

/-- `time.Duration.Round`. -/
def round (d m : Int64) : Int64 :=
  if m ≤ 0 then d
  else
    let r := d % m
    if d < 0 then
      let r := -r
      if lessThanHalf r m then d + r
      else
        let d1 := d - m + r
        if d1 < d then d1 else .minValue
    else if lessThanHalf r m then d - r
    else
      let d1 := d + m - r
      if d1 > d then d1 else .maxValue

def millisecond : Int64 := 1000000

/-- The format `%03d`, whose width counts the sign. -/
def threeDigits (value : ℤ) : Bytes :=
  let digits := Digits.natText value.natAbs
  if value < 0 then 0x2D :: (List.replicate (2 - digits.length) 0x30 ++ digits)
  else List.replicate (3 - digits.length) 0x30 ++ digits

def seconds (d : Int64) : Bytes :=
  let ms := round d millisecond / millisecond
  Digits.intText (ms / 1000).toInt ++ 0x2E :: threeDigits (ms % 1000).toInt

/-- Why a report is refused. Its text ends in `name is empty`, `negative duration` or
`unknown status(%d)`, behind the suite, the case or the property it is about. -/
inductive Failure
  | nameEmpty
  | negativeDuration (name : Bytes)
  | unknownStatus (name : Bytes) (status : Status)
  | property (index : ℕ)
  | named (name : Bytes) (cause : Failure)
  | case (name : Bytes) (index : ℕ) (cause : Failure)
  | suite (index : ℕ) (cause : Failure)

def buildCase (c : Case) : Except Failure XmlCase :=
  if c.name = [] then .error .nameEmpty
  else if c.duration < 0 then .error (.negativeDuration c.name)
  else
    let out : XmlCase := {
      name := clean c.name
      classname := clean c.classname
      time := seconds c.duration
      systemOut := clean c.systemOut
      systemErr := clean c.systemErr }
    let result : XmlResult := ⟨clean c.message, clean c.type, clean c.details⟩
    if c.status = Status.passed then .ok out
    else if c.status = Status.failed then .ok { out with failure := some result }
    else if c.status = Status.errored then .ok { out with error := some result }
    else if c.status = Status.skipped then .ok { out with skipped := some { result with type := [] } }
    else .error (.unknownStatus c.name c.status)

/-- One turn of the loop over properties. -/
def addProperty (items : List XmlProperty) : Property × ℕ → Except Failure (List XmlProperty)
  | (p, i) =>
      if p.name = [] then .error (.property i) else .ok (items ++ [⟨clean p.name, clean p.value⟩])

def buildProperties (props : List Property) : Except Failure (Option (List XmlProperty)) :=
  if props = [] then .ok none else (props.zipIdx.foldlM addProperty []).map some

def XmlSuite.count (s : XmlSuite) (st : Status) : XmlSuite :=
  if st = Status.failed then { s with failures := s.failures + 1 }
  else if st = Status.errored then { s with errors := s.errors + 1 }
  else if st = Status.skipped then { s with skipped := s.skipped + 1 }
  else s

/-- One turn of the loop over the cases of a suite, with what is built and added up. -/
def addCase (name : Bytes) : XmlSuite × Int64 → Case × ℕ → Except Failure (XmlSuite × Int64)
  | (out, sum), (c, i) =>
      match buildCase c with
      | .error cause => .error (.case name i cause)
      | .ok built =>
          .ok ({ out with cases := out.cases ++ [built] }.count c.status, sum + c.duration)

def timestampText (time : Timestamp.Time) : Bytes :=
  if time.instant = zeroTime.instant then []
  else
    let utc := time.toUTC
    Timestamp.formatDate utc.date ++
      0x54 :: Timestamp.formatClock utc.hour utc.minute utc.second

def buildSuite (s : Suite) : Except Failure (XmlSuite × Int64) :=
  if s.name = [] then .error .nameEmpty
  else if s.duration < 0 then .error (.negativeDuration s.name)
  else
    let out : XmlSuite := {
      name := clean s.name
      hostname := clean s.hostname
      tests := s.cases.length
      systemOut := clean s.systemOut
      systemErr := clean s.systemErr
      timestamp := timestampText s.timestamp }
    match buildProperties s.properties with
    | .error cause => .error (.named s.name cause)
    | .ok props => do
        let (out, sum) ← s.cases.zipIdx.foldlM (addCase s.name) ({ out with properties := props }, 0)
        let sum := if s.duration > 0 then s.duration else sum
        return ({ out with time := seconds sum }, sum)

/-- One turn of the loop over the suites. -/
def addSuite : XmlSuites × Int64 → Suite × ℕ → Except Failure (XmlSuites × Int64)
  | (doc, total), (suite, i) =>
      match buildSuite suite with
      | .error cause => .error (.suite i cause)
      | .ok (s, d) =>
          .ok ({ doc with
            suites := doc.suites ++ [s]
            tests := doc.tests + s.tests
            failures := doc.failures + s.failures
            errors := doc.errors + s.errors }, total + d)

def build (r : Report) : Except Failure XmlSuites := do
  let (doc, total) ← r.suites.zipIdx.foldlM addSuite ({ name := clean r.name }, 0)
  return { doc with time := seconds total }

end Golusoris.Junit
