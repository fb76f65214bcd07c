import Golusoris.Lib.Base64Url
import Golusoris.Lib.Query
import Golusoris.Lib.Results
import Golusoris.Images.CacheControl
import Mathlib

/-!
# Signed image tokens

A token of `media/img/pipeline` carries a key, a transform and an expiry, with a code that
authenticates them. `canonical` writes the expiry in whole seconds, so a token is good
until the instant it was signed for just when that is a whole second.

Instants and durations are nanoseconds. The code that authenticates is a parameter.
-/

namespace Golusoris.Images

open Lib
open Lib.Digits (intText)
open Lib.NetUrl (cut cut_append)

def bar : UInt8 := 0x7C
def dot : UInt8 := 0x2E

/-- The requested variant; a width or height of 0 is no bound, an empty format the one of
the source. -/
structure Transform where
  width : Int
  height : Int
  quality : Int
  format : Bytes
deriving DecidableEq

inductive Sentinel where
  | badToken
  | badSignature
  | expired
  | invalidParams
deriving DecidableEq

/-- An error: what it says before the one it wraps, and the text that it quotes. -/
structure Failure where
  message : String := ""
  cause : Sentinel
  quoted : Bytes := []
deriving DecidableEq

def invalid (message : String) : Failure := { message, cause := .invalidParams }

/-- A pipeline after `New`, which has replaced the bounds that were not positive. -/
structure Pipeline where
  secret : Bytes
  formats : List Bytes
  maxWidth : Int
  maxHeight : Int
  maxPixels : Int
  defaultTTL : Int
  cacheControl : Bytes
  width_inRange : 0 < maxWidth ∧ maxWidth < 2 ^ 63
  height_inRange : 0 < maxHeight ∧ maxHeight < 2 ^ 63
  pixels_inRange : 0 < maxPixels ∧ maxPixels < 2 ^ 63

/-- `time.Time.Unix`. -/
def unix (instant : Int) : Int := instant / second

def canonical (key : Bytes) (t : Transform) (exp : Int) : Bytes :=
  [bar].intercalate
    [Query.escape key, intText t.width, intText t.height, intText t.quality, t.format,
      intText (unix exp)]

def encodeToken (payload mac : Bytes) : Bytes :=
  Base64Url.encode payload ++ dot :: Base64Url.encode mac

def decodeToken (token : Bytes) : Except Failure (Bytes × Bytes) :=
  match cut dot token with
  | none => .error { cause := .badToken }
  | some (first, last) =>
      if first = [] ∨ last = [] then .error { cause := .badToken }
      else
        match Base64Url.decode first, Base64Url.decode last with
        | none, _ => .error { message := "pipeline: decode payload: ", cause := .badToken }
        | some _, none => .error { message := "pipeline: decode mac: ", cause := .badToken }
        | some payload, some mac => .ok (payload, mac)

/-- A field of a payload, with the name that errors give it. -/
def field {α : Type} (name : String) (value : Option α) : Except Failure α :=
  match value with
  | some value => .ok value
  | none => .error { message := "pipeline: " ++ name ++ ": ", cause := .badToken }

def parsePayload (payload : Bytes) : Except Failure (Bytes × Transform × Int) :=
  match payload.splitOn bar with
  | [key, width, height, quality, format, expiry] => do
      let key ← field "unescape key" (Query.unescape key)
      let width ← field "width" (parseInt width)
      let height ← field "height" (parseInt height)
      let quality ← field "quality" (parseInt quality)
      let unix ← field "expiry" (parseInt expiry)
      return (key, ⟨width, height, quality, format⟩, unix * second)
  | _ => .error { cause := .badToken }

namespace Pipeline

variable (p : Pipeline)

def validateDimensions (t : Transform) : Except Failure Unit :=
  if t.width < 0 ∨ t.height < 0 then .error (invalid "pipeline: negative dimension: ")
  else if t.width > p.maxWidth ∨ t.height > p.maxHeight then
    .error (invalid ("pipeline: dimension exceeds max (" ++ toString p.maxWidth ++ "x" ++
      toString p.maxHeight ++ "): "))
  else
    let effectiveWidth := if t.width = 0 then p.maxWidth else t.width
    let effectiveHeight := if t.height = 0 then p.maxHeight else t.height
    if effectiveWidth > p.maxPixels.tdiv effectiveHeight then
      .error (invalid ("pipeline: pixel budget exceeded (" ++ toString p.maxPixels ++ "): "))
    else .ok ()

def validate (t : Transform) : Except Failure Unit :=
  (p.validateDimensions t).bind fun _ =>
    if t.quality < 0 ∨ t.quality > 100 then .error (invalid "pipeline: quality out of range: ")
    else if t.format = [] then .ok ()
    else if t.format ∉ p.formats then
      .error { invalid "pipeline: format %q not allowed: " with quoted := t.format }
    else .ok ()

variable (hmac : Bytes → Bytes → Bytes)

/-- `Sign` when the clock says `now`. -/
def sign (now : Int) (key : Bytes) (t : Transform) (ttl : Int) : Except Failure Bytes :=
  if key = [] then .error (invalid "pipeline: sign: ")
  else
    (p.validate t).map fun _ =>
      let exp := now + if ttl ≤ 0 then p.defaultTTL else ttl
      let payload := canonical key t exp
      encodeToken payload (hmac p.secret payload)

/-- `verify` when the clock says `now`. -/
def verify (now : Int) (token : Bytes) : Except Failure (Bytes × Transform × Int) :=
  match decodeToken token with
  | .error failure => .error failure
  | .ok (payload, mac) =>
      if hmac p.secret payload ≠ mac then .error { cause := .badSignature }
      else
        match parsePayload payload with
        | .error failure => .error failure
        | .ok (key, t, exp) =>
            if ¬now < exp then .error { cause := .expired }
            else (p.validate t).map fun _ => (key, t, exp)

/-- `Verify`. -/
def verified (now : Int) (token : Bytes) : Except Failure (Bytes × Transform) :=
  (p.verify hmac now token).map fun (key, t, _) => (key, t)

end Pipeline

section Signed

variable {p : Pipeline} {hmac : Bytes → Bytes → Bytes}
variable {key key' : Bytes} {t t' : Transform} {exp exp' now : Int}

theorem parseInt_intText {value : Int} (small : inInt64 value) : parseInt
    (intText value) = some value := by
  rw [parseInt, Digits.readInt_intText, Option.filter_some, if_pos small]

theorem bar_not_mem_intText (value : Int) : bar ∉ intText value := by
  have digits (found : bar ∈ Digits.natText value.natAbs) : False :=
    absurd (List.all_eq_true.mp (Digits.all_natText value.natAbs) bar found) (by decide)
  rw [intText]
  split_ifs
  · rw [List.mem_cons, not_or]
    exact ⟨by decide, digits⟩
  · exact digits

/-- A transform whose text is one field, with numbers that can be read back. -/
structure Writable (t : Transform) : Prop where
  width : inInt64 t.width
  height : inInt64 t.height
  quality : inInt64 t.quality
  format : bar ∉ t.format

theorem writable_of_validate (valid : p.validate t = .ok ())
    (free : ∀ format ∈ p.formats, bar ∉ format) :
    Writable t := by
  obtain ⟨checked, dimensions, valid⟩ := exists_of_bind_eq_ok valid
  have bounds : (0 ≤ t.width ∧ 0 ≤ t.height) ∧ t.width ≤ p.maxWidth ∧ t.height ≤ p.maxHeight := by
    rw [Pipeline.validateDimensions] at dimensions
    split_ifs at dimensions with negative large
    all_goals omega
  have width := p.width_inRange
  have height := p.height_inRange
  have small {value : Int} (least : 0 ≤ value) (most : value < 2 ^ 63) : inInt64 value :=
    decide_eq_true ⟨by omega, most⟩
  split_ifs at valid with quality source listed
  · refine ⟨small bounds.1.1 (by omega), small bounds.1.2 (by omega), small (by omega) (by omega), ?_⟩
    rw [source]
    exact List.not_mem_nil
  · refine ⟨small bounds.1.1 (by omega), small bounds.1.2 (by omega), small (by omega) (by omega), ?_⟩
    exact free t.format listed

theorem parsePayload_canonical (writable : Writable t) (small : inInt64 (unix exp)) :
    parsePayload (canonical key t exp) = .ok (key, t, unix exp * second) := by
  have free : ∀ item ∈ [Query.escape key, intText t.width, intText t.height, intText t.quality, t.format,
      intText (unix exp)], bar ∉ item := by
    simp only [List.forall_mem_cons, bar_not_mem_intText, writable.format, not_false_eq_true, true_and]
    exact ⟨Query.not_mem_escape (by decide) key, nofun⟩
  rw [parsePayload, canonical, List.splitOn_intercalate bar free (List.cons_ne_nil _ _)]
  simp only [Query.unescape_escape, parseInt_intText writable.width, parseInt_intText writable.height,
    parseInt_intText writable.quality, parseInt_intText small]
  rfl

theorem decodeToken_encodeToken {payload mac : Bytes} (some : payload ≠ []) (sized : mac ≠ []) :
    decodeToken (encodeToken payload mac) = .ok (payload, mac) := by
  have free : dot ∉ Base64Url.encode payload := fun found => (Base64Url.plain_encode found).2 rfl
  rw [decodeToken, encodeToken, cut_append free]
  simp only [Base64Url.encode_ne_nil some, Base64Url.encode_ne_nil sized, or_self, if_false,
    Base64Url.decode_encode]

theorem canonical_ne_nil : canonical key t exp ≠ [] := by
  rw [canonical, List.intercalate_cons_cons]
  simp

/-- What a token that was signed is worth at any time. -/
theorem verify_encodeToken (valid : p.validate t = .ok ()) (writable : Writable t)
    (small : inInt64 (unix exp)) (sized : ∀ secret payload, hmac secret payload ≠ []) :
    p.verify hmac now (encodeToken (canonical key t exp) (hmac p.secret (canonical key t exp))) =
      if now < unix exp * second then .ok (key, t, unix exp * second) else .error
      { cause := .expired } := by
  rw [Pipeline.verify, decodeToken_encodeToken canonical_ne_nil (sized _ _)]
  dsimp only
  rw [if_neg (not_not.mpr rfl), parsePayload_canonical writable small]
  dsimp only
  rw [valid, ite_not]
  rfl

/-- Equal texts were written from equal keys, transforms and seconds. -/
theorem canonical_inj (writable : Writable t) (writable' : Writable t') (small : inInt64 (unix exp))
    (small' : inInt64 (unix exp')) (same : canonical key t exp = canonical key' t' exp') :
    key = key' ∧ t = t' ∧ unix exp = unix exp' := by
  have read := congrArg parsePayload same
  rw [parsePayload_canonical writable small, parsePayload_canonical writable' small'] at read
  obtain ⟨keys, rest⟩ := Prod.mk.inj (Except.ok.inj read)
  obtain ⟨transforms, seconds⟩ := Prod.mk.inj rest
  exact ⟨keys, transforms, Int.eq_of_mul_eq_mul_right (by decide) seconds⟩

/-- What is accepted was authenticated, and is what its payload says. -/
theorem verify_ok {token : Bytes} (accepted : p.verify hmac now token = .ok (key, t, exp)) :
    ∃ payload mac, decodeToken token = .ok (payload, mac) ∧ mac = hmac p.secret payload ∧
      parsePayload payload = .ok (key, t, exp) := by
  rw [Pipeline.verify] at accepted
  cases decoded : decodeToken token with
  | error failure =>
    rw [decoded] at accepted
    cases accepted
  | ok pair =>
    obtain ⟨payload, mac⟩ := pair
    rw [decoded] at accepted
    dsimp only at accepted
    split_ifs at accepted with own
    cases parsed : parsePayload payload with
    | error failure =>
      rw [parsed] at accepted
      cases accepted
    | ok fields =>
      obtain ⟨key', t', exp'⟩ := fields
      rw [parsed] at accepted
      dsimp only at accepted
      split_ifs at accepted with late
      obtain ⟨checked, -, same⟩ := exists_of_map_eq_ok accepted
      cases same
      exact ⟨payload, mac, rfl, (not_not.mp own).symm, parsed⟩

end Signed

/-- A call of `Sign` with a key, a transform that is accepted, a duration, and an expiry
whose seconds are an int64. -/
structure Call (p : Pipeline) where
  now : Int
  key : Bytes
  t : Transform
  ttl : Int
  named : key ≠ []
  valid : p.validate t = .ok ()
  positive : 0 < ttl
  inRange : inInt64 (unix (now + ttl))

/-- `time.Time.Sub`, which stays within a duration. -/
def sub (instant other : Int) : Int := max (-2 ^ 63) (min (2 ^ 63 - 1) (instant - other))

/-- The header that the handler writes. -/
def Pipeline.header (p : Pipeline) (exp now : Int) : Bytes := cacheControlUntil p.cacheControl
    (sub exp now)

namespace Call

variable {p : Pipeline}

def exp (call : Call p) : Int := call.now + call.ttl

theorem exp_inRange (call : Call p) : inInt64 (unix call.exp) := call.inRange

def payload (call : Call p) : Bytes := canonical call.key call.t call.exp

/-- Its token verifies from now on until it expires. -/
def RoundTrips (hmac : Bytes → Bytes → Bytes) (call : Call p) : Prop :=
  ∃ token, p.sign hmac call.now call.key call.t call.ttl = .ok token ∧ ∀ instant, call.now ≤ instant →
    (instant < call.exp → p.verified hmac instant token = .ok (call.key, call.t)) ∧
      (call.exp ≤ instant → p.verified hmac instant token = .error { cause := .expired })

end Call

/-- No code in the token was made without signing its payload. -/
def Unforged (p : Pipeline) (hmac : Bytes → Bytes → Bytes) (calls : List (Call p))
    (token : Bytes) : Prop :=
  ∀ payload mac, decodeToken token = .ok (payload, mac) → mac = hmac p.secret payload →
    ∃ call ∈ calls, payload = call.payload

/-- Tokens round-trip and expire on time, differ for different calls, say nothing that was
not signed, and lend no response more than their lifetime. -/
structure Faithful (p : Pipeline) (hmac : Bytes → Bytes → Bytes) (calls : List (Call p)) : Prop where
  roundTrips : ∀ call ∈ calls, call.RoundTrips hmac
  injective : ∀ call ∈ calls, ∀ other ∈ calls, call.payload = other.payload →
    call.key = other.key ∧ call.t = other.t ∧ call.exp = other.exp
  authentic : ∀ now token key t exp, Unforged p hmac calls token →
    p.verify hmac now token = .ok (key, t, exp) →
      ∃ call ∈ calls, key = call.key ∧ t = call.t ∧ exp = call.exp
  fresh : ∀ exp now, ∀ piece ∈ (p.header exp now).splitOn comma, Within (exp - now) piece

section Calls

variable {p : Pipeline} {hmac : Bytes → Bytes → Bytes} {call : Call p}

theorem Call.sign_eq (call : Call p) : p.sign hmac call.now call.key call.t call.ttl =
    .ok (encodeToken call.payload (hmac p.secret call.payload)) := by
  have positive := call.positive
  rw [Pipeline.sign, if_neg call.named, call.valid, if_neg (by omega)]
  rfl

theorem Call.verify_eq (call : Call p) (writable : Writable call.t)
    (sized : ∀ secret payload, hmac secret payload ≠ []) (instant : Int) :
    p.verified hmac instant (encodeToken call.payload (hmac p.secret call.payload)) =
      if instant < unix call.exp * second then .ok (call.key, call.t) else .error
      { cause := .expired } := by
  rw [Pipeline.verified, Call.payload, verify_encodeToken call.valid writable call.exp_inRange sized]
  split_ifs <;> rfl

theorem unix_mul (instant : Int) : unix instant * second = instant - instant % second := by
  have whole := Int.ediv_mul_add_emod instant second
  rw [unix]
  omega

theorem Call.roundTrips_iff (writable : Writable call.t)
    (sized : ∀ secret payload, hmac secret payload ≠ []) :
    call.RoundTrips hmac ↔ call.exp % second = 0 := by
  have positive := call.positive
  have shape : call.exp = call.now + call.ttl := rfl
  have floor := unix_mul call.exp
  have least : 0 ≤ call.exp % second := Int.emod_nonneg call.exp (by decide)
  constructor
  · rintro ⟨token, signed, verified⟩
    obtain rfl := Except.ok.inj (call.sign_eq.symm.trans signed)
    by_contra part
    have early := (verified (max call.now (unix call.exp * second)) (Int.le_max_left _ _)).1 (by omega)
    rw [call.verify_eq writable sized, if_neg (by omega)] at early
    cases early
  · intro whole
    refine ⟨_, call.sign_eq, fun instant later => ⟨fun early => ?_, fun late => ?_⟩⟩
    · rw [call.verify_eq writable sized, if_pos (by omega)]
    · rw [call.verify_eq writable sized, if_neg (by omega)]

theorem within_sub {exp now : Int} {piece : Bytes} (within : Within (sub exp now) piece) :
    Within (exp - now) piece := by
  intro named
  obtain ⟨age, value, short⟩ := within named
  refine ⟨age, value, Int.le_trans short ?_⟩
  rw [sub]
  omega

/-- The calls keep what tokens promise just when every one of them expires on a whole second. -/
theorem faithful_iff_seconds (p : Pipeline) (hmac : Bytes → Bytes → Bytes) (calls : List (Call p))
    (free : ∀ format ∈ p.formats, bar ∉ format)
    (sized : ∀ secret payload, (hmac secret payload).length = 32) :
    Faithful p hmac calls ↔ ∀ call ∈ calls, call.exp % second = 0 := by
  have some (secret payload) : hmac secret payload ≠ [] := by
    intro none
    have length := sized secret payload
    rw [none] at length
    cases length
  have writable (call : Call p) : Writable call.t := writable_of_validate call.valid free
  constructor
  · intro faithful call listed
    exact (Call.roundTrips_iff (writable call) some).mp (faithful.roundTrips call listed)
  · intro whole
    have onTime (call) (listed : call ∈ calls) : unix call.exp * second = call.exp := by
      rw [unix_mul, whole call listed, Int.sub_zero]
    refine ⟨fun call listed => (Call.roundTrips_iff (writable call) some).mpr (whole call listed), ?_, ?_, ?_⟩
    · intro call listed other listed' same
      obtain ⟨keys, transforms, seconds⟩ :=
        canonical_inj (writable call) (writable other) call.exp_inRange other.exp_inRange same
      exact ⟨keys, transforms, by rw [← onTime call listed, seconds, onTime other listed']⟩
    · intro now token key t exp unforged accepted
      obtain ⟨payload, mac, decoded, own, parsed⟩ := verify_ok accepted
      obtain ⟨call, listed, rfl⟩ := unforged payload mac decoded own
      rw [Call.payload, parsePayload_canonical (writable call) call.exp_inRange, onTime call listed] at parsed
      cases parsed
      exact ⟨call, listed, rfl, rfl, rfl⟩
    · exact fun exp now piece found => within_sub (cacheControlUntil_within p.cacheControl _ piece found)

/-! A pipeline with one format, and the code of the payload that is signed below. -/

def sample : Pipeline where
  secret := textBytes "0123456789abcdef"
  formats := [textBytes "webp"]
  maxWidth := 4096
  maxHeight := 4096
  maxPixels := 16777216
  defaultTTL := 3600 * second
  cacheControl := textBytes "public, max-age=31536000, immutable"
  width_inRange := by decide
  height_inRange := by decide
  pixels_inRange := by decide

def sampleMac : Bytes → Bytes → Bytes := fun _ _ =>
  [
    0xC4, 0x8C, 0x50, 0xCE, 0x27, 0x2C, 0x52, 0xB1, 0x18, 0x0B, 0x27, 0x0A, 0x08, 0x05,
    0x59, 0x7E, 0xFD, 0x29, 0xF1, 0x5F, 0x73, 0xF8, 0x21, 0x27, 0x07, 0x9A, 0xFB, 0x0B,
    0x4D, 0x21, 0xA0, 0x18]

/-- Signed for a minute, with the given fraction of a second on the clock. -/
def sampleCall (fraction : Int) (inRange : inInt64 (unix (1700000000 * second + fraction + 60 * second))) :
    Call sample where
  now := 1700000000 * second + fraction
  key := textBytes "a.png"
  t := ⟨256, 0, 80, textBytes "webp"⟩
  ttl := 60 * second
  named := by decide +kernel
  valid := by decide +kernel
  positive := by decide
  inRange := inRange

theorem faithful_sample : (∀ format ∈ sample.formats, bar ∉ format) ∧
    (∀ secret payload, (sampleMac secret payload).length = 32) ∧
    Faithful sample sampleMac [sampleCall 0 (by decide)] := by
  have free : ∀ format ∈ sample.formats, bar ∉ format := by decide +kernel
  have sized (secret payload : Bytes) : (sampleMac secret payload).length = 32 := rfl
  exact ⟨free, sized, (faithful_iff_seconds sample sampleMac _ free sized).mpr (by decide)⟩

/-- Half a second past a second, the token expires half a second early. -/
theorem expires_early : ¬Faithful sample sampleMac [sampleCall 500000000 (by decide)] := by
  intro faithful
  have free : ∀ format ∈ sample.formats, bar ∉ format := by decide +kernel
  have own := faithful.roundTrips _ List.mem_cons_self
  have some (secret payload : Bytes) : sampleMac secret payload ≠ [] := List.cons_ne_nil _ _
  rw [Call.roundTrips_iff (writable_of_validate (Call.valid _) free) some] at own
  exact absurd own (by decide)

end Calls

end Golusoris.Images
