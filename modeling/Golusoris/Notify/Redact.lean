import Golusoris.Lib.Masking
import Golusoris.Lib.NetUrl

/-!
# Redacted messages

Source: `Config`, `urlUserInfoSecrets` and `Redact` of `notify/channel/channel.go`.
The secrets of a configuration are replaced one after another, in the order of the
fields. A template says where a message holds them; redacted, the message should
be the template's `outline`, which knows nothing of the secrets.
-/

namespace Golusoris.Notify.Redact

open List
open Lib (Bytes textBytes)
open Lib.Masking

/-- The fields of a configuration that `Redact` reads. -/
structure Config where
  webhookURL : Bytes := []
  token : Bytes := []
  botToken : Bytes := []
  appToken : Bytes := []
  password : Bytes := []
  secret : Bytes := []
  serverURL : Bytes := []
  url : Bytes := []

def marker : Bytes := textBytes "[REDACTED]"

/-- The password of a URL and its user info, as far as it has them. -/
def urlUserInfoSecrets (rawURL : Bytes) : List Bytes :=
  if rawURL = [] then []
  else
    match (Lib.NetUrl.parse rawURL).bind Lib.NetUrl.Url.user with
    | none => []
    | some user =>
        (if user.password.getD [] ≠ [] then [user.password.getD []] else []) ++
          if user.string ≠ [] then [user.string] else []

/-- What `Redact` goes through, in its order. -/
def secrets (cfg : Config) : List Bytes :=
  [cfg.webhookURL, cfg.url, cfg.token, cfg.botToken, cfg.appToken, cfg.password, cfg.secret] ++
    [cfg.serverURL, cfg.webhookURL, cfg.url].flatMap urlUserInfoSecrets

/-- Scrubs secrets from the text of an error; there may be no error. -/
def redact (err : Option Bytes) (cfg : Config) : Bytes :=
  match err with
  | none => []
  | some msg =>
      (secrets cfg).foldl (fun msg s => if s ≠ [] then replaceAll msg s marker else msg) msg

/-- The fields with a URL. -/
inductive UrlField where
  | serverURL
  | webhookURL
  | url

def UrlField.raw (cfg : Config) : UrlField → Bytes
  | .serverURL => cfg.serverURL
  | .webhookURL => cfg.webhookURL
  | .url => cfg.url

/-- What a message may hold of a configuration. The parts of a URL's user info
are counted as `urlUserInfoSecrets` lists them. -/
inductive Slot where
  | webhookURL
  | url
  | token
  | botToken
  | appToken
  | password
  | secret
  | userInfo (field : UrlField) (index : ℕ)

/-- The secret that fills a slot, empty where the configuration has none. -/
def Slot.value (cfg : Config) : Slot → Bytes
  | .webhookURL => cfg.webhookURL
  | .url => cfg.url
  | .token => cfg.token
  | .botToken => cfg.botToken
  | .appToken => cfg.appToken
  | .password => cfg.password
  | .secret => cfg.secret
  | .userInfo field index => (urlUserInfoSecrets (field.raw cfg)).getD index []

inductive Piece where
  | text (text : Bytes)
  | slot (slot : Slot)

abbrev Template := List Piece

def Piece.part (cfg : Config) : Piece → Lib.Masking.Part UInt8
  | .text bytes => .plain bytes
  | .slot field => .hidden (field.value cfg)

/-- The parts of the message for a configuration. -/
def Template.parts (cfg : Config) (template : Template) : List (Lib.Masking.Part UInt8) :=
  template.map (Piece.part cfg)

/-- The message: the template with its slots filled. -/
def Template.fill (cfg : Config) (template : Template) : Bytes := spell (template.parts cfg)

/-- The template with the marker in its slots. -/
def Template.outline (template : Template) : Bytes :=
  template.flatMap fun
    | .text text => text
    | .slot _ => marker

/-- No common character: no common byte, or no common rune where both are UTF-8. -/
def ShareNone (text secret : Bytes) : Prop :=
  (∀ byte ∈ text, byte ∉ secret) ∨
    ∃ runes hidden, text = Lib.Utf8.encode runes ∧ secret = Lib.Utf8.encode hidden ∧
      ∀ rune ∈ runes, rune ∉ hidden

/-- Every slot is filled, and neither the template nor the marker shares a
character with a secret. -/
structure Ready (cfg : Config) (template : Template) : Prop where
  filled : ∀ slot, .slot slot ∈ template → slot.value cfg ≠ []
  unmarked : ∀ secret ∈ secrets cfg, ShareNone marker secret
  texts : ∀ secret ∈ secrets cfg, ∀ text, .text text ∈ template → ShareNone text secret

/-- In the order of the secrets, and with the slots of those before it blanked: a
secret begins inside no slot of another value. -/
def Unmixed (cfg : Config) (template : Template) : Prop :=
  Clear marker ((secrets cfg).filter (· ≠ [])) (template.parts cfg)

/-- No slot stands directly before another one. -/
def Separated : Template → Prop
  | [] => True
  | .text _ :: rest => Separated rest
  | .slot _ :: rest =>
      (rest = [] ∨ ∃ text ≠ [], ∃ more, rest = .text text :: more) ∧ Separated rest

section Redacting

variable {cfg : Config} {template : Template}

theorem strange_of_shareNone {text secret : Bytes} (some : secret ≠ [])
    (none : ShareNone text secret) : Strange text secret := by
  rcases none with bytes | ⟨runes, hidden, rfl, rfl, disjoint⟩
  · exact strange_of_disjoint some bytes
  · refine strange_encode ?_ disjoint
    rintro rfl
    exact some rfl

theorem redact_eq_mask (msg : Bytes) :
    redact (some msg) cfg = mask marker ((secrets cfg).filter (· ≠ [])) msg := by
  rw [redact, mask, foldl_filter]
  congr
  funext msg s
  simp

theorem outline_eq_masked (cfg : Config) : template.outline = masked marker (template.parts cfg) := by
  induction template with
  | nil => rfl
  | cons piece rest hyp =>
    rw [Template.outline] at hyp ⊢
    rw [flatMap_cons, hyp]
    cases piece <;> rfl

theorem value_mem_secrets (slot : Slot) (some : slot.value cfg ≠ []) :
    slot.value cfg ∈ secrets cfg := by
  cases slot with
  | userInfo field index =>
    have listed : (urlUserInfoSecrets (field.raw cfg)).getD index [] ∈
        urlUserInfoSecrets (field.raw cfg) := by
      rw [Slot.value, getD_eq_getElem?_getD] at some
      rw [getD_eq_getElem?_getD]
      rcases found : (urlUserInfoSecrets (field.raw cfg))[index]? with _ | value
      · simp [found] at some
      · exact mem_of_getElem? found
    refine mem_append_right _ (mem_flatMap.mpr ⟨field.raw cfg, ?_, listed⟩)
    cases field <;> simp [UrlField.raw]
  | _ => exact mem_append_left _ (by simp [Slot.value])

theorem Ready.maskable (ready : Ready cfg template) :
    Maskable marker ((secrets cfg).filter (· ≠ [])) where
  marked := by decide +kernel
  some := by simp
  strange := by
    intro secret member
    obtain ⟨listed, some⟩ := mem_filter.mp member
    exact strange_of_shareNone (by simpa using some) (ready.unmarked secret listed)

theorem Ready.listed (ready : Ready cfg template) :
    Listed marker ((secrets cfg).filter (· ≠ [])) (template.parts cfg) where
  values := by
    intro value member
    obtain ⟨piece, found, same⟩ := mem_map.mp member
    cases piece with
    | text text => cases same
    | slot slot =>
      cases same
      have some := ready.filled slot found
      exact mem_filter.mpr ⟨value_mem_secrets slot some, by simpa using some⟩
  strange := by
    intro secret member text plain
    obtain ⟨listed, some⟩ := mem_filter.mp member
    obtain ⟨piece, found, same⟩ := mem_map.mp plain
    cases piece with
    | text other =>
      cases same
      exact strange_of_shareNone (by simpa using some) (ready.texts secret listed text found)
    | slot slot => cases same

theorem Separated.apart (separated : Separated template) : Apart (template.parts cfg) := by
  induction template with
  | nil => trivial
  | cons piece rest hyp =>
    cases piece with
    | text text => exact hyp separated
    | slot slot =>
      refine ⟨?_, hyp separated.2⟩
      rcases separated.1 with rfl | ⟨text, filled, more, rfl⟩
      · exact .inl rfl
      · exact .inr ⟨text, filled, _, rfl⟩

/-- A message whose secrets are unmixed is redacted to the template's outline,
whatever the secrets are; with text between the slots no other message is. -/
theorem redact_outline (ready : Ready cfg template) :
    (Unmixed cfg template → redact (some (template.fill cfg)) cfg = template.outline) ∧
    (Separated template → redact (some (template.fill cfg)) cfg = template.outline →
      Unmixed cfg template) := by
  rw [redact_eq_mask, outline_eq_masked cfg]
  constructor
  · exact mask_of_clear ready.maskable ready.listed
  · intro separated
    exact clear_of_mask ready.maskable ready.listed separated.apart

end Redacting

/-- A token and a password, in a template that holds the password alone. -/
def passwordOnly : Template := [.slot .password]

/-- The token `ab`, with any password. -/
def tokenAb (password : Bytes) : Config := { token := [0x61, 0x62], password }

theorem ready_passwordOnly {password : Bytes} (some : password ≠ [])
    (unmarked : ∀ byte ∈ marker, byte ∉ password) : Ready (tokenAb password) passwordOnly where
  filled := by simpa [passwordOnly, Slot.value, tokenAb] using some
  unmarked := by
    intro secret member
    simp only [secrets, tokenAb, urlUserInfoSecrets, flatMap_cons, flatMap_nil,
      if_true, append_nil, mem_cons, not_mem_nil, or_false] at member
    rcases member with rfl | rfl | rfl | rfl | rfl | rfl | rfl
    case inr.inr.inl => exact .inl (by decide +kernel)
    case inr.inr.inr.inr.inr.inl => exact .inl unmarked
    all_goals exact .inl (by simp)
  texts := by simp [passwordOnly]

/-- A password that does not begin with the token is blanked as a whole. -/
theorem redact_password_xy :
    redact (some (passwordOnly.fill (tokenAb [0x78, 0x79]))) (tokenAb [0x78, 0x79]) =
      passwordOnly.outline := by
  refine (redact_outline (ready_passwordOnly (by decide) (by decide +kernel))).1 ?_
  have order : (secrets (tokenAb [0x78, 0x79])).filter (· ≠ []) = [[0x61, 0x62], [0x78, 0x79]] := by
    decide +kernel
  rw [Unmixed, order]
  refine ⟨⟨.inr ?_, trivial⟩, ⟨.inl rfl, trivial⟩, trivial⟩
  decide

/-- The token is replaced first, in the password `abc` as well: its end is seen. -/
theorem redact_password_abc :
    Ready (tokenAb [0x61, 0x62, 0x63]) passwordOnly ∧ Ready (tokenAb [0x78, 0x79]) passwordOnly ∧
      redact (some (passwordOnly.fill (tokenAb [0x61, 0x62, 0x63]))) (tokenAb [0x61, 0x62, 0x63]) ≠
        redact (some (passwordOnly.fill (tokenAb [0x78, 0x79]))) (tokenAb [0x78, 0x79]) := by
  refine ⟨ready_passwordOnly (by decide) (by decide +kernel),
    ready_passwordOnly (by decide) (by decide +kernel), ?_⟩
  decide +kernel

end Golusoris.Notify.Redact
