import Golusoris.Lib.Base64Url
import Golusoris.Lib.NetUrl

/-!
# Tracking links

Source: `notify/tracking/tracking.go`. A link carries a message, a recipient and
a target with a signature over the three, joined by zero bytes. A zero byte that
stands inside one of them can be taken for a separator, so a link binds its
fields where no other cut of the joined text is one that a handler accepts.
-/

namespace Golusoris.Notify.Tracking

open List
open Lib (Bytes textBytes)

/-- The pairs of a query string, decoded. -/
abbrev Query := List (Bytes × Bytes)

/-- The first value of a key, empty if there is none. -/
def Query.get (query : Query) (key : Bytes) : Bytes :=
  ((query.find? fun pair => pair.1 = key).map Prod.snd).getD []

inductive Kind where
  | kindOpen
  | kindClick
  deriving DecidableEq

structure Event where
  messageID : Bytes
  recipient : Bytes
  kind : Kind
  url : Bytes
  userAgent : Bytes
  ip : Bytes
  deriving DecidableEq

structure Request where
  query : Query
  userAgent : Bytes
  clientIP : Bytes

/-- What a click is answered with. -/
inductive Answer where
  | invalidRequest
  | invalidSignature
  | invalidTarget
  | found (target : Bytes)
  deriving DecidableEq

/-- What a link is about. -/
structure Link where
  messageID : Bytes
  recipient : Bytes
  target : Bytes
  deriving DecidableEq

section Service

-- The code of a text under the secret of the service.
variable (hmac : Bytes → Bytes)

def joined (link : Link) : Bytes := link.messageID ++ 0 :: link.recipient ++ 0 :: link.target

def sign (link : Link) : Bytes := Lib.Base64Url.encode (hmac (joined link))

def pixelURL (messageID recipient : Bytes) : Query :=
  [(textBytes "m", messageID), (textBytes "r", recipient),
    (textBytes "sig", sign hmac ⟨messageID, recipient, []⟩)]

def clickURL (messageID recipient target : Bytes) : Query :=
  [(textBytes "m", messageID), (textBytes "r", recipient),
    (textBytes "sig", sign hmac ⟨messageID, recipient, target⟩), (textBytes "u", target)]

/-- An absolute URL of http or https. -/
def validateRedirectURL (raw : Bytes) : Bool :=
  match Lib.NetUrl.parse raw with
  | none => false
  | some url => (url.scheme = textBytes "http" ∨ url.scheme = textBytes "https") ∧ url.host ≠ []

/-- The event that a pixel is recorded with. The pixel itself is always served. -/
def pixelHandler (request : Request) : Option Event :=
  let m := request.query.get (textBytes "m")
  let recipient := request.query.get (textBytes "r")
  let sig := request.query.get (textBytes "sig")
  if m ≠ [] ∧ sign hmac ⟨m, recipient, []⟩ = sig then
    some ⟨m, recipient, .kindOpen, [], request.userAgent, request.clientIP⟩
  else none

def clickHandler (request : Request) : Answer × Option Event :=
  let m := request.query.get (textBytes "m")
  let recipient := request.query.get (textBytes "r")
  let target := request.query.get (textBytes "u")
  let sig := request.query.get (textBytes "sig")
  if m = [] ∨ target = [] ∨ sig = [] then (.invalidRequest, none)
  else if sign hmac ⟨m, recipient, target⟩ ≠ sig then (.invalidSignature, none)
  else if !validateRedirectURL target then (.invalidTarget, none)
  else (.found target, some ⟨m, recipient, .kindClick, target, request.userAgent, request.clientIP⟩)

/-- What a request is taken for, with the signature that was issued for a link. -/
inductive Accepted (issued : Link) (request : Request) : Link → Prop where
  | pixel {event : Event} (signed : request.query.get (textBytes "sig") = sign hmac issued)
      (recorded : pixelHandler hmac request = some event) :
      Accepted issued request ⟨event.messageID, event.recipient, event.url⟩
  | click {event : Event} {target : Bytes}
      (signed : request.query.get (textBytes "sig") = sign hmac issued)
      (recorded : clickHandler hmac request = (.found target, some event)) :
      Accepted issued request ⟨event.messageID, event.recipient, event.url⟩

/-- The signature of a link is accepted with its own fields only. -/
def Binds (issued : Link) : Prop := ∀ request link, Accepted hmac issued request link → link = issued

end Service

/-- The ways to cut a text at a zero byte. -/
def cuts : Bytes → List (Bytes × Bytes)
  | [] => []
  | byte :: rest =>
      (if byte = 0 then [([], rest)] else []) ++ (cuts rest).map fun (left, right) =>
      (byte :: left, right)

/-- The ways to cut a text at two of its zero bytes. -/
def links (text : Bytes) : List Link :=
  (cuts text).flatMap fun (messageID, rest) =>
    (cuts rest).map fun (recipient, target) => ⟨messageID, recipient, target⟩

/-- A handler takes the fields: there is a message, and no target or one to go to. -/
def admissible (link : Link) : Bool :=
  link.messageID ≠ [] ∧ (link.target = [] ∨ validateRedirectURL link.target)

/-- No other cut of the joined text is admissible. -/
def Unambiguous (issued : Link) : Prop :=
  ∀ link ∈ links (joined issued), admissible link → link = issued

instance (issued : Link) : Decidable (Unambiguous issued) := by
  unfold Unambiguous
  infer_instance

theorem mem_cuts {text left right : Bytes} :
    (left, right) ∈ cuts text ↔ text = left ++ 0 :: right := by
  induction text generalizing left with
  | nil => simp [cuts]
  | cons byte rest ih =>
    rw [cuts, mem_append, mem_map]
    constructor
    · rintro (here | ⟨⟨before, after⟩, found, same⟩)
      · split_ifs at here with zero
        · obtain ⟨rfl, rfl⟩ := Prod.mk.inj (mem_singleton.mp here)
          rw [zero, nil_append]
        · cases here
      · obtain ⟨rfl, rfl⟩ := Prod.mk.inj same
        rw [ih.mp found, cons_append]
    · intro same
      cases left with
      | nil =>
        obtain ⟨rfl, rfl⟩ := List.cons.inj same
        exact .inl (by simp)
      | cons first left =>
        obtain ⟨rfl, rfl⟩ := List.cons.inj same
        exact .inr ⟨(left, right), ih.mpr rfl, rfl⟩

theorem mem_links {text : Bytes} {link : Link} : link ∈ links text ↔ text = joined link := by
  simp only [links, mem_flatMap, mem_map, Prod.exists]
  constructor
  · rintro ⟨messageID, rest, first, recipient, target, second, rfl⟩
    rw [mem_cuts.mp first, mem_cuts.mp second, joined, append_assoc, cons_append]
  · rintro rfl
    refine ⟨link.messageID, link.recipient ++ 0 :: link.target, mem_cuts.mpr ?_, link.recipient,
      link.target, mem_cuts.mpr rfl, rfl⟩
    rw [joined, append_assoc, cons_append]

section Binding

variable {hmac : Bytes → Bytes} {issued link : Link} {request : Request}

/-- No other text has the code of the one that was signed. -/
def CollisionFree (hmac : Bytes → Bytes) (issued : Link) : Prop :=
  ∀ text, hmac text = hmac (joined issued) → text = joined issued

theorem joined_of_sign (collisionFree : CollisionFree hmac issued)
    (same : sign hmac link = sign hmac issued) : joined issued = joined link :=
  (collisionFree _ (Lib.Base64Url.encode_injective same)).symm

theorem pixelHandler_eq_some {event : Event} (recorded : pixelHandler hmac request = some event) :
    event.messageID ≠ [] ∧ event.url = [] ∧
      sign hmac ⟨event.messageID, event.recipient, event.url⟩ =
        request.query.get (textBytes "sig") := by
  rw [pixelHandler] at recorded
  split at recorded
  · cases recorded
    exact ⟨‹_ ∧ _›.1, rfl, ‹_ ∧ _›.2⟩
  · cases recorded

theorem clickHandler_eq_found {event : Event} {target : Bytes}
    (recorded : clickHandler hmac request = (.found target, some event)) :
    event.messageID ≠ [] ∧ validateRedirectURL event.url ∧ target = event.url ∧
      sign hmac ⟨event.messageID, event.recipient, event.url⟩ =
        request.query.get (textBytes "sig") := by
  rw [clickHandler] at recorded
  split at recorded
  · cases recorded
  · split at recorded
    · cases recorded
    · split at recorded
      · cases recorded
      · obtain ⟨found, event⟩ := Prod.mk.inj recorded
        cases event
        refine ⟨by tauto, by simpa using ‹¬(!_) = true›, (Answer.found.inj found).symm, by tauto⟩

/-- What is accepted is an admissible cut of the text that was signed. -/
theorem of_accepted (collisionFree : CollisionFree hmac issued)
    (accepted : Accepted hmac issued request link) :
    link ∈ links (joined issued) ∧ admissible link := by
  rw [mem_links]
  cases accepted with
  | pixel signed recorded =>
    obtain ⟨some, empty, own⟩ := pixelHandler_eq_some recorded
    refine ⟨joined_of_sign collisionFree (own.trans signed), ?_⟩
    simp only [admissible, empty, decide_eq_true_eq]
    exact ⟨some, .inl trivial⟩
  | click signed recorded =>
    obtain ⟨some, valid, -, own⟩ := clickHandler_eq_found recorded
    refine ⟨joined_of_sign collisionFree (own.trans signed), ?_⟩
    simp only [admissible, decide_eq_true_eq]
    exact ⟨some, .inr valid⟩

/-- A request for other fields with the signature of a link. -/
def forged (hmac : Bytes → Bytes) (issued link : Link) : Request :=
  ⟨[(textBytes "m", link.messageID), (textBytes "r", link.recipient),
    (textBytes "sig", sign hmac issued), (textBytes "u", link.target)], [], []⟩

theorem accepted_forged (hmac : Bytes → Bytes) (some : hmac (joined issued) ≠ [])
    (cut : link ∈ links (joined issued)) (taken : admissible link) :
    Accepted hmac issued (forged hmac issued link) link := by
  have signature : sign hmac link = sign hmac issued := by
    rw [sign, sign, mem_links.mp cut]
  have filled : sign hmac issued ≠ [] := Lib.Base64Url.encode_ne_nil some
  have m : (forged hmac issued link).query.get (textBytes "m") = link.messageID := rfl
  have r : (forged hmac issued link).query.get (textBytes "r") = link.recipient := rfl
  have sig : (forged hmac issued link).query.get (textBytes "sig") = sign hmac issued := rfl
  have u : (forged hmac issued link).query.get (textBytes "u") = link.target := rfl
  obtain ⟨messageID, recipient, target⟩ := link
  simp only [admissible, decide_eq_true_eq] at taken
  obtain ⟨message, choice⟩ := taken
  by_cases empty : target = []
  · subst empty
    have recorded : pixelHandler hmac (forged hmac issued ⟨messageID, recipient, []⟩) =
        .some ⟨messageID, recipient, .kindOpen, [], [], []⟩ := by
      rw [pixelHandler, m, r, sig, if_pos ⟨message, signature⟩]
      rfl
    exact .pixel sig recorded
  · have valid := choice.resolve_left empty
    have recorded : clickHandler hmac (forged hmac issued ⟨messageID, recipient, target⟩) =
        (.found target, .some ⟨messageID, recipient, .kindClick, target, [], []⟩) := by
      rw [clickHandler, m, r, sig, u, if_neg (by tauto), if_neg (not_not.mpr signature),
        if_neg (by simp [valid])]
      rfl
    exact .click sig recorded

/-- Without zero bytes there is one cut. -/
theorem unambiguous_of_free (message : 0 ∉ issued.messageID) (recipient : 0 ∉ issued.recipient)
    (target : 0 ∉ issued.target) : Unambiguous issued := by
  intro link cut _
  have same := mem_links.mp cut
  have zeros := congrArg (List.count 0) same
  simp only [joined, append_assoc, cons_append, count_append, count_cons_self,
    count_eq_zero.mpr message, count_eq_zero.mpr recipient,
    count_eq_zero.mpr target] at zeros
  have free : 0 ∉ link.messageID ∧ 0 ∉ link.recipient := by
    constructor
    · exact count_eq_zero.mp (by omega)
    · exact count_eq_zero.mp (by omega)
  simp only [joined, append_assoc, cons_append] at same
  have first : Lib.NetUrl.cut 0 (issued.messageID ++ 0 :: (issued.recipient ++ 0 :: issued.target)) =
      some (issued.messageID, issued.recipient ++ 0 :: issued.target) := Lib.NetUrl.cut_append message
  rw [same, Lib.NetUrl.cut_append free.1] at first
  obtain ⟨one, rest⟩ := Prod.mk.inj (Option.some.inj first)
  have second : Lib.NetUrl.cut 0 (issued.recipient ++ 0 :: issued.target) =
      some (issued.recipient, issued.target) := Lib.NetUrl.cut_append recipient
  rw [← rest, Lib.NetUrl.cut_append free.2] at second
  obtain ⟨two, three⟩ := Prod.mk.inj (Option.some.inj second)
  cases link
  cases issued
  simp_all

/-- A link binds its fields exactly when no other cut of the text that is signed is admissible. -/
theorem binds_iff (hmac : Bytes → Bytes) (issued : Link) (collisionFree : CollisionFree hmac issued)
    (size : (hmac (joined issued)).length = 32) : Binds hmac issued ↔ Unambiguous issued := by
  have some : hmac (joined issued) ≠ [] := by
    intro empty
    rw [empty] at size
    cases size
  constructor
  · intro binds link cut taken
    exact binds (forged hmac issued link) link (accepted_forged hmac some cut taken)
  · intro unambiguous request link accepted
    obtain ⟨cut, taken⟩ := of_accepted collisionFree accepted
    exact unambiguous link cut taken

end Binding

def plainLink : Link := ⟨textBytes "m1", textBytes "a@b.c", textBytes "https://x.y/"⟩

/-- A recipient with a zero byte in it. -/
def splitLink : Link := ⟨textBytes "m1", textBytes "a" ++ 0 :: textBytes "b", textBytes "https://x.y/"⟩

def plainCode : Bytes :=
  [0xC2, 0x04, 0x3F, 0x55, 0xD0, 0xBA, 0x9B, 0xB7, 0x9E, 0x83, 0xE5, 0x3F, 0xBD, 0x32, 0x96, 0xD1,
    0x53, 0xA6, 0xFA, 0x47, 0x62, 0x24, 0xAE, 0xD4, 0xB0, 0x70, 0xE4, 0xBA, 0x55, 0xC0, 0x27,
    0xF4]

def splitCode : Bytes :=
  [0x7E, 0x21, 0x40, 0x0A, 0x80, 0xD6, 0xF8, 0xDF, 0xF1, 0x72, 0x2C, 0xF0, 0xB2, 0x9E, 0x23, 0xF0,
    0x5D, 0x61, 0x96, 0xD5, 0xE7, 0x94, 0xE7, 0x46, 0x43, 0x08, 0x6C, 0x51, 0xDE, 0x9E, 0x3F,
    0xDD]

/-- The codes of the two texts under a secret of 32 times `k`. -/
def sampleHmac (text : Bytes) : Bytes :=
  if text = joined plainLink then plainCode
  else if text = joined splitLink then splitCode
  else List.replicate 32 0

theorem sampleHmac_collisionFree {issued : Link} (known : issued = plainLink ∨ issued = splitLink) :
    CollisionFree sampleHmac issued := by
  have apart : joined splitLink ≠ joined plainLink := by decide +kernel
  intro text same
  rcases known with rfl | rfl
  · by_contra other
    rw [sampleHmac, if_neg other, sampleHmac, if_pos rfl] at same
    split_ifs at same
    · exact absurd same (by decide +kernel)
    · exact absurd same (by decide +kernel)
  · by_contra other
    rw [sampleHmac, if_neg other, sampleHmac, if_neg apart, if_pos rfl] at same
    split_ifs at same
    · exact absurd same (by decide +kernel)
    · exact absurd same (by decide +kernel)

theorem binds_plain : Binds sampleHmac plainLink := by
  have free : Unambiguous plainLink := unambiguous_of_free (by decide +kernel) (by decide +kernel) (by decide +kernel)
  exact (binds_iff sampleHmac plainLink (sampleHmac_collisionFree (.inl rfl)) (by decide +kernel)).mpr free

/-- The first part of the recipient is moved to the message. -/
theorem split_link_forged : ¬∀ (hmac : Bytes → Bytes) (issued : Link), CollisionFree hmac issued →
    (hmac (joined issued)).length = 32 → Binds hmac issued := by
  intro claim
  have binds := claim sampleHmac splitLink (sampleHmac_collisionFree (.inr rfl)) (by decide +kernel)
  have cut : ⟨textBytes "m1" ++ 0 :: textBytes "a", textBytes "b", textBytes "https://x.y/"⟩ ∈
      links (joined splitLink) := by decide +kernel
  have same := binds _ _ (accepted_forged sampleHmac (by decide +kernel) cut (by decide +kernel))
  exact absurd same (by decide +kernel)

end Golusoris.Notify.Tracking
