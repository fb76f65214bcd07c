import Golusoris.Lib.IpAddr

/-!
# URLs

`Parse` and `String` of the package `net/url` of Go, with the functions they are
made of. Texts are bytes. `string` writes what `parse` reads, but not always what
`parse` had read: a path is escaped anew unless its escaped form is a valid one.
-/

namespace Golusoris.Lib.NetUrl

open List
open Json (hexValue)

/-- What stands before and after the first separator. -/
def cut (separator : UInt8) : Bytes → Option (Bytes × Bytes)
  | [] => none
  | byte :: rest =>
      if byte = separator then some ([], rest)
      else (cut separator rest).map fun (before, after) => (byte :: before, after)

/-- What stands before and after the last separator. -/
def cutLast (separator : UInt8) : Bytes → Option (Bytes × Bytes)
  | [] => none
  | byte :: rest =>
      match cutLast separator rest with
      | some (before, after) => some (byte :: before, after)
      | none => if byte = separator then some ([], rest) else none

section Cut

variable {separator : UInt8} {text before after : Bytes}

theorem cut_eq_none_iff : cut separator text = none ↔ separator ∉ text := by
  induction text with
  | nil => simp [cut]
  | cons byte rest ih =>
    rw [cut]
    split_ifs with here
    · simp [here]
    · simp [ih, Ne.symm here]

theorem cut_append (free : separator ∉ before) :
    cut separator (before ++ separator :: after) = some (before, after) := by
  induction before with
  | nil => simp [cut]
  | cons byte rest ih =>
    obtain ⟨other, free⟩ := not_or.mp (mt mem_cons.mpr free)
    rw [cons_append, cut, if_neg (Ne.symm other), ih free]
    rfl

theorem cut_eq_some (found : cut separator text = some (before, after)) :
    text = before ++ separator :: after ∧ separator ∉ before := by
  induction text generalizing before with
  | nil => cases found
  | cons byte rest ih =>
    rw [cut] at found
    split_ifs at found with here
    · cases found
      exact ⟨by rw [here, nil_append], not_mem_nil⟩
    · obtain ⟨⟨first, last⟩, own, same⟩ := Option.map_eq_some_iff.mp found
      cases same
      obtain ⟨whole, free⟩ := ih own
      exact ⟨by rw [whole, cons_append], by simp [free, Ne.symm here]⟩

theorem cutLast_eq_none_iff : cutLast separator text = none ↔ separator ∉ text := by
  induction text with
  | nil => simp [cutLast]
  | cons byte rest ih =>
    rw [cutLast]
    cases later : cutLast separator rest with
    | some parts =>
      have found : separator ∈ rest := by simpa [later] using ih
      simp [found]
    | none =>
      rw [later] at ih
      by_cases here : byte = separator
      · simp [here]
      · simpa [here, Ne.symm here] using ih

theorem cutLast_append (free : separator ∉ after) :
    cutLast separator (before ++ separator :: after) = some (before, after) := by
  induction before with
  | nil => rw [nil_append, cutLast, cutLast_eq_none_iff.mpr free]; simp
  | cons byte rest ih => rw [cons_append, cutLast, ih]

theorem cutLast_eq_some (found : cutLast separator text = some (before, after)) :
    text = before ++ separator :: after := by
  fun_induction cutLast separator text generalizing before with
  | case1 => cases found
  | case2 byte rest _ _ later ih =>
    cases found
    rw [ih later, cons_append]
  | case3 rest =>
    cases found
    rw [nil_append]
  | case4 => cases found

theorem not_mem_of_cutLast (found : cutLast separator text = some (before, after)) :
    separator ∉ after := by
  fun_induction cutLast separator text generalizing before with
  | case1 => cases found
  | case2 byte rest _ _ later ih =>
    cases found
    exact ih later
  | case3 rest later =>
    cases found
    exact cutLast_eq_none_iff.mp later
  | case4 => cases found

end Cut

/-- The part of a URL that is escaped; the code knows two more, for queries. -/
inductive Encoding where
  | path
  | userPassword
  | host
  | zone
  | fragment
  deriving DecidableEq

def isAlphanumeric (byte : UInt8) : Bool :=
  (0x61 ≤ byte && byte ≤ 0x7A) || (0x41 ≤ byte && byte ≤ 0x5A) || Digits.isDigit byte

/-- `! $ & ' ( ) * + , ; = : [ ] < > "`, which a host may hold. -/
def hostBytes : Bytes :=
  [0x21, 0x24, 0x26, 0x27, 0x28, 0x29, 0x2A, 0x2B, 0x2C, 0x3B, 0x3D, 0x3A, 0x5B, 0x5D, 0x3C, 0x3E,
    0x22]

/-- `- _ . ~`. -/
def unreservedBytes : Bytes := [0x2D, 0x5F, 0x2E, 0x7E]

/-- `$ & + , / : ; = ? @`. -/
def reservedBytes : Bytes := [0x24, 0x26, 0x2B, 0x2C, 0x2F, 0x3A, 0x3B, 0x3D, 0x3F, 0x40]

def shouldEscape (byte : UInt8) (mode : Encoding) : Bool :=
  if isAlphanumeric byte then false
  else if (mode = .host ∨ mode = .zone) ∧ byte ∈ hostBytes then false
  else if byte ∈ unreservedBytes then false
  else if byte ∈ reservedBytes ∧ mode = .path then byte == 0x3F
  else if byte ∈ reservedBytes ∧ mode = .userPassword then
    byte == 0x40 || byte == 0x2F || byte == 0x3F || byte == 0x3A
  else if byte ∈ reservedBytes ∧ mode = .fragment then false
  else if mode = .fragment ∧ byte ∈ ([0x21, 0x28, 0x29, 0x2A] : Bytes) then false
  else true

def upperHex (value : Nat) : UInt8 :=
  UInt8.ofNat (if value < 10 then 0x30 + value else 0x37 + value)

def escape (text : Bytes) (mode : Encoding) : Bytes :=
  text.flatMap fun byte =>
    if shouldEscape byte mode then
      [0x25, upperHex (byte.toNat / 16), upperHex (byte.toNat % 16)]
    else [byte]

def unescape (mode : Encoding) : Bytes → Option Bytes
  | [] => some []
  | byte :: rest =>
      if byte = 0x25 then
        match rest with
        | high :: low :: rest =>
            match hexValue high, hexValue low with
            | some first, some second =>
                let value := UInt8.ofNat (16 * first + second)
                -- Hosts escape other bytes than ASCII, and the percent sign of a zone.
                if mode = .host ∧ first < 8 ∧ value ≠ 0x25 then none
                else if mode = .zone ∧ value ≠ 0x25 ∧ value ≠ 0x20 ∧ shouldEscape value .host then none
                else (unescape mode rest).map (value :: ·)
            | _, _ => none
        | _ => none
      else if (mode = .host ∨ mode = .zone) ∧ byte < 0x80 ∧ shouldEscape byte mode then none
      else (unescape mode rest).map (byte :: ·)

/-- A byte of an encoded part; brackets are allowed although a path should not have them. -/
def validByte (byte : UInt8) (mode : Encoding) : Bool :=
  ([0x21, 0x24, 0x26, 0x27, 0x28, 0x29, 0x2A, 0x2B, 0x2C, 0x3B, 0x3D, 0x3A, 0x40, 0x5B, 0x5D,
    0x25] : Bytes).contains byte || !shouldEscape byte mode

def validEncoded (text : Bytes) (mode : Encoding) : Bool := text.all (validByte · mode)

section Escape

variable {mode : Encoding} {text : Bytes}

theorem forall_byte {holds : UInt8 → Bool}
    (all : (List.range 256).all fun value => holds (UInt8.ofNat value)) (byte : UInt8) :
    holds byte := by
  have own := all_eq_true.mp all byte.toNat (mem_range.mpr byte.toNat_lt)
  rwa [UInt8.ofNat_toNat] at own

theorem escape_cons (byte : UInt8) : escape (byte :: text) mode =
    (if shouldEscape byte mode then
      [0x25, upperHex (byte.toNat / 16), upperHex (byte.toNat % 16)]
    else [byte]) ++ escape text mode := rfl

theorem shouldEscape_percent (mode : Encoding) : shouldEscape 0x25 mode := by
  cases mode <;> decide

theorem ne_percent {byte : UInt8} (kept : shouldEscape byte mode = false) : byte ≠ 0x25 := by
  rintro rfl
  rw [shouldEscape_percent] at kept
  cases kept

theorem escape_of_kept (kept : ∀ byte ∈ text, shouldEscape byte mode = false) :
    escape text mode = text := by
  induction text with
  | nil => rfl
  | cons byte rest ih =>
    obtain ⟨own, later⟩ := forall_mem_cons.mp kept
    rw [escape_cons, own, ih later]
    rfl

theorem unescape_cons {byte : UInt8} (plain : byte ≠ 0x25) : unescape mode (byte :: text) =
    if (mode = .host ∨ mode = .zone) ∧ byte < 0x80 ∧ shouldEscape byte mode then none
    else (unescape mode text).map (byte :: ·) := by
  rw [unescape.eq_def]
  simp only
  rw [if_neg plain]

theorem unescape_of_kept (kept : ∀ byte ∈ text, shouldEscape byte mode = false) :
    unescape mode text = some text := by
  induction text with
  | nil => rfl
  | cons byte rest ih =>
    obtain ⟨own, later⟩ := forall_mem_cons.mp kept
    rw [unescape_cons (ne_percent own), if_neg (by simp [own]), ih later]
    rfl

theorem hexValue_upperHex {value : Nat} (small : value < 16) :
    hexValue (upperHex value) = some value := by
  have all : ∀ value < 16, hexValue (upperHex value) = some value := by decide
  exact all value small

/-- An escaped byte is read back, wherever every byte may be escaped. -/
theorem unescape_percent (byte : UInt8) (outside : mode ≠ .host ∧ mode ≠ .zone) :
    unescape mode (0x25 :: upperHex (byte.toNat / 16) :: upperHex (byte.toNat % 16) :: text) =
      (unescape mode text).map (byte :: ·) := by
  have small := byte.toNat_lt
  have whole : UInt8.ofNat (16 * (byte.toNat / 16) + byte.toNat % 16) = byte := by
    rw [Nat.div_add_mod, UInt8.ofNat_toNat]
  rw [unescape, if_pos rfl]
  simp only [hexValue_upperHex (show byte.toNat / 16 < 16 by omega),
    hexValue_upperHex (show byte.toNat % 16 < 16 by omega)]
  rw [if_neg (by simp [outside.1]), if_neg (by simp [outside.2]), whole]

theorem unescape_escape (text : Bytes) (outside : mode ≠ .host ∧ mode ≠ .zone) :
    unescape mode (escape text mode) = some text := by
  induction text with
  | nil => rfl
  | cons byte rest ih =>
    rw [escape_cons]
    split_ifs with escaped
    · exact (unescape_percent byte outside).trans (congrArg _ ih)
    · rw [cons_append, nil_append, unescape_cons (ne_percent (by simpa using escaped)),
        if_neg (by simp [outside]), ih]
      rfl

theorem validEncoded_escape (text : Bytes) (mode : Encoding) :
    validEncoded (escape text mode) mode := by
  induction text with
  | nil => rfl
  | cons byte rest ih =>
    have digit {value : Nat} (small : value < 16) : shouldEscape (upperHex value) mode = false := by
      have all : ∀ value < 16, isAlphanumeric (upperHex value) := by decide
      rw [shouldEscape, if_pos (all value small)]
    have small := byte.toNat_lt
    rw [validEncoded] at ih
    rw [validEncoded, escape_cons, all_append, ih, Bool.and_true]
    split_ifs with escaped
    · simp [validByte, digit (show byte.toNat / 16 < 16 by omega),
        digit (show byte.toNat % 16 < 16 by omega)]
    · simp [validByte, escaped]

end Escape

structure Userinfo where
  username : Bytes
  password : Option Bytes
  deriving DecidableEq

structure Url where
  scheme : Bytes := []
  opaqueData : Bytes := []
  user : Option Userinfo := none
  host : Bytes := []
  path : Bytes := []
  /-- The escaped path where it is not the one that escaping gives. -/
  rawPath : Bytes := []
  omitHost : Bool := false
  forceQuery : Bool := false
  rawQuery : Bytes := []
  fragment : Bytes := []
  rawFragment : Bytes := []
  deriving DecidableEq

/-- A part in escaped form: as it was read if that is a valid encoding. -/
def escaped (mode : Encoding) (decoded raw : Bytes) : Bytes :=
  if raw ≠ [] ∧ validEncoded raw mode ∧ unescape mode raw = some decoded then raw
  else if mode = .path ∧ decoded = [0x2A] then [0x2A]
  else escape decoded mode

/-- The escaped form that is kept beside a decoded part. -/
def rawHint (mode : Encoding) (decoded text : Bytes) : Bytes :=
  if text = escape decoded mode then [] else text

def setPath (url : Url) (text : Bytes) : Option Url :=
  (unescape .path text).map fun path =>
    { url with path := path, rawPath := rawHint .path path text }

def setFragment (url : Url) (text : Bytes) : Option Url :=
  (unescape .fragment text).map fun fragment =>
    { url with fragment := fragment, rawFragment := rawHint .fragment fragment text }

section Escaped

variable {mode : Encoding}

theorem unescape_escaped (decoded raw : Bytes) (outside : mode ≠ .host ∧ mode ≠ .zone) :
    unescape mode (escaped mode decoded raw) = some decoded := by
  rw [escaped]
  split_ifs with own star
  · exact own.2.2
  · rw [star.1, star.2]
    rfl
  · exact unescape_escape decoded outside

theorem validEncoded_escaped (decoded raw : Bytes) : validEncoded (escaped mode decoded raw) mode := by
  rw [escaped]
  split_ifs with own star
  · exact own.2.1
  · rw [star.1]
    decide
  · exact validEncoded_escape decoded mode

/-- A valid encoding is kept. -/
theorem escaped_rawHint_text {decoded form : Bytes} (valid : validEncoded form mode)
    (read : unescape mode form = some decoded) (usual : decoded ≠ [0x2A]) :
    escaped mode decoded (rawHint mode decoded form) = form := by
  rw [rawHint]
  split_ifs with same
  · rw [escaped, if_neg (by simp), if_neg (by simp [usual]), same]
  · have some : form ≠ [] := by
      rintro rfl
      rw [unescape, Option.some.injEq] at read
      rw [← read] at same
      exact same rfl
    rw [escaped, if_pos ⟨some, valid, read⟩]

/-- The escaped form stays the same when it is read again. -/
theorem escaped_rawHint (decoded raw : Bytes) (outside : mode ≠ .host ∧ mode ≠ .zone)
    (usual : decoded ≠ [0x2A]) :
    escaped mode decoded (rawHint mode decoded (escaped mode decoded raw)) =
      escaped mode decoded raw :=
  escaped_rawHint_text (validEncoded_escaped decoded raw) (unescape_escaped decoded raw outside) usual

end Escaped

namespace Url

def escapedPath (url : Url) : Bytes := escaped .path url.path url.rawPath
def escapedFragment (url : Url) : Bytes := escaped .fragment url.fragment url.rawFragment

end Url

/-- Nothing, or a colon and digits. -/
def validOptionalPort : Bytes → Bool
  | [] => true
  | byte :: digits => byte == 0x3A && digits.all Digits.isDigit

/-- The host and the port of an authority. -/
def splitHostPort (host : Bytes) : Bytes × Bytes :=
  let (host, port) :=
    match cutLast 0x3A host with
    | some (before, after) => if after.all Digits.isDigit then (before, after) else (host, [])
    | none => (host, [])
  if host.head? = some 0x5B ∧ host.getLast? = some 0x5D then (host.tail.dropLast, port)
  else (host, port)

def Url.hostname (url : Url) : Bytes := (splitHostPort url.host).1
def Url.port (url : Url) : Bytes := (splitHostPort url.host).2

/-- The text after `%25`, which starts a zone, and what stands before it. -/
def cutZone : Bytes → Option (Bytes × Bytes)
  | [] => none
  | byte :: rest =>
      if [0x25, 0x32, 0x35].isPrefixOf (byte :: rest) then some ([], byte :: rest)
      else (cutZone rest).map fun (before, zone) => (byte :: before, zone)

def unescapeLiteral (literal : Bytes) : Option Bytes :=
  match cutZone literal with
  | none => unescape .host literal
  | some (host, zone) =>
      (unescape .host host).bind fun host => (unescape .zone zone).map fun zone => host ++ zone

/-- `parseHost`. An address in brackets stands at the start and is of version 6; a host
without brackets has one colon at most, before its port. -/
def parseHost (scheme host : Bytes) : Option Bytes :=
  match cutLast 0x5B host with
  | some (_ :: _, _) => none
  | some ([], _) =>
      (cutLast 0x5D host.tail).bind fun (literal, colonPort) =>
        if ¬validOptionalPort colonPort then none
        else
          (unescape .host colonPort).bind fun colonPort =>
            (unescapeLiteral literal).bind fun literal =>
              (IpAddr.parseAddr literal).bind fun addr =>
                if addr.is4 then none
                else some (0x5B :: (literal ++ 0x5D :: colonPort))
  | none =>
      -- PostgreSQL lists hosts with their ports.
      let lists := scheme = textBytes "postgresql" ∨ scheme = textBytes "postgres"
      let colonPort := if lists then cutLast 0x3A host else cut 0x3A host
      if (colonPort.any fun (_, port) => ¬port.all Digits.isDigit) then none
      else unescape .host host

def validUserinfo (text : Bytes) : Bool :=
  text.all fun byte => isAlphanumeric byte ||
    ([0x2D, 0x2E, 0x5F, 0x3A, 0x7E, 0x21, 0x24, 0x26, 0x27, 0x28, 0x29, 0x2A, 0x2B, 0x2C, 0x3B,
      0x3D, 0x25, 0x40] : Bytes).contains byte

def parseUserinfo (text : Bytes) : Option Userinfo :=
  if ¬validUserinfo text then none
  else
    match cut 0x3A text with
    | none => (unescape .userPassword text).map fun username => ⟨username, none⟩
    | some (username, password) =>
        (unescape .userPassword username).bind fun username =>
          (unescape .userPassword password).map fun password => ⟨username, some password⟩

def parseAuthority (scheme authority : Bytes) : Option (Option Userinfo × Bytes) :=
  match cutLast 0x40 authority with
  | none => (parseHost scheme authority).map fun host => (none, host)
  | some (userinfo, host) =>
      (parseHost scheme host).bind fun host =>
        (parseUserinfo userinfo).map fun user => (some user, host)

def isLetter (byte : UInt8) : Bool := (0x61 ≤ byte && byte ≤ 0x7A) || (0x41 ≤ byte && byte ≤ 0x5A)

/-- The loop of `getScheme` after some bytes of a scheme. -/
def schemeFrom : Bytes → Bytes → Option (Option (Bytes × Bytes))
  | _, [] => some none
  | before, byte :: rest =>
      if isLetter byte then schemeFrom (before ++ [byte]) rest
      else if Digits.isDigit byte ∨ byte ∈ ([0x2B, 0x2D, 0x2E] : Bytes) then
        if before = [] then some none else schemeFrom (before ++ [byte]) rest
      else if byte = 0x3A then if before = [] then none else some (some (before, rest))
      else some none

/-- The scheme, empty if there is none, and the rest. -/
def getScheme (text : Bytes) : Option (Bytes × Bytes) :=
  (schemeFrom [] text).map fun found => found.getD ([], text)

def lower (byte : UInt8) : UInt8 := if 0x41 ≤ byte && byte ≤ 0x5A then byte + 0x20 else byte

/-- The rest, the query and whether there is an empty one. -/
def splitQuery (text : Bytes) : Bytes × Bytes × Bool :=
  if text.getLast? = some 0x3F ∧ text.count 0x3F = 1 then (text.dropLast, [], true)
  else
    match cut 0x3F text with
    | none => (text, [], false)
    | some (rest, query) => (rest, query, false)

/-- ASCII control characters. -/
def isControlByte (byte : UInt8) : Bool := byte < 0x20 || byte == 0x7F

/-- `parse`, of a text without a fragment. -/
def parseReference (raw : Bytes) : Option Url :=
  if raw.any isControlByte then none
  else if raw = [0x2A] then some { path := [0x2A] }
  else
    (getScheme raw).bind fun (scheme, rest) =>
      let scheme := scheme.map lower
      let (rest, query, force) := splitQuery rest
      let url : Url := { scheme := scheme, rawQuery := query, forceQuery := force }
      if rest.head? ≠ some 0x2F ∧ scheme ≠ [] then some { url with opaqueData := rest }
      -- The first segment of a relative path holds no colon.
      else if rest.head? ≠ some 0x2F ∧ 0x3A ∈ rest.takeWhile (· ≠ 0x2F) then none
      else if (scheme ≠ [] ∨ ¬[0x2F, 0x2F, 0x2F].isPrefixOf rest) ∧ [0x2F, 0x2F].isPrefixOf rest then
        (parseAuthority scheme ((rest.drop 2).takeWhile (· ≠ 0x2F))).bind fun (user, host) =>
          setPath { url with user := user, host := host } ((rest.drop 2).dropWhile (· ≠ 0x2F))
      else setPath { url with omitHost := decide (scheme ≠ [] ∧ rest.head? = some 0x2F) } rest

def parse (raw : Bytes) : Option Url :=
  match cut 0x23 raw with
  | none => parseReference raw
  | some (text, fragment) =>
      (parseReference text).bind fun url =>
        if fragment = [] then some url else setFragment url fragment

def Userinfo.string (user : Userinfo) : Bytes :=
  escape user.username .userPassword ++
    user.password.elim [] fun password => 0x3A :: escape password .userPassword

/-- The text up to the path: the scheme, the user and the host. -/
def Url.origin (url : Url) : Bytes :=
  let scheme := if url.scheme = [] then [] else url.scheme ++ [0x3A]
  if (url.scheme = [] ∧ url.host = [] ∧ url.user = none) ∨
      (url.omitHost ∧ url.host = [] ∧ url.user = none) then scheme
  else
    scheme ++ (if url.host = [] ∧ url.path = [] ∧ url.user = none then [] else [0x2F, 0x2F]) ++
      (url.user.elim [] fun user => user.string ++ [0x40]) ++ escape url.host .host

def Url.string (url : Url) : Bytes :=
  let body :=
    if url.opaqueData ≠ [] then
      (if url.scheme = [] then [] else url.scheme ++ [0x3A]) ++ url.opaqueData
    else
      let path := url.escapedPath
      let start := url.origin ++
        if path ≠ [] ∧ path.head? ≠ some 0x2F ∧ url.host ≠ [] then [0x2F] else []
      -- Otherwise the first segment would be taken for a scheme.
      let relative := start = [] ∧ 0x3A ∈ path.takeWhile (· ≠ 0x2F)
      start ++ (if relative then [0x2E, 0x2F] else []) ++ path
  body ++ (if url.forceQuery ∨ url.rawQuery ≠ [] then 0x3F :: url.rawQuery else []) ++
    if url.fragment = [] then [] else 0x23 :: url.escapedFragment

/-- The path of a URL with a host was read from a text that is empty or starts with a slash. -/
def Rooted (url : Url) : Prop :=
  ∃ text, (text = [] ∨ text.head? = some 0x2F) ∧ unescape .path text = some url.path ∧
    url.rawPath = rawHint .path url.path text

/-- What every URL that was read satisfies. -/
structure Shape (url : Url) : Prop where
  query : ∀ byte ∈ url.rawQuery, byte ≠ 0x23 ∧ isControlByte byte = false
  force : url.forceQuery → url.rawQuery = []
  rooted : url.host ≠ [] → Rooted url

theorem setPath_eq_some {url next : Url} {text : Bytes} (read : setPath url text = some next) :
    ∃ path, unescape .path text = some path ∧
      next = { url with path := path, rawPath := rawHint .path path text } := by
  obtain ⟨path, own, rfl⟩ := Option.map_eq_some_iff.mp read
  exact ⟨path, own, rfl⟩

theorem splitQuery_spec (text : Bytes) : (splitQuery text).2.1 <:+ text ∧
    ((splitQuery text).2.2 → (splitQuery text).2.1 = []) := by
  rw [splitQuery]
  split_ifs with forced
  · simp
  · cases found : cut 0x3F text with
    | none => simp
    | some parts =>
      obtain ⟨whole, -⟩ := cut_eq_some found
      refine ⟨⟨parts.1 ++ [0x3F], ?_⟩, by simp⟩
      rw [whole]
      simp

theorem schemeFrom_suffix {before text scheme rest : Bytes}
    (found : schemeFrom before text = some (some (scheme, rest))) : rest <:+ text := by
  induction text generalizing before with
  | nil => cases found
  | cons byte text ih =>
    rw [schemeFrom] at found
    split_ifs at found
    · exact (ih found).trans (suffix_cons byte text)
    · cases found
    · exact (ih found).trans (suffix_cons byte text)
    · cases found
      exact suffix_cons byte _
    · cases found

theorem getScheme_suffix {text scheme rest : Bytes} (found : getScheme text = some (scheme, rest)) :
    rest <:+ text := by
  obtain ⟨parts, own, same⟩ := Option.map_eq_some_iff.mp found
  cases parts with
  | none =>
    cases same
    exact suffix_refl text
  | some parts =>
    obtain rfl : parts = (scheme, rest) := same
    exact schemeFrom_suffix own

theorem rooted_of_setPath {url next : Url} {text : Bytes} (start : text = [] ∨ text.head? = some 0x2F)
    (read : setPath url text = some next) : Rooted next := by
  obtain ⟨path, own, rfl⟩ := setPath_eq_some read
  exact ⟨text, start, own, rfl⟩

/-- What is left of an authority starts with the slash that ended it. -/
theorem dropWhile_start (text : Bytes) : text.dropWhile (· ≠ 0x2F) = [] ∨
    (text.dropWhile (· ≠ 0x2F)).head? = some 0x2F := by
  cases left : text.dropWhile (· ≠ 0x2F) with
  | nil => exact .inl rfl
  | cons byte rest =>
    have stopped := head?_dropWhile_not (fun byte : UInt8 => decide (byte ≠ 0x2F)) text
    rw [left] at stopped
    exact .inr (by simpa using stopped)

theorem shape_of_parseReference {raw : Bytes} {url : Url} (free : 0x23 ∉ raw)
    (read : parseReference raw = some url) : Shape url := by
  rw [parseReference] at read
  split_ifs at read with control star
  · cases read
    exact ⟨by simp, by simp, by simp⟩
  · obtain ⟨⟨scheme, rest⟩, found, read⟩ := Option.bind_eq_some_iff.mp read
    obtain ⟨query, force⟩ := splitQuery_spec rest
    have clean : ∀ byte ∈ (splitQuery rest).2.1, byte ≠ 0x23 ∧ isControlByte byte = false := by
      intro byte listed
      have own : byte ∈ raw := (query.trans (getScheme_suffix found)).subset listed
      refine ⟨fun hash => free (hash ▸ own), ?_⟩
      simpa using fun controlled => control (any_eq_true.mpr ⟨byte, own, controlled⟩)
    simp only at read
    split_ifs at read with rootless segment authority
    · cases read
      exact ⟨clean, force, by simp⟩
    · obtain ⟨⟨user, host⟩, -, read⟩ := Option.bind_eq_some_iff.mp read
      have rooted := rooted_of_setPath (dropWhile_start _) read
      obtain ⟨path, -, rfl⟩ := setPath_eq_some read
      exact ⟨clean, force, fun _ => rooted⟩
    · obtain ⟨path, -, rfl⟩ := setPath_eq_some read
      exact ⟨clean, force, by simp⟩

theorem shape_of_parse {raw : Bytes} {url : Url} (read : parse raw = some url) : Shape url := by
  rw [parse] at read
  cases found : cut 0x23 raw with
  | none =>
    rw [found] at read
    exact shape_of_parseReference (cut_eq_none_iff.mp found) read
  | some parts =>
    obtain ⟨text, fragment⟩ := parts
    rw [found] at read
    obtain ⟨own, before, read⟩ := Option.bind_eq_some_iff.mp read
    have shape := shape_of_parseReference (cut_eq_some found).2 before
    split_ifs at read
    · cases read
      exact shape
    · obtain ⟨fragment, -, rfl⟩ := Option.map_eq_some_iff.mp read
      exact ⟨shape.query, shape.force, shape.rooted⟩

end Golusoris.Lib.NetUrl
