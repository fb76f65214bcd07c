import Golusoris.Lib.NetUrl

/-!
# URLs that are written and read again

A web URL whose host is an address is read from its text as it was, with the path
in the escaped form that it had.
-/

namespace Golusoris.Lib.NetUrl

open List

/-- Bytes of a host that stand for themselves. -/
def hostPlain (byte : UInt8) : Bool :=
  !shouldEscape byte .host && byte != 0x2F && byte != 0x3F && byte != 0x23 && byte != 0x40 &&
    !isControlByte byte

variable {url : Url}

theorem head_path (rooted : Rooted url) : url.path = [] ∨ ∃ rest, url.path = 0x2F :: rest := by
  obtain ⟨text, start, read, -⟩ := rooted
  cases text with
  | nil =>
    rw [unescape, Option.some.injEq] at read
    exact .inl read.symm
  | cons byte rest =>
    obtain rfl : byte = 0x2F := by simpa using start
    rw [unescape_cons (by decide), if_neg (by simp)] at read
    obtain ⟨more, -, same⟩ := Option.map_eq_some_iff.mp read
    exact .inr ⟨more, same.symm⟩

theorem path_ne_star (rooted : Rooted url) : url.path ≠ [0x2A] := by
  intro star
  obtain empty | ⟨rest, slash⟩ := head_path rooted
  · rw [empty] at star
    cases star
  · rw [slash] at star
    cases star

theorem head_escapedPath (rooted : Rooted url) :
    url.escapedPath = [] ∨ url.escapedPath.head? = some 0x2F := by
  have usual := path_ne_star rooted
  have path := head_path rooted
  obtain ⟨text, start, read, hint⟩ := rooted
  rw [Url.escapedPath, escaped]
  split_ifs with own star
  · rw [hint, rawHint] at own ⊢
    split_ifs at own ⊢ with same
    · exact absurd rfl own.1
    · exact start
  · exact absurd star.2 usual
  · obtain empty | ⟨rest, slash⟩ := path
    · rw [empty]
      exact .inl rfl
    · rw [slash, escape_cons]
      exact .inr rfl

/-- The query as it is written. -/
def queryText (url : Url) : Bytes :=
  if url.forceQuery ∨ url.rawQuery ≠ [] then 0x3F :: url.rawQuery else []

/-- The text of a URL with a host and with neither a user nor a fragment. -/
theorem string_of_host {path : Bytes} (shown : url.escapedPath = path) (host : url.host ≠ [])
    (user : url.user = none) (fragment : url.fragment = []) :
    url.string =
      (if url.scheme = [] then [] else url.scheme ++ [0x3A]) ++
        ((if url.opaqueData ≠ [] then url.opaqueData
          else [0x2F, 0x2F] ++ (escape url.host .host ++
            ((if path ≠ [] ∧ path.head? ≠ some 0x2F then [0x2F] else []) ++ path))) ++
          queryText url) := by
  subst shown
  simp only [Url.string, Url.origin, user, fragment, queryText]
  have same : (url.escapedPath ≠ [] ∧ url.escapedPath.head? ≠ some 0x2F ∧ url.host ≠ []) ↔
      url.escapedPath ≠ [] ∧ url.escapedPath.head? ≠ some 0x2F := by
    simp [host]
  by_cases rootless : url.opaqueData = []
  · simp only [if_congr same rfl rfl]
    simp [rootless, host]
  · simp [rootless]

/-- A web URL without a user and without a fragment. -/
structure Web (url : Url) : Prop extends Shape url where
  scheme : url.scheme = [0x68, 0x74, 0x74, 0x70]
  opaqueData : url.opaqueData = []
  user : url.user = none
  host : url.host ≠ []
  plain : ∀ byte ∈ url.host, hostPlain byte
  fragment : url.fragment = []

theorem string_web (web : Web url) : url.string =
    [0x68, 0x74, 0x74, 0x70, 0x3A, 0x2F, 0x2F] ++
    (url.host ++ (url.escapedPath ++ queryText url)) := by
  have kept : escape url.host .host = url.host := by
    apply escape_of_kept
    intro byte found
    have own := web.plain byte found
    simp only [hostPlain, Bool.and_eq_true, Bool.not_eq_true'] at own
    exact own.1.1.1.1.1
  have slash : ¬(url.escapedPath ≠ [] ∧ url.escapedPath.head? ≠ some 0x2F) := by
    obtain empty | head := head_escapedPath (web.rooted web.host)
    · simp [empty]
    · simp [head]
  rw [string_of_host rfl web.host web.user web.fragment, web.scheme, web.opaqueData, kept,
    if_neg slash]
  simp

variable {byte : UInt8}

theorem of_validByte (valid : validByte byte .path) :
    byte ≠ 0x3F ∧ byte ≠ 0x23 ∧ isControlByte byte = false := by
  have all : (List.range 256).all fun value => !validByte (UInt8.ofNat value) .path ||
      (UInt8.ofNat value != 0x3F && UInt8.ofNat value != 0x23 &&
        !isControlByte (UInt8.ofNat value)) := by decide +kernel
  have own := @forall_byte (fun byte => !validByte byte .path ||
    (byte != 0x3F && byte != 0x23 && !isControlByte byte)) all byte
  simpa [valid, and_assoc] using own

theorem of_escapedPath (found : byte ∈ url.escapedPath) :
    byte ≠ 0x3F ∧ byte ≠ 0x23 ∧ isControlByte byte = false :=
  of_validByte (all_eq_true.mp (validEncoded_escaped url.path url.rawPath) byte found)

theorem of_hostPlain (plain : hostPlain byte) : shouldEscape byte .host = false ∧
    byte ≠ 0x2F ∧ byte ≠ 0x3F ∧ byte ≠ 0x23 ∧ byte ≠ 0x40 ∧ isControlByte byte = false := by
  simpa [hostPlain, and_assoc] using plain

theorem clean_string (web : Web url) (found : byte ∈ url.string) :
    byte ≠ 0x23 ∧ isControlByte byte = false := by
  rw [string_web web] at found
  simp only [mem_append] at found
  obtain start | host | path | query := found
  · have all : ([0x68, 0x74, 0x74, 0x70, 0x3A, 0x2F, 0x2F] : Bytes).all fun byte =>
        byte != 0x23 && !isControlByte byte := by decide
    simpa using all_eq_true.mp all byte start
  · obtain ⟨-, -, -, hash, -, control⟩ := of_hostPlain (web.plain byte host)
    exact ⟨hash, control⟩
  · exact (of_escapedPath path).2
  · rw [queryText] at query
    split_ifs at query
    · obtain rfl | own := mem_cons.mp query
      · decide
      · exact web.query byte own
    · cases query

theorem splitQuery_append {before : Bytes} (shape : Shape url) (free : 0x3F ∉ before) :
    splitQuery (before ++ queryText url) = (before, url.rawQuery, url.forceQuery) := by
  have none : before.count 0x3F = 0 := count_eq_zero.mpr free
  cases empty : url.rawQuery with
  | nil =>
    cases forced : url.forceQuery with
    | true =>
      have written : queryText url = [0x3F] := by simp [queryText, forced, empty]
      rw [written, splitQuery, if_pos (by simp [none]), dropLast_concat]
    | false =>
      have written : queryText url = [] := by simp [queryText, forced, empty]
      rw [written, append_nil, splitQuery, if_neg (by simp [none]),
        cut_eq_none_iff.mpr free]
  | cons first rest =>
    have unforced : url.forceQuery = false := by
      cases forced : url.forceQuery with
      | false => rfl
      | true =>
        rw [shape.force forced] at empty
        cases empty
    have written : queryText url = 0x3F :: first :: rest := by simp [queryText, empty]
    -- A question mark at the end is not the only one.
    have single : ¬((before ++ 0x3F :: first :: rest).getLast? = some 0x3F ∧
        (before ++ 0x3F :: first :: rest).count 0x3F = 1) := by
      rintro ⟨last, once⟩
      rw [count_append, none, count_cons_self] at once
      have free : 0x3F ∉ first :: rest := count_eq_zero.mp (by omega)
      have own : (first :: rest).getLast? = some 0x3F := by
        simpa [getLast?_append, getLast?_cons] using last
      exact free (mem_of_getLast? own)
    rw [written, unforced, splitQuery, if_neg single, cut_append free]

theorem getScheme_http (rest : Bytes) :
    getScheme ([0x68, 0x74, 0x74, 0x70, 0x3A] ++ rest) = some ([0x68, 0x74, 0x74, 0x70], rest) := by
  rfl

/-- What is read again: the path keeps its escaped form. -/
theorem parse_string (web : Web url)
    (accepted : parseHost [0x68, 0x74, 0x74, 0x70] url.host = some url.host) :
    parse url.string = some { url with
      rawPath := rawHint .path url.path url.escapedPath, omitHost := false, rawFragment := [] } := by
  have free : 0x23 ∉ url.string := fun found => (clean_string web found).1 rfl
  have control : ¬url.string.any isControlByte := by
    intro controlled
    obtain ⟨byte, found, own⟩ := any_eq_true.mp controlled
    rw [(clean_string web found).2] at own
    cases own
  have unasked : 0x3F ∉ [0x2F, 0x2F] ++ (url.host ++ url.escapedPath) := by
    simp only [mem_append, not_or]
    refine ⟨by decide, fun host => ?_, fun path => (of_escapedPath path).1 rfl⟩
    exact (of_hostPlain (web.plain _ host)).2.2.1 rfl
  have layout : url.string = [0x68, 0x74, 0x74, 0x70, 0x3A] ++
      (([0x2F, 0x2F] ++ (url.host ++ url.escapedPath)) ++ queryText url) := by
    rw [string_web web]
    simp
  have authority : (url.host ++ url.escapedPath).takeWhile (· ≠ 0x2F) = url.host ∧
      (url.host ++ url.escapedPath).dropWhile (· ≠ 0x2F) = url.escapedPath := by
    have whole : ∀ byte ∈ url.host, decide (byte ≠ 0x2F) = true := fun byte found =>
      decide_eq_true (of_hostPlain (web.plain byte found)).2.1
    rw [takeWhile_append_of_pos whole, dropWhile_append_of_pos whole]
    obtain empty | head := head_escapedPath (web.rooted web.host)
    · simp [empty]
    · cases path : url.escapedPath with
      | nil => simp
      | cons first rest =>
        rw [path] at head
        cases head
        simp
  have nobody : 0x40 ∉ url.host := fun found =>
    (of_hostPlain (web.plain _ found)).2.2.2.2.1 rfl
  have path : unescape .path url.escapedPath = some url.path :=
    unescape_escaped url.path url.rawPath (by decide)
  rw [parse, cut_eq_none_iff.mpr free]
  simp only
  rw [parseReference, if_neg control, layout, if_neg (by simp), getScheme_http, Option.bind_some]
  simp only [splitQuery_append web.toShape unasked]
  rw [if_neg (by simp), if_neg (by simp), if_pos (by simp)]
  simp only [cons_append, nil_append, drop_succ_cons, drop_zero, authority]
  have same : ([0x68, 0x74, 0x74, 0x70] : Bytes).map lower = [0x68, 0x74, 0x74, 0x70] := by decide
  rw [parseAuthority, cutLast_eq_none_iff.mpr nobody, same]
  simp only [accepted, Option.map_some, Option.bind_some, setPath, path, Option.some.injEq]
  simp only [← web.scheme, web.opaqueData, web.user, web.fragment]

/-- A host with its port, if there is one; an address of version 6 stands in brackets. -/
def hostPort (host port : Bytes) : Bytes :=
  (if 0x3A ∈ host then 0x5B :: (host ++ [0x5D]) else host) ++
    if port = [] then [] else 0x3A :: port

theorem cutZone_eq_none {text : Bytes} (free : 0x25 ∉ text) : cutZone text = none := by
  induction text with
  | nil => rfl
  | cons byte rest ih =>
    obtain ⟨other, free⟩ := not_or.mp (mt mem_cons.mpr free)
    rw [cutZone, if_neg (by simp [isPrefixOf, other]), ih free]
    rfl

section HostPort

variable {host port : Bytes} (loopback : IpAddr.isLoopback host) (digits : port.all Digits.isDigit)

theorem hostPlain_of_plain (plain : IpAddr.plain byte) :
    hostPlain byte ∧ byte ≠ 0x5B ∧ byte ≠ 0x5D ∧ byte ≠ 0x25 := by
  have all : (List.range 256).all fun value => !IpAddr.plain (UInt8.ofNat value) ||
      (hostPlain (UInt8.ofNat value) && UInt8.ofNat value != 0x5B && UInt8.ofNat value != 0x5D &&
        UInt8.ofNat value != 0x25) := by decide +kernel
  have own := @forall_byte (fun byte => !IpAddr.plain byte ||
    (hostPlain byte && byte != 0x5B && byte != 0x5D && byte != 0x25)) all byte
  simpa [plain, and_assoc] using own

theorem plain_of_isDigit (digit : Digits.isDigit byte) : IpAddr.plain byte ∧ byte ≠ 0x3A := by
  refine ⟨IpAddr.plain_of_isHexDigit (IpAddr.isHexDigit_of_isDigit digit), ?_⟩
  rintro rfl
  exact absurd digit (by decide)

include loopback

theorem hostPort_ne_nil : hostPort host port ≠ [] := by
  rw [hostPort]
  by_cases six : 0x3A ∈ host
  · rw [if_pos six]
    simp
  · rw [if_neg six, Ne, append_eq_nil_iff]
    rintro ⟨rfl, -⟩
    exact absurd loopback (by decide)

/-- The bytes with a meaning of their own that an address does not hold. -/
theorem not_mem_host : 0x5B ∉ host ∧ 0x5D ∉ host ∧ 0x25 ∉ host := by
  have plain := IpAddr.plain_of_isLoopback loopback
  refine ⟨fun found => ?_, fun found => ?_, fun found => ?_⟩
  · exact (hostPlain_of_plain (plain _ found)).2.1 rfl
  · exact (hostPlain_of_plain (plain _ found)).2.2.1 rfl
  · exact (hostPlain_of_plain (plain _ found)).2.2.2 rfl

/-- A written address of version 6 is accepted. -/
theorem parseHost_bracketed {colonPort : Bytes} (six : 0x3A ∈ host)
    (valid : validOptionalPort colonPort) (free : 0x5B ∉ colonPort ∧ 0x5D ∉ colonPort)
    (number : ∀ byte ∈ colonPort, shouldEscape byte .host = false) :
    parseHost [0x68, 0x74, 0x74, 0x70] (0x5B :: (host ++ 0x5D :: colonPort)) =
      some (0x5B :: (host ++ 0x5D :: colonPort)) := by
  obtain ⟨addr, accepted, unzoned⟩ := IpAddr.parseAddr_of_isLoopback loopback
  have version := IpAddr.is4_of_parseAddr accepted six
  have others := not_mem_host loopback
  have kept : ∀ byte ∈ host, shouldEscape byte .host = false := fun byte found =>
    (of_hostPlain (hostPlain_of_plain (IpAddr.plain_of_isLoopback loopback byte found)).1).1
  have bracket : cutLast 0x5B (0x5B :: (host ++ 0x5D :: colonPort)) =
      some ([], host ++ 0x5D :: colonPort) :=
    @cutLast_append 0x5B [] _ (by simp [others, free])
  rw [parseHost, bracket]
  simp only [tail_cons, cutLast_append free.2, Option.bind_some, valid,
    unescape_of_kept number, unescapeLiteral, cutZone_eq_none others.2.2, unescape_of_kept kept,
    accepted, version]
  simp

include digits

theorem hostPlain_hostPort : ∀ byte ∈ hostPort host port, hostPlain byte := by
  have own : ∀ byte ∈ host, hostPlain byte := fun byte found =>
    (hostPlain_of_plain (IpAddr.plain_of_isLoopback loopback byte found)).1
  have number : ∀ byte ∈ port, hostPlain byte := fun byte found =>
    (hostPlain_of_plain (plain_of_isDigit (all_eq_true.mp digits byte found)).1).1
  have marks : hostPlain 0x3A ∧ hostPlain 0x5B ∧ hostPlain 0x5D := by decide
  intro byte found
  rw [hostPort, mem_append] at found
  obtain found | found := found
  · split_ifs at found with six
    · simp only [mem_cons, mem_append, not_mem_nil, or_false] at found
      obtain rfl | found | rfl := found
      · exact marks.2.1
      · exact own byte found
      · exact marks.2.2
    · exact own byte found
  · split_ifs at found with none
    · cases found
    · obtain rfl | found := mem_cons.mp found
      · exact marks.1
      · exact number byte found

theorem unescape_hostPort : unescape .host (hostPort host port) = some (hostPort host port) :=
  unescape_of_kept fun byte found => (of_hostPlain (hostPlain_hostPort loopback digits byte found)).1

/-- The host and the port are found again. -/
theorem splitHostPort_hostPort : splitHostPort (hostPort host port) = (host, port) := by
  have plain := IpAddr.plain_of_isLoopback loopback
  have colons : 0x3A ∉ port := fun found =>
    (plain_of_isDigit (all_eq_true.mp digits _ found)).2 rfl
  have start : host.head? ≠ some 0x5B := by
    intro head
    exact (hostPlain_of_plain (plain _ (mem_of_head? head))).2.1 rfl
  have bare (port : Bytes) : (if host.head? = some 0x5B ∧ host.getLast? = some 0x5D then
      (host.tail.dropLast, port) else (host, port)) = (host, port) := by
    rw [if_neg (fun both => start both.1)]
  have boxed (port : Bytes) : (if (0x5B :: (host ++ [0x5D])).head? = some 0x5B ∧
      (0x5B :: (host ++ [0x5D])).getLast? = some 0x5D then
        ((0x5B :: (host ++ [0x5D])).tail.dropLast, port)
      else (0x5B :: (host ++ [0x5D]), port)) = (host, port) := by
    rw [if_pos ⟨rfl, by rw [← cons_append, getLast?_concat]⟩, tail_cons,
      dropLast_concat]
  by_cases none : port = []
  · subst none
    by_cases six : 0x3A ∈ host
    · have text : hostPort host [] = 0x5B :: (host ++ [0x5D]) := by simp [hostPort, six]
      -- What follows the last colon ends with the bracket.
      have other : ∀ before after, cutLast 0x3A (0x5B :: (host ++ [0x5D])) = some (before, after) →
          after.all Digits.isDigit = false := by
        intro before after found
        have whole := congrArg getLast? (cutLast_eq_some found)
        rw [← cons_append, getLast?_concat, getLast?_append] at whole
        cases after with
        | nil => simp at whole
        | cons first rest =>
          have last : (first :: rest).getLast? = some 0x5D := by
            simpa [getLast?_cons] using whole.symm
          rw [all_eq_false]
          exact ⟨0x5D, mem_of_getLast? last, by decide⟩
      rw [text, splitHostPort]
      cases found : cutLast 0x3A (0x5B :: (host ++ [0x5D])) with
      | none => exact boxed []
      | some parts =>
        simp only [other _ _ found]
        exact boxed []
    · have text : hostPort host [] = host := by simp [hostPort, six]
      rw [text, splitHostPort, cutLast_eq_none_iff.mpr six]
      exact bare []
  · by_cases six : 0x3A ∈ host
    · have text : hostPort host port = (0x5B :: (host ++ [0x5D])) ++ 0x3A :: port := by
        simp [hostPort, six, none]
      rw [text, splitHostPort, cutLast_append colons]
      simp only [digits, if_true]
      exact boxed port
    · have text : hostPort host port = host ++ 0x3A :: port := by simp [hostPort, six, none]
      rw [text, splitHostPort, cutLast_append colons]
      simp only [digits, if_true]
      exact bare port

/-- A written address is accepted. -/
theorem parseHost_hostPort :
    parseHost [0x68, 0x74, 0x74, 0x70] (hostPort host port) = some (hostPort host port) := by
  have others := not_mem_host loopback
  have read := unescape_hostPort loopback digits
  have marks : 0x5B ∉ port ∧ 0x5D ∉ port := by
    refine ⟨fun found => ?_, fun found => ?_⟩
    · exact absurd (all_eq_true.mp digits _ found) (by decide)
    · exact absurd (all_eq_true.mp digits _ found) (by decide)
  by_cases six : 0x3A ∈ host
  · have number : ∀ byte ∈ port, shouldEscape byte .host = false := fun byte found =>
      (of_hostPlain (hostPlain_of_plain
        (plain_of_isDigit (all_eq_true.mp digits byte found)).1).1).1
    by_cases none : port = []
    · have text : hostPort host port = 0x5B :: (host ++ 0x5D :: []) := by simp [hostPort, six, none]
      rw [text]
      exact parseHost_bracketed loopback six rfl (by simp) (by simp)
    · have text : hostPort host port = 0x5B :: (host ++ 0x5D :: 0x3A :: port) := by
        simp [hostPort, six, none]
      rw [text]
      refine parseHost_bracketed loopback six digits (by simp [marks]) ?_
      rw [forall_mem_cons]
      exact ⟨by decide, number⟩
  · have bracket : 0x5B ∉ hostPort host port := by
      simp only [hostPort, six, if_false, mem_append, not_or]
      refine ⟨others.1, ?_⟩
      split_ifs <;> simp [marks]
    have lists : ¬(([0x68, 0x74, 0x74, 0x70] : Bytes) = textBytes "postgresql" ∨
        ([0x68, 0x74, 0x74, 0x70] : Bytes) = textBytes "postgres") := by decide
    rw [parseHost, cutLast_eq_none_iff.mpr bracket]
    simp only [if_neg lists, read]
    by_cases none : port = []
    · have text : hostPort host port = host := by simp [hostPort, six, none]
      rw [text, cut_eq_none_iff.mpr six]
      simp
    · have text : hostPort host port = host ++ 0x3A :: port := by simp [hostPort, six, none]
      rw [text, cut_append six]
      simp only [Option.any_some, digits]
      simp

end HostPort

end Golusoris.Lib.NetUrl
