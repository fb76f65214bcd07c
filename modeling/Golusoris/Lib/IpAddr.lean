import Golusoris.Lib.Digits
import Golusoris.Lib.JsonString
import Mathlib.Data.List.TakeWhile

/-!
# IP addresses

The texts that `netip.ParseAddr` of Go accepts and the bytes it reads from them.
An accepted text without a zone consists of hexadecimal digits, dots and colons;
one with a colon is an address of version 6.
-/

namespace Golusoris.Lib.IpAddr

open List
open Json (hexValue isHexDigit)

inductive Addr where
  | v4 (bytes : Bytes)
  | v6 (bytes zone : Bytes)
  deriving DecidableEq

def Addr.zone : Addr → Bytes
  | .v4 _ => []
  | .v6 _ zone => zone

def Addr.is4 : Addr → Bool
  | .v4 _ => true
  | .v6 _ _ => false

def dot : UInt8 := 0x2E
def colon : UInt8 := 0x3A
def percent : UInt8 := 0x25

/-- `parseIPv4Fields`, with the fields before the current one, its value and the
number of its digits. -/
def parseFields : Bytes → Bytes → Nat → Nat → Option Bytes
  | [], fields, value, _ =>
      if fields.length < 3 then none else some (fields ++ [UInt8.ofNat value])
  | byte :: rest, fields, value, digits =>
      if Digits.isDigit byte then
        -- No leading zeros.
        if digits = 1 ∧ value = 0 then none
        else if 255 < value * 10 + Digits.digitValue byte then none
        else parseFields rest fields (value * 10 + Digits.digitValue byte) (digits + 1)
      else if byte = dot then
        if digits = 0 ∨ rest = [] then none
        else if fields.length = 3 then none
        else parseFields rest (fields ++ [UInt8.ofNat value]) 0 0
      else none

def hexNumber (digits : Bytes) : Nat :=
  digits.foldl (fun value digit => value * 16 + (hexValue digit).getD 0) 0

/-- The loop of `parseIPv6`, with room for some groups: what is parsed before and
after the ellipsis, and where the ellipsis is. -/
def parseGroups : Nat → Bytes → Bytes → Option Nat → Option (Bytes × Option Nat)
  | 0, text, parsed, ellipsis => if text = [] then some (parsed, ellipsis) else none
  | room + 1, text, parsed, ellipsis =>
      let digits := text.takeWhile isHexDigit
      if digits = [] ∨ 4 < digits.length then none
      else
        match text.dropWhile isHexDigit with
        | [] => some (parsed ++ [UInt8.ofNat (hexNumber digits / 256), UInt8.ofNat (hexNumber digits)],
            ellipsis)
        | byte :: rest =>
            if byte = dot then
              if ellipsis = none ∧ parsed.length ≠ 12 then none
              else if 16 < parsed.length + 4 then none
              else (parseFields text [] 0 0).map fun fields => (parsed ++ fields, ellipsis)
            else if byte ≠ colon then none
            else
              let parsed := parsed ++
                [UInt8.ofNat (hexNumber digits / 256), UInt8.ofNat (hexNumber digits)]
              match rest with
              | [] => none
              | next :: after =>
                  if next ≠ colon then parseGroups room (next :: after) parsed ellipsis
                  else if ellipsis.isSome then none
                  else if after = [] then some (parsed, some parsed.length)
                  else parseGroups room after parsed (some parsed.length)

/-- Zeros in the place of the ellipsis. -/
def expand : Bytes × Option Nat → Option Bytes
  | (parsed, none) => if parsed.length < 16 then none else some parsed
  | (parsed, some place) =>
      if parsed.length < 16 then
        some (parsed.take place ++ List.replicate (16 - parsed.length) 0 ++ parsed.drop place)
      else none

/-- `parseIPv6` after the zone was split off. -/
def parseSixteen (text : Bytes) : Option Bytes :=
  if [colon, colon].isPrefixOf text then
    if text.drop 2 = [] then some (List.replicate 16 0)
    else (parseGroups 8 (text.drop 2) [] (some 0)).bind expand
  else (parseGroups 8 text [] none).bind expand

def parseIPv6 (text : Bytes) : Option Addr :=
  if percent ∈ text then
    if (text.dropWhile (· ≠ percent)).tail = [] then none
    else (parseSixteen (text.takeWhile (· ≠ percent))).map fun bytes =>
      .v6 bytes (text.dropWhile (· ≠ percent)).tail
  else (parseSixteen text).map fun bytes => .v6 bytes []

/-- `netip.ParseAddr`. -/
def parseAddr (text : Bytes) : Option Addr :=
  match text.find? fun byte => byte == dot || byte == colon || byte == percent with
  | none => none
  | some byte =>
      if byte = dot then (parseFields text [] 0 0).map .v4
      else if byte = colon then parseIPv6 text
      else none

/-- `net.ParseIP` and `IP.IsLoopback` of what it returns; a zone is not accepted. -/
def isLoopback (text : Bytes) : Bool :=
  match parseAddr text with
  | some (.v4 bytes) => bytes.head? == some 127
  | some (.v6 bytes []) =>
      if bytes.take 12 = List.replicate 10 0 ++ [0xFF, 0xFF] then bytes[12]? == some 127
      else bytes == List.replicate 15 0 ++ [1]
  | _ => false

def plain (byte : UInt8) : Bool := isHexDigit byte || byte == dot || byte == colon

theorem plain_of_isHexDigit {byte : UInt8} (digit : isHexDigit byte) : plain byte := by
  simp [plain, digit]

theorem isHexDigit_of_isDigit {byte : UInt8} (digit : Digits.isDigit byte) : isHexDigit byte := by
  simp only [Digits.isDigit] at digit
  simp [isHexDigit, digit]

theorem of_parseFields {text fields read : Bytes} {value digits : Nat}
    (parsed : parseFields text fields value digits = some read) :
    ∀ byte ∈ text, plain byte ∧ byte ≠ colon := by
  induction text generalizing fields value digits with
  | nil => simp
  | cons byte rest ih =>
    rw [parseFields] at parsed
    rw [forall_mem_cons]
    split_ifs at parsed with digit zero large separator missing long
    · have other : byte ≠ colon := by
        rintro rfl
        exact absurd digit (by decide)
      exact ⟨⟨plain_of_isHexDigit (isHexDigit_of_isDigit digit), other⟩, ih parsed⟩
    · subst separator
      exact ⟨by decide, ih parsed⟩

theorem plain_of_parseGroups {room : Nat} {text before : Bytes} {ellipsis : Option Nat}
    {read : Bytes × Option Nat} (parsed : parseGroups room text before ellipsis = some read) :
    ∀ byte ∈ text, plain byte := by
  induction room generalizing text before ellipsis with
  | zero =>
    rw [parseGroups] at parsed
    split_ifs at parsed with empty
    simp [empty]
  | succ room ih =>
    have leading : ∀ byte ∈ text.takeWhile isHexDigit, plain byte := fun byte found =>
      plain_of_isHexDigit (mem_takeWhile_imp found)
    have whole := takeWhile_append_dropWhile (p := isHexDigit) (l := text)
    have some : ¬(text.takeWhile isHexDigit = [] ∨ 4 < (text.takeWhile isHexDigit).length) := by
      intro none
      rw [parseGroups, if_pos none] at parsed
      cases parsed
    rw [parseGroups, if_neg some] at parsed
    rw [← whole, forall_mem_append]
    refine ⟨leading, ?_⟩
    cases follows : text.dropWhile isHexDigit with
    | nil => simp
    | cons byte rest =>
      simp only [follows] at parsed
      rw [forall_mem_cons]
      by_cases embedded : byte = dot
      · rw [if_pos embedded] at parsed
        split_ifs at parsed
        obtain ⟨fields, own, -⟩ := Option.map_eq_some_iff.mp parsed
        have fine := of_parseFields own
        rw [← whole, follows] at fine
        simp only [forall_mem_append, forall_mem_cons] at fine
        exact ⟨fine.2.1.1, fun byte found => (fine.2.2 byte found).1⟩
      · rw [if_neg embedded] at parsed
        by_cases other : byte = colon
        · rw [if_neg (not_not.mpr other)] at parsed
          refine ⟨by simp [other, plain], ?_⟩
          cases rest with
          | nil => simp
          | cons next after =>
            simp only at parsed
            by_cases single : next = colon
            · rw [if_neg (not_not.mpr single)] at parsed
              rw [forall_mem_cons]
              refine ⟨by simp [single, plain], ?_⟩
              split_ifs at parsed with twice last
              · simp [last]
              · exact ih parsed
            · rw [if_pos single] at parsed
              exact ih parsed
        · rw [if_pos other] at parsed
          cases parsed

theorem plain_colons : ∀ byte ∈ [colon, colon], plain byte := by
  intro byte found
  obtain rfl : byte = colon := by simpa using found
  decide

theorem plain_of_parseSixteen {text read : Bytes} (parsed : parseSixteen text = some read) :
    ∀ byte ∈ text, plain byte := by
  rw [parseSixteen] at parsed
  split_ifs at parsed with leading empty
  · obtain ⟨rest, rfl⟩ := isPrefixOf_iff_prefix.mp leading
    obtain rfl : rest = [] := empty
    exact plain_colons
  · obtain ⟨rest, rfl⟩ := isPrefixOf_iff_prefix.mp leading
    obtain ⟨groups, own, -⟩ := Option.bind_eq_some_iff.mp parsed
    have fine := plain_of_parseGroups own
    rw [forall_mem_append]
    exact ⟨plain_colons, fine⟩
  · obtain ⟨groups, own, -⟩ := Option.bind_eq_some_iff.mp parsed
    exact plain_of_parseGroups own

/-- An accepted text without a zone. -/
theorem plain_of_parseAddr {text : Bytes} {addr : Addr} (parsed : parseAddr text = some addr)
    (unzoned : addr.zone = []) : ∀ byte ∈ text, plain byte := by
  rw [parseAddr] at parsed
  cases found : text.find? fun byte => byte == dot || byte == colon || byte == percent with
  | none => simp [found] at parsed
  | some byte =>
    simp only [found] at parsed
    split_ifs at parsed with four six
    · obtain ⟨fields, own, -⟩ := Option.map_eq_some_iff.mp parsed
      exact fun byte found => (of_parseFields own byte found).1
    · rw [parseIPv6] at parsed
      split_ifs at parsed with zoned missing
      · obtain ⟨fields, -, rfl⟩ := Option.map_eq_some_iff.mp parsed
        exact absurd unzoned missing
      · obtain ⟨fields, own, -⟩ := Option.map_eq_some_iff.mp parsed
        exact plain_of_parseSixteen own

theorem is4_of_parseAddr {text : Bytes} {addr : Addr} (parsed : parseAddr text = some addr)
    (colons : colon ∈ text) : addr.is4 = false := by
  rw [parseAddr] at parsed
  cases found : text.find? fun byte => byte == dot || byte == colon || byte == percent with
  | none => simp [found] at parsed
  | some byte =>
    simp only [found] at parsed
    split_ifs at parsed with four six
    · obtain ⟨fields, own, -⟩ := Option.map_eq_some_iff.mp parsed
      exact absurd rfl (of_parseFields own colon colons).2
    · rw [parseIPv6] at parsed
      split_ifs at parsed
      · obtain ⟨fields, -, rfl⟩ := Option.map_eq_some_iff.mp parsed
        rfl
      · obtain ⟨fields, -, rfl⟩ := Option.map_eq_some_iff.mp parsed
        rfl

theorem parseAddr_of_isLoopback {text : Bytes} (loopback : isLoopback text) :
    ∃ addr, parseAddr text = some addr ∧ addr.zone = [] := by
  rw [isLoopback] at loopback
  cases parsed : parseAddr text with
  | none => simp [parsed] at loopback
  | some addr =>
    cases addr with
    | v4 bytes => exact ⟨_, rfl, rfl⟩
    | v6 bytes zone =>
      cases zone with
      | nil => exact ⟨_, rfl, rfl⟩
      | cons first rest => simp [parsed] at loopback

theorem plain_of_isLoopback {text : Bytes} (loopback : isLoopback text) :
    ∀ byte ∈ text, plain byte := by
  obtain ⟨addr, parsed, unzoned⟩ := parseAddr_of_isLoopback loopback
  exact plain_of_parseAddr parsed unzoned

end Golusoris.Lib.IpAddr
