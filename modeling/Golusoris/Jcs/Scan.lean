import Golusoris.Lib.Decimal

/-!
# Tokens of a JSON text

The scanning methods of `core/codec/jcs`: strings, numbers and literals. A
scanner takes what is left of the input, `p.data[p.pos:]`, and returns what is
left after the token; an error carries what was left when it was found.
-/

namespace Golusoris.Jcs

open Lib

/-- The errors of `Canonicalize`. -/
inductive Fault where
  | errSyntax
  | errInvalidUTF8
  | errLoneSurrogate
  | errDuplicateKey (name : Bytes)
  | errNumberRange
  | errTooDeep
  deriving DecidableEq, Repr

/-- A token and what is left after it, or a fault and what was left there. -/
abbrev Scan (Token : Type) := Except (Fault × Bytes) (Token × Bytes)

def peek (rest : Bytes) : UInt8 := rest.head?.getD 0

def isSpace (byte : UInt8) : Bool :=
  byte == 0x20 || byte == 0x09 || byte == 0x0A || byte == 0x0D

def skipSpace (rest : Bytes) : Bytes := rest.dropWhile isSpace

def shortEscape (byte : UInt8) : Option UInt8 :=
  if byte = 0x22 ∨ byte = 0x5C ∨ byte = 0x2F then some byte
  else if byte = 0x62 then some 0x08
  else if byte = 0x66 then some 0x0C
  else if byte = 0x6E then some 0x0A
  else if byte = 0x72 then some 0x0D
  else if byte = 0x74 then some 0x09
  else none

def hexValue (byte : UInt8) : Option Nat :=
  if 0x30 ≤ byte ∧ byte ≤ 0x39 then some (byte.toNat - 0x30)
  else if 0x61 ≤ byte ∧ byte ≤ 0x66 then some (byte.toNat - 0x61 + 10)
  else if 0x41 ≤ byte ∧ byte ≤ 0x46 then some (byte.toNat - 0x41 + 10)
  else none

/-- Four hex digits at the front. -/
def hex4 : Bytes → Option Nat
  | a :: b :: c :: d :: _ => do
      let a ← hexValue a
      let b ← hexValue b
      let c ← hexValue c
      let d ← hexValue d
      some (((a * 16 + b) * 16 + c) * 16 + d)
  | _ => none

/-- A low surrogate escape at the front. -/
def lowSurrogate : Bytes → Option Nat
  | 0x5C :: 0x75 :: rest => (hex4 rest).filter fun low => 0xDC00 ≤ low ∧ low ≤ 0xDFFF
  | _ => none

/-- `utf16.DecodeRune` of a high and a low surrogate. -/
def decodePair (high low : Nat) : Nat := (high - 0xD800) * 0x400 + (low - 0xDC00) + 0x10000

/-- The code point of a `\u` escape; the argument starts with the backslash. -/
def unicodeEscape (rest : Bytes) : Scan Nat :=
  match hex4 (rest.drop 2) with
  | none => .error (.errSyntax, rest)
  | some unit =>
      if 0xDC00 ≤ unit ∧ unit ≤ 0xDFFF then .error (.errLoneSurrogate, rest)
      else if unit < 0xD800 ∨ 0xDBFF < unit then .ok (unit, rest.drop 6)
      else
        match lowSurrogate (rest.drop 6) with
        | none => .error (.errLoneSurrogate, rest)
        | some low => .ok (decodePair unit low, rest.drop 12)

/-- `utf8.AppendRune`. -/
def appendRune (out : Bytes) (rune : Nat) : Bytes :=
  out ++ String.utf8EncodeChar (if rune.isValidChar then Char.ofNat rune else '\uFFFD')

/-- The argument starts with the backslash. -/
def escape (out rest : Bytes) : Scan Bytes :=
  match rest with
  | _ :: byte :: tail =>
      if byte = 0x75 then
        match unicodeEscape rest with
        | .error fault => .error fault
        | .ok (rune, tail) => .ok (appendRune out rune, tail)
      else
        match shortEscape byte with
        | none => .error (.errSyntax, rest)
        | some decoded => .ok (out ++ [decoded], tail)
  | _ => .error (.errSyntax, rest)

/-- The loop of `str`, with the bytes left as its bound. -/
def strLoop : Nat → Bytes → Bytes → Scan Bytes
  | 0, _, rest => .error (.errSyntax, rest)
  | _ + 1, _, [] => .error (.errSyntax, [])
  | fuel + 1, out, byte :: rest =>
      if byte = 0x22 then .ok (out, rest)
      else if byte = 0x5C then
        match escape out (byte :: rest) with
        | .error fault => .error fault
        | .ok (out, rest) => strLoop fuel out rest
      else if byte < 0x20 then .error (.errSyntax, byte :: rest)
      else if byte < 0x80 then strLoop fuel (out ++ [byte]) rest
      else
        match Utf8.decodeRune (byte :: rest) with
        | none => .error (.errInvalidUTF8, byte :: rest)
        | some rune =>
            strLoop fuel (out ++ (byte :: rest).take rune.utf8Size)
              ((byte :: rest).drop rune.utf8Size)

/-- Decode the string literal at the front, which starts with a quote. -/
def str (rest : Bytes) : Scan Bytes := strLoop rest.length [] rest.tail

/-- Whether the scan succeeded, and what is left. -/
def scanFraction : Bytes → Bool × Bytes
  | 0x2E :: rest => ((rest.takeWhile isDigit).length > 0, rest.dropWhile isDigit)
  | rest => (true, rest)

def scanExponent (rest : Bytes) : Bool × Bytes :=
  if peek rest = 0x65 ∨ peek rest = 0x45 then
    let rest := rest.tail
    let rest := if peek rest = 0x2B ∨ peek rest = 0x2D then rest.tail else rest
    ((rest.takeWhile isDigit).length > 0, rest.dropWhile isDigit)
  else (true, rest)

/-- The switch of `scanNumber` over the whole part. -/
def scanWhole (rest : Bytes) : Bool × Bytes :=
  if peek rest = 0x30 then (true, rest.tail)
  else if 0x31 ≤ peek rest ∧ peek rest ≤ 0x39 then (true, rest.dropWhile isDigit)
  else (false, rest)

/-- Go on with what is left if the scan so far succeeded. -/
def scanThen (scanned : Bool × Bytes) (next : Bytes → Bool × Bytes) : Bool × Bytes :=
  if scanned.1 then next scanned.2 else scanned

def scanNumber (rest : Bytes) : Bool × Bytes :=
  let rest := if peek rest = 0x2D then rest.tail else rest
  scanThen (scanThen (scanWhole rest) scanFraction) scanExponent

/-- The finite double that a number denotes. -/
def parseFloat (text : Bytes) : Option ℚ := toDouble (readDecimal text)

def number (rest : Bytes) : Scan ℚ :=
  let (matched, tail) := scanNumber rest
  if !matched then .error (.errSyntax, tail)
  else
    match parseFloat (rest.take (rest.length - tail.length)) with
    | none => .error (.errNumberRange, rest)
    | some value => .ok (value, tail)

/-- The literal at the front. -/
def literal (rest : Bytes) : Scan String :=
  match ["true", "false", "null"].find? fun text => (textBytes text).isPrefixOf rest with
  | some text => .ok (text, rest.drop (textBytes text).length)
  | none => .error (.errSyntax, rest)

def hexLower (value : Nat) : UInt8 :=
  if value < 10 then UInt8.ofNat (0x30 + value) else UInt8.ofNat (0x57 + value)

/-- One byte of a string with the minimal escaping. -/
def escapeByte (byte : UInt8) : Bytes :=
  if byte = 0x22 ∨ byte = 0x5C then [0x5C, byte]
  else if 0x20 ≤ byte then [byte]
  else if byte = 0x08 then [0x5C, 0x62]
  else if byte = 0x09 then [0x5C, 0x74]
  else if byte = 0x0A then [0x5C, 0x6E]
  else if byte = 0x0C then [0x5C, 0x66]
  else if byte = 0x0D then [0x5C, 0x72]
  else [0x5C, 0x75, 0x30, 0x30, hexLower (byte.toNat / 16), hexLower (byte.toNat % 16)]

/-- `appendString` onto an empty slice. -/
def appendString (text : Bytes) : Bytes := 0x22 :: text.flatMap escapeByte ++ [0x22]

/-- Decimal digits of a positive number: `0.d₁d₂… · 10^point`. -/
structure Shortest where
  digits : List (Fin 10)
  point : Int
  leading : ∃ first rest, digits = first :: rest ∧ first ≠ 0
  bounded : -900 ≤ point ∧ point ≤ 900

/-- The digits that `strconv` chooses for a positive double. -/
abbrev Formatter := ℚ → Shortest

def digitByte (digit : Fin 10) : UInt8 := UInt8.ofNat (0x30 + digit.val)

def natDigit (value : Nat) : UInt8 := UInt8.ofNat (0x30 + value % 10)

/-- `%e` of `strconv`: one digit before the point, two or more in the exponent. -/
def fmtE (shortest : Shortest) : Bytes :=
  let bytes := shortest.digits.map digitByte
  let exponent := shortest.point - 1
  let size := exponent.natAbs
  let fraction := if bytes.length ≤ 1 then [] else 0x2E :: bytes.tail
  bytes.take 1 ++ fraction ++ [0x65, if exponent < 0 then 0x2D else 0x2B] ++
    if size < 10 then [0x30, natDigit size]
    else if size < 100 then [natDigit (size / 10), natDigit size]
    else [natDigit (size / 100), natDigit (size / 10), natDigit size]

/-- `%f` of `strconv`. -/
def fmtF (shortest : Shortest) : Bytes :=
  let bytes := shortest.digits.map digitByte
  let count := bytes.length
  let whole :=
    if 0 < shortest.point then
      bytes.take shortest.point.toNat ++ List.replicate (shortest.point.toNat - count) 0x30
    else [0x30]
  let fraction := List.replicate (-shortest.point).toNat 0x30 ++ bytes.drop shortest.point.toNat
  whole ++ if shortest.point < count then 0x2E :: fraction else []

/-- Go writes `e-07` where ECMAScript writes `e-7`. -/
def trimExponent (text : Bytes) : Bytes :=
  match text.reverse with
  | last :: 0x30 :: 0x2D :: 0x65 :: front => (last :: 0x2D :: 0x65 :: front).reverse
  | _ => text

/-- `appendNumber` onto an empty slice; the bounds are doubles themselves. -/
def appendNumber (shortest : Formatter) (value : ℚ) : Bytes :=
  if value = 0 then [0x30]
  else
    let sign := if value < 0 then [0x2D] else []
    if |value| < nearestDouble (1 / 10 ^ 6) ∨ nearestDouble (10 ^ 21) ≤ |value| then
      trimExponent (sign ++ fmtE (shortest |value|))
    else sign ++ fmtF (shortest |value|)

end Golusoris.Jcs
