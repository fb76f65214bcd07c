import Golusoris.Storage.Key
import Mathlib.Data.Finmap

/-!
# Completion records

The pure parts of the durable completion of `storage/tus`: the record and its
checks, the key of the object, the comparison of the destination with the
scratch file. The SHA-256 sum is a parameter: any function to 32 bytes.
-/

namespace Golusoris.Tus.Completion

open Lib

abbrev Text := Bytes
abbrev MetaData := Finmap fun _ : Text => Text

/-- `crypto/sha256`. -/
structure Sha256 where
  sum : Bytes → Bytes
  size : ∀ content, (sum content).length = 32

def maxCompletionCallbacks : Nat := 64
def maxCallbackIDBytes : Nat := 128
def maxInt64 : Nat := 2 ^ 63 - 1
def completionRecordVersion : Nat := 1

def hexDigit (value : Nat) : UInt8 :=
  (textBytes "0123456789abcdef").getD value 0

def hexEncode (bytes : Bytes) : Text :=
  bytes.flatMap fun byte => [hexDigit (byte.toNat / 16), hexDigit (byte.toNat % 16)]

def hexValue (char : UInt8) : Option Nat :=
  if 0x30 ≤ char ∧ char ≤ 0x39 then some (char.toNat - 0x30)
  else if 0x41 ≤ char ∧ char ≤ 0x46 then some (char.toNat - 0x41 + 10)
  else if 0x61 ≤ char ∧ char ≤ 0x66 then some (char.toNat - 0x61 + 10)
  else none

def hexDecode : Text → Option Bytes
  | [] => some []
  | high :: low :: rest => do
      let high ← hexValue high
      let low ← hexValue low
      let rest ← hexDecode rest
      return UInt8.ofNat (high * 16 + low) :: rest
  | [_] => none

/-- The fields of `tusd.FileInfo` that are used. The offset is the length of the
scratch file; `size` is none while its length is deferred. -/
structure Info where
  id : Text
  size : Option Nat
  metaData : MetaData
  deriving DecidableEq

inductive Stage where
  | prepared
  | putting
  | persisted
  deriving DecidableEq

structure CompletionUpload where
  id : Text
  key : Text
  size : Nat
  sha256 : Text
  metaData : MetaData
  deriving DecidableEq

structure CompletionRecord where
  version : Nat
  stage : Stage
  upload : CompletionUpload
  completedCallbackIDs : List Text
  deriving DecidableEq

/-- What a callback is given. -/
structure CompletedUpload where
  id : Text
  key : Text
  size : Nat
  metaData : MetaData
  deriving DecidableEq

def CompletionUpload.completed (upload : CompletionUpload) : CompletedUpload :=
  ⟨upload.id, upload.key, upload.size, upload.metaData⟩

def newPreparedCompletionRecord (upload : CompletedUpload) (digest : Text) : CompletionRecord where
  version := completionRecordVersion
  stage := .prepared
  upload := ⟨upload.id, upload.key, upload.size, digest, upload.metaData⟩
  completedCallbackIDs := []

def validateCallbackID (id : Text) : Bool :=
  id ≠ [] ∧ id.length ≤ maxCallbackIDBytes ∧
    (Utf8.decodeLossy id.length id).all fun char => ¬isControl char ∧ ¬isSpace char

def validateCompletedCallbackIDs (ids : List Text) : Bool :=
  ids.length ≤ maxCompletionCallbacks ∧ ids.all validateCallbackID ∧ ids.Nodup

/-- The digest as `hex.DecodeString` reads it. -/
def decodeDigest (sha256 : Text) : Option Bytes :=
  (hexDecode sha256).filter fun digest => digest.length = 32

def validateCompletionUpload (upload : CompletionUpload) (requireDigest : Bool) : Bool :=
  upload.id ≠ [] ∧ ¬(requireDigest ∧ upload.sha256 = []) ∧
    (upload.sha256 = [] ∨ (decodeDigest upload.sha256).isSome)

def CompletionRecord.validate (record : CompletionRecord) : Bool :=
  record.version = completionRecordVersion ∧
    validateCompletionUpload record.upload (record.stage ≠ .persisted) ∧
    validateCompletedCallbackIDs record.completedCallbackIDs

/-- `strings.Contains`. -/
def containsText (text part : Bytes) : Bool :=
  text.tails.any (part.isPrefixOf ·)

def validKeySegment (segment : Text) : Bool :=
  segment ≠ [] ∧ segment ≠ textBytes "." ∧ segment ≠ textBytes ".." ∧
    (segment.all fun byte => byte ≠ 0x2f ∧ byte ≠ 0x5c ∧ byte ≠ 0) ∧
    ¬containsText segment (textBytes "..")

/-- `localScratch.idPath` takes the id. -/
def validID (id : Text) : Bool :=
  id ≠ [] ∧ (id.all fun byte => byte ≠ 0x2f ∧ byte ≠ 0x5c ∧ byte ≠ 0) ∧
    ¬containsText id (textBytes "..")

abbrev KeyFunc := Info → Option Text

def trimSlashes (text : Text) : Text :=
  ((text.dropWhile (· = Storage.slash)).reverse.dropWhile (· = Storage.slash)).reverse

def defaultKeyFunc (keyPrefix : Text) : KeyFunc := fun info =>
  if ¬validKeySegment info.id then none
  else if trimSlashes keyPrefix = [] then some info.id
  else some (trimSlashes keyPrefix ++ [Storage.slash] ++ info.id)

def sanitizeKey (key : Text) : Option Text :=
  if key = [] ∨ key.any fun byte => byte = 0x5c ∨ byte = 0 then none
  else
    let clean := Storage.pathClean (Storage.slash :: key)
    if containsText key (textBytes "..") ∨ clean = [Storage.slash] then none
    else some (clean.drop 1)

def resolveKey (keyFn : KeyFunc) (info : Info) : Option Text :=
  (keyFn info).bind sanitizeKey

/-- An object of the bucket, without its key. -/
structure Object where
  content : Bytes
  contentType : Text
  metaData : MetaData
  deriving DecidableEq

def defaultContentType : Text := textBytes "application/octet-stream"

/-- The content type that `putOptions` finds in the metadata, as the bucket
stores it. -/
def contentType (metaData : MetaData) : Text :=
  let declared := (metaData.lookup (textBytes "filetype")).getD []
  let fallback := (metaData.lookup (textBytes "type")).getD []
  if declared ≠ [] then declared
  else if fallback ≠ [] then fallback
  else defaultContentType

def objectAttributesMatch (object : Object) (metaData : MetaData) : Bool :=
  object.contentType = contentType metaData ∧ object.metaData = metaData

/-- `bucket.Put` with `putOptions`. -/
def putObject (content : Bytes) (metaData : MetaData) : Object :=
  ⟨content, contentType metaData, metaData⟩

/-- `hashExact`: the sum of an input of exactly the expected size. -/
def hashExact (sha : Sha256) (content : Bytes) (expected : Nat) : Option Bytes :=
  if expected = maxInt64 then none
  else if content.length ≠ expected then none
  else some (sha.sum content)

def completionDigest (upload : CompletionUpload) : Option Bytes :=
  decodeDigest upload.sha256

def verifyScratchIdentity (sha : Sha256) (content : Bytes) (upload : CompletionUpload) : Bool :=
  match completionDigest upload, hashExact sha content upload.size with
  | some want, some got => got = want
  | _, _ => false

/-- None is an error. -/
def objectMatchesScratch (sha : Sha256) (found : Option Object) (upload : CompletionUpload) :
    Option Bool :=
  match found with
  | none => some false
  | some object =>
      if object.content.length ≠ upload.size ∨ ¬objectAttributesMatch object upload.metaData then
        some false
      else do
        let want ← completionDigest upload
        let got ← hashExact sha object.content upload.size
        return got = want

theorem hexValue_hexDigit : ∀ value < 16, hexValue (hexDigit value) = some value := by
  decide

theorem hexDecode_hexEncode (bytes : Bytes) : hexDecode (hexEncode bytes) = some bytes := by
  induction bytes with
  | nil => rfl
  | cons byte rest ih =>
    have high := hexValue_hexDigit (byte.toNat / 16)
      (Nat.div_lt_of_lt_mul (UInt8.toNat_lt byte))
    have low := hexValue_hexDigit (byte.toNat % 16) (Nat.mod_lt _ (by decide))
    have joined : byte.toNat / 16 * 16 + byte.toNat % 16 = byte.toNat := by
      omega
    rw [hexEncode, List.flatMap_cons, ← hexEncode]
    simp only [List.cons_append, List.nil_append, hexDecode, high, low, ih, joined,
      UInt8.ofNat_toNat, Option.bind_eq_bind, Option.bind_some]
    rfl

/-- The digest of a record is read back as it was written. -/
theorem decodeDigest_sum (sha : Sha256) (content : Bytes) :
    decodeDigest (hexEncode (sha.sum content)) = some (sha.sum content) := by
  simp [decodeDigest, hexDecode_hexEncode, sha.size]

end Golusoris.Tus.Completion
