import Golusoris.Lib.Hex
import Golusoris.Lib.Lists
import Golusoris.Lib.Readers
import Golusoris.Lib.Results
import Golusoris.Lib.Spaces

/-!
# Releases and their manifests

Source: `selfupdate/selfupdate.go`. A release names its assets; the archive for
the platform is the one whose name is exactly the expected one, and the manifest
gives the digest of every archive. JSON, semantic versions, SHA-256 and the
readers of the archive formats are parameters.
-/

namespace Golusoris.Selfupdate

open Lib (Bytes Reader exists_of_bind_eq_ok textBytes)

def maxInt64 : Int := 9223372036854775807

def defaultMaxAssetBytes : Int := 256 * 1024 * 1024

def maxChecksumBytes : Int := 4 * 1024 * 1024

def maxPublisherBundleBytes : Int := 4 * 1024 * 1024

def maxReleaseMetadataBytes : Int := 1024 * 1024

def maxArchiveOverheadBytes : Int := 64 * 1024 * 1024

def maxExpandedArchiveBytes : Int := 1024 * 1024 * 1024

def maxReleaseAssets : Nat := 256

def maxChecksumLines : Nat := 512

def maxArchiveEntries : Nat := 256

def checksumAssetName : Bytes := textBytes "checksums.txt"

def checksumBundleName : Bytes := checksumAssetName ++ textBytes ".sigstore.json"

/-- A verifier says why it does not accept a manifest with its bundle. -/
abbrev PublisherVerifier (Failure : Type) : Type := Bytes → Bytes → Option Failure

structure Options (Failure : Type) where
  repo : Bytes
  version : Bytes
  assetName : Bytes
  binaryName : Bytes
  maxAssetBytes : Int
  operationTimeout : Int
  publisherVerifier : Option (PublisherVerifier Failure)

structure Asset where
  name : Bytes
  browserDownloadURL : Bytes
  deriving DecidableEq

structure Release where
  tagName : Bytes
  assets : List Asset
  deriving DecidableEq

/-- What a decoder finds after a value. -/
inductive Trailing (Failure : Type) where
  | eof
  | value
  | failed (cause : Failure)

/-- The parts of an update that its errors name. -/
inductive Part where
  | fetchLatestRelease
  | readReleaseMetadata
  | compareVersions
  | selectAsset
  | platform
  | checksumManifest
  | publisherBundle
  | verifyReleaseManifest
  | fetchAsset
  | readAsset
  | selectBinary
  | extractBinary
  | archiveMember (name : Bytes)
  | apply

/-- What a response is asked for. -/
inductive Fetch where
  | release
  | checksum
  | publisherBundle
  | asset

/-- Where the code asks whether its context is over. -/
inductive Stage where
  | beforeArchive
  | openGzip
  | duringTar (left : Nat)
  | nextTar (left : Nat)
  | beforeZip
  | duringZip (left : Option Nat)
  | member
  | beforeReplacement
  | replacement

inductive Error (Failure : Type) where
  | contextRequired
  | invalidOperationTimeout (configured : Int)
  | request (what : Fetch) (cause : Failure)
  | status (what : Fetch) (code : Int)
  | close (what : Fetch) (cause : Failure)
  | joined (first second : Error Failure)
  | closeArchive (cause : Failure)
  | invalidByteLimit (limit : Int)
  | readBody (cause : Failure)
  | responseExceeds (limit : Int)
  | decodeRelease (cause : Failure)
  | trailingReleaseJSON
  | trailingReleaseData (cause : Failure)
  | releaseAssets (count : Nat)
  | notStrict (label raw : Bytes) (cause : Failure)
  | refusingDowngrade (current latest : Bytes)
  | noExactAsset (want : Bytes)
  | assetsNamed (count : Nat) (want : Bytes)
  | noDownloadURL (want : Bytes)
  | invalidMaxAssetBytes (configured : Int)
  | verifierRequired
  | publisherVerification (cause : Failure)
  | manifestLines (count : Nat)
  | invalidLine (number : Nat)
  | invalidSha256 (number : Nat)
  | duplicateChecksum (name : Bytes)
  | noChecksum (name : Bytes)
  | sha256Length (length : Nat)
  | checksumMismatch (got want : Bytes)
  | resolveExecutable (cause : Failure)
  | invalidBinaryName (name : Bytes)
  | context (stage : Stage) (cause : Failure)
  | unsupportedArchive (name : Bytes)
  | openGzip (cause : Failure)
  | readTarEntry (cause : Failure)
  | readTarBoundary (cause : Failure)
  | entryLimit
  | openZip (cause : Failure)
  | zipEntries (count : Nat)
  | tooLarge (name : Bytes)
  | openMember (name : Bytes) (cause : Failure)
  | duplicateExecutable (name : Bytes)
  | notRegularExecutable (name : Bytes)
  | invalidSize (name : Bytes) (size : Int)
  | noExecutable (name : Bytes)
  | apply (cause : Failure) (rollback : Option Failure)
  | during (part : Part) (cause : Error Failure)

/-- `fmt.Errorf` with the name of a part around an error. -/
def wrap {Failure α : Type} (part : Part) (result : Except (Error Failure) α) :
    Except (Error Failure) α :=
  result.mapError (.during part)

theorem wrap_eq_ok {Failure α : Type} {part : Part} {result : Except (Error Failure) α} {value : α}
    (succeeded : wrap part result = .ok value) : result = .ok value := by
  cases result with
  | error failed => cases succeeded
  | ok other => exact succeeded

/-- `errors.CloseInto`: a failure to close what was read counts unless the read failed. -/
def closeInto {Failure α : Type} (failed : Option (Error Failure))
    (result : Except (Error Failure) α) : Except (Error Failure) α :=
  match result, failed with
  | .ok _, some failed => .error failed
  | _, _ => result

theorem closeInto_eq_ok {Failure α : Type} {failed : Option (Error Failure)}
    {result : Except (Error Failure) α} {value : α}
    (succeeded : closeInto failed result = .ok value) : result = .ok value := by
  cases result with
  | error other => cases failed <;> cases succeeded
  | ok other =>
    cases failed with
    | none => exact succeeded
    | some failed => cases succeeded

/-- A context, by what it says where it is asked. -/
structure Context (Failure : Type) where
  err : Stage → Option Failure
  /-- After how many bytes a read ends because the context is over. -/
  ends : Stage → Option (Nat × Failure)

structure Response (Failure : Type) where
  statusCode : Int
  body : Reader Failure
  closes : Option Failure

/-- An update makes each of its requests once; this is what the server sends. -/
structure Answers (Failure : Type) where
  release : Except Failure (Response Failure)
  checksums : Except Failure (Response Failure)
  bundle : Except Failure (Response Failure)
  asset : Except Failure (Response Failure)

/-- The type bits of a `fs.FileMode` and its permissions. -/
structure FileMode where
  special : Bool
  perm : UInt32
  deriving DecidableEq

structure TarHeader where
  name : Bytes
  mode : UInt32
  typeflag : UInt8
  size : Int
  deriving DecidableEq

structure TarMember (Failure : Type) where
  header : TarHeader
  content : Reader Failure

/-- The members a tar reader gives, and how it ends after them. -/
structure TarListing (Failure : Type) where
  members : List (TarMember Failure)
  failure : Option Failure

structure ZipMember (Failure : Type) where
  name : Bytes
  mode : FileMode
  uncompressedSize64 : Nat
  /-- What opening gives: a reader, and what closing it gives. -/
  content : Except Failure (Reader Failure × Option Failure)

structure Runtime (Failure Version : Type) where
  goos : Bytes
  goarch : Bytes
  executable : Except Failure Bytes
  base : Bytes → Bytes
  toLower : Bytes → Bytes
  decodeRelease : Bytes → Except Failure (Release × Trailing Failure)
  strictNewVersion : Bytes → Except Failure Version
  compare : Version → Version → Int
  versionString : Version → Bytes
  sha256 : Bytes → Bytes
  /-- The expanded stream of an archive, and what closing it gives. -/
  gzip : Bytes → Except Failure (Reader Failure × Option Failure)
  tar : Reader Failure → TarListing Failure
  zip : Bytes → Except Failure (List (ZipMember Failure))
  /-- `selfupdate.Apply`. -/
  apply : Reader Failure → Option Failure
  rollbackError : Failure → Option Failure

section Functions

variable {Failure Version : Type} (runtime : Runtime Failure Version)

def readRemoteBody (reader : Reader Failure) (maxBytes : Int) : Except (Error Failure) Bytes :=
  if maxBytes ≤ 0 ∨ maxBytes = maxInt64 then .error (.invalidByteLimit maxBytes)
  else match (reader.limit (maxBytes + 1).toNat).readAll with
    | .error cause => .error (.readBody cause)
    | .ok data =>
        if maxBytes < data.length then .error (.responseExceeds maxBytes) else .ok data

theorem readRemoteBody_eq_ok {reader : Reader Failure} {maxBytes : Int} {data : Bytes}
    (read : readRemoteBody reader maxBytes = .ok data) :
    reader.readAll = .ok data ∧ (data.length : Int) ≤ maxBytes := by
  rw [readRemoteBody] at read
  split at read
  · cases read
  · cases limited : (reader.limit (maxBytes + 1).toNat).readAll with
    | error cause =>
      rw [limited] at read
      cases read
    | ok bytes =>
      rw [limited] at read
      simp only at read
      split at read
      · cases read
      · obtain rfl := Except.ok.inj read
        have below : (bytes.length : Int) ≤ maxBytes := by omega
        exact ⟨Lib.Reader.readAll_of_limit limited (by omega), below⟩

def decodeReleaseBody (body : Reader Failure) : Except (Error Failure) Release := do
  let data ← wrap .readReleaseMetadata (readRemoteBody body maxReleaseMetadataBytes)
  match runtime.decodeRelease data with
  | .error cause => .error (.decodeRelease cause)
  | .ok (_, .value) => .error .trailingReleaseJSON
  | .ok (_, .failed cause) => .error (.trailingReleaseData cause)
  | .ok (release, .eof) =>
      if maxReleaseAssets < release.assets.length then .error (.releaseAssets release.assets.length)
      else .ok release

/-- A response with status 200 is read, and closed at the end. -/
def fetchBody {α : Type} (what : Fetch) (answer : Except Failure (Response Failure))
    (read : Reader Failure → Except (Error Failure) α) : Except (Error Failure) α :=
  match answer with
  | .error cause => .error (.request what cause)
  | .ok response =>
      closeInto (response.closes.map (.close what))
        (if response.statusCode ≠ 200 then .error (.status what response.statusCode)
        else read response.body)

theorem fetchBody_eq_ok {α : Type} {what : Fetch} {answer : Except Failure (Response Failure)}
    {read : Reader Failure → Except (Error Failure) α} {value : α}
    (fetched : fetchBody what answer read = .ok value) :
    ∃ response, answer = .ok response ∧ response.statusCode = 200 ∧ read response.body = .ok value := by
  cases answer with
  | error cause => cases fetched
  | ok response =>
    have fetched := closeInto_eq_ok fetched
    split at fetched
    · cases fetched
    · exact ⟨response, rfl, not_not.mp ‹_›, fetched⟩

def latestRelease (answers : Answers Failure) : Except (Error Failure) Release :=
  fetchBody .release answers.release (decodeReleaseBody runtime)

def trimPrefix : Bytes → Bytes
  | 0x76 :: rest => rest
  | raw => raw

def parseReleaseVersion (label raw : Bytes) : Except (Error Failure) Version :=
  (runtime.strictNewVersion (trimPrefix raw)).mapError (.notStrict label raw)

theorem parseReleaseVersion_eq_ok {label raw : Bytes} {version : Version}
    (parsed : parseReleaseVersion runtime label raw = .ok version) :
    runtime.strictNewVersion (trimPrefix raw) = .ok version := by
  rw [parseReleaseVersion] at parsed
  cases strict : runtime.strictNewVersion (trimPrefix raw) with
  | error cause =>
    rw [strict] at parsed
    cases parsed
  | ok other =>
    rw [strict] at parsed
    rw [Except.ok.inj parsed]

def compareReleaseVersions (current latest : Bytes) : Except (Error Failure) Int := do
  let currentVersion ← parseReleaseVersion runtime (textBytes "installed") current
  let latestVersion ← parseReleaseVersion runtime (textBytes "release") latest
  return runtime.compare latestVersion currentVersion

def updateAvailable (current latest : Bytes) : Except (Error Failure) Bool := do
  let comparison ← wrap .compareVersions (compareReleaseVersions runtime current latest)
  if comparison < 0 then .error (.refusingDowngrade current latest)
  else return decide (0 < comparison)

theorem updateAvailable_eq_true {current latest : Bytes}
    (available : updateAvailable runtime current latest = .ok true) :
    ∃ installed released, runtime.strictNewVersion (trimPrefix current) = .ok installed ∧
      runtime.strictNewVersion (trimPrefix latest) = .ok released ∧
      0 < runtime.compare released installed := by
  obtain ⟨comparison, compared, newer⟩ := exists_of_bind_eq_ok available
  obtain ⟨installed, first, compared⟩ := exists_of_bind_eq_ok (wrap_eq_ok compared)
  obtain ⟨released, second, compared⟩ := exists_of_bind_eq_ok compared
  cases compared
  refine ⟨installed, released, parseReleaseVersion_eq_ok runtime first,
    parseReleaseVersion_eq_ok runtime second, ?_⟩
  split at newer
  · cases newer
  · exact of_decide_eq_true (Except.ok.inj newer)

end Functions

end Golusoris.Selfupdate
