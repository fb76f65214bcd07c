import Golusoris.Selfupdate.Release

/-!
# The archive and its digest

Source: `selectAsset`, `exactAsset`, `fetchChecksum`, `parseChecksum`,
`prepareUpdate` and `downloadAsset` of `selfupdate/selfupdate.go`. The manifest
is verified before it is read, and every line of it is read, so a digest is
taken only from a manifest that names the archive once.
-/

namespace Golusoris.Selfupdate

open Lib (Bytes Reader exists_of_bind_eq_ok textBytes)

variable {Failure Version : Type} (runtime : Runtime Failure Version)

def archiveExtension : Bytes :=
  if runtime.goos = textBytes "windows" then textBytes ".zip" else textBytes ".tar.gz"

/-- `Repo_V_GOOS_GOARCH` with the extension of the platform. -/
def archiveName (repo : Bytes) (version : Version) : Bytes :=
  repo ++ textBytes "_" ++ runtime.versionString version ++ textBytes "_" ++ runtime.goos ++
    textBytes "_" ++ runtime.goarch ++ archiveExtension runtime

def selectedArchiveName (tag : Bytes) (opts : Options Failure) : Except (Error Failure) Bytes :=
  if opts.assetName ≠ [] then .ok opts.assetName
  else do
    let version ← parseReleaseVersion runtime (textBytes "release") tag
    return archiveName runtime opts.repo version

def exactAsset (assets : List Asset) (want : Bytes) : Except (Error Failure) Asset :=
  match (assets.take maxReleaseAssets).filter fun asset => asset.name = want with
  | [] => .error (.noExactAsset want)
  | [asset] => if asset.browserDownloadURL = [] then .error (.noDownloadURL want) else .ok asset
  | named => .error (.assetsNamed named.length want)

variable {asset : Asset}

theorem exactAsset_name {assets : List Asset} {want : Bytes}
    (found : (exactAsset assets want : Except (Error Failure) Asset) = .ok asset) :
    asset.name = want := by
  rw [exactAsset] at found
  split at found
  · cases found
  · rename_i only same
    split at found
    · cases found
    · obtain rfl : only = asset := Except.ok.inj found
      have listed : only ∈ (assets.take maxReleaseAssets).filter fun asset => asset.name = want := by
        rw [same]
        exact List.mem_singleton_self only
      exact of_decide_eq_true (List.mem_filter.mp listed).2
  · cases found

def bounded (assets : List Asset) : Except (Error Failure) Unit :=
  if maxReleaseAssets < assets.length then .error (.releaseAssets assets.length) else .ok ()

def selectAsset (release : Release) (opts : Options Failure) : Except (Error Failure) Asset := do
  bounded release.assets
  let want ← selectedArchiveName runtime release.tagName opts
  wrap .platform (exactAsset release.assets want)

def findChecksumAsset (assets : List Asset) : Except (Error Failure) Asset := do
  bounded assets
  wrap .checksumManifest (exactAsset assets checksumAssetName)

def findPublisherBundle (assets : List Asset) : Except (Error Failure) Asset := do
  bounded assets
  wrap .publisherBundle (exactAsset assets checksumBundleName)

variable {release : Release}

theorem selectAsset_name {opts : Options Failure} (unnamed : opts.assetName = [])
    (selected : selectAsset runtime release opts = .ok asset) :
    ∃ version, runtime.strictNewVersion (trimPrefix release.tagName) = .ok version ∧
      asset.name = archiveName runtime opts.repo version := by
  obtain ⟨-, -, selected⟩ := exists_of_bind_eq_ok selected
  obtain ⟨want, named, selected⟩ := exists_of_bind_eq_ok selected
  rw [selectedArchiveName, if_neg (not_not.mpr unnamed)] at named
  obtain ⟨version, parsed, named⟩ := exists_of_bind_eq_ok named
  cases named
  exact ⟨version, parseReleaseVersion_eq_ok runtime parsed, exactAsset_name (wrap_eq_ok selected)⟩

def assetByteLimit (configured : Int) : Except (Error Failure) Int :=
  if configured = 0 then .ok defaultMaxAssetBytes
  else if configured < 0 ∨ configured = maxInt64 then .error (.invalidMaxAssetBytes configured)
  else .ok configured

def validatePublisher (opts : Options Failure) :
    Except (Error Failure) (PublisherVerifier Failure) :=
  match opts.publisherVerifier with
  | none => .error .verifierRequired
  | some verifier => .ok verifier

def prepareUpdate (release : Release) (opts : Options Failure) :
    Except (Error Failure) (Asset × Int × PublisherVerifier Failure) := do
  let asset ← wrap .selectAsset (selectAsset runtime release opts)
  let maxAssetBytes ← assetByteLimit opts.maxAssetBytes
  let verifier ← validatePublisher opts
  return (asset, maxAssetBytes, verifier)

def parseChecksumLine (line : Bytes) (number : Nat) : Except (Error Failure) (Bytes × Bytes) :=
  let line := Lib.Spaces.trimSpace line
  if line = [] then .ok ([], [])
  else match Lib.Spaces.fields line with
    | [sum, filename] =>
        match Lib.Hex.decode sum with
        | none => .error (.invalidSha256 number)
        | some digest =>
            if digest.length ≠ 32 then .error (.invalidSha256 number) else .ok (filename, digest)
    | _ => .error (.invalidLine number)

def scanChecksums (assetName : Bytes) : Nat → Option Bytes → List Bytes →
    Except (Error Failure) (Option Bytes)
  | _, found, [] => .ok found
  | number, found, line :: lines => do
      let (filename, digest) ← parseChecksumLine line number
      if filename = [] ∨ filename ≠ assetName then scanChecksums assetName (number + 1) found lines
      else match found with
        | some _ => .error (.duplicateChecksum assetName)
        | none => scanChecksums assetName (number + 1) (some digest) lines

def parseChecksum (data assetName : Bytes) : Except (Error Failure) Bytes := do
  let lines := data.splitOn 0x0A
  if maxChecksumLines < lines.length then .error (.manifestLines lines.length)
  else
    match ← scanChecksums assetName 1 none lines with
    | none => .error (.noChecksum assetName)
    | some digest => return digest

def Blank (line : Bytes) : Prop := Lib.Spaces.trimSpace line = []

/-- A line with a digest in hexadecimal and a name. -/
def Names (line name digest : Bytes) : Prop :=
  ∃ sum, Lib.Spaces.fields (Lib.Spaces.trimSpace line) = [sum, name] ∧
    Lib.Hex.decode sum = some digest ∧ digest.length = 32

def WellFormed (line : Bytes) : Prop := ∃ name digest, Names line name digest

/-- Every line of a manifest that is not blank is well formed, and one names the file. -/
structure Lists (manifest name digest : Bytes) : Prop where
  formed : ∀ line ∈ manifest.splitOn 0x0A, Blank line ∨ WellFormed line
  once : ∃ before line after, manifest.splitOn 0x0A = before ++ line :: after ∧
    Names line name digest ∧ ∀ other ∈ before ++ after, ∀ sum, ¬Names other name sum

variable {line digest assetName data : Bytes}

theorem Names.unique {name other sum : Bytes} (first : Names line name digest)
    (second : Names line other sum) : name = other ∧ digest = sum := by
  obtain ⟨text, parts, decoded, -⟩ := first
  obtain ⟨also, rest, again, -⟩ := second
  rw [parts] at rest
  obtain ⟨same, rest⟩ := List.cons.inj rest
  rw [← same, decoded] at again
  exact ⟨List.head_eq_of_cons_eq rest, Option.some.inj again⟩

variable {number : Nat}

theorem parseChecksumLine_eq_ok {filename : Bytes}
    (parsed : (parseChecksumLine line number : Except (Error Failure) _) = .ok (filename, digest)) :
    Blank line ∧ filename = [] ∨ Names line filename digest := by
  rw [parseChecksumLine] at parsed
  split at parsed
  · obtain ⟨rfl, -⟩ := Prod.mk.inj (Except.ok.inj parsed)
    exact .inl ⟨‹_›, rfl⟩
  · right
    split at parsed
    · rename_i sum name parts
      cases decoded : Lib.Hex.decode sum with
      | none =>
        rw [decoded] at parsed
        cases parsed
      | some bytes =>
        rw [decoded] at parsed
        simp only at parsed
        split at parsed
        · cases parsed
        · cases parsed
          exact ⟨sum, parts, decoded, not_not.mp ‹_›⟩
    · cases parsed

/-- A line that is passed over is in order and does not name the asset. -/
theorem passed_line {filename : Bytes} (named : assetName ≠ [])
    (parsed : (parseChecksumLine line number : Except (Error Failure) _) = .ok (filename, digest))
    (other : filename = [] ∨ filename ≠ assetName) :
    (Blank line ∨ WellFormed line) ∧ ∀ sum, ¬Names line assetName sum := by
  rcases parseChecksumLine_eq_ok parsed with ⟨blank, -⟩ | names
  · refine ⟨.inl blank, ?_⟩
    rintro sum ⟨text, parts, -⟩
    rw [Blank] at blank
    rw [blank] at parts
    cases parts
  · refine ⟨.inr ⟨filename, digest, names⟩, fun sum also => ?_⟩
    obtain ⟨rfl, -⟩ := names.unique also
    exact other.elim named fun different => different rfl

theorem scanChecksums_found (named : assetName ≠ [])
    {lines : List Bytes} {result : Option Bytes}
    (scanned : (scanChecksums assetName number (some digest) lines :
      Except (Error Failure) _) = .ok result) :
    result = some digest ∧
      ∀ line ∈ lines, (Blank line ∨ WellFormed line) ∧ ∀ sum, ¬Names line assetName sum := by
  induction lines generalizing number with
  | nil => exact ⟨(Except.ok.inj scanned).symm, by simp⟩
  | cons line lines ih =>
    obtain ⟨⟨filename, sum⟩, parsed, scanned⟩ := exists_of_bind_eq_ok scanned
    simp only at scanned
    split at scanned
    · obtain ⟨same, rest⟩ := ih scanned
      exact ⟨same, List.forall_mem_cons.mpr ⟨passed_line named parsed ‹_›, rest⟩⟩
    · cases scanned

theorem scanChecksums_eq_ok (named : assetName ≠ [])
    {lines : List Bytes}
    (scanned : (scanChecksums assetName number none lines :
      Except (Error Failure) _) = .ok (some digest)) :
    (∀ line ∈ lines, Blank line ∨ WellFormed line) ∧
      ∃ before line after, lines = before ++ line :: after ∧ Names line assetName digest ∧
        ∀ other ∈ before ++ after, ∀ sum, ¬Names other assetName sum := by
  induction lines generalizing number with
  | nil => cases scanned
  | cons line lines ih =>
    obtain ⟨⟨filename, sum⟩, parsed, scanned⟩ := exists_of_bind_eq_ok scanned
    simp only at scanned
    split at scanned
    · obtain ⟨formed, before, found, after, rfl, names, others⟩ := ih scanned
      obtain ⟨here, unnamed⟩ := passed_line named parsed ‹_›
      refine ⟨List.forall_mem_cons.mpr ⟨here, formed⟩, line :: before, found, after, rfl, names, ?_⟩
      exact List.forall_mem_cons.mpr ⟨unnamed, others⟩
    · rename_i same
      obtain ⟨taken, rest⟩ := scanChecksums_found named scanned
      cases taken
      obtain ⟨filled, rfl⟩ : filename ≠ [] ∧ filename = assetName := by tauto
      have names : Names line filename digest := by
        rcases parseChecksumLine_eq_ok parsed with ⟨-, empty⟩ | names
        · exact absurd empty filled
        · exact names
      refine ⟨?_, [], line, lines, rfl, names, fun other listed => (rest other listed).2⟩
      exact List.forall_mem_cons.mpr
        ⟨.inr ⟨filename, digest, names⟩, fun other listed => (rest other listed).1⟩

theorem parseChecksum_eq_ok (named : assetName ≠ [])
    (parsed : (parseChecksum data assetName : Except (Error Failure) Bytes) = .ok digest) :
    Lists data assetName digest ∧ digest.length = 32 := by
  rw [parseChecksum] at parsed
  split at parsed
  · cases parsed
  · obtain ⟨found, scanned, parsed⟩ := exists_of_bind_eq_ok parsed
    cases found with
    | none => cases parsed
    | some sum =>
      cases parsed
      obtain ⟨formed, once⟩ := scanChecksums_eq_ok named scanned
      obtain ⟨-, line, -, -, ⟨-, -, -, long⟩, -⟩ := id once
      exact ⟨⟨formed, once⟩, long⟩

def fetchReleaseAsset (what : Fetch) (answer : Except Failure (Response Failure)) (maxBytes : Int) :
    Except (Error Failure) Bytes :=
  fetchBody what answer fun body => readRemoteBody body maxBytes

def fetchChecksum (answers : Answers Failure) (release : Release) (asset : Asset)
    (verifier : PublisherVerifier Failure) : Except (Error Failure) Bytes := do
  let _ ← findChecksumAsset release.assets
  let _ ← findPublisherBundle release.assets
  let manifest ← fetchReleaseAsset .checksum answers.checksums maxChecksumBytes
  let bundle ← fetchReleaseAsset .publisherBundle answers.bundle maxPublisherBundleBytes
  match verifier manifest bundle with
  | some cause => .error (.publisherVerification cause)
  | none => parseChecksum manifest asset.name

def fetchAsset (answer : Except Failure (Response Failure)) :
    Except (Error Failure) (Response Failure) :=
  match answer with
  | .error cause => .error (.request .asset cause)
  | .ok response =>
      if response.statusCode ≠ 200 then
        match response.closes with
        | none => .error (.status .asset response.statusCode)
        | some cause => .error (.joined (.status .asset response.statusCode) (.close .asset cause))
      else .ok response

def downloadAsset (answer : Except Failure (Response Failure)) (checksum : Bytes) (maxBytes : Int) :
    Except (Error Failure) Bytes := do
  if checksum.length ≠ 32 then .error (.sha256Length checksum.length)
  else
    let response ← wrap .fetchAsset (fetchAsset answer)
    closeInto (response.closes.map (.close .asset)) (do
      let data ← wrap .readAsset (readRemoteBody response.body maxBytes)
      if runtime.sha256 data ≠ checksum then .error (.checksumMismatch (runtime.sha256 data) checksum)
      else return data)

def fetchVerifiedArchive (answers : Answers Failure) (release : Release) (asset : Asset)
    (maxBytes : Int) (verifier : PublisherVerifier Failure) : Except (Error Failure) Bytes := do
  let checksum ← wrap .verifyReleaseManifest (fetchChecksum answers release asset verifier)
  downloadAsset runtime answers.asset checksum maxBytes

/-- The server answers with these bytes. -/
def Sent (answer : Except Failure (Response Failure)) (data : Bytes) : Prop :=
  ∃ response, answer = .ok response ∧ response.statusCode = 200 ∧ response.body.readAll = .ok data

variable {answer : Except Failure (Response Failure)}

theorem Sent.unique {other : Bytes} (sent : Sent answer data) (also : Sent answer other) :
    data = other := by
  obtain ⟨response, answered, -, read⟩ := sent
  obtain ⟨repeated, same, -, again⟩ := also
  obtain rfl := Except.ok.inj (answered.symm.trans same)
  rw [read] at again
  exact Except.ok.inj again

variable {maxBytes : Int}

theorem fetchReleaseAsset_eq_ok {what : Fetch}
    (fetched : fetchReleaseAsset what answer maxBytes = .ok data) : Sent answer data := by
  obtain ⟨response, answered, status, read⟩ := fetchBody_eq_ok fetched
  exact ⟨response, answered, status, (readRemoteBody_eq_ok read).1⟩

theorem fetchChecksum_eq_ok {answers : Answers Failure} {verifier : PublisherVerifier Failure}
    (named : asset.name ≠ [])
    (fetched : fetchChecksum answers release asset verifier = .ok digest) :
    ∃ manifest bundle, Sent answers.checksums manifest ∧ Sent answers.bundle bundle ∧
      verifier manifest bundle = none ∧ Lists manifest asset.name digest := by
  obtain ⟨-, -, fetched⟩ := exists_of_bind_eq_ok fetched
  obtain ⟨-, -, fetched⟩ := exists_of_bind_eq_ok fetched
  obtain ⟨manifest, first, fetched⟩ := exists_of_bind_eq_ok fetched
  obtain ⟨bundle, second, fetched⟩ := exists_of_bind_eq_ok fetched
  cases accepted : verifier manifest bundle with
  | some cause =>
    rw [accepted] at fetched
    cases fetched
  | none =>
    rw [accepted] at fetched
    exact ⟨manifest, bundle, fetchReleaseAsset_eq_ok first, fetchReleaseAsset_eq_ok second, accepted,
      (parseChecksum_eq_ok named fetched).1⟩

theorem downloadAsset_eq_ok {checksum : Bytes}
    (downloaded : downloadAsset runtime answer checksum maxBytes = .ok data) :
    Sent answer data ∧ runtime.sha256 data = checksum := by
  rw [downloadAsset] at downloaded
  split at downloaded
  · cases downloaded
  · obtain ⟨response, fetched, downloaded⟩ := exists_of_bind_eq_ok downloaded
    obtain ⟨read, body, downloaded⟩ := exists_of_bind_eq_ok (closeInto_eq_ok downloaded)
    split at downloaded
    · cases downloaded
    · cases downloaded
      refine ⟨?_, not_not.mp ‹_›⟩
      have fetched := wrap_eq_ok fetched
      unfold fetchAsset at fetched
      split at fetched
      · cases fetched
      · split at fetched
        · split at fetched <;> cases fetched
        · cases fetched
          exact ⟨_, rfl, not_not.mp ‹_›, (readRemoteBody_eq_ok (wrap_eq_ok body)).1⟩

/-- What has been verified when an archive is at hand. -/
theorem fetchVerifiedArchive_eq_ok {answers : Answers Failure}
    {verifier : PublisherVerifier Failure} {archive : Bytes} (named : asset.name ≠ [])
    (fetched : fetchVerifiedArchive runtime answers release asset maxBytes verifier = .ok archive) :
    Sent answers.asset archive ∧ ∃ manifest bundle, Sent answers.checksums manifest ∧
      Sent answers.bundle bundle ∧ verifier manifest bundle = none ∧
      Lists manifest asset.name (runtime.sha256 archive) := by
  obtain ⟨digest, verified, downloaded⟩ := exists_of_bind_eq_ok fetched
  obtain ⟨sent, same⟩ := downloadAsset_eq_ok runtime downloaded
  subst same
  exact ⟨sent, fetchChecksum_eq_ok named (wrap_eq_ok verified)⟩

end Golusoris.Selfupdate
