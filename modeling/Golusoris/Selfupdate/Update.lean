import Golusoris.Selfupdate.Archive
import Mathlib.Data.List.Forall2

/-!
# What an update installs

Source: `Update`, `operationContext` and `applyBinary` of
`selfupdate/selfupdate.go`. What reaches `applyBinary` comes from an archive that
a verified manifest names, but it is the content of the only member with the
selected name only where a hard link does not pass for a file, and where no other
such member lies beyond the part of the expanded archive that is read.
-/

namespace Golusoris.Selfupdate

open List
open Lib (Bytes Reader exists_of_bind_eq_ok textBytes)

variable {Failure Version : Type} (runtime : Runtime Failure Version)

structure Result where
  updated : Bool
  latestVersion : Bytes
  currentVersion : Bytes
  deriving DecidableEq

/-- What `Update` returns, what it hands to `applyBinary`, and what replaces the executable. -/
structure Outcome (Failure : Type) where
  result : Result
  error : Option (Error Failure)
  passed : Option Bytes
  applied : Option (Reader Failure)

/-- The duration of the operation is not counted: it shows in what the context says. -/
def operationContext (ctx : Option (Context Failure)) (configured : Int) :
    Except (Error Failure) (Context Failure) :=
  match ctx with
  | none => .error .contextRequired
  | some ctx => if configured < 0 then .error (.invalidOperationTimeout configured) else .ok ctx

def applyBinary (ctx : Context Failure) (data : Bytes) :
    Option (Reader Failure) × Option (Error Failure) :=
  match ctx.err .beforeReplacement with
  | some cause => (none, some (.context .beforeReplacement cause))
  | none =>
      let reader := contextCheckedReader ctx .replacement ⟨data, none⟩
      match runtime.apply reader with
      | none => (some reader, none)
      | some cause => (some reader, some (.apply cause (runtime.rollbackError cause)))

/-- The middle of `Update`: the binary of a release that is newer. -/
def releaseBinary (ctx : Context Failure) (answers : Answers Failure) (release : Release)
    (opts : Options Failure) : Except (Error Failure) Bytes := do
  let (asset, maxAssetBytes, verifier) ← prepareUpdate runtime release opts
  let archive ← fetchVerifiedArchive runtime answers release asset maxAssetBytes verifier
  let binaryName ← wrap .selectBinary (selectedBinaryName runtime opts)
  wrap .extractBinary (extractBinary runtime ctx archive asset.name binaryName maxAssetBytes)

def update (ctx : Option (Context Failure)) (answers : Answers Failure) (opts : Options Failure) :
    Outcome Failure :=
  match operationContext ctx opts.operationTimeout with
  | .error failed => ⟨⟨false, [], []⟩, some failed, none, none⟩
  | .ok ctx =>
      match latestRelease runtime answers with
      | .error failed => ⟨⟨false, [], []⟩, some (.during .fetchLatestRelease failed), none, none⟩
      | .ok release =>
          let result : Result := ⟨false, release.tagName, opts.version⟩
          match updateAvailable runtime opts.version release.tagName with
          | .error failed => ⟨result, some failed, none, none⟩
          | .ok false => ⟨result, none, none, none⟩
          | .ok true =>
              match releaseBinary runtime ctx answers release opts with
              | .error failed => ⟨result, some failed, none, none⟩
              | .ok data =>
                  match applyBinary runtime ctx data with
                  | (applied, some failed) =>
                      ⟨result, some (.during .apply failed), some data, applied⟩
                  | (applied, none) => ⟨{ result with updated := true }, none, some data, applied⟩

variable (answers : Answers Failure) (opts : Options Failure)

/-- The archive was sent, and a manifest that the verifier accepts lists it with its digest
under the name of a version greater than the installed one. -/
structure Authenticated (archive : Bytes) : Prop where
  sent : Sent answers.asset archive
  listed : ∃ verifier manifest bundle tag installed released,
    opts.publisherVerifier = some verifier ∧ verifier manifest bundle = none ∧
    runtime.strictNewVersion (trimPrefix opts.version) = .ok installed ∧
    runtime.strictNewVersion tag = .ok released ∧ 0 < runtime.compare released installed ∧
    Lists manifest (archiveName runtime opts.repo released) (runtime.sha256 archive)

/-- The members of the whole archive, in the format of the platform. -/
def archiveMembers (archive : Bytes) : List (Member Failure) :=
  if runtime.goos = textBytes "windows" then
    match runtime.zip archive with
    | .error _ => []
    | .ok entries => entries.map ZipMember.member
  else
    match runtime.gzip archive with
    | .error _ => []
    | .ok (expanded, _) => tarMembers runtime expanded

/-- One member of the archive has the selected name: a regular file, which may be run if the
archive is a tar, not larger than allowed, with these data. -/
def HasBinary (archive data : Bytes) : Prop :=
  ∃ name maxBytes member, selectedBinaryName runtime opts = .ok name ∧
    (assetByteLimit opts.maxAssetBytes : Except (Error Failure) Int) = .ok maxBytes ∧
    named name (archiveMembers runtime archive) = [member] ∧ member.hardLink = false ∧
    member.Carries (runtime.goos ≠ textBytes "windows") maxBytes data

def Authentic (data : Bytes) : Prop :=
  ∃ archive, Authenticated runtime answers opts archive ∧ HasBinary runtime opts archive data

/-- Every member of a tar archive that has the selected name lies in the part that is read, and
none is a hard link. -/
def Plain : Prop :=
  runtime.goos ≠ textBytes "windows" → ∀ archive expanded closes name maxBytes,
    Sent answers.asset archive → runtime.gzip archive = .ok (expanded, closes) →
    selectedBinaryName runtime opts = .ok name →
    (assetByteLimit opts.maxAssetBytes : Except (Error Failure) Int) = .ok maxBytes →
    (named name (tarMembers runtime expanded)).length ≤
        (named name (tarMembers runtime (limited maxBytes expanded))).length ∧
      ∀ member ∈ named name (tarMembers runtime expanded), member.hardLink = false

/-- The member of a stream that was cut is the one of the whole stream. -/
structure Resumes (cut whole : TarMember Failure) : Prop where
  header : whole.header = cut.header
  content : ∀ data, cut.content.readAll = .ok data → whole.content.readAll = .ok data

/-- A tar reader goes through its stream once: a limit takes members away from the end. -/
def TarSequential : Prop :=
  ∀ count expanded, ∃ begun rest, (runtime.tar expanded).members = begun ++ rest ∧
    List.Forall₂ Resumes (runtime.tar (expanded.limit count)).members begun

variable {runtime answers opts}

theorem archiveName_ne_nil (repo : Bytes) (version : Version) : archiveName runtime repo version ≠
    [] := by
  simp [archiveName, textBytes, Lib.Utf8.encode]

/-- A zip is not taken for a tar. -/
theorem not_tar_suffix (text : Bytes) :
    ¬(textBytes ".tar.gz").isSuffixOf (text ++ textBytes ".zip") := by
  rw [isSuffixOf_iff_suffix]
  rintro ⟨before, same⟩
  have ends := congrArg getLast? same
  have tar : textBytes ".tar.gz" = [0x2E, 0x74, 0x61, 0x72, 0x2E, 0x67, 0x7A] := by decide
  have zip : textBytes ".zip" = [0x2E, 0x7A, 0x69, 0x70] := by decide
  rw [tar, zip] at ends
  simp at ends

theorem extractBinary_archiveName {ctx : Context Failure} {archive repo binaryName data : Bytes}
    {version : Version} {maxBytes : Int}
    (extracted : extractBinary runtime ctx archive (archiveName runtime repo version) binaryName
      maxBytes = .ok data) :
    if runtime.goos = textBytes "windows" then
      extractZipBinary runtime ctx archive binaryName maxBytes = .ok data
    else extractTarGzBinary runtime ctx archive binaryName maxBytes = .ok data := by
  obtain ⟨-, -, extracted⟩ := exists_of_bind_eq_ok extracted
  split at extracted
  · cases extracted
  · split at extracted
    · cases extracted
    · rw [archiveName, archiveExtension] at extracted
      by_cases windows : runtime.goos = textBytes "windows"
      · rw [if_pos windows, if_neg (not_tar_suffix _),
          if_pos (isSuffixOf_iff_suffix.mpr (suffix_append _ _))] at extracted
        rw [if_pos windows]
        exact extracted
      · rw [if_neg windows,
          if_pos (isSuffixOf_iff_suffix.mpr (suffix_append _ _))] at extracted
        rw [if_neg windows]
        exact extracted

/-- What was checked, and what was extracted, when data are handed on. -/
structure Handed (runtime : Runtime Failure Version) (answers : Answers Failure)
    (opts : Options Failure) (data : Bytes) : Prop where
  handed : ∃ ctx archive name maxBytes, Authenticated runtime answers opts archive ∧
    selectedBinaryName runtime opts = .ok name ∧
    (assetByteLimit opts.maxAssetBytes : Except (Error Failure) Int) = .ok maxBytes ∧
    if runtime.goos = textBytes "windows" then
      extractZipBinary runtime ctx archive name maxBytes = .ok data
    else extractTarGzBinary runtime ctx archive name maxBytes = .ok data

theorem releaseBinary_eq_ok {ctx : Context Failure} {release : Release} {data : Bytes}
    {installed released : Version} (unnamed : opts.assetName = [])
    (current : runtime.strictNewVersion (trimPrefix opts.version) = .ok installed)
    (latest : runtime.strictNewVersion (trimPrefix release.tagName) = .ok released)
    (newer : 0 < runtime.compare released installed)
    (found : releaseBinary runtime ctx answers release opts = .ok data) :
    Handed runtime answers opts data := by
  obtain ⟨prepared, preparing, found⟩ := exists_of_bind_eq_ok found
  obtain ⟨asset, chosen, preparing⟩ := exists_of_bind_eq_ok preparing
  obtain ⟨maxBytes, allowed, preparing⟩ := exists_of_bind_eq_ok preparing
  obtain ⟨verifier, valid, preparing⟩ := exists_of_bind_eq_ok preparing
  cases preparing
  obtain ⟨archive, fetched, found⟩ := exists_of_bind_eq_ok found
  obtain ⟨name, selected, found⟩ := exists_of_bind_eq_ok found
  have extracted := wrap_eq_ok found
  obtain ⟨version, strict, title⟩ := selectAsset_name runtime unnamed (wrap_eq_ok chosen)
  obtain rfl := Except.ok.inj (latest.symm.trans strict)
  have filled : asset.name ≠ [] := by
    rw [title]
    exact archiveName_ne_nil opts.repo released
  obtain ⟨sent, manifest, bundle, -, -, accepted, lists⟩ :=
    fetchVerifiedArchive_eq_ok runtime filled fetched
  have given : opts.publisherVerifier = some verifier := by
    unfold validatePublisher at valid
    split at valid
    · cases valid
    · rw [‹opts.publisherVerifier = _›, Except.ok.inj valid]
  rw [title] at lists extracted
  refine ⟨ctx, archive, name, maxBytes, ⟨sent, ?_⟩, wrap_eq_ok selected, allowed,
    extractBinary_archiveName extracted⟩
  exact ⟨verifier, manifest, bundle, _, installed, released, given, accepted, current, latest, newer,
    lists⟩

theorem handed_of_passed {ctx : Option (Context Failure)} {data : Bytes}
    (unnamed : opts.assetName = []) (passed : (update runtime ctx answers opts).passed = some data) :
    Handed runtime answers opts data := by
  unfold update at passed
  split at passed
  · cases passed
  · split at passed
    · cases passed
    · rename_i ctx _ release _
      simp only at passed
      split at passed
      · cases passed
      · cases passed
      · rename_i available
        split at passed
        · cases passed
        · rename_i bytes extracted
          have same : bytes = data := by
            split at passed
            · exact Option.some.inj passed
            · exact Option.some.inj passed
          subst same
          obtain ⟨installed, released, current, latest, newer⟩ :=
            updateAvailable_eq_true runtime available
          exact releaseBinary_eq_ok unnamed current latest newer extracted

/-- Without data nothing is replaced, and no update is reported. -/
theorem applied_of_not_passed {ctx : Option (Context Failure)}
    (none : (update runtime ctx answers opts).passed = none) :
    (update runtime ctx answers opts).applied = .none ∧
      (update runtime ctx answers opts).result.updated = false := by
  revert none
  unfold update
  split
  · exact fun _ => ⟨rfl, rfl⟩
  · split
    · exact fun _ => ⟨rfl, rfl⟩
    · simp only
      split
      · exact fun _ => ⟨rfl, rfl⟩
      · exact fun _ => ⟨rfl, rfl⟩
      · split
        · exact fun _ => ⟨rfl, rfl⟩
        · split <;> exact fun none => nomatch none

/-- A member as it is where its stream was not cut. -/
structure Member.Resumes (cut whole : Member Failure) : Prop where
  name : whole.name = cut.name
  mode : whole.mode = cut.mode
  content : ∀ data, cut.content = .ok data → whole.content = .ok data

theorem Member.Carries.resumes {cut whole : Member Failure} {executable : Bool} {maxBytes : Int}
    {data : Bytes} (carries : cut.Carries executable maxBytes data) (resumes : cut.Resumes whole) :
    whole.Carries executable maxBytes data := by
  constructor
  · rw [resumes.mode]
    exact carries.regular
  · rw [resumes.mode]
    exact carries.executable
  · exact resumes.content data carries.content
  · exact carries.bounded

/-- The members of the whole archive that have a name begin with those that were read. -/
theorem named_resumes (sequential : TarSequential runtime) (name : Bytes) (maxBytes : Int)
    (expanded : Reader Failure) :
    ∃ begun rest, named name (tarMembers runtime expanded) = begun ++ rest ∧
      List.Forall₂ Member.Resumes (named name (tarMembers runtime (limited maxBytes expanded))) begun := by
  obtain ⟨begun, rest, whole, related⟩ :=
    sequential (expandedArchiveLimit maxBytes + 1).toNat expanded
  refine ⟨named name (begun.map TarMember.member), named name (rest.map TarMember.member), ?_, ?_⟩
  · rw [tarMembers, whole, map_append, named, filter_append]
    rfl
  · apply rel_filter
    · intro cut whole resumes
      simp only [resumes.name]
    · rw [tarMembers, limited, forall₂_map_left_iff, forall₂_map_right_iff]
      refine related.imp ?_
      rintro cut whole ⟨header, content⟩
      constructor
      · rw [TarMember.member, TarMember.member, header]
      · rw [TarMember.member, TarMember.member, header]
      · exact content

theorem hardLink_zip {name : Bytes} {entries : List (ZipMember Failure)} {member : Member Failure}
    (only : named name (entries.map ZipMember.member) = [member]) : member.hardLink = false := by
  have listed : member ∈ named name (entries.map ZipMember.member) := by
    rw [only]
    exact mem_singleton_self member
  obtain ⟨entry, -, rfl⟩ := mem_map.mp (mem_filter.mp listed).1
  rfl

/-- What is handed on is the content of the selected member exactly when the archive is plain. -/
theorem Handed.authentic_iff {data : Bytes} (sequential : TarSequential runtime)
    (handed : Handed runtime answers opts data) :
    Authentic runtime answers opts data ↔ Plain runtime answers opts := by
  obtain ⟨ctx, archive, name, maxBytes, authenticated, selected, allowed, extracted⟩ := handed
  constructor
  · rintro ⟨also, ⟨sent, -⟩, title, most, member, chosen, limit, only, file, -⟩
    obtain rfl := authenticated.sent.unique sent
    obtain rfl := Except.ok.inj (selected.symm.trans chosen)
    obtain rfl := Except.ok.inj (allowed.symm.trans limit)
    intro platform again expanded closes title most sent opened chosen limit
    obtain rfl := authenticated.sent.unique sent
    obtain rfl := Except.ok.inj (selected.symm.trans chosen)
    obtain rfl := Except.ok.inj (allowed.symm.trans limit)
    rw [if_neg platform] at extracted
    obtain ⟨stream, closing, taken, gunzipped, found, -⟩ := extractTarGzBinary_eq_ok runtime extracted
    obtain ⟨rfl, -⟩ := Prod.mk.inj (Except.ok.inj (opened.symm.trans gunzipped))
    rw [archiveMembers, if_neg platform, opened] at only
    rw [only, found]
    refine ⟨Nat.le_refl 1, fun other listed => ?_⟩
    rw [mem_singleton.mp listed]
    exact file
  · intro plain
    refine ⟨archive, authenticated, name, maxBytes, ?_⟩
    by_cases platform : runtime.goos = textBytes "windows"
    · rw [if_pos platform] at extracted
      obtain ⟨entries, member, opened, only, carries⟩ := extractZipBinary_eq_ok runtime extracted
      refine ⟨member, selected, allowed, ?_, hardLink_zip only, ?_⟩
      · rw [archiveMembers, if_pos platform, opened]
        exact only
      · rw [show decide (runtime.goos ≠ textBytes "windows") = false by simp [platform]]
        exact carries
    · rw [if_neg platform] at extracted
      obtain ⟨expanded, closes, cut, opened, only, carries⟩ :=
        extractTarGzBinary_eq_ok runtime extracted
      obtain ⟨within, files⟩ :=
        plain platform archive expanded closes name maxBytes authenticated.sent opened selected allowed
      obtain ⟨begun, rest, whole, related⟩ := named_resumes sequential name maxBytes expanded
      rw [only] at within related
      obtain ⟨member, others, resumes, ends, rfl⟩ := forall₂_cons_left_iff.mp related
      obtain rfl := forall₂_nil_left_iff.mp ends
      -- One member was read, so none is left for the part behind the limit.
      obtain rfl : rest = [] := by
        rw [whole, length_append, length_singleton, length_singleton] at within
        exact length_eq_zero_iff.mp (by omega)
      rw [append_nil] at whole
      refine ⟨member, selected, allowed, ?_, ?_, ?_⟩
      · rw [archiveMembers, if_neg platform, opened]
        exact whole
      · apply files member
        rw [whole]
        exact mem_singleton_self member
      · rw [show decide (runtime.goos ≠ textBytes "windows") = true by simp [platform]]
        exact carries.resumes resumes

/-- What an update hands to `applyBinary` is authentic exactly when the archive it downloaded is
plain; where it hands over nothing, nothing is replaced and no update is reported. -/
theorem update_authentic_iff (runtime : Runtime Failure Version) (sequential : TarSequential runtime)
    (ctx : Option (Context Failure)) (answers : Answers Failure) (opts : Options Failure)
    (unnamed : opts.assetName = []) :
    (∀ data, (update runtime ctx answers opts).passed = some data →
      (Authentic runtime answers opts data ↔ Plain runtime answers opts)) ∧
    ((update runtime ctx answers opts).passed = none →
      (update runtime ctx answers opts).applied = none ∧
        (update runtime ctx answers opts).result.updated = false) :=
  ⟨fun _ passed => (handed_of_passed unnamed passed).authentic_iff sequential, applied_of_not_passed⟩

section Samples

variable (link : Bool)

def paddedField (width : Nat) (text : Bytes) : Bytes := text ++ List.replicate (width - text.length) 0

/-- The header block of `app`: a file of two bytes, or a hard link that claims to have two. -/
def sampleBlock : Bytes :=
  paddedField 100 (textBytes "app") ++ paddedField 8 (textBytes "0000755") ++
    paddedField 8 (textBytes "0000000") ++ paddedField 8 (textBytes "0000000") ++
    paddedField 12 (textBytes "00000000002") ++ paddedField 12 (textBytes "00000000000") ++
    paddedField 7 (textBytes (if link then "010237" else "007703")) ++
    textBytes (if link then " 1" else " 0") ++ paddedField 100 (textBytes (if link then "sh" else "")) ++
    paddedField 6 (textBytes "ustar") ++ textBytes "00" ++ paddedField 64 [] ++
    paddedField 8 (textBytes "0000000") ++ paddedField 8 (textBytes "0000000") ++ paddedField 167 []

def sampleData : Bytes := if link then [] else textBytes "hi"

def sampleExpanded : Bytes := sampleBlock link ++ if link then [] else paddedField 512 (textBytes "hi")

def fileArchive : Bytes :=
  [0x1F, 0x8B, 0x08, 0x00, 0x00, 0x00, 0x00, 0x00, 0x02, 0xFF, 0x4B, 0x2C, 0x28, 0x60, 0xA0, 0x35,
   0x30, 0x00, 0x02, 0x73, 0x53, 0x53, 0x30, 0x0D, 0x04, 0xE8, 0x34, 0x10, 0x18, 0x21, 0xB1, 0x41,
   0xE2, 0xE6, 0xE6, 0x06, 0xC6, 0x0C, 0x0A, 0x06, 0x0C, 0x74, 0x00, 0xA5, 0xC5, 0x25, 0x89, 0x45,
   0x40, 0x2B, 0xA9, 0xE1, 0x49, 0x64, 0xCF, 0x0D, 0x11, 0x90, 0x91, 0xC9, 0x30, 0x0A, 0x46, 0x30,
   0x00, 0x00, 0x51, 0xDF, 0xF7, 0xF8, 0x00, 0x04, 0x00, 0x00]

def linkArchive : Bytes :=
  [0x1F, 0x8B, 0x08, 0x00, 0x00, 0x00, 0x00, 0x00, 0x02, 0xFF, 0x4B, 0x2C, 0x28, 0x60, 0xA0, 0x35,
   0x30, 0x00, 0x02, 0x73, 0x53, 0x53, 0x30, 0x0D, 0x04, 0xE8, 0x34, 0x10, 0x18, 0x21, 0xB1, 0x81,
   0xE2, 0x86, 0x06, 0x46, 0xC6, 0xE6, 0x0C, 0x0A, 0x86, 0xC5, 0x19, 0x34, 0x77, 0x1B, 0x43, 0x69,
   0x71, 0x49, 0x62, 0x11, 0xD0, 0x7A, 0x6A, 0x78, 0x12, 0xD9, 0x73, 0x43, 0x04, 0x00, 0x00, 0x3C,
   0x2F, 0x57, 0x4B, 0x00, 0x02, 0x00, 0x00]

def sampleArchive : Bytes := if link then linkArchive else fileArchive

def fileDigest : Bytes :=
  [0x4D, 0x8F, 0xC4, 0x03, 0x53, 0x3E, 0x54, 0x2B, 0x3A, 0x27, 0xBE, 0x22, 0x94, 0xDE, 0xE0, 0x69,
   0x33, 0xC0, 0x0F, 0xFF, 0xDE, 0x16, 0x5F, 0x6F, 0x0F, 0xB8, 0x35, 0x2E, 0x31, 0xF6, 0xD9, 0xD7]

def linkDigest : Bytes :=
  [0x31, 0x23, 0x12, 0x80, 0xBF, 0x3E, 0xD2, 0x97, 0x71, 0xAB, 0xA1, 0x8D, 0x1A, 0x64, 0x19, 0xE1,
   0x04, 0xF5, 0x8A, 0x63, 0xC1, 0x48, 0x7B, 0x0F, 0x7D, 0x5C, 0x7D, 0xDE, 0x23, 0x15, 0xF3, 0x53]

def sampleHex : Bytes :=
  textBytes (if link then "31231280bf3ed29771aba18d1a6419e104f58a63c1487b0f7d5c7dde2315f353"
    else "4d8fc403533e542b3a27be2294dee06933c00fffde165f6f0fb8352e31f6d9d7")

def archiveTitle : Bytes := textBytes "app_1.1.0_linux_amd64.tar.gz"

def sampleMember : TarMember Unit :=
  ⟨⟨textBytes "app", 0x1ED, if link then typeLink else 0x30, 2⟩, ⟨sampleData link, none⟩⟩

def sampleRelease : Release :=
  ⟨textBytes "v1.1.0", [⟨checksumAssetName, textBytes "https://h/1"⟩,
    ⟨checksumBundleName, textBytes "https://h/2"⟩, ⟨archiveTitle, textBytes "https://h/3"⟩]⟩

def assetText (asset : Asset) : Bytes :=
  textBytes "\x7b\"name\":\"" ++ asset.name ++ textBytes "\",\"browser_download_url\":\"" ++
    asset.browserDownloadURL ++ textBytes "\"\x7d"

def releaseText (release : Release) : Bytes :=
  textBytes "\x7b\"tag_name\":\"" ++ release.tagName ++ textBytes "\",\"assets\":[" ++
    List.intercalate [0x2C] (release.assets.map assetText) ++ textBytes "]\x7d"

def sampleRuntime : Runtime Unit Nat where
  goos := textBytes "linux"
  goarch := textBytes "amd64"
  executable := .ok (textBytes "/opt/app")
  base path := (path.reverse.takeWhile fun byte => byte != 0x2F).reverse
  toLower := id
  decodeRelease data := if data = releaseText sampleRelease then .ok (sampleRelease, .eof) else .error ()
  strictNewVersion text :=
    if text = textBytes "1.0.0" then .ok 0 else if text = textBytes "1.1.0" then .ok 1 else .error ()
  compare version other := if version < other then -1 else if version = other then 0 else 1
  versionString version := if version = 0 then textBytes "1.0.0" else textBytes "1.1.0"
  sha256 data :=
    if data = fileArchive then fileDigest else if data = linkArchive then linkDigest
    else List.replicate 32 0
  gzip archive :=
    if archive = sampleArchive link then .ok (⟨sampleExpanded link, none⟩, none) else .error ()
  tar reader :=
    if (sampleBlock link ++ sampleData link).isPrefixOf reader.bytes then
      ⟨[sampleMember link], reader.failure⟩
    else ⟨[], reader.failure⟩
  zip _ := .error ()
  apply _ := none
  rollbackError _ := none

def sampleResponse (body : Bytes) : Except Unit (Response Unit) := .ok ⟨200, ⟨body, none⟩, none⟩

def sampleAnswers : Answers Unit where
  release := sampleResponse (releaseText sampleRelease)
  checksums := sampleResponse (sampleHex link ++ textBytes "  " ++ archiveTitle ++ [0x0A])
  bundle := sampleResponse (textBytes "bundle")
  asset := sampleResponse (sampleArchive link)

def sampleOptions : Options Unit :=
  ⟨textBytes "app", textBytes "v1.0.0", [], [], 0, 0, some fun _ _ => none⟩

def sampleContext : Context Unit := ⟨fun _ => none, fun _ => none⟩

end Samples

theorem sampleExpanded_begins (link : Bool) :
    (sampleBlock link ++ sampleData link).isPrefixOf (sampleExpanded link) := by
  rw [ isPrefixOf_iff_prefix, sampleExpanded, prefix_append_right_inj]
  cases link with
  | false => exact prefix_append _ _
  | true => exact prefix_refl _

theorem sample_sequential (link : Bool) : TarSequential (sampleRuntime link) := by
  intro count expanded
  by_cases begins : (sampleBlock link ++ sampleData link).isPrefixOf (expanded.limit count).bytes
  · have whole : (sampleBlock link ++ sampleData link).isPrefixOf expanded.bytes := by
      rw [ isPrefixOf_iff_prefix] at begins ⊢
      exact begins.trans (Reader.limit_prefix count expanded)
    refine ⟨[sampleMember link], [], ?_, ?_⟩
    · simp only [sampleRuntime, if_pos whole, append_nil]
    · simp only [sampleRuntime, if_pos begins]
      exact .cons ⟨rfl, fun _ read => read⟩ .nil
  · refine ⟨[], (sampleRuntime link |>.tar expanded).members, rfl, ?_⟩
    simp only [sampleRuntime, if_neg begins]
    exact .nil

theorem tarMembers_sample (link : Bool) :
    tarMembers (sampleRuntime link) ⟨sampleExpanded link, none⟩ = [(sampleMember link).member] := by
  simp only [tarMembers, sampleRuntime, if_pos (sampleExpanded_begins link), map_cons, map_nil]

theorem sent_sample {link : Bool} {archive : Bytes} (sent : Sent (sampleAnswers link).asset archive) :
    archive = sampleArchive link :=
  sent.unique ⟨_, rfl, rfl, rfl⟩

theorem gzip_sample {link : Bool} {expanded : Reader Unit} {closes : Option Unit}
    (opened : (sampleRuntime link).gzip (sampleArchive link) = .ok (expanded, closes)) :
    expanded = ⟨sampleExpanded link, none⟩ := by
  simp only [sampleRuntime, if_true] at opened
  exact (Prod.mk.inj (Except.ok.inj opened)).1.symm

theorem not_windows (link : Bool) : (sampleRuntime link).goos ≠ textBytes "windows" :=
  (by decide : textBytes "linux" ≠ textBytes "windows")

theorem plain_file : Plain (sampleRuntime false) (sampleAnswers false) sampleOptions := by
  intro _ archive expanded closes name maxBytes sent opened _ allowed
  rw [sent_sample sent] at opened
  obtain rfl := gzip_sample opened
  obtain rfl : defaultMaxAssetBytes = maxBytes := Except.ok.inj allowed
  have short : ¬(expandedArchiveLimit defaultMaxAssetBytes + 1).toNat ≤
      (sampleExpanded false).length := by decide +kernel
  rw [limited, Reader.limit, if_neg short]
  refine ⟨Nat.le_refl _, fun member listed => ?_⟩
  rw [tarMembers_sample] at listed
  rw [mem_singleton.mp (mem_filter.mp listed).1]
  rfl

theorem update_authentic_file :
    (update (sampleRuntime false) (some sampleContext) (sampleAnswers false) sampleOptions).passed =
        some (textBytes "hi") ∧
      Authentic (sampleRuntime false) (sampleAnswers false) sampleOptions (textBytes "hi") := by
  have passed : (update (sampleRuntime false) (some sampleContext) (sampleAnswers false)
      sampleOptions).passed = some (textBytes "hi") := by decide +kernel
  have settled := update_authentic_iff (sampleRuntime false) (sample_sequential false)
    (some sampleContext) (sampleAnswers false) sampleOptions rfl
  exact ⟨passed, (settled.1 _ passed).mpr plain_file⟩

/-- A hard link that claims a size is taken for the executable, with nothing in it. -/
theorem hard_link_passes : ¬∀ (runtime : Runtime Unit Nat) ctx answers opts data,
    TarSequential runtime → opts.assetName = [] →
      (update runtime ctx answers opts).passed = some data → Authentic runtime answers opts data := by
  intro claim
  have passed : (update (sampleRuntime true) (some sampleContext) (sampleAnswers true)
      sampleOptions).passed = some [] := by decide +kernel
  obtain ⟨archive, ⟨sent, -⟩, name, maxBytes, member, -, -, only, file, -⟩ :=
    claim _ _ _ _ _ (sample_sequential true) rfl passed
  rw [sent_sample sent, archiveMembers, if_neg (not_windows true)] at only
  have opened : (sampleRuntime true).gzip (sampleArchive true) =
      .ok (⟨sampleExpanded true, none⟩, none) := by simp only [sampleRuntime, if_true]
  rw [opened] at only
  simp only [tarMembers_sample] at only
  have listed : member ∈ named name [(sampleMember true).member] := by
    rw [only]
    exact List.mem_singleton_self member
  rw [List.mem_singleton.mp (List.mem_filter.mp listed).1] at file
  cases file

end Golusoris.Selfupdate
