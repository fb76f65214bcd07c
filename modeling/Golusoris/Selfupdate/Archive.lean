import Golusoris.Selfupdate.Manifest

/-!
# The binary in an archive

Source: `selectedBinaryName`, `extractBinary`, `extractTarGzBinary`,
`extractZipBinary` and `binaryCollector` of `selfupdate/selfupdate.go`. Both
formats hand their members to one collector, which takes the content of a member
with the selected name and refuses a second one. A tar is read only up to a
limit on the expanded archive, and ends there as if it had no more members.
-/

namespace Golusoris.Selfupdate

open Lib (Bytes Reader exists_of_bind_eq_ok textBytes)

variable {Failure Version : Type} (runtime : Runtime Failure Version)

namespace FileMode

def isRegular (mode : FileMode) : Bool := !mode.special

end FileMode

/-- The type bits of a tar mode that are not those of a regular file. -/
def specialTypes : List UInt32 := [0x4000, 0x1000, 0xA000, 0x6000, 0x2000, 0xC000]

def typeLink : UInt8 := 0x31

/-- Symbolic links, devices, directories and pipes; a hard link is not among them. -/
def specialFlags : List UInt8 := [0x32, 0x33, 0x34, 0x35, 0x36]

/-- The mode of `header.FileInfo`. -/
def TarHeader.fileMode (header : TarHeader) : FileMode :=
  ⟨specialTypes.contains (header.mode &&& 0xFFFFF000) || specialFlags.contains header.typeflag,
    header.mode &&& 0x1FF⟩

/-- `contextError`. -/
def Context.check (ctx : Context Failure) (stage : Stage) : Except (Error Failure) Unit :=
  match ctx.err stage with
  | some cause => .error (.context stage cause)
  | none => .ok ()

def contextCheckedReader (ctx : Context Failure) (stage : Stage) (source : Reader Failure) :
    Reader Failure :=
  match ctx.ends stage with
  | some (count, cause) => source.failAfter count cause
  | none => source

variable {ctx : Context Failure} {data : Bytes}

theorem readAll_of_checked {stage : Stage} {source : Reader Failure}
    (read : (contextCheckedReader ctx stage source).readAll = .ok data) :
    source.readAll = .ok data := by
  unfold contextCheckedReader at read
  split at read
  · exact Lib.Reader.readAll_of_failAfter read
  · exact read

def invalidBinaryName (name : Bytes) : Bool :=
  name = [] ∨ name = [0x2E] ∨ name.any fun byte => byte = 0x2F ∨ byte = 0x5C

def selectedBinaryName (opts : Options Failure) : Except (Error Failure) Bytes := do
  let name ←
    if opts.binaryName = [] then
      match runtime.executable with
      | .error cause => .error (.resolveExecutable cause)
      | .ok executable => .ok (runtime.base executable)
    else .ok opts.binaryName
  let windowsName :=
    if runtime.goos = textBytes "windows" ∧ ¬(textBytes ".exe").isSuffixOf (runtime.toLower name) then
      name ++ textBytes ".exe"
    else name
  if invalidBinaryName windowsName then .error (.invalidBinaryName windowsName)
  else return windowsName

structure BinaryCollector where
  name : Bytes
  maxBytes : Int
  data : Option Bytes

namespace BinaryCollector

def accept (ctx : Context Failure) (collector : BinaryCollector) (name : Bytes) (mode : FileMode)
    (size : Int) (reader : Reader Failure) (requireExecutable : Bool) :
    Except (Error Failure) BinaryCollector :=
  if name ≠ collector.name then .ok collector
  else if collector.data ≠ none then .error (.duplicateExecutable collector.name)
  else if ¬mode.isRegular ∨ requireExecutable ∧ mode.perm &&& 0x49 = 0 then
    .error (.notRegularExecutable collector.name)
  else if size < 1 ∨ collector.maxBytes < size then .error (.invalidSize collector.name size)
  else do
    let data ← wrap (.archiveMember collector.name)
      (readRemoteBody (contextCheckedReader ctx .member reader) collector.maxBytes)
    return { collector with data := some data }

def result (collector : BinaryCollector) : Except (Error Failure) Bytes :=
  match collector.data with
  | none => .error (.noExecutable collector.name)
  | some data => .ok data

end BinaryCollector

/-- A member of an archive of either format. -/
structure Member (Failure : Type) where
  name : Bytes
  mode : FileMode
  hardLink : Bool
  content : Except Failure Bytes

def TarMember.member (entry : TarMember Failure) : Member Failure :=
  ⟨entry.header.name, entry.header.fileMode, entry.header.typeflag = typeLink, entry.content.readAll⟩

def ZipMember.member (entry : ZipMember Failure) : Member Failure :=
  ⟨entry.name, entry.mode, false, entry.content.bind fun opened => opened.1.readAll⟩

/-- The member has the data of a file that the collector takes. -/
structure Member.Carries (member : Member Failure) (executable : Bool) (maxBytes : Int)
    (data : Bytes) : Prop where
  regular : member.mode.isRegular
  executable : executable → member.mode.perm &&& 0x49 ≠ 0
  content : member.content = .ok data
  bounded : (data.length : Int) ≤ maxBytes

/-- A collector passes over the members, from the first to the last. -/
inductive Collects (executable : Bool) : List (Member Failure) → BinaryCollector → BinaryCollector →
    Prop where
  | nil (collector : BinaryCollector) : Collects executable [] collector collector
  | other {member : Member Failure} {members : List (Member Failure)}
      {collector final : BinaryCollector} (different : member.name ≠ collector.name)
      (rest : Collects executable members collector final) :
      Collects executable (member :: members) collector final
  | taken {member : Member Failure} {members : List (Member Failure)}
      {collector final : BinaryCollector} {data : Bytes} (same : member.name = collector.name)
      (fresh : collector.data = none) (carries : member.Carries executable collector.maxBytes data)
      (rest : Collects executable members { collector with data := some data } final) :
      Collects executable (member :: members) collector final

variable {members : List (Member Failure)} {collector final : BinaryCollector}

/-- Once a member is taken no other has its name. -/
theorem Collects.filled {executable : Bool} (walk : Collects executable members collector final)
    (full : collector.data = some data) :
    final.data = some data ∧ members.filter (fun member => member.name = collector.name) = [] := by
  induction walk with
  | nil => exact ⟨full, rfl⟩
  | other different _ ih =>
    obtain ⟨kept, none⟩ := ih full
    refine ⟨kept, ?_⟩
    rw [List.filter_cons, if_neg (by simpa using different)]
    exact none
  | taken _ fresh =>
    rw [fresh] at full
    cases full

theorem Collects.single {executable : Bool} (walk : Collects executable members collector final)
    (fresh : collector.data = none) (found : final.data = some data) :
    ∃ member, members.filter (fun member => member.name = collector.name) = [member] ∧
      member.Carries executable collector.maxBytes data := by
  induction walk with
  | nil =>
    rw [fresh] at found
    cases found
  | other different _ ih =>
    obtain ⟨member, only, carries⟩ := ih fresh found
    refine ⟨member, ?_, carries⟩
    rw [List.filter_cons, if_neg (by simpa using different)]
    exact only
  | @taken member members collector final bytes same _ carries rest =>
    obtain ⟨kept, none⟩ := rest.filled rfl
    obtain rfl := Option.some.inj (kept.symm.trans found)
    refine ⟨member, ?_, carries⟩
    rw [List.filter_cons, if_pos (by simpa using same)]
    exact congrArg _ none

/-- What the collector does with a member. -/
theorem accept_eq_ok {after : BinaryCollector} {name : Bytes} {mode : FileMode} {size : Int}
    {reader : Reader Failure} {requireExecutable : Bool} {member : Member Failure}
    (named : member.name = name) (moded : member.mode = mode)
    (read : member.content = reader.readAll)
    (accepted : collector.accept ctx name mode size reader requireExecutable = .ok after)
    (rest : Collects requireExecutable members after final) :
    Collects requireExecutable (member :: members) collector final := by
  subst named moded
  rw [BinaryCollector.accept] at accepted
  split at accepted
  · cases accepted
    exact .other ‹_› rest
  · split at accepted
    · cases accepted
    · split at accepted
      · cases accepted
      · split at accepted
        · cases accepted
        · obtain ⟨data, body, accepted⟩ := exists_of_bind_eq_ok accepted
          cases accepted
          obtain ⟨whole, bounded⟩ := readRemoteBody_eq_ok (wrap_eq_ok body)
          refine .taken (by tauto) (by tauto) ⟨by tauto, by tauto, ?_, bounded⟩ rest
          rw [read]
          exact readAll_of_checked whole

def expandedArchiveLimit (maxBytes : Int) : Int :=
  if maxExpandedArchiveBytes - maxArchiveOverheadBytes < maxBytes then maxExpandedArchiveBytes
  else maxBytes + maxArchiveOverheadBytes

/-- At most so many members, after which the archive has to end. -/
def walkTar (ctx : Context Failure) (failure : Option Failure) :
    Nat → List (TarMember Failure) → BinaryCollector → Except (Error Failure) BinaryCollector
  | 0, members, collector =>
      match ctx.err (.nextTar 0), members, failure with
      | some cause, _, _ => .error (.readTarBoundary cause)
      | none, _ :: _, _ => .error .entryLimit
      | none, [], some cause => .error (.readTarBoundary cause)
      | none, [], none => .ok collector
  | left + 1, members, collector => do
      ctx.check (.duringTar (left + 1))
      match ctx.err (.nextTar (left + 1)), members, failure with
      | some cause, _, _ => .error (.readTarEntry cause)
      | none, [], some cause => .error (.readTarEntry cause)
      | none, [], none => .ok collector
      | none, entry :: entries, _ =>
          let collector ← collector.accept ctx entry.header.name entry.header.fileMode
            entry.header.size entry.content true
          walkTar ctx failure left entries collector

/-- What is read of an expanded archive. -/
def limited (maxBytes : Int) (expanded : Reader Failure) : Reader Failure :=
  expanded.limit (expandedArchiveLimit maxBytes + 1).toNat

def extractTarGzBinary (ctx : Context Failure) (archive binaryName : Bytes) (maxBytes : Int) :
    Except (Error Failure) Bytes :=
  match ctx.err .openGzip, runtime.gzip archive with
  | some cause, _ => .error (.openGzip cause)
  | none, .error cause => .error (.openGzip cause)
  | none, .ok (expanded, closes) =>
      closeInto (closes.map .closeArchive) (do
        let listing := runtime.tar (limited maxBytes expanded)
        let collector ← walkTar ctx listing.failure maxArchiveEntries listing.members
          ⟨binaryName, maxBytes, none⟩
        collector.result)

def collectZipEntry (ctx : Context Failure) (collector : BinaryCollector) (entry : ZipMember Failure) :
    Except (Error Failure) BinaryCollector :=
  if entry.name ≠ collector.name then .ok collector
  else if maxInt64 < entry.uncompressedSize64 then .error (.tooLarge collector.name)
  else match entry.content with
    | .error cause => .error (.openMember collector.name cause)
    | .ok (reader, closes) =>
        closeInto (closes.map .closeArchive)
          (collector.accept ctx entry.name entry.mode entry.uncompressedSize64 reader false)

def walkZip (ctx : Context Failure) :
    List (ZipMember Failure) → BinaryCollector → Except (Error Failure) BinaryCollector
  | [], collector => .ok collector
  | entry :: entries, collector => do
      ctx.check (.duringZip (some entries.length))
      let collector ← collectZipEntry ctx collector entry
      walkZip ctx entries collector

def extractZipBinary (ctx : Context Failure) (archive binaryName : Bytes) (maxBytes : Int) :
    Except (Error Failure) Bytes := do
  ctx.check .beforeZip
  match runtime.zip archive with
  | .error cause => .error (.openZip cause)
  | .ok entries =>
      ctx.check (.duringZip none)
      if maxArchiveEntries < entries.length then .error (.zipEntries entries.length)
      else
        let collector ← walkZip ctx entries ⟨binaryName, maxBytes, none⟩
        collector.result

def extractBinary (ctx : Context Failure) (archive archiveName binaryName : Bytes) (maxBytes : Int) :
    Except (Error Failure) Bytes := do
  ctx.check .beforeArchive
  if maxBytes ≤ 0 ∨ maxBytes = maxInt64 then .error (.invalidByteLimit maxBytes)
  else if invalidBinaryName binaryName then .error (.invalidBinaryName binaryName)
  else if (textBytes ".tar.gz").isSuffixOf archiveName then
    extractTarGzBinary runtime ctx archive binaryName maxBytes
  else if (textBytes ".zip").isSuffixOf archiveName then
    extractZipBinary runtime ctx archive binaryName maxBytes
  else .error (.unsupportedArchive archiveName)

theorem walkTar_collects {failure : Option Failure} {left : Nat}
    {entries : List (TarMember Failure)}
    (walked : walkTar ctx failure left entries collector = .ok final) :
    Collects true (entries.map TarMember.member) collector final := by
  induction left generalizing entries collector with
  | zero =>
    unfold walkTar at walked
    split at walked
    · cases walked
    · cases walked
    · cases walked
    · cases walked
      exact .nil _
  | succ left ih =>
    obtain ⟨-, -, walked⟩ := exists_of_bind_eq_ok walked
    split at walked
    · cases walked
    · cases walked
    · cases walked
      exact .nil _
    · obtain ⟨after, accepted, walked⟩ := exists_of_bind_eq_ok walked
      exact accept_eq_ok rfl rfl rfl accepted (ih walked)

theorem collectZipEntry_collects {entry : ZipMember Failure} {after : BinaryCollector}
    (collected : collectZipEntry ctx collector entry = .ok after)
    (rest : Collects false members after final) :
    Collects false (entry.member :: members) collector final := by
  rw [collectZipEntry] at collected
  split at collected
  · cases collected
    exact .other ‹_› rest
  · split at collected
    · cases collected
    · cases opened : entry.content with
      | error cause =>
        rw [opened] at collected
        cases collected
      | ok found =>
        rw [opened] at collected
        have read : entry.member.content = found.1.readAll := by
          rw [ZipMember.member, opened]
          rfl
        exact accept_eq_ok rfl rfl read (closeInto_eq_ok collected) rest

theorem walkZip_collects {entries : List (ZipMember Failure)}
    (walked : walkZip ctx entries collector = .ok final) :
    Collects false (entries.map ZipMember.member) collector final := by
  induction entries generalizing collector with
  | nil =>
    cases walked
    exact .nil _
  | cons entry entries ih =>
    obtain ⟨-, -, walked⟩ := exists_of_bind_eq_ok walked
    obtain ⟨after, collected, walked⟩ := exists_of_bind_eq_ok walked
    exact collectZipEntry_collects collected (ih walked)

theorem result_eq_ok (found : (collector.result : Except (Error Failure) Bytes) = .ok data) :
    collector.data = some data := by
  unfold BinaryCollector.result at found
  split at found
  · cases found
  · rw [‹collector.data = _›, Except.ok.inj found]

/-- The members that have the name. -/
def named (name : Bytes) (members : List (Member Failure)) : List (Member Failure) :=
  members.filter fun member => member.name = name

def tarMembers (expanded : Reader Failure) : List (Member Failure) :=
  (runtime.tar expanded).members.map TarMember.member

theorem extractTarGzBinary_eq_ok {archive binaryName : Bytes} {maxBytes : Int}
    (extracted : extractTarGzBinary runtime ctx archive binaryName maxBytes = .ok data) :
    ∃ expanded closes member, runtime.gzip archive = .ok (expanded, closes) ∧
      named binaryName (tarMembers runtime (limited maxBytes expanded)) = [member] ∧
      member.Carries true maxBytes data := by
  unfold extractTarGzBinary at extracted
  split at extracted
  · cases extracted
  · cases extracted
  · rename_i expanded closes _ opened
    obtain ⟨final, walked, extracted⟩ := exists_of_bind_eq_ok (closeInto_eq_ok extracted)
    obtain ⟨member, only, carries⟩ := (walkTar_collects walked).single rfl (result_eq_ok extracted)
    exact ⟨expanded, closes, member, opened, only, carries⟩

theorem extractZipBinary_eq_ok {archive binaryName : Bytes} {maxBytes : Int}
    (extracted : extractZipBinary runtime ctx archive binaryName maxBytes = .ok data) :
    ∃ entries member, runtime.zip archive = .ok entries ∧
      named binaryName (entries.map ZipMember.member) = [member] ∧
      member.Carries false maxBytes data := by
  obtain ⟨-, -, extracted⟩ := exists_of_bind_eq_ok extracted
  split at extracted
  · cases extracted
  · rename_i entries opened
    obtain ⟨-, -, extracted⟩ := exists_of_bind_eq_ok extracted
    split at extracted
    · cases extracted
    · obtain ⟨final, walked, extracted⟩ := exists_of_bind_eq_ok extracted
      obtain ⟨member, only, carries⟩ := (walkZip_collects walked).single rfl (result_eq_ok extracted)
      exact ⟨entries, member, opened, only, carries⟩

end Golusoris.Selfupdate
