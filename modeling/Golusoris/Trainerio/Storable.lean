import Golusoris.Trainerio.Segments
import Mathlib.Data.List.TakeWhile

/-!
# Artifact keys and the bucket

The pre-flight checks of a training run accept segments that the bucket refuses:
those with a dot at the end, the bucket's own names and the device names of
Windows. Nothing checks the length of the whole key either. `Storable` is what the
bucket asks of a safe segment; `cleanKey_keyOf` says that it asks nothing more of a
key than this and its length.
-/

namespace Golusoris.Trainerio

open List
open Lib Storage

/-- The part before the first dot names a device, in any case. -/
def Device (segment : Bytes) : Prop :=
  windowsReservedNames.contains (String.ofList (toUpper (segment.takeWhile (· ≠ dot))))

instance (segment : Bytes) : Decidable (Device segment) := inferInstanceAs (Decidable (_ = true))

/-- A safe segment that the bucket takes. -/
structure Storable (segment : Bytes) : Prop where
  notTrailing : ¬ends segment "."
  notReserved : ¬Reserved segment
  notDevice : ¬Device segment

instance (segment : Bytes) : Decidable (Reserved segment) := inferInstanceAs (Decidable (_ ∨ _ ∨ _))

instance (segment : Bytes) : Decidable (Storable segment) :=
  decidable_of_iff (¬ends segment "." ∧ ¬Reserved segment ∧ ¬Device segment)
    ⟨fun ⟨notTrailing, notReserved, notDevice⟩ => ⟨notTrailing, notReserved, notDevice⟩,
      fun ⟨notTrailing, notReserved, notDevice⟩ => ⟨notTrailing, notReserved, notDevice⟩⟩

variable {path : Path}

theorem rejectKeySegment_eq_ok {segment : Bytes} (safe : SafeSegment segment) :
    rejectKeySegment segment = .ok () ↔ ¬ends segment "." ∧ ¬Reserved segment := by
  have noSpace : ¬ends segment " " := by
    intro trailing
    have text : textBytes " " = [0x20] := by decide
    obtain ⟨front, rfl⟩ := isSuffixOf_iff_suffix.mp trailing
    exact absurd (safe.plain 0x20 (by simp [text])) (by decide)
  constructor
  · intro accepted
    refine ⟨fun trailing => ?_, not_reserved_of_ok accepted⟩
    rw [rejectKeySegment, if_neg safe.nonempty, if_neg (not_or.mpr ⟨safe.notDot, safe.notDots⟩),
      if_pos (.inr trailing)] at accepted
    cases accepted
  · rintro ⟨notTrailing, notReserved⟩
    obtain ⟨staging, other⟩ := not_or.mp notReserved
    obtain ⟨metadata, control⟩ := not_or.mp other
    rw [rejectKeySegment, if_neg safe.nonempty, if_neg (not_or.mpr ⟨safe.notDot, safe.notDots⟩),
      if_neg (not_or.mpr ⟨noSpace, notTrailing⟩), if_neg staging, if_neg metadata, if_neg control]

theorem rejectReservedSegment_eq_ok {segment : Bytes} :
    rejectReservedSegment segment = .ok () ↔ ¬Device segment := by
  rw [rejectReservedSegment]
  split
  · rename_i device
    exact ⟨nofun, fun notDevice => absurd device notDevice⟩
  · rename_i notDevice
    exact ⟨fun _ => notDevice, fun _ => rfl⟩

theorem rejectEach_eq_ok {reject : Bytes → Except UnsafeKey Unit} {names : List Bytes} :
    rejectEach reject names = .ok () ↔ ∀ name ∈ names, reject name = .ok () := by
  refine ⟨ok_of_rejectEach, fun accepted => ?_⟩
  induction names with
  | nil => rfl
  | cons first rest ih =>
    have later := ih fun name found => accepted name (mem_cons_of_mem _ found)
    rw [rejectEach, accepted first mem_cons_self]
    exact later

theorem mem_keyOf {char : UInt8} (found : char ∈ keyOf path) :
    char = slash ∨ ∃ name ∈ path, char ∈ name := by
  induction path with
  | nil => cases found
  | cons name path ih =>
    by_cases last : path = []
    · rw [last, keyOf_singleton] at found
      exact .inr ⟨name, mem_cons_self, found⟩
    · rw [← singleton_append, keyOf_append [name] last] at found
      rcases mem_append.mp found with found | found
      · simp only [dirKey, flatMap_cons, flatMap_nil, append_nil, mem_append,
          mem_singleton] at found
        rcases found with found | found
        · exact .inr ⟨name, mem_cons_self, found⟩
        · exact .inl found
      · rcases ih found with found | ⟨other, listed, found⟩
        · exact .inl found
        · exact .inr ⟨other, mem_cons_of_mem _ listed, found⟩

/-- The letters of a key of safe segments. -/
def isKeyByte (char : UInt8) : Bool := isStorageSegmentByte char || char == slash

theorem of_isKeyByte {char : UInt8} (letter : isKeyByte char) :
    char ≠ 0 ∧ char ≠ 0x5C ∧ (textBytes "<>:\"|?*").contains char = false ∧
      (char < 0x20 || char == 0x7F) = false := by
  have texts : textBytes "<>:\"|?*" = [0x3C, 0x3E, 0x3A, 0x22, 0x7C, 0x3F, 0x2A] := by decide +kernel
  rw [texts]
  simp only [isKeyByte, isStorageSegmentByte, dot, slash, contains_cons, contains_nil,
    UInt8.lt_iff_toNat_lt, UInt8.le_iff_toNat_le, ← UInt8.toNat_inj, Bool.or_eq_true,
    Bool.or_eq_false_iff, Bool.and_eq_true, decide_eq_true_eq, decide_eq_false_iff_not, beq_iff_eq,
    beq_eq_false_iff_ne, ne_eq, UInt8.reduceToNat, and_true] at letter ⊢
  omega

section Keys

variable (safe : ∀ name ∈ path, SafeSegment name) (nonempty : path ≠ [])

include safe

theorem plain_of_safe : Plain path := fun name found => (safe name found).plainName

theorem isKeyByte_of_mem {char : UInt8} (found : char ∈ keyOf path) : isKeyByte char := by
  rcases mem_keyOf found with rfl | ⟨name, listed, found⟩
  · decide
  · simp [isKeyByte, (safe name listed).plain char found]

theorem rejectKeyCharacters_keyOf : rejectKeyCharacters (keyOf path) = .ok () := by
  have noNull : (keyOf path).contains 0 = false := by
    simpa using fun found => (of_isKeyByte (isKeyByte_of_mem safe found)).1 rfl
  have noBackslash : (keyOf path).contains 0x5C = false := by
    simpa using fun found => (of_isKeyByte (isKeyByte_of_mem safe found)).2.1 rfl
  have noWindows : (keyOf path).any ((textBytes "<>:\"|?*").contains ·) = false :=
    any_eq_false.mpr fun char found =>
      Bool.not_eq_true _ ▸ (of_isKeyByte (isKeyByte_of_mem safe found)).2.2.1
  have noControl : (keyOf path).any (fun byte => byte < 0x20 || byte == 0x7F) = false :=
    any_eq_false.mpr fun char found =>
      Bool.not_eq_true _ ▸ (of_isKeyByte (isKeyByte_of_mem safe found)).2.2.2
  rw [rejectKeyCharacters, noNull, noBackslash, noWindows, noControl,
    starts_slash_keyOf (plain_of_safe safe)]
  rfl

include nonempty

/-- A key of plain names is below the root. -/
theorem isLocal_keyOf : isLocal (keyOf path) = true := by
  have plain := plain_of_safe safe
  have split := segments_keyOf plain nonempty
  have filled := keyOf_ne_nil plain nonempty
  have undotted : (segments (keyOf path)).any
      (fun segment => segment == [dot] || segment == [dot, dot]) = false := by
    rw [split, any_eq_false]
    intro name found
    simp [(plain name found).notDot, (plain name found).notDots]
  obtain ⟨-, notDots, inside⟩ := not_back plain nonempty
  rw [isLocal, starts_slash_keyOf plain]
  simp only [undotted, isEmpty_eq_false_iff.mpr filled, Bool.or_self, Bool.false_eq_true, if_false,
    beq_eq_false_iff_ne.mpr notDots, inside]
  rfl

/-- What the bucket asks of a key of safe segments. -/
theorem cleanKey_keyOf : cleanKey (keyOf path) maxKeyBytes = .ok (keyOf path) ↔
    (∀ name ∈ path, Storable name) ∧ (keyOf path).length ≤ maxKeyBytes := by
  have plain := plain_of_safe safe
  have filled := keyOf_ne_nil plain nonempty
  have canonical := pathClean_keyOf plain nonempty
  have split := segments_keyOf plain nonempty
  obtain ⟨notDot, notDots, inside⟩ := not_back plain nonempty
  have finish : cleanKey (keyOf path) maxKeyBytes = (do
      rejectKeyLength (keyOf path) maxKeyBytes
      rejectEach rejectKeySegment path
      rejectEach rejectReservedSegment path
      return keyOf path) := by
    rw [cleanKey, rejectKeyLexically, if_neg filled, rejectKeyCharacters_keyOf safe, canonical, split,
      if_neg (not_not.mpr rfl), isLocal_keyOf safe nonempty, rejectCleanKey,
      if_neg (not_or.mpr ⟨notDot, notDots⟩), inside, split, if_neg (by simp [filled])]
    simp only [bind_assoc]
    rfl
  rw [finish]
  constructor
  · intro accepted
    obtain ⟨⟨⟩, short, accepted⟩ := exists_of_bind_eq_ok accepted
    obtain ⟨⟨⟩, lexical, accepted⟩ := exists_of_bind_eq_ok accepted
    obtain ⟨⟨⟩, undeviced, -⟩ := exists_of_bind_eq_ok accepted
    refine ⟨fun name found => ?_, ?_⟩
    · obtain ⟨notTrailing, notReserved⟩ :=
        (rejectKeySegment_eq_ok (safe name found)).mp (rejectEach_eq_ok.mp lexical name found)
      exact ⟨notTrailing, notReserved,
        rejectReservedSegment_eq_ok.mp (rejectEach_eq_ok.mp undeviced name found)⟩
    · rw [rejectKeyLength] at short
      split_ifs at short with long
      exact not_lt.mp fun more => long ⟨by decide, more⟩
  · rintro ⟨storable, short⟩
    have lexical : rejectEach rejectKeySegment path = .ok () :=
      rejectEach_eq_ok.mpr fun name found => (rejectKeySegment_eq_ok (safe name found)).mpr
        ⟨(storable name found).notTrailing, (storable name found).notReserved⟩
    have undeviced : rejectEach rejectReservedSegment path = .ok () :=
      rejectEach_eq_ok.mpr fun name found =>
        rejectReservedSegment_eq_ok.mpr (storable name found).notDevice
    have fits : rejectKeyLength (keyOf path) maxKeyBytes = .ok () :=
      if_neg fun long => absurd long.2 (not_lt.mpr short)
    rw [fits, lexical, undeviced]
    rfl

end Keys

/-- The names under which the trainers store an artifact. -/
def artifactNames : List Bytes := [textBytes "adapter.lora.h5", textBytes "model.tflite"]

/-- A digest of 64 lowercase hexadecimal digits. -/
def IsDigest (digest : Bytes) : Prop :=
  digest.length = 64 ∧ ∀ char ∈ digest, (0x30 ≤ char ∧ char ≤ 0x39) ∨ (0x61 ≤ char ∧ char ≤ 0x66)

theorem validateDigest_of_isDigest {digest : Bytes} (hex : IsDigest digest) :
    validateDigest digest = .ok () := by
  refine validateDigest_eq_ok.mpr ⟨hex.1, fun char found => ?_⟩
  have letter := hex.2 char found
  simp only [isLowerHex, UInt8.lt_iff_toNat_lt, UInt8.le_iff_toNat_le, Bool.not_eq_true',
    Bool.or_eq_false_iff, Bool.and_eq_false_iff, decide_eq_false_iff_not, UInt8.reduceToNat] at letter ⊢
  omega

/-- The names that are fixed, checked at once. -/
theorem names_checked :
    (∀ name ∈ windowsReservedNames, name.length < 8) ∧
      (dot ∈ textBytes "." ∧ dot ∈ textBytes ".golusoris-put-" ∧
        dot ∈ textBytes ".golusoris-meta-") ∧
      (dot ∈ textBytes ".golusoris-lock" ∧ dot ∈ textBytes ".golusoris-transaction.json" ∧
        dot ∈ textBytes ".golusoris-staging") ∧
      ((textBytes "tenants").length = 7 ∧ Storable (textBytes "tenants")) ∧
      ∀ artifact ∈ artifactNames, validateStorageSegment "artifact" artifact = .ok () ∧
        Storable artifact := by
  decide +kernel

/-- Names of devices are short. -/
theorem not_device_of_long {segment : Bytes} (ascii : ∀ char ∈ segment, char < 0x80)
    (undotted : dot ∉ segment) (long : 32 ≤ segment.length) : ¬Device segment := by
  intro device
  have whole : segment.takeWhile (· ≠ dot) = segment := by
    rw [takeWhile_eq_self_iff]
    intro char found
    exact decide_eq_true fun same => undotted (same ▸ found)
  obtain ⟨text, rfl⟩ := Utf8.exists_encode_of_ascii ascii
  have short := names_checked.1 _ (contains_iff_mem.mp device)
  rw [whole, toUpper, Utf8.decodeLossy_encode text _ (Nat.le_refl _), String.length_ofList,
    length_map] at short
  have wide : (Utf8.encode text).length ≤ 4 * text.length := by
    clear whole short long undotted ascii device
    induction text with
    | nil => simp [Utf8.encode]
    | cons rune text ih =>
      have size := rune.utf8Size_le_four
      rw [Utf8.encode_cons, length_append, String.length_utf8EncodeChar, length_cons]
      omega
  omega

theorem storable_of_isDigest {digest : Bytes} (hex : IsDigest digest) : Storable digest := by
  have valid := validateDigest_of_isDigest hex
  have undotted : dot ∉ digest := fun found =>
    (safe_of_isLowerHex ((validateDigest_eq_ok.mp valid).2 dot found)).2 rfl
  obtain ⟨-, texts, names, -⟩ := names_checked
  refine ⟨fun trailing => ?_, ?_, ?_⟩
  · exact undotted ((isSuffixOf_iff_suffix.mp trailing).subset texts.1)
  · rintro (staging | metadata | control)
    · have leads := (Bool.and_eq_true_iff.mp staging).1
      exact undotted (( isPrefixOf_iff_prefix.mp leads).subset texts.2.1)
    · have leads := (Bool.and_eq_true_iff.mp (Bool.and_eq_true_iff.mp metadata).1).2
      exact undotted (( isPrefixOf_iff_prefix.mp leads).subset texts.2.2)
    · simp only [isReservedControlName, Bool.or_eq_true, beq_iff_eq] at control
      rcases control with (rfl | rfl) | rfl
      · exact undotted names.1
      · exact undotted names.2.1
      · exact undotted names.2.2
  · refine not_device_of_long (fun char found => ?_) undotted (by rw [hex.1]; decide)
    have letter := hex.2 char found
    simp only [UInt8.lt_iff_toNat_lt, UInt8.le_iff_toNat_le, UInt8.reduceToNat] at letter ⊢
    omega

theorem length_artifactPath (args : Artifact) : (keyOf (artifactPath args)).length =
    args.keyPrefix.length + (tenantSegment args.tenantID).length + args.name.length +
      args.jobID.length + args.digest.length + args.artifact.length + 13 := by
  have tenants := names_checked.2.2.2.1.1
  rw [artifactPath, keyOf_append _ (cons_ne_nil _ _), dirKey_eq (segments_ne_nil _), keyOf_segments]
  simp only [keyOf, intercalate_cons_cons, intercalate_singleton, length_append,
    length_singleton, tenants]
  omega

theorem artifact_storable {artifact : Bytes} (named : artifact ∈ artifactNames) :
    SafeSegment artifact ∧ Storable artifact := by
  obtain ⟨valid, storable⟩ := names_checked.2.2.2.2 artifact named
  exact ⟨(validateStorageSegment_eq_ok _).mp valid, storable⟩

/-- The arguments of a finished run. -/
def Job.artifact (job : Job) (keyPrefix digest artifact : Bytes) : Artifact :=
  ⟨keyPrefix, job.tenantID, job.name, job.id, digest, artifact⟩

/-- The bucket takes the artifact of an accepted job just when it takes each segment that
the caller chose, and the whole key is short enough. -/
theorem artifact_stored_iff (job : Job) (keyPrefix digest artifact : Bytes)
    (accepted : validateJob job = .ok ()) (rooted : validateKeyPrefix keyPrefix = .ok ())
    (hex : IsDigest digest) (named : artifact ∈ artifactNames) :
    (∃ key, artifactKey (job.artifact keyPrefix digest artifact) = .ok key) ∧
      ((∃ key, artifactKey (job.artifact keyPrefix digest artifact) = .ok key ∧
          cleanKey key maxKeyBytes = .ok key) ↔
        (∀ segment ∈ segments keyPrefix ++ [tenantSegment job.tenantID, job.name, job.id],
            Storable segment) ∧
          keyPrefix.length + (tenantSegment job.tenantID).length + job.name.length + job.id.length +
            artifact.length ≤ 947) := by
  obtain ⟨id, name, tenant⟩ := safe_of_validateJob accepted
  obtain ⟨file, stored⟩ := artifact_storable named
  have admitted : Admitted (job.artifact keyPrefix digest artifact) :=
    ⟨rooted, tenant, name, id, validateDigest_of_isDigest hex, file⟩
  have made := artifactKey_eq_ok.mpr ⟨admitted, rfl⟩
  have nonempty : artifactPath (job.artifact keyPrefix digest artifact) ≠ [] := by simp [artifactPath]
  have taken := cleanKey_keyOf (safe_artifactPath admitted) nonempty
  have unfixed : (∀ segment ∈ artifactPath (job.artifact keyPrefix digest artifact), Storable segment) ↔
      ∀ segment ∈ segments keyPrefix ++ [tenantSegment job.tenantID, job.name, job.id],
        Storable segment := by
    simp only [artifactPath, Job.artifact, List.forall_mem_append, List.forall_mem_cons,
      names_checked.2.2.2.1.2, storable_of_isDigest hex, stored]
    simp
  have long : (keyOf (artifactPath (job.artifact keyPrefix digest artifact))).length ≤ maxKeyBytes ↔
      keyPrefix.length + (tenantSegment job.tenantID).length + job.name.length + job.id.length +
        artifact.length ≤ 947 := by
    have digits := hex.1
    rw [length_artifactPath, maxKeyBytes]
    dsimp only [Job.artifact]
    omega
  refine ⟨⟨_, made⟩, ?_⟩
  rw [← unfixed, ← long, ← taken]
  constructor
  · rintro ⟨key, another, clean⟩
    obtain rfl := Except.ok.inj (made.symm.trans another)
    exact clean
  · exact fun clean => ⟨_, made, clean⟩

/-- A job of the default tenant. -/
def shortJob (name : String) : Job where
  id := textBytes "j"
  name := textBytes name
  tenantID := []
  dataset := ⟨textBytes "file:///d", textBytes "text", textBytes "generate"⟩
  baseModel := textBytes "gemma3:270m"

theorem artifact_stored_short :
    ∃ key, artifactKey ((shortJob "n").artifact (textBytes "models/gemma") (List.replicate 64 0x61)
        (textBytes "model.tflite")) = .ok key ∧ cleanKey key maxKeyBytes = .ok key := by
  refine (artifact_stored_iff (shortJob "n") (textBytes "models/gemma") (List.replicate 64 0x61)
    (textBytes "model.tflite") ?_ ?_ ⟨by decide +kernel, by decide +kernel⟩ ?_).2.mpr ⟨?_, ?_⟩
  all_goals decide +kernel

/-- A job whose name ends in a dot is accepted, and the key of its artifact is refused. -/
theorem artifact_lost :
    ¬∀ (job : Job) (keyPrefix digest artifact : Bytes), validateJob job = .ok () →
      validateKeyPrefix keyPrefix = .ok () → IsDigest digest → artifact ∈ artifactNames →
        ∃ key, artifactKey (job.artifact keyPrefix digest artifact) = .ok key ∧
          cleanKey key maxKeyBytes = .ok key := by
  intro stored
  obtain ⟨key, made, clean⟩ := stored (shortJob "n.") (textBytes "models/gemma")
    (List.replicate 64 0x61) (textBytes "model.tflite") (by decide +kernel) (by decide +kernel)
    ⟨by decide +kernel, by decide +kernel⟩ (by decide +kernel)
  have refused : (artifactKey ((shortJob "n.").artifact (textBytes "models/gemma")
      (List.replicate 64 0x61) (textBytes "model.tflite"))).toOption.map (cleanKey · maxKeyBytes) =
        some (.error (.trailing (textBytes "n."))) := by
    decide +kernel
  rw [made, Except.toOption, Option.map_some, clean] at refused
  cases refused

end Golusoris.Trainerio
