import Golusoris.Lib.Lists
import Golusoris.Receipts.Signer

/-!
# What a signature says

A payload determines the fields of its receipt when none of them holds a newline.
When one does, its text can be divided between that field and the next one in
another place, and the signature is accepted for what the fields say then.
-/

namespace Golusoris.Receipts

open List
open Lib (Bytes)
open Receipt

/-- A successful execution, at a time that is written with a year of four digits. -/
structure Recorded (receipt : Receipt) : Prop where
  exitCode : receipt.exitCode = 0
  era : 0 ≤ receipt.timestamp.toUTC.date.year
  year_le : receipt.timestamp.toUTC.date.year ≤ 9999

/-- The receipts say the same. -/
structure Agree (first second : Receipt) : Prop where
  version : first.version = second.version
  command : first.command = second.command
  commitSHA : first.commitSHA = second.commitSHA
  repository : first.repository = second.repository
  outputHash : first.outputHash = second.outputHash
  instant : first.timestamp.instant = second.timestamp.instant

/-- The fields that may hold any text. -/
def Receipt.texts (receipt : Receipt) : List Bytes :=
  [receipt.version, receipt.command, receipt.commitSHA, receipt.repository, receipt.outputHash]

def SingleLine (receipt : Receipt) : Prop := ∀ text ∈ receipt.texts, newline ∉ text

instance decidableSingleLine (receipt : Receipt) : Decidable (SingleLine receipt) :=
  inferInstanceAs (Decidable (∀ text ∈ receipt.texts, newline ∉ text))

variable {receipt other : Receipt}

theorem Recorded.written (recorded : Recorded receipt) : receipt.timestamp.toUTC.date.Written where
  toValid := Lib.Timestamp.valid_dateOf _
  era := recorded.era
  year_le := recorded.year_le

theorem newline_not_mem_format (time : Lib.Timestamp.Time) :
    newline ∉ Lib.Timestamp.format time := by
  intro found
  have shown := all_eq_true.mp (Lib.Timestamp.written_format time) newline found
  exact absurd shown (by decide)

theorem Recorded.newline_not_mem (recorded : Recorded receipt) (plain : SingleLine receipt) :
    ∀ field ∈ receipt.fields, newline ∉ field := by
  simp only [SingleLine, texts, forall_mem_cons] at plain
  obtain ⟨version, command, commitSHA, repository, outputHash, -⟩ := plain
  simp only [fields, forall_mem_cons, recorded.exitCode]
  exact ⟨version, command, by decide, newline_not_mem_format _, commitSHA, repository, outputHash,
    by simp⟩

theorem agree_of_fields {first second : Receipt} (recorded : Recorded first)
    (also : Recorded second) (same : first.fields = second.fields) : Agree first second := by
  simp only [fields, List.cons.injEq, and_true] at same
  obtain ⟨version, command, -, time, commitSHA, repository, outputHash⟩ := same
  have utc := Lib.Timestamp.format_inj recorded.written also.written rfl time
  have instant := congrArg Lib.Timestamp.Time.instant utc
  exact ⟨version, command, commitSHA, repository, outputHash, instant⟩

/-- The other receipt cannot hold newlines either: there are six in the payload, and
the fields are joined by six. -/
theorem agree_of_payload (recorded : Recorded receipt) (also : Recorded other)
    (plain : SingleLine receipt) (same : receipt.payload = other.payload) : Agree receipt other :=
  agree_of_fields recorded also
    (Lib.intercalate_inj newline (recorded.newline_not_mem plain) rfl same)

/-- A receipt that reads a payload in another way. -/
structure Moved (receipt other : Receipt) : Prop where
  exitCode : other.exitCode = receipt.exitCode
  timestamp : other.timestamp = receipt.timestamp
  publicKey : other.publicKey = receipt.publicKey
  signature : other.signature = receipt.signature
  payload : receipt.payload = other.payload
  changed : ¬Agree receipt other

theorem Moved.recorded (moved : Moved receipt other) (recorded : Recorded receipt) :
    Recorded other where
  exitCode := moved.exitCode.trans recorded.exitCode
  era := by rw [moved.timestamp]; exact recorded.era
  year_le := by rw [moved.timestamp]; exact recorded.year_le

/-- What stands before the newline, or after it, goes to the next field. -/
theorem exists_moved (lines : ¬SingleLine receipt) : ∃ other, Moved receipt other := by
  obtain ⟨version, command, exitCode, timestamp, commitSHA, repository, outputHash, publicKey,
    signature⟩ := receipt
  simp only [SingleLine, texts, forall_mem_cons, not_and_or, not_not] at lines
  obtain found | found | found | found | found | none := lines
  · obtain ⟨before, after, rfl⟩ := append_of_mem found
    refine ⟨⟨before, after ++ newline :: command, exitCode, timestamp, commitSHA, repository,
      outputHash, publicKey, signature⟩, rfl, rfl, rfl, rfl, ?_, fun agree => ?_⟩
    · simp [payload, fields, intercalate_cons_cons]
    · simpa using agree.version
  · obtain ⟨before, after, rfl⟩ := append_of_mem found
    refine ⟨⟨version ++ newline :: before, after, exitCode, timestamp, commitSHA, repository,
      outputHash, publicKey, signature⟩, rfl, rfl, rfl, rfl, ?_, fun agree => ?_⟩
    · simp [payload, fields, intercalate_cons_cons]
    · simpa using agree.version
  · obtain ⟨before, after, rfl⟩ := append_of_mem found
    refine ⟨⟨version, command, exitCode, timestamp, before, after ++ newline :: repository,
      outputHash, publicKey, signature⟩, rfl, rfl, rfl, rfl, ?_, fun agree => ?_⟩
    · simp [payload, fields, intercalate_cons_cons]
    · simpa using agree.commitSHA
  · obtain ⟨before, after, rfl⟩ := append_of_mem found
    refine ⟨⟨version, command, exitCode, timestamp, commitSHA ++ newline :: before, after,
      outputHash, publicKey, signature⟩, rfl, rfl, rfl, rfl, ?_, fun agree => ?_⟩
    · simp [payload, fields, intercalate_cons_cons]
    · simpa using agree.commitSHA
  · obtain ⟨before, after, rfl⟩ := append_of_mem found
    refine ⟨⟨version, command, exitCode, timestamp, commitSHA, repository ++ newline :: before,
      after, publicKey, signature⟩, rfl, rfl, rfl, rfl, ?_, fun agree => ?_⟩
    · simp [payload, fields, intercalate_cons_cons]
    · simpa using agree.repository
  · exact absurd (forall_mem_nil _) none

section Verify

variable {scheme : Scheme}

theorem verify_ok_iff : verify scheme (some receipt) = .ok () ↔
    receipt.exitCode = 0 ∧ ∃ pub signature, Lib.Hex.decode receipt.publicKey = some pub ∧
      pub.length = publicKeySize ∧ Lib.Hex.decode receipt.signature = some signature ∧
      signature.length = signatureSize ∧ scheme.verify pub receipt.payload signature := by
  rw [verify]
  split_ifs with failed
  · simp [failed]
  · rw [not_not] at failed
    cases key : Lib.Hex.decode receipt.publicKey with
    | none => simp
    | some pub =>
      cases text : Lib.Hex.decode receipt.signature with
      | none => by_cases long : pub.length = publicKeySize <;> simp [long]
      | some signature =>
        by_cases long : pub.length = publicKeySize <;>
          by_cases whole : signature.length = signatureSize <;>
          by_cases genuine : scheme.verify pub receipt.payload signature <;>
          simp [failed, long, whole, genuine]

theorem Moved.verify (moved : Moved receipt other)
    (accepted : Receipts.verify scheme (some receipt) = .ok ()) :
    Receipts.verify scheme (some other) = .ok () := by
  rw [verify_ok_iff] at accepted ⊢
  rw [moved.exitCode, moved.publicKey, moved.signature, ← moved.payload]
  exact accepted

theorem verifyOutput_ok_iff {output : Bytes} :
    verifyOutput scheme receipt output = .ok () ↔ verify scheme (some receipt) = .ok () ∧
      receipt.outputHash = Lib.Hex.encode (scheme.sha256 output) := by
  rw [verifyOutput]
  cases verify scheme (some receipt) with
  | error failure => simp [bind, Except.bind]
  | ok => simp [bind, Except.bind, eq_comm]

variable {signer : Signer} {run : Execution} {now : Lib.Timestamp.Time} {receipt : Receipt}

theorem sign_ok (signed : signer.sign scheme run now = .ok receipt) :
    receipt = { signer.draft scheme run now with
      signature :=
        Lib.Hex.encode (scheme.sign signer.priv (signer.draft scheme run now).payload) } := by
  rw [Signer.sign] at signed
  split_ifs at signed with failed empty
  cases signed
  rfl

/-- The receipts issued with a key so far, at times that are written with a year of
four digits. -/
def Issued (scheme : Scheme) (signer : Signer) (receipts : List Receipt) : Prop :=
  ∀ receipt ∈ receipts, ∃ run now, signer.sign scheme run now = .ok receipt ∧
    0 ≤ now.toUTC.date.year ∧ now.toUTC.date.year ≤ 9999

/-- No signature is accepted for a payload that the holder of the key did not sign. -/
def Unforgeable (scheme : Scheme) (signer : Signer) (receipts : List Receipt) : Prop :=
  ∀ message signature, scheme.verify (scheme.publicKey signer.priv) message signature →
    ∃ receipt ∈ receipts, receipt.payload = message

theorem Issued.recorded {receipts : List Receipt} (issued : Issued scheme signer receipts)
    (listed : receipt ∈ receipts) : Recorded receipt := by
  obtain ⟨run, now, signed, era, year⟩ := issued receipt listed
  rw [sign_ok signed]
  exact ⟨rfl, era, year⟩

/-- An accepted receipt has the payload of one that was issued. -/
theorem issued_of_verify {receipts : List Receipt} (secure : Unforgeable scheme signer receipts)
    (own : Lib.Hex.decode receipt.publicKey = some (scheme.publicKey signer.priv))
    (accepted : verify scheme (some receipt) = .ok ()) :
    ∃ issued ∈ receipts, issued.payload = receipt.payload := by
  obtain ⟨-, pub, signature, key, -, -, -, genuine⟩ := verify_ok_iff.mp accepted
  obtain rfl := Option.some.inj (own.symm.trans key)
  exact secure _ _ genuine

/-- What a receipt says is bound by its signature: no other receipt has its payload,
and the holder of its key issued it. -/
structure Bound (scheme : Scheme) (receipt : Receipt) : Prop where
  alone : ∀ other, Recorded other → receipt.payload = other.payload → Agree receipt other
  attested : ∀ signer receipts, Issued scheme signer receipts →
    Unforgeable scheme signer receipts →
    Lib.Hex.decode receipt.publicKey = some (scheme.publicKey signer.priv) →
    verify scheme (some receipt) = .ok () → ∃ issued ∈ receipts, Agree receipt issued

theorem bound_iff_singleLine (scheme : Scheme) (receipt : Receipt) (recorded : Recorded receipt) :
    Bound scheme receipt ↔ SingleLine receipt := by
  constructor
  · intro bound
    by_contra lines
    obtain ⟨other, moved⟩ := exists_moved lines
    exact moved.changed (bound.alone other (moved.recorded recorded) moved.payload)
  · intro plain
    constructor
    · intro other also same
      exact agree_of_payload recorded also plain same
    · intro signer receipts issued secure own accepted
      obtain ⟨source, listed, same⟩ := issued_of_verify secure own accepted
      exact ⟨source, listed, agree_of_payload recorded (issued.recorded listed) plain same.symm⟩

/-- A receipt for `make` with the key and signature below. -/
def sampleReceipt : Receipt where
  version := version
  command := [0x6D, 0x61, 0x6B, 0x65]
  exitCode := 0
  timestamp := ⟨0, 0⟩
  commitSHA := []
  repository := []
  outputHash := Lib.Hex.encode (List.replicate 32 2)
  publicKey := Lib.Hex.encode (List.replicate 32 1)
  signature := Lib.Hex.encode (List.replicate 64 7)

/-- Primitives for one key that signed one payload. -/
def sampleScheme : Scheme where
  sha256 _ := List.replicate 32 2
  newKeyFromSeed seed := seed ++ seed
  publicKey priv := priv.drop 32
  sign _ _ := List.replicate 64 7
  verify _ message signature :=
    message == sampleReceipt.payload && signature == List.replicate 64 7

def sampleSigner : Signer := ⟨List.replicate 64 1, rfl⟩

theorem sampleReceipt_attested : ∃ issued ∈ [sampleReceipt], Agree sampleReceipt issued := by
  refine ((bound_iff_singleLine sampleScheme sampleReceipt ⟨rfl, by decide, by decide⟩).mpr
    (by decide)).attested sampleSigner [sampleReceipt] ?_ ?_ (Lib.Hex.decode_encode _) ?_
  · intro receipt listed
    obtain rfl := List.mem_singleton.mp listed
    exact ⟨⟨[0x6D, 0x61, 0x6B, 0x65], 0, [], [], []⟩, ⟨0, 0⟩, rfl, by decide, by decide⟩
  · intro message signature genuine
    simp only [sampleScheme, Bool.and_eq_true, beq_iff_eq] at genuine
    exact ⟨sampleReceipt, List.mem_singleton_self _, genuine.1.symm⟩
  · exact verify_ok_iff.mpr ⟨rfl, _, _, Lib.Hex.decode_encode _, rfl, Lib.Hex.decode_encode _, rfl,
      by simp [sampleScheme]⟩

/-- The command `a`, newline, `b` of version `v1` reads as the command `b` of another version. -/
theorem command_moved : ¬∀ first second : Receipt, Recorded first → Recorded second →
    first.payload = second.payload → Agree first second := by
  intro binds
  have agree := binds ⟨version, [0x61, 0x0A, 0x62], 0, ⟨0, 0⟩, [], [], [], [], []⟩
    ⟨version ++ [0x0A, 0x61], [0x62], 0, ⟨0, 0⟩, [], [], [], [], []⟩
    ⟨rfl, by decide, by decide⟩ ⟨rfl, by decide, by decide⟩ (by decide)
  exact absurd agree.version (by decide)

end Verify

end Golusoris.Receipts
