import Golusoris.Lib.Hex
import Golusoris.Lib.Timestamp

/-!
# Execution receipts

Source: `core/crypto/receipt/receipt.go`. A signer attests that a command exited
with code zero; the signature is over the fields of the receipt joined by
newlines, and nothing in the payload marks where a field begins. Ed25519, SHA-256
and the clock are parameters.
-/

namespace Golusoris.Receipts

open Lib (Bytes)
open Lib.Timestamp (Time format)

/-- The functions of `crypto/ed25519` and `crypto/sha256`. -/
structure Scheme where
  sha256 : Bytes → Bytes
  newKeyFromSeed : Bytes → Bytes
  /-- The public key of a private one. -/
  publicKey : Bytes → Bytes
  sign : Bytes → Bytes → Bytes
  verify : Bytes → Bytes → Bytes → Bool

def publicKeySize : Nat := 32
def privateKeySize : Nat := 64
def seedSize : Nat := 32
def signatureSize : Nat := 64

/-- What the primitives promise of a key of the right size. -/
structure Scheme.Correct (scheme : Scheme) : Prop where
  publicKey : ∀ priv, (scheme.publicKey priv).length = publicKeySize
  sign : ∀ priv message, (scheme.sign priv message).length = signatureSize
  verify : ∀ priv message, priv.length = privateKeySize →
    scheme.verify (scheme.publicKey priv) message (scheme.sign priv message)

inductive Error where
  | privateKeySize (length : Nat)
  | seedSize (length : Nat)
  | nilClock
  /-- `refusing to sign a non-zero exit`, of a run. -/
  | exitCode (code : Int)
  /-- The same, of a receipt. -/
  | recordedExitCode (code : Int)
  | emptyCommand
  | nilReceipt
  | badPublicKey
  | badSignature
  | signature
  | outputHash (want got : Bytes)
  deriving DecidableEq

/-- The schema version `v1`. -/
def version : Bytes := [0x76, 0x31]

structure Receipt where
  version : Bytes
  command : Bytes
  exitCode : Int
  timestamp : Time
  commitSHA : Bytes
  repository : Bytes
  outputHash : Bytes
  publicKey : Bytes
  signature : Bytes
  deriving DecidableEq

/-- `Run`, an execution to attest. -/
structure Execution where
  command : Bytes
  exitCode : Int
  output : Bytes
  commitSHA : Bytes
  repository : Bytes

def newline : UInt8 := 0x0A

/-- The fields that are signed, in their order. -/
def Receipt.fields (receipt : Receipt) : List Bytes :=
  [receipt.version, receipt.command, Lib.Digits.intText receipt.exitCode,
    format receipt.timestamp.toUTC, receipt.commitSHA, receipt.repository, receipt.outputHash]

def Receipt.payload (receipt : Receipt) : Bytes := [newline].intercalate receipt.fields

/-- A signer; its key has the size that `NewSigner` demands. -/
structure Signer where
  priv : Bytes
  size : priv.length = privateKeySize

/-- The clock is there or nil; `Sign` takes what it shows. -/
def newSigner (priv : Bytes) (clock : Bool) : Except Error Signer :=
  if size : priv.length = privateKeySize then
    if clock then .ok ⟨priv, size⟩ else .error .nilClock
  else .error (.privateKeySize priv.length)

def newSignerFromSeed (scheme : Scheme) (seed : Bytes) (clock : Bool) : Except Error Signer :=
  if seed.length = seedSize then newSigner (scheme.newKeyFromSeed seed) clock
  else .error (.seedSize seed.length)

namespace Signer

variable (scheme : Scheme) (signer : Signer)

def publicKey : Bytes := Lib.Hex.encode (scheme.publicKey signer.priv)

/-- What `TrimSpace` leaves nothing of. -/
def blank (text : Bytes) : Bool := (Lib.Utf8.decodeLossy text.length text).all Lib.isSpace

/-- The receipt that is signed. -/
def draft (run : Execution) (now : Time) : Receipt where
  version := version
  command := run.command
  exitCode := 0
  timestamp := now.toUTC
  commitSHA := run.commitSHA
  repository := run.repository
  outputHash := Lib.Hex.encode (scheme.sha256 run.output)
  publicKey := signer.publicKey scheme
  signature := []

def sign (run : Execution) (now : Time) : Except Error Receipt :=
  if run.exitCode ≠ 0 then .error (.exitCode run.exitCode)
  else if blank run.command then .error .emptyCommand
  else
    let receipt := signer.draft scheme run now
    .ok { receipt with signature := Lib.Hex.encode (scheme.sign signer.priv receipt.payload) }

end Signer

section Verify

variable (scheme : Scheme)

def verify : Option Receipt → Except Error Unit
  | none => .error .nilReceipt
  | some receipt =>
      if receipt.exitCode ≠ 0 then .error (.recordedExitCode receipt.exitCode)
      else
        match Lib.Hex.decode receipt.publicKey with
        | none => .error .badPublicKey
        | some pub =>
            if pub.length ≠ publicKeySize then .error .badPublicKey
            else
              match Lib.Hex.decode receipt.signature with
              | none => .error .badSignature
              | some signature =>
                  if signature.length ≠ signatureSize then .error .badSignature
                  else if scheme.verify pub receipt.payload signature then .ok ()
                  else .error .signature

def verifyOutput (receipt : Receipt) (output : Bytes) : Except Error Unit := do
  verify scheme (some receipt)
  let got := Lib.Hex.encode (scheme.sha256 output)
  if got ≠ receipt.outputHash then .error (.outputHash receipt.outputHash got) else .ok ()

end Verify

end Golusoris.Receipts
