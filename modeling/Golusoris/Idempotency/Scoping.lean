import Golusoris.Lib.Framing
import Golusoris.Lib.Hex
import Golusoris.Lib.NetUrlText
import Golusoris.Lib.Query
import Golusoris.Lib.Results
import Mathlib

/-!
# Scoped keys and fingerprints

`scopedKey` and `fingerprintRequest` of the package `idempotency`, with the same for gRPC,
hash lists of byte strings, each behind its length. The digest is a parameter; what is
shown is that equal keys come from equal parts, unless the digest maps the two streams to
one value.
-/

namespace Golusoris.Idempotency.Scoping

open Lib
open Lib.Framing (frame stream stream_inj Fits)
open Lib.NetUrl (Url cut cut_append)

/-- What is called in other packages: the digest, the case maps of Unicode, and the number
of settings that a query may have. -/
structure Runtime where
  sha256 : Bytes → Bytes
  toUpper : Bytes → Bytes
  toLower : Bytes → Bytes
  withinMax : Nat → Bool

/-- What the digests read of a request; reading a body can fail. -/
structure Request where
  method : Bytes
  host : Bytes
  url : Url
  contentType : Bytes := []
  body : Option (Except String Bytes) := none
  tenant : Option Bytes := none

/-- A pointer to a callback. -/
abbrev Scope (Input : Type) := Option (Option (Input → Except String Bytes))

variable (runtime : Runtime)

def writeHashPart (dst value : Bytes) : Bytes := dst ++ frame value

def digest (parts : List Bytes) : Bytes := Hex.encode (runtime.sha256 (parts.foldl writeHashPart []))

def digestScope (first : Bytes) (parts : List Bytes) : Bytes := first ++ digest runtime parts

def fingerprintPayload (contentType body : Bytes) : Bytes := digest runtime [contentType, body]

def errRequestBodyTooLarge : String := "idempotency: request body too large"

def int64 (value : Int) : Int := Int.bmod value (2 ^ 64)

def fingerprintRequest (r : Request) (limit : Int) : Except String Bytes :=
  if limit < 0 then .error "idempotency: invalid request body limit"
  else
    match r.body with
    | none => .ok (fingerprintPayload runtime r.contentType [])
    | some (.error failure) => .error failure
    | some (.ok body) =>
        -- `LimitReader` counts in an int64 too.
        let body := body.take (int64 (limit + 1)).toNat
        if body.length > limit then .error errRequestBodyTooLarge
        else .ok (fingerprintPayload runtime r.contentType body)

def resolve {Input : Type} (scope : Scope Input) (input : Input) : Except String Bytes :=
  match scope with
  | none => .ok []
  | some none => .error "idempotency: nil scope callback"
  | some (some callback) => (callback input).mapError ("idempotency: resolve scope: " ++ ·)

def path (r : Request) : Bytes :=
  let path := r.url.escapedPath
  if path = [] then [0x2F] else path

def query (r : Request) : Query.Values := Query.parse runtime.withinMax r.url.rawQuery

def target (r : Request) : Bytes :=
  let query := (query runtime r).encode
  if query ≠ [] then path r ++ 0x3F :: query else path r

def tenantID (tenant : Option Bytes) : Bytes := tenant.getD []

def keyParts (r : Request) (extraScope rawKey : Bytes) : List Bytes :=
  [runtime.toUpper r.method, runtime.toLower r.host, target runtime r, tenantID r.tenant, extraScope,
    rawKey]

def scopedKey (r : Request) (rawKey : Bytes) (scope : Scope Request) : Except String Bytes :=
  (resolve scope r).map fun extraScope =>
    digestScope runtime (textBytes "v1:") (keyParts runtime r extraScope rawKey)

/-- The tenant of the context of a call, and its method. -/
structure Call where
  fullMethod : Bytes
  tenant : Option Bytes := none

def grpcKeyParts (call : Call) (extraScope rawKey : Bytes) : List Bytes :=
  [call.fullMethod, tenantID call.tenant, extraScope, rawKey]

def grpcScopedKey (call : Call) (rawKey : Bytes) (scope : Scope Call) : Except String Bytes :=
  (resolve scope call).map fun extraScope =>
    digestScope runtime (textBytes "grpc:v1:") (grpcKeyParts call extraScope rawKey)

/-- A message as `proto` sees it, with its deterministic encoding. -/
structure Message where
  name : Bytes
  size : Int
  raw : Except String Bytes

def grpcFingerprint (req : Option Message) (limit : Int) : Except String Bytes :=
  match req with
  | none => .error "idempotency: message is not a protobuf message"
  | some message =>
      if message.size > limit then .error errRequestBodyTooLarge
      else
        match message.raw with
        | .error failure => .error ("idempotency: marshal request: " ++ failure)
        | .ok raw => .ok (fingerprintPayload runtime message.name raw)

section Digests

variable {runtime}

/-- Two lists of parts whose streams differ, and the digest does not tell. -/
def Collide (runtime : Runtime) (parts others : List Bytes) : Prop :=
  stream parts ≠ stream others ∧ runtime.sha256 (stream parts) = runtime.sha256 (stream others)

def AllFit (parts : List Bytes) : Prop := ∀ part ∈ parts, Fits part

theorem foldl_writeHashPart (parts : List Bytes) (dst : Bytes) :
    parts.foldl writeHashPart dst = dst ++ stream parts := by
  induction parts generalizing dst with
  | nil => exact (List.append_nil dst).symm
  | cons part parts ih =>
    rw [List.foldl_cons, ih, writeHashPart, List.append_assoc]
    rfl

theorem digest_inj {parts others : List Bytes} (fits : AllFit parts) (fits' : AllFit others) :
    digest runtime parts = digest runtime others ↔ parts = others ∨ Collide runtime parts others := by
  rw [digest, digest, foldl_writeHashPart, foldl_writeHashPart, List.nil_append, List.nil_append]
  constructor
  · intro same
    by_cases equal : parts = others
    · exact .inl equal
    · refine .inr ⟨mt (stream_inj fits fits').mp equal, ?_⟩
      have read := congrArg Hex.decode same
      rw [Hex.decode_encode, Hex.decode_encode] at read
      exact Option.some.inj read
  · rintro (rfl | ⟨-, same⟩)
    · rfl
    · rw [same]

theorem not_mem_path (r : Request) : 0x3F ∉ path r := by
  rw [path]
  split_ifs with empty
  · decide
  · exact fun found => (NetUrl.of_escapedPath found).1 rfl

variable {r r' : Request}

/-- The target is known from the path and the settings of the query, and they from it. -/
theorem target_inj :
    target runtime r = target runtime r' ↔ path r = path r' ∧ query runtime r = query runtime r' := by
  have settled := Query.encode_inj (Query.filled_parse runtime.withinMax r.url.rawQuery)
    (Query.filled_parse runtime.withinMax r'.url.rawQuery)
  have none (r : Request) : cut 0x3F (path r) = none := NetUrl.cut_eq_none_iff.mpr (not_mem_path r)
  constructor
  · intro same
    have cuts := congrArg (cut 0x3F) same
    rw [target, target] at same cuts
    split_ifs at same cuts with left right right
    · rw [cut_append (not_mem_path r), cut_append (not_mem_path r')] at cuts
      obtain ⟨paths, queries⟩ := Prod.mk.inj (Option.some.inj cuts)
      exact ⟨paths, settled.mp queries⟩
    · rw [cut_append (not_mem_path r), none] at cuts
      cases cuts
    · rw [cut_append (not_mem_path r'), none] at cuts
      cases cuts
    · exact ⟨same, settled.mp ((not_not.mp left).trans (not_not.mp right).symm)⟩
  · rintro ⟨paths, queries⟩
    rw [target, target, paths, queries]

/-- What two requests with one key have in common. -/
structure SameKey (runtime : Runtime) (r r' : Request) (extraScope extraScope' rawKey rawKey' : Bytes) :
    Prop where
  method : runtime.toUpper r.method = runtime.toUpper r'.method
  host : runtime.toLower r.host = runtime.toLower r'.host
  path : path r = path r'
  query : query runtime r = query runtime r'
  tenant : tenantID r.tenant = tenantID r'.tenant
  extraScope : extraScope = extraScope'
  rawKey : rawKey = rawKey'

variable {extraScope extraScope' rawKey rawKey' : Bytes}

theorem keyParts_inj :
    keyParts runtime r extraScope rawKey = keyParts runtime r' extraScope' rawKey' ↔
      SameKey runtime r r' extraScope extraScope' rawKey rawKey' := by
  rw [keyParts, keyParts]
  simp only [List.cons.injEq, and_true, target_inj]
  constructor
  · rintro ⟨method, host, ⟨path, query⟩, tenant, extraScope, rawKey⟩
    exact ⟨method, host, path, query, tenant, extraScope, rawKey⟩
  · rintro ⟨method, host, path, query, tenant, extraScope, rawKey⟩
    exact ⟨method, host, ⟨path, query⟩, tenant, extraScope, rawKey⟩

theorem scopedKey_inj {scope scope' : Scope Request} (resolved : resolve scope r = .ok extraScope)
    (resolved' : resolve scope' r' = .ok extraScope')
    (fits : AllFit (keyParts runtime r extraScope rawKey))
    (fits' : AllFit (keyParts runtime r' extraScope' rawKey')) :
    scopedKey runtime r rawKey scope = scopedKey runtime r' rawKey' scope' ↔
      SameKey runtime r r' extraScope extraScope' rawKey rawKey' ∨
        Collide runtime (keyParts runtime r extraScope rawKey)
        (keyParts runtime r' extraScope' rawKey') := by
  rw [scopedKey, scopedKey, resolved, resolved', Except.map, Except.map, Except.ok.injEq, digestScope,
    digestScope, List.append_cancel_left_eq, digest_inj fits fits', keyParts_inj]

theorem grpcScopedKey_inj {call call' : Call} {scope scope' : Scope Call}
    (resolved : resolve scope call = .ok extraScope)
    (resolved' : resolve scope' call' = .ok extraScope')
    (fits : AllFit (grpcKeyParts call extraScope rawKey))
    (fits' : AllFit (grpcKeyParts call' extraScope' rawKey')) :
    grpcScopedKey runtime call rawKey scope = grpcScopedKey runtime call' rawKey' scope' ↔
      (call.fullMethod = call'.fullMethod ∧ tenantID call.tenant = tenantID call'.tenant ∧
        extraScope = extraScope' ∧ rawKey = rawKey') ∨
        Collide runtime (grpcKeyParts call extraScope rawKey)
        (grpcKeyParts call' extraScope' rawKey') := by
  rw [grpcScopedKey, grpcScopedKey, resolved, resolved', Except.map, Except.map, Except.ok.injEq,
    digestScope, digestScope, List.append_cancel_left_eq, digest_inj fits fits', grpcKeyParts, grpcKeyParts]
  simp only [List.cons.injEq, and_true]

theorem fingerprintPayload_inj {contentType contentType' body body' : Bytes}
    (fits : AllFit [contentType, body]) (fits' : AllFit [contentType', body']) :
    fingerprintPayload runtime contentType body = fingerprintPayload runtime contentType' body' ↔
      (contentType = contentType' ∧ body = body') ∨
        Collide runtime [contentType, body] [contentType', body'] := by
  rw [fingerprintPayload, fingerprintPayload, digest_inj fits fits']
  simp only [List.cons.injEq, and_true]

/-- The body that the handler gets. -/
def Request.payload (r : Request) : Bytes :=
  match r.body with
  | some (.ok body) => body
  | _ => []

/-- A request has the fingerprint of all of its body. -/
theorem fingerprintRequest_ok {limit : Int} {fingerprint : Bytes} (below : limit < 2 ^ 63 - 1)
    (made : fingerprintRequest runtime r limit = .ok fingerprint) :
    fingerprint = fingerprintPayload runtime r.contentType r.payload := by
  rw [fingerprintRequest] at made
  split_ifs at made with negative
  obtain ⟨method, host, url, contentType, body, tenant⟩ := r
  obtain _ | failure | body := body
  · exact (Except.ok.inj made).symm
  · cases made
  · have whole : int64 (limit + 1) = limit + 1 := Int.bmod_eq_of_le (by omega) (by omega)
    dsimp only at made
    rw [whole] at made
    split_ifs at made with large
    have all : body.take (limit + 1).toNat = body := by
      rw [List.length_take] at large
      exact List.take_of_length_le (by omega)
    rw [all] at made
    exact (Except.ok.inj made).symm

theorem grpcFingerprint_ok {req : Option Message} {limit : Int} {fingerprint : Bytes}
    (made : grpcFingerprint runtime req limit = .ok fingerprint) :
    ∃ message raw, req = some message ∧ message.raw = .ok raw ∧
      fingerprint = fingerprintPayload runtime message.name raw := by
  obtain _ | message := req
  · cases made
  · rw [grpcFingerprint] at made
    split_ifs at made with large
    cases encoded : message.raw with
    | error failure =>
      rw [encoded] at made
      cases made
    | ok raw =>
      rw [encoded] at made
      exact ⟨message, raw, rfl, encoded, (Except.ok.inj made).symm⟩

end Digests

/-- Streams, keys and fingerprints are known from what they are made of, and it from them
where the digest does not collide. -/
structure Unambiguous (runtime : Runtime) : Prop where
  stream {parts others : List Bytes} (fits : AllFit parts) (fits' : AllFit others) :
    parts.foldl writeHashPart [] = others.foldl writeHashPart [] ↔ parts = others
  scopedKey {r r' : Request} {rawKey rawKey' extraScope extraScope' : Bytes} {scope scope' : Scope Request}
    (resolved : resolve scope r = .ok extraScope) (resolved' : resolve scope' r' = .ok extraScope')
    (fits : AllFit (keyParts runtime r extraScope rawKey))
    (fits' : AllFit (keyParts runtime r' extraScope' rawKey')) :
    scopedKey runtime r rawKey scope = scopedKey runtime r' rawKey' scope' ↔
      SameKey runtime r r' extraScope extraScope' rawKey rawKey' ∨
        Collide runtime (keyParts runtime r extraScope rawKey) (keyParts runtime r' extraScope' rawKey')
  fingerprint {r r' : Request} {limit limit' : Int} {fingerprint fingerprint' : Bytes}
    (below : limit < 2 ^ 63 - 1) (below' : limit' < 2 ^ 63 - 1)
    (made : fingerprintRequest runtime r limit = .ok fingerprint)
    (made' : fingerprintRequest runtime r' limit' = .ok fingerprint')
    (fits : AllFit [r.contentType, r.payload]) (fits' : AllFit [r'.contentType, r'.payload]) :
    fingerprint = fingerprint' ↔ (r.contentType = r'.contentType ∧ r.payload = r'.payload) ∨
      Collide runtime [r.contentType, r.payload] [r'.contentType, r'.payload]
  grpcScopedKey {call call' : Call} {rawKey rawKey' extraScope extraScope' : Bytes} {scope scope' : Scope Call}
    (resolved : resolve scope call = .ok extraScope) (resolved' : resolve scope' call' = .ok extraScope')
    (fits : AllFit (grpcKeyParts call extraScope rawKey))
    (fits' : AllFit (grpcKeyParts call' extraScope' rawKey')) :
    grpcScopedKey runtime call rawKey scope = grpcScopedKey runtime call' rawKey' scope' ↔
      (call.fullMethod = call'.fullMethod ∧ tenantID call.tenant = tenantID call'.tenant ∧
        extraScope = extraScope' ∧ rawKey = rawKey') ∨
        Collide runtime (grpcKeyParts call extraScope rawKey) (grpcKeyParts call' extraScope' rawKey')
  grpcFingerprint {message message' : Message} {raw raw' : Bytes} {limit limit' : Int}
    {fingerprint fingerprint' : Bytes} (encoded : message.raw = .ok raw) (encoded' : message'.raw = .ok raw')
    (made : grpcFingerprint runtime (some message) limit = .ok fingerprint)
    (made' : grpcFingerprint runtime (some message') limit' = .ok fingerprint')
    (fits : AllFit [message.name, raw]) (fits' : AllFit [message'.name, raw']) :
    fingerprint = fingerprint' ↔ (message.name = message'.name ∧ raw = raw') ∨
      Collide runtime [message.name, raw] [message'.name, raw']
  apart {r : Request} {call : Call} {rawKey rawKey' key : Bytes} {scope : Scope Request} {scope' : Scope Call}
    (made : Scoping.scopedKey runtime r rawKey scope = .ok key) :
    Scoping.grpcScopedKey runtime call rawKey' scope' ≠ .ok key

end Golusoris.Idempotency.Scoping
