import Golusoris.Lib.IpNet
import Golusoris.Lib.Spaces
import Mathlib.Logic.Function.Basic

/-!
# Forwarded addresses

`TrustProxy` of `httpx/middleware` reads `X-Forwarded-For` from the right and stops at the
first hop that is not a trusted proxy. The loop over the text is a scan over its
hops, and a scan that stops sees nothing of what stands further left.
-/

namespace Golusoris.Httpx

open List
open Lib
open Lib.IpNet (IPNet parseIP splitHostPort)
open Lib.NetUrl (cutLast lower)
open Lib.Spaces (trimSpace trim)

def maxForwardedHops : Nat := 64

/-- `http.Header` by canonical names; a name without values is absent. -/
abbrev Header := Bytes → List Bytes

/-- A request as the next handler gets it: `forwardedProto` is the value in its context. -/
structure Request where
  remoteAddr : Bytes
  header : Header
  forwardedProto : Bytes := []

def comma : UInt8 := 0x2C

/-- `strings.Join` with a comma. -/
def joinFields (values : List Bytes) : Bytes := [comma].intercalate values

/-- The address of one hop. -/
def parseHop (hop : Bytes) : Option Bytes := parseIP (trim (textBytes "[]") (trimSpace hop))

def ipInNets (ip : Bytes) (nets : List IPNet) : Bool := nets.any (·.contains ip)

/-- The loop of `forwardedClientIP` on what is left of the text. -/
def forwardedFrom (trusted : List IPNet) : Nat → Bytes → Option Bytes
  | 0, _ => none
  | rounds + 1, xff =>
      let cutOff := cutLast comma xff
      match parseHop (cutOff.elim xff Prod.snd) with
      | none => none
      | some ip =>
          if ¬ipInNets ip trusted then some (IpNet.string ip)
          else
            match cutOff with
            | none => some (IpNet.string ip)
            | some (rest, _) => forwardedFrom trusted rounds rest

def forwardedClientIP (xff : Bytes) (trusted : List IPNet) : Option Bytes :=
  forwardedFrom trusted maxForwardedHops xff

def parseCIDRs (cidrs : List Bytes) : List IPNet := cidrs.filterMap IpNet.parseCIDR

def peerInNets (remoteAddr : Bytes) (nets : List IPNet) : Bool :=
  match parseIP ((splitHostPort remoteAddr).elim remoteAddr Prod.fst) with
  | none => false
  | some ip => ipInNets ip nets

def xForwardedFor : Bytes := textBytes "X-Forwarded-For"
def xForwardedProto : Bytes := textBytes "X-Forwarded-Proto"

/-- The headers that `stripForwardedHeaders` deletes. -/
def forwardedHeaders : List Bytes :=
  [textBytes "Forwarded", xForwardedFor, textBytes "X-Forwarded-Host", xForwardedProto,
    textBytes "X-Real-IP"]

def stripForwardedHeaders (header : Header) : Header :=
  forwardedHeaders.foldl (fun header name => Function.update header name []) header

/-- Only the letters of ASCII matter to what it is compared with. -/
def validatedForwardedProto (header : Header) : Bytes :=
  match header xForwardedProto with
  | [value] =>
      if comma ∈ value then []
      else
        let proto := (trimSpace value).map lower
        if proto ≠ textBytes "http" ∧ proto ≠ textBytes "https" then [] else proto
  | _ => []

def rewriteRemoteAddrFromXFF (request : Request) (nets : List IPNet) : Request :=
  if nets = [] ∨ ¬peerInNets request.remoteAddr nets then request
  else if request.header xForwardedFor = [] then request
  else
    match forwardedClientIP (joinFields (request.header xForwardedFor)) nets with
    | none => request
    | some clientIP => { request with remoteAddr := clientIP }

/-- The request that `TrustProxy` hands on. -/
def trustProxy (nets : List IPNet) (request : Request) : Request :=
  if nets = [] ∨ ¬peerInNets request.remoteAddr nets then
    { request with header := stripForwardedHeaders request.header }
  else
    let proto := validatedForwardedProto request.header
    rewriteRemoteAddrFromXFF
      (if proto ≠ [] then { request with forwardedProto := proto } else request) nets

/-- The hops of a header, the nearest one first. -/
def hops (xff : Bytes) : List Bytes := (xff.splitOn comma).reverse

/-- The hop names an address in a trusted network. -/
def Trusted (trusted : List IPNet) (hop : Bytes) : Prop :=
  ∃ ip, parseHop hop = some ip ∧ ipInNets ip trusted

/-- The address of a hop as it is handed on. -/
def hopAddress (hop : Bytes) : Option Bytes := (parseHop hop).map IpNet.string

/-- The hops that a scan looks at, up to the first that is not trusted or the last one. -/
def scan (trusted : List IPNet) : Nat → List Bytes → Option Bytes
  | 0, _ => none
  | _, [] => none
  | rounds + 1, hop :: rest =>
      match parseHop hop with
      | none => none
      | some ip =>
          if ¬ipInNets ip trusted ∨ rest = [] then some (IpNet.string ip)
          else scan trusted rounds rest

section Scan

variable {trusted : List IPNet} {hop : Bytes}

theorem hops_append (left right : Bytes) : hops
    (left ++ comma :: right) = hops right ++ hops left := by
  have split : (left ++ comma :: right).splitOnP (· == comma) =
      left.splitOnP (· == comma) ++ right.splitOnP (· == comma) :=
    splitOnP_append_cons left right (by simp)
  rw [hops, hops, hops, ← reverse_append]
  exact congrArg List.reverse split

theorem hops_of_not_mem {xff : Bytes} (free : comma ∉ xff) : hops xff = [xff] := by
  have alone : xff.splitOnP (· == comma) = [xff] := by
    refine splitOnP_eq_singleton fun byte found => ?_
    rw [beq_eq_false_iff_ne]
    rintro rfl
    exact free found
  exact congrArg List.reverse alone

theorem hops_ne_nil (xff : Bytes) : hops xff ≠ [] := by
  simp [hops, splitOn_ne_nil]

/-- The loop over the text is the scan over its hops. -/
theorem forwardedFrom_eq_scan (rounds : Nat) (xff : Bytes) :
    forwardedFrom trusted rounds xff = scan trusted rounds (hops xff) := by
  induction rounds generalizing xff with
  | zero => rfl
  | succ rounds ih =>
    rw [forwardedFrom]
    cases found : cutLast comma xff with
    | none =>
      rw [hops_of_not_mem (NetUrl.cutLast_eq_none_iff.mp found), scan]
      simp
    | some parts =>
      obtain ⟨rest, last⟩ := parts
      obtain rfl := NetUrl.cutLast_eq_some found
      rw [hops_append, hops_of_not_mem (NetUrl.not_mem_of_cutLast found), singleton_append,
        scan]
      simp only [Option.elim_some]
      cases parseHop last with
      | none => rfl
      | some ip => simp [ih, hops_ne_nil]

/-- A scan that meets a hop that is not trusted sees nothing of what stands further left. -/
theorem scan_append {rounds : Nat} {right left : List Bytes}
    (stops : ∃ hop ∈ right.take rounds, ¬Trusted trusted hop) :
    scan trusted rounds (right ++ left) = scan trusted rounds right := by
  induction rounds generalizing right with
  | zero => rfl
  | succ rounds ih =>
    cases right with
    | nil =>
      obtain ⟨hop, listed, -⟩ := stops
      cases listed
    | cons first right =>
      rw [cons_append, scan, scan]
      cases read : parseHop first with
      | none => rfl
      | some ip =>
        by_cases known : ipInNets ip trusted
        · -- A trusted hop: the one that stops the scan stands further left.
          obtain ⟨hop, listed, foreign⟩ := stops
          rw [take_succ_cons, mem_cons] at listed
          obtain rfl | listed := listed
          · exact absurd ⟨ip, read, known⟩ foreign
          have some : right ≠ [] := by
            rintro rfl
            simp at listed
          simp [known, some, ih ⟨hop, listed, foreign⟩]
        · simp [known]

/-- The first hop that is not trusted decides. -/
theorem scan_eq_hopAddress {rounds : Nat} {right left : List Bytes}
    (near : ∀ hop ∈ right, Trusted trusted hop) (foreign : ¬Trusted trusted hop)
    (within : right.length < rounds) :
    scan trusted rounds (right ++ hop :: left) = hopAddress hop := by
  induction right generalizing rounds with
  | nil =>
    obtain ⟨rounds, rfl⟩ := Nat.exists_eq_succ_of_ne_zero (Nat.ne_of_gt within)
    rw [nil_append, scan, hopAddress]
    cases read : parseHop hop with
    | none => rfl
    | some ip =>
      have other : ¬ipInNets ip trusted := fun known => foreign ⟨ip, read, known⟩
      simp [other]
  | cons first right ih =>
    obtain ⟨rounds, rfl⟩ := Nat.exists_eq_succ_of_ne_zero (Nat.ne_of_gt (Nat.zero_lt_of_lt within))
    obtain ⟨⟨ip, read, known⟩, near⟩ := forall_mem_cons.mp near
    rw [cons_append, scan, read]
    simp only [known]
    rw [if_neg (by simp)]
    exact ih near (Nat.lt_of_succ_lt_succ within)

/-- The hops up to the one that stops the scan. -/
theorem exists_first_foreign {rounds : Nat} {all : List Bytes}
    (stops : ∃ hop ∈ all.take rounds, ¬Trusted trusted hop) :
    ∃ right hop left, all = right ++ hop :: left ∧ (∀ other ∈ right, Trusted trusted other) ∧
      ¬Trusted trusted hop ∧ right.length < rounds := by
  induction rounds generalizing all with
  | zero =>
    obtain ⟨hop, listed, -⟩ := stops
    cases listed
  | succ rounds ih =>
    cases all with
    | nil =>
      obtain ⟨hop, listed, -⟩ := stops
      cases listed
    | cons first rest =>
      by_cases own : Trusted trusted first
      · obtain ⟨hop, listed, foreign⟩ := stops
        rw [take_succ_cons, mem_cons] at listed
        obtain rfl | listed := listed
        · exact absurd own foreign
        obtain ⟨right, hop, left, rfl, near, stop, short⟩ := ih ⟨hop, listed, foreign⟩
        refine ⟨first :: right, hop, left, rfl, forall_mem_cons.mpr ⟨own, near⟩, stop, ?_⟩
        exact Nat.succ_lt_succ short
      · exact ⟨[], first, rest, rfl, by simp, own, Nat.zero_lt_succ _⟩

end Scan

section Requests

variable {nets : List IPNet}

theorem foldl_update_nil (names : List Bytes) (header : Header) (name : Bytes) :
    names.foldl (fun header name => Function.update header name []) header name =
      if name ∈ names then [] else header name := by
  induction names generalizing header with
  | nil => simp
  | cons first names ih =>
    rw [foldl_cons, ih]
    by_cases same : name = first
    · simp [same]
    · simp [same]

/-- A header without fields names no address, as an empty one. -/
theorem forwardedClientIP_nil (trusted : List IPNet) : forwardedClientIP [] trusted = none := by
  have unread : parseHop [] = none := by decide
  rw [forwardedClientIP, maxForwardedHops, forwardedFrom]
  simp [cutLast, unread]

theorem remoteAddr_rewrite (request : Request)
    (known : ¬(nets = [] ∨ ¬peerInNets request.remoteAddr nets)) :
    (rewriteRemoteAddrFromXFF request nets).remoteAddr =
      (forwardedClientIP (joinFields (request.header xForwardedFor)) nets).getD
        request.remoteAddr := by
  rw [rewriteRemoteAddrFromXFF, if_neg known]
  by_cases absent : request.header xForwardedFor = []
  · rw [if_pos absent, absent, joinFields, intercalate_nil, forwardedClientIP_nil]
    rfl
  · rw [if_neg absent]
    cases forwardedClientIP (joinFields (request.header xForwardedFor)) nets with
    | none => rfl
    | some clientIP => rfl

theorem remoteAddr_trustProxy (request : Request) :
    (trustProxy nets request).remoteAddr =
      if nets = [] ∨ ¬peerInNets request.remoteAddr nets then request.remoteAddr
      else (forwardedClientIP (joinFields (request.header xForwardedFor)) nets).getD
        request.remoteAddr := by
  by_cases foreign : nets = [] ∨ ¬peerInNets request.remoteAddr nets
  · rw [trustProxy, if_pos foreign, if_pos foreign]
  · rw [trustProxy, if_neg foreign, if_neg foreign]
    by_cases proto : validatedForwardedProto request.header ≠ []
    · simp only [if_pos proto]
      exact remoteAddr_rewrite _ foreign
    · simp only [if_neg proto]
      exact remoteAddr_rewrite request foreign

def Request.withForwardedFor (request : Request) (values : List Bytes) : Request :=
  { request with header := Function.update request.header xForwardedFor values }

end Requests

end Golusoris.Httpx
