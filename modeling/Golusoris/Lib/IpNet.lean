import Golusoris.Lib.IpAddr
import Golusoris.Lib.NetUrl

/-!
# Networks

The types `IP` and `IPNet` of the package `net` of Go. An address has sixteen
bytes once it was parsed; one of version 4 stands behind a fixed prefix and is shown,
and compared with a network, without it.
-/

namespace Golusoris.Lib.IpNet

open IpAddr (Addr parseAddr)
open Json (hexLower)
open NetUrl (cut cutLast)

/-- `v4InV6Prefix`. -/
def v4Prefix : Bytes := List.replicate 10 0 ++ [0xFF, 0xFF]

/-- `IP.To4`. -/
def to4 (ip : Bytes) : Option Bytes :=
  if ip.length = 4 then some ip
  else if ip.length = 16 ∧ ip.take 12 = v4Prefix then some (ip.drop 12)
  else none

def as16 : Addr → Bytes
  | .v4 bytes => v4Prefix ++ bytes
  | .v6 bytes _ => bytes

/-- `net.ParseIP`. -/
def parseIP (text : Bytes) : Option Bytes :=
  ((parseAddr text).filter fun addr => addr.zone = []).map as16

/-- `appendHex`: without leading zeros. -/
def hexText (value : Nat) : Bytes :=
  (if 0x1000 ≤ value then [hexLower (value / 0x1000)] else []) ++
    (if 0x100 ≤ value then [hexLower (value / 0x100 % 16)] else []) ++
    (if 0x10 ≤ value then [hexLower (value / 0x10 % 16)] else []) ++ [hexLower (value % 16)]

/-- The eight groups of an address of version 6. -/
def groups (ip : Bytes) : List Nat :=
  (List.range 8).map fun index =>
    (ip.getD (2 * index) 0).toNat * 256 + (ip.getD (2 * index + 1) 0).toNat

/-- The first of the longest runs of two or more zeros: its start and its end. -/
def zeroRun (groups : List Nat) : Option (Nat × Nat) :=
  (List.range 8).foldl (fun found start =>
    let length := ((groups.drop start).takeWhile (· = 0)).length
    let longest := found.elim 0 fun (start, stop) => stop - start
    if 2 ≤ length ∧ longest < length then some (start, start + length) else found) none

/-- `appendTo6`. -/
def string6 (ip : Bytes) : Bytes :=
  let groups := groups ip
  match zeroRun groups with
  | none => [0x3A].intercalate (groups.map hexText)
  | some (start, stop) =>
      [0x3A].intercalate ((groups.take start).map hexText) ++ [0x3A, 0x3A] ++
        [0x3A].intercalate ((groups.drop stop).map hexText)

/-- `IP.String`, of a parsed address. -/
def string (ip : Bytes) : Bytes :=
  match to4 ip with
  | some bytes => [0x2E].intercalate (bytes.map fun byte => Digits.natText byte.toNat)
  | none => string6 ip

example : (parseIP (textBytes "2001:DB8:0::00:1")).map string = some (textBytes "2001:db8::1") := by
  decide +kernel

structure IPNet where
  ip : Bytes
  mask : Bytes
  deriving DecidableEq

/-- `networkNumberAndMask`. -/
def IPNet.numberAndMask (net : IPNet) : Option (Bytes × Bytes) :=
  let number := (to4 net.ip).getD net.ip
  if number.length ≠ 4 ∧ number.length ≠ 16 then none
  else if net.mask.length = 4 then if number.length = 4 then some (number, net.mask) else none
  else if net.mask.length = 16 then
    some (number, if number.length = 4 then net.mask.drop 12 else net.mask)
  else none

def masked (ip mask : Bytes) : Bytes := List.zipWith (· &&& ·) ip mask

/-- `IPNet.Contains`. -/
def IPNet.contains (net : IPNet) (ip : Bytes) : Bool :=
  match net.numberAndMask with
  | none => ip = []
  | some (number, mask) =>
      let ip := (to4 ip).getD ip
      ip.length = number.length ∧ masked number mask = masked ip mask

/-- `CIDRMask`. -/
def cidrMask (ones bits : Nat) : Bytes :=
  (List.range (bits / 8)).map fun index =>
    if 8 ≤ ones - 8 * index then 0xFF else ~~~((0xFF : UInt8) >>> UInt8.ofNat (ones - 8 * index))

/-- `net.ParseCIDR`, the network. -/
def parseCIDR (text : Bytes) : Option IPNet :=
  (cut 0x2F text).bind fun (addr, mask) =>
    ((parseAddr addr).filter fun addr => addr.zone = []).bind fun addr =>
      let bits := if addr.is4 then 32 else 128
      ((Digits.readNat mask).filter (· ≤ bits)).map fun ones =>
        let mask := cidrMask ones bits
        { ip := masked (if addr.is4 then (as16 addr).drop 12 else as16 addr) mask, mask := mask }

/-- `net.SplitHostPort`. -/
def splitHostPort (hostport : Bytes) : Option (Bytes × Bytes) :=
  (cutLast 0x3A hostport).bind fun (before, port) =>
    if hostport.head? = some 0x5B then
      (cut 0x5D hostport).bind fun (opened, after) =>
        -- The first closing bracket stands just before the last colon.
        if after.head? = some 0x3A ∧ after.tail = port ∧ 0x5B ∉ opened.tail ++ after ∧ 0x5D ∉ after then
          some (opened.tail, port)
        else none
    else if 0x3A ∈ before ∨ 0x5B ∈ hostport ∨ 0x5D ∈ hostport then none
    else some (before, port)

end Golusoris.Lib.IpNet
