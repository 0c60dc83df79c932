import TailscaleRust.Core.Crypto
import TailscaleRust.Core.Net

/-!
# Peers and the packet filter of the netmap (`core/src/peers.rs`)

Text is its UTF-8 bytes. What `serde_json` makes of a body is a parameter
(`Serde`): the two typed decodings of the same bytes, one for the peers and
one for the packet filter. `str::parse` for `u32` and `Ipv4Addr` follows the
standard library.
-/

namespace TailscaleRust.Core.Peers

open TailscaleRust.Lib TailscaleRust.Core

/-- A network and a mask. -/
abbrev Cidr := UInt32 × UInt32

structure PeerInfo where
  nodeKey : Key
  discoKey : Key
  tailscaleIp : Option Bytes
  endpoints : List Bytes
  hostname : Bytes
  mappingVaries : Option Bool

structure NetInfoT where
  mappingVariesByDestIp : Option Bool

structure HostinfoT where
  hostname : Option Bytes
  netInfo : Option NetInfoT

structure PeerT where
  key : Option Bytes
  discoKey : Option Bytes
  addresses : Option (List Bytes)
  endpoints : Option (List Bytes)
  hostinfo : Option HostinfoT

structure MapResp where
  peers : Option (List PeerT)

structure NetPortRange where
  ip : Option Bytes

structure FilterRule where
  srcIps : Option (List Bytes)
  dstPorts : Option (List NetPortRange)

structure FilterResp where
  packetFilter : Option (List FilterRule)

/-- `serde_json::from_slice` at the two types the source decodes to. -/
structure Serde where
  mapResp : Bytes → Option MapResp
  filterResp : Bytes → Option FilterResp

/-! ## Standard-library parsing -/

def isDigit (b : UInt8) : Bool := 48 ≤ b ∧ b ≤ 57

/-- The value of a run of decimal digits. -/
def digitsValue (s : Bytes) : Nat := s.foldl (fun n b => n * 10 + (b.toNat - 48)) 0

/-- `str::parse::<u32>`: an optional `+`, then digits, in range. -/
def parseU32 (s : Bytes) : Option UInt32 :=
  let digits := if s.head? = some 43 then s.drop 1 else s
  if digits = [] ∨ ¬ digits.all isDigit ∨ digitsValue digits ≥ 2 ^ 32 then none
  else some (UInt32.ofNat (digitsValue digits))

/-- The pieces of `s` between the separators, `str::split`. -/
def splitOn (sep : UInt8) : Bytes → List Bytes
  | [] => [[]]
  | b :: rest =>
      if b = sep then [] :: splitOn sep rest
      else
        match splitOn sep rest with
        | [] => [[b]]
        | piece :: pieces => (b :: piece) :: pieces

/-- One to three digits without a superfluous leading zero, at most 255. -/
def parseOctet (s : Bytes) : Option UInt8 :=
  if s = [] ∨ s.length > 3 ∨ ¬ s.all isDigit ∨ (s.length > 1 ∧ s.head? = some 48)
      ∨ digitsValue s > 255 then none
  else some (UInt8.ofNat (digitsValue s))

/-- `str::parse::<Ipv4Addr>`: four octets in dotted notation. -/
def parseIpv4 (s : Bytes) : Option Ipv4Addr :=
  match (splitOn 46 s).map parseOctet with
  | [some a, some b, some c, some d] => some ⟨[a, b, c, d], rfl⟩
  | _ => none

/-- `str::split_once`. -/
def splitOnce (sep : UInt8) : Bytes → Option (Bytes × Bytes)
  | [] => none
  | b :: rest =>
      if b = sep then some ([], rest)
      else (splitOnce sep rest).map fun p => (b :: p.1, p.2)

/-! ## The packet filter -/

/-- The mask of a prefix length, which is capped at 32. -/
def maskOf (bits : UInt32) : UInt32 :=
  if bits = 0 then 0 else 0xffffffff <<< (32 - min bits 32)

def parseCidr (s : Bytes) : Option Cidr :=
  let parts : Option (Bytes × UInt32) :=
    match splitOnce 47 s with
    | some (i, b) => (parseU32 b).map fun bits => (i, bits)
    | none => some (s, 32)
  match parts with
  | none => none
  | some (ip, bits) => (parseIpv4 ip).map fun v => (u32be v.1 0, maskOf bits)

def cidrMatch (allowed : List Cidr) (ip : UInt32) : Bool :=
  allowed.any fun c => ip &&& c.2 = c.1 &&& c.2

def cidrContains (c : Option Cidr) (ip : UInt32) : Bool :=
  match c with
  | some (net, mask) => ip &&& mask = net &&& mask
  | none => false

def star : Bytes := [42]

/-- Does the rule's destination cover us? -/
def coversUs (rule : FilterRule) (our : UInt32) : Bool :=
  ((rule.dstPorts.getD []).filterMap NetPortRange.ip).any fun ip =>
    ip = star ∨ cidrContains (parseCidr ip) our

/-- The sources a rule admits; a string that does not parse is skipped. -/
def ruleSrcs (rule : FilterRule) : List Cidr :=
  (rule.srcIps.getD []).filterMap fun s => if s = star then some (0, 0) else parseCidr s

def parseAllowedSrcs (S : Serde) (raw ourIp : Bytes) : Option (List Cidr) :=
  match S.filterResp raw with
  | none => none
  | some f =>
      match f.packetFilter with
      | none => none
      | some rules =>
          match parseCidr (ourIp ++ ascii "/32") with
          | none => none
          | some our =>
              some ((rules.filter fun rule => coversUs rule our.1).flatMap ruleSrcs)

/-! ## Peers -/

def hexVal (c : UInt8) : Option UInt8 :=
  if 48 ≤ c ∧ c ≤ 57 then some (c - 48)
  else if 97 ≤ c ∧ c ≤ 102 then some (c - 97 + 10)
  else if 65 ≤ c ∧ c ≤ 70 then some (c - 65 + 10)
  else none

/-- Pairs of hex digits as bytes. -/
def hexBytes : Bytes → Option Bytes
  | hi :: lo :: rest => do
      let h ← hexVal hi
      let l ← hexVal lo
      let bs ← hexBytes rest
      return ((h <<< 4) ||| l) :: bs
  | _ => some []

/-- `"<type>:<64-hex>"`, or bare hex, as 32 bytes. -/
def parseKeyedHex (s : Bytes) : Option Key :=
  let hex := (splitOn 58 s).getLastD s
  if hex.length ≠ 64 then none
  else (hexBytes hex).bind (tryInto 32)

def parsePeer (p : PeerT) : Option PeerInfo := do
  let nodeKey ← p.key.bind parseKeyedHex
  let discoKey ← p.discoKey.bind parseKeyedHex
  let addresses := (p.addresses.getD []).map fun a => (splitOn 47 a).headD []
  return {
    nodeKey := nodeKey, discoKey := discoKey
    tailscaleIp := addresses.find? fun a => (ascii "100.").isPrefixOf a
    endpoints := p.endpoints.getD []
    hostname := (p.hostinfo.bind HostinfoT.hostname).getD (ascii "?")
    mappingVaries := (p.hostinfo.bind HostinfoT.netInfo).bind NetInfoT.mappingVariesByDestIp }

def parsePeers (S : Serde) (raw : Bytes) : Except String (List PeerInfo) :=
  match S.mapResp raw with
  | none => .error "parse MapResponse peers"
  | some m => .ok ((m.peers.getD []).filterMap parsePeer)

end TailscaleRust.Core.Peers
