import TailscaleRust.Core.Peers
import TailscaleRust.Lib.Checked

/-!
# The packet filter with its checks

`parse_cidr` and `parse_allowed_srcs` once more, with the subtraction and the
shift that make a mask under their checks. The parsers of the standard
library stay as they are.
-/

namespace TailscaleRust.Strict

open TailscaleRust.Lib TailscaleRust.Lib.Checked TailscaleRust.Core
open TailscaleRust.Core.Peers (Cidr FilterRule Serde NetPortRange parseIpv4 parseU32
  splitOnce star cidrContains)

/-- `if bits == 0 { 0 } else { u32::MAX << (32 - bits.min(32)) }`. -/
def maskOf (bits : UInt32) : Checked UInt32 := do
  if bits = 0 then return 0
  else shlU32 0xffffffff (← subU32 32 (min bits 32))

def parseCidr (s : Bytes) : Checked (Option Cidr) := do
  let parts : Option (Bytes × UInt32) :=
    match splitOnce 47 s with
    | some (i, b) => (parseU32 b).map fun bits => (i, bits)
    | none => some (s, 32)
  match parts with
  | none => return none
  | some (ip, bits) =>
      match parseIpv4 ip with
      | none => return none
      | some v => return some (u32be v.1 0, ← maskOf bits)

/-- `any` over the destinations stops at the first that covers us. -/
def coversAny (our : UInt32) : List Bytes → Checked Bool
  | [] => return false
  | ip :: rest => do
      if ip = star then return true
      else if cidrContains (← parseCidr ip) our then return true
      else coversAny our rest

def ruleSrcs : List Bytes → Checked (List Cidr)
  | [] => return []
  | s :: rest => do
      if s = star then return (0, 0) :: (← ruleSrcs rest)
      else
        match ← parseCidr s with
        | some c => return c :: (← ruleSrcs rest)
        | none => ruleSrcs rest

/-- The loop over the rules. -/
def allowedLoop (our : UInt32) : List FilterRule → Checked (List Cidr)
  | [] => return []
  | rule :: rest => do
      if ← coversAny our ((rule.dstPorts.getD []).filterMap NetPortRange.ip) then
        return (← ruleSrcs (rule.srcIps.getD [])) ++ (← allowedLoop our rest)
      else allowedLoop our rest

def parseAllowedSrcs (S : Serde) (raw ourIp : Bytes) : Checked (Option (List Cidr)) := do
  match S.filterResp raw with
  | none => return none
  | some f =>
      match f.packetFilter with
      | none => return none
      | some rules =>
          match ← parseCidr (ourIp ++ ascii "/32") with
          | none => return none
          | some our => return some (← allowedLoop our.1 rules)

end TailscaleRust.Strict
