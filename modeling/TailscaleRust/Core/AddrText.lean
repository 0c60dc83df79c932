import TailscaleRust.Core.Net
import TailscaleRust.Lib.Numerals

/-!
# Socket addresses as text

`str::parse` for `SocketAddr`, after the parser of the standard library: a
reader takes something off the front of the text, and the whole text has to
be used up. Readers that fail leave the text as it was, so an alternative
starts where they did.
-/

namespace TailscaleRust.Core.AddrText

open TailscaleRust.Lib TailscaleRust.Core

def readGivenChar (c : UInt8) : Bytes → Option Bytes
  | [] => none
  | b :: rest => if b = c then some rest else none

section Readers

variable {α : Type}

/-- The separator in front of every part but the first. -/
def readSeparator (sep : UInt8) (index : Nat) (inner : Bytes → Option (α × Bytes)) (s : Bytes) :
    Option (α × Bytes) :=
  if 0 < index then (readGivenChar sep s).bind inner else inner s

end Readers

/-- One part of a dotted quad: three digits at most, none of them a
superfluous zero. -/
def readOctet (s : Bytes) : Option (UInt8 × Bytes) :=
  (readNumber 10 (some 3) false 255 s).map fun p => (UInt8.ofNat p.1, p.2)

theorem length_four (a b c d : UInt8) : [a, b, c, d].length = 4 := rfl

def readIpv4Addr (s : Bytes) : Option (Ipv4Addr × Bytes) := do
  let (a, s) ← readSeparator 46 0 readOctet s
  let (b, s) ← readSeparator 46 1 readOctet s
  let (c, s) ← readSeparator 46 2 readOctet s
  let (d, s) ← readSeparator 46 3 readOctet s
  return (⟨[a, b, c, d], length_four a b c d⟩, s)

/-- One part of an IPv6 address. -/
def readGroup (s : Bytes) : Option (UInt16 × Bytes) :=
  (readNumber 16 (some 4) true 65535 s).map fun p => (UInt16.ofNat p.1, p.2)

/-- The parts in front of the text, as many as are left to fill, and whether
an IPv4 address stands at their end. It takes two parts. -/
def readGroups : Nat → Nat → Bytes → List UInt16 × Bool × Bytes
  | 0, _, s => ([], false, s)
  | left + 1, i, s =>
      match if 0 < left then readSeparator 58 i readIpv4Addr s else none with
      | some (v4, s) => ([u16be v4.1 0, u16be v4.1 2], true, s)
      | none =>
          match readSeparator 58 i readGroup s with
          | none => ([], false, s)
          | some (g, s) =>
              let (gs, v4, s) := readGroups left (i + 1) s
              (g :: gs, v4, s)

/-- Eight parts, or the parts before and after a `::`. -/
def readIpv6Addr (s : Bytes) : Option (Ipv6Addr × Bytes) := do
  let (head, headV4, s) := readGroups 8 0 s
  if head.length = 8 then
    let ip ← tryInto 16 (head.flatMap be16)
    return (ip, s)
  else if headV4 then none
  else
    let s ← readGivenChar 58 s
    let s ← readGivenChar 58 s
    let (tail, _, s) := readGroups (8 - (head.length + 1)) 0 s
    let gap : List UInt16 := List.replicate (8 - head.length - tail.length) 0
    let ip ← tryInto 16 ((head ++ gap ++ tail).flatMap be16)
    return (ip, s)

def readPort (s : Bytes) : Option (UInt16 × Bytes) := do
  let s ← readGivenChar 58 s
  let (port, s) ← readNumber 10 none true 65535 s
  return (UInt16.ofNat port, s)

def readScopeId (s : Bytes) : Option (UInt32 × Bytes) := do
  let s ← readGivenChar 37 s
  let (scope, s) ← readNumber 10 none true 4294967295 s
  return (UInt32.ofNat scope, s)

def readSocketAddrV4 (s : Bytes) : Option (SocketAddr × Bytes) := do
  let (ip, s) ← readIpv4Addr s
  let (port, s) ← readPort s
  return (.v4 ip port, s)

def readSocketAddrV6 (s : Bytes) : Option (SocketAddr × Bytes) := do
  let s ← readGivenChar 91 s
  let (ip, s) ← readIpv6Addr s
  let (scope, s) := (readScopeId s).getD (0, s)
  let s ← readGivenChar 93 s
  let (port, s) ← readPort s
  return (.v6 ip port 0 scope, s)

def readSocketAddr (s : Bytes) : Option (SocketAddr × Bytes) :=
  (readSocketAddrV4 s).or (readSocketAddrV6 s)

/-- `str::parse::<SocketAddr>`. -/
def parseSocketAddr (s : Bytes) : Option SocketAddr :=
  match readSocketAddr s with
  | some (a, []) => some a
  | _ => none

example : parseSocketAddr (ascii "192.168.1.20:41641") =
    some (.v4 ⟨[192, 168, 1, 20], rfl⟩ 41641) :=
  by decide

example : parseSocketAddr (ascii "192.168.01.20:41641") = none := by decide

example : parseSocketAddr (ascii "[fe80::1:0a%3]:41641") =
    some (.v6 ⟨[0xfe, 0x80, 0, 0, 0, 0, 0, 0, 0, 0, 0, 0, 0, 1, 0, 10], rfl⟩ 41641 0 3) := by
  decide

end TailscaleRust.Core.AddrText
