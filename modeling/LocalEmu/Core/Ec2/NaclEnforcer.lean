import Mathlib.Data.List.Sort
import LocalEmu.Base.Netfilter

/-!
# Network ACLs

`_build_iptables_rules` turns the entries of a network ACL into a chain: one
rule for each entry of the direction, in the order of the rule numbers, and a
default that drops.
-/

namespace LocalEmu.Ec2

open Netfilter

/-- Where an entry records its port range: in the two flat attributes, in a
    dict under `from_port` and `to_port` or `from` and `to`, or in an object. -/
inductive PortRange
  | flat (first last : Option Nat)
  | dict (first last : Option Nat)
  | object (first last : Option Nat)
  deriving DecidableEq

/-- An entry of a network ACL. An entry with an IPv6 range has no `cidr_block`. -/
structure NaclEntry where
  ruleNumber : Int
  egress : Bool
  ruleAction : String
  protocol : Int
  cidrBlock : Option IPv4Network
  portRange : PortRange

/-- The protocols a rule distinguishes. -/
inductive RuleProtocol
  | all
  | tcp
  | udp
  | icmp
  deriving DecidableEq

/-- The name `iptables` knows a protocol by. -/
def RuleProtocol.name : RuleProtocol → String
  | all => "all"
  | tcp => "tcp"
  | udp => "udp"
  | icmp => "icmp"

/-- `_PROTO_MAP.get(protocol, "all")`. -/
def protoMap (protocol : Int) : RuleProtocol :=
  if protocol = -1 then .all
  else if protocol = 6 then .tcp
  else if protocol = 17 then .udp
  else if protocol = 1 then .icmp
  else .all

/-- The network of all addresses, `0.0.0.0/0`. -/
def anyAddress : IPv4Network := ⟨0, 0, Nat.zero_le _, rfl⟩

/-- A port an `or` chain keeps: zero is false. -/
def truthyPort (port : Option Nat) : Option Nat := port.filter fun n => n ≠ 0

/-- The bounds of the port range as the loop reads them. -/
def PortRange.bounds : PortRange → Option Nat × Option Nat
  | flat first last => (first, last)
  | dict first last => (truthyPort first, truthyPort last)
  | object first last => (first, last)

variable (egress : Bool) (entries : List NaclEntry) (entry : NaclEntry)

/-- The destination ports of a rule. -/
def portFlags : List Flag :=
  if protoMap entry.protocol = .tcp ∨ protoMap entry.protocol = .udp then
    match entry.portRange.bounds with
    | (some first, some last) => [.destinationPort first last]
    | _ => []
  else []

def remoteFlag (cidr : IPv4Network) : Flag :=
  if egress then .destination cidr else .source cidr

def naclChain : String := if egress then "NACL_OUT" else "NACL_IN"

/-- The rule of an entry. -/
def entryRule : Netfilter.Rule where
  chain := naclChain egress
  flags :=
    (if protoMap entry.protocol = .all then [] else [.protocol (protoMap entry.protocol).name]) ++
      [remoteFlag egress (entry.cidrBlock.getD anyAddress)] ++ portFlags entry
  target := if entry.ruleAction = "allow" then .accept else .drop

/-- The entries of a direction, without the default entry. -/
def directionEntries (egress : Bool) : List NaclEntry :=
  entries.filter fun entry => entry.egress = egress ∧ entry.ruleNumber < 32767

/-- The chain of a direction. -/
def buildIptablesRules (egress : Bool) : List Netfilter.Rule :=
  ((directionEntries entries egress).insertionSort fun a b => a.ruleNumber ≤ b.ruleNumber).map
      (entryRule egress) ++
    [⟨naclChain egress, [], .drop⟩]

end LocalEmu.Ec2
