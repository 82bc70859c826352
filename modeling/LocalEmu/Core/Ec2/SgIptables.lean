import LocalEmu.Core.Ec2.AddressIndex
import LocalEmu.Core.Ec2.NaclEnforcer

/-!
# Security Groups

`_build_chain_rules` turns the rules of security groups into a chain that
accepts: a line for established connections, for loopback and for name
lookups, a line for each address range of each rule, and a default that drops.
A source group stands for the addresses of its members in the address index.
`_insert_log_directives` puts lines that record the packet before each line
that decides.

The order in which a set of addresses is iterated is not fixed by the
language, so it is a parameter.
-/

namespace LocalEmu.Ec2

open Netfilter

/-- A range of a rule: the dict with its `CidrIp` or its `CidrIpv6`. -/
structure IpRange where
  cidrIp : Option IPv4Network := none
  cidrIpv6 : Option String := none

/-- A rule of a security group. A source group is the `GroupId` of its reference. -/
structure SgRule where
  ipProtocol : Option String := none
  fromPort : Option Int := none
  toPort : Option Int := none
  ipRanges : List IpRange := []
  ipRange : Option IpRange := none
  sourceGroups : List (Option String) := []
  sourceGroup : Option (Option String) := none

/-- An order in which sets of addresses are iterated. -/
structure SetOrder where
  toList : Finset IPv4Address → List IPv4Address
  mem_toList : ∀ s a, a ∈ toList s ↔ a ∈ s

/-- `LOCALEMU_VPC_IP_PINNING`, and the address index unless getting it raises. -/
structure Environment where
  ipPinning : Bool
  addressIndex : Option AddressIndex
  order : SetOrder

namespace SgRule

variable (rule : SgRule)

/-- The protocol of a rule, any by default. -/
def proto : String :=
  match rule.ipProtocol with
  | none => "-1"
  | some "" => "-1"
  | some proto => proto

/-- The IPv4 ranges of a rule, in the plural and the singular attribute. -/
def cidrs : List IPv4Network :=
  (rule.ipRanges ++ rule.ipRange.toList).filterMap IpRange.cidrIp

def groups : List (Option String) := rule.sourceGroups ++ rule.sourceGroup.toList

def groupIds : List String :=
  rule.groups.filterMap fun group => group.filter fun sgId => sgId ≠ ""

end SgRule

def protoName (proto : String) : String :=
  if proto = "6" then "tcp"
  else if proto = "17" then "udp"
  else if proto = "1" then "icmp"
  else proto

/-- `address/32`. -/
def hostRange (ip : IPv4Address) : IPv4Network := IPv4Network.ofAddress ip 32 le_rfl

variable (env : Environment) (chain : String) (isEgress : Bool) (rule : SgRule)

/-- The members of the source groups, one range for each address. -/
def memberCidrs : List IPv4Network :=
  if env.ipPinning then
    match env.addressIndex with
    | none => []
    | some index =>
      rule.groupIds.flatMap fun sgId =>
        (env.order.toList (index.getIpsForSg sgId)).map hostRange
  else []

/-- The ranges of a rule. Without any, a rule that refers to groups matches
    nothing, and one that does not matches every address. -/
def ruleCidrs : List IPv4Network :=
  let cidrs := rule.cidrs ++ memberCidrs env rule
  if cidrs = [] then
    if env.ipPinning ∧ rule.groups ≠ [] then [] else [anyAddress]
  else cidrs

/-- The flags of a rule besides the remote address: before and after it. -/
def protocolFlags : List Flag × List Flag :=
  if rule.proto = "-1" then ([], [])
  else if protoName rule.proto = "icmp" then
    match rule.fromPort with
    | none => ([.protocol "icmp"], [])
    | some type =>
      if type = -1 then ([.protocol "icmp"], []) else ([.protocol "icmp"], [.icmpType type])
  else
    match rule.fromPort, rule.toPort with
    | some first, some last =>
      if first ≠ -1 ∧ last ≠ -1 then
        ([.protocol (protoName rule.proto)], [.destinationPort first last])
      else ([.protocol (protoName rule.proto)], [])
    | _, _ => ([.protocol (protoName rule.proto)], [])

def ruleLine (cidr : IPv4Network) : Netfilter.Rule where
  chain := chain
  flags := (protocolFlags rule).1 ++ [remoteFlag isEgress cidr] ++ (protocolFlags rule).2
  target := .accept

/-- The lines of a rule. -/
def ruleLines : List Netfilter.Rule :=
  (ruleCidrs env rule).map (ruleLine chain isEgress rule)

def standingLines : List Netfilter.Rule :=
  [⟨chain, [.state [.established, .related]], .accept⟩,
    ⟨chain, [if isEgress then .outInterface "lo" else .inInterface "lo"], .accept⟩,
    ⟨chain, [.protocol "udp", .destinationPort 53 53], .accept⟩]

/-- The chain. -/
def buildChainRules (sgRules : List SgRule) (chain : String)
    (isEgress : Bool) : List Netfilter.Rule :=
  standingLines chain isEgress ++ sgRules.flatMap (ruleLines env chain isEgress) ++
    [⟨chain, [], .drop⟩]

/-! ### Records -/

def defaultNflogGroup : Nat := 42

def quote : String := String.singleton (Char.ofNat 34)

/-- The last eight characters of an instance id. -/
def shortInstanceId (instanceId : String) : String :=
  String.ofList (instanceId.toList.drop (instanceId.length - 8))

def actionShort (target : Target) : Option String :=
  match target with
  | .accept => some "A"
  | .drop => some "D"
  | .log _ _ => none
  | .nflog _ _ => none

def flowLogText (instanceId chain action : String) : String :=
  quote ++ "LE-FL:" ++ shortInstanceId instanceId ++ ":" ++
    (if chain = "SG_IN" then "I" else "O") ++ ":" ++ action ++ ": " ++ quote

/-- The records before a line. -/
def recordLines (instanceId chain : String) (rule : Netfilter.Rule) : List Netfilter.Rule :=
  match actionShort rule.target with
  | none => []
  | some action =>
    [{ rule with target := .nflog defaultNflogGroup (flowLogText instanceId chain action) },
      { rule with target := .log (flowLogText instanceId chain action) 4 }]

/-- The chain with its records. -/
def insertLogDirectives (rules : List Netfilter.Rule) (chain : String)
    (instanceId : Option String) : List Netfilter.Rule :=
  match instanceId with
  | none => rules
  | some "" => rules
  | some instanceId => rules.flatMap fun rule => recordLines instanceId chain rule ++ [rule]

end LocalEmu.Ec2
