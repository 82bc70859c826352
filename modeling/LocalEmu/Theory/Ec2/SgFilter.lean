import Mathlib.Data.Finset.Sort
import LocalEmu.Theory.Ec2.IndexConsistency
import LocalEmu.Theory.Ec2.NaclFilter
import LocalEmu.Core.Ec2.SgIptables

/-!
# The Filter of Security Groups

The chain of security groups accepts a new packet when a line of one of the
rules matches it. The lines of a rule match what the rule is about, and more in
two cases: a rule with neither an IPv4 range nor a source group, such as one
with IPv6 ranges only, matches every remote address, and an ICMP rule matches
every code. The chain is right about a packet exactly when another rule allows
every packet these cases let in.
-/

namespace LocalEmu.Ec2

open List Option

open Netfilter

/-- The number is missing or `-1`. -/
def isAny (n : Option Int) : Prop := n = none ∨ n = some (-1)

namespace SgRule

variable (rule : SgRule)

/-- The rule is for TCP, UDP or ICMP, under its name or its number. -/
def IsTcp : Prop := rule.proto = "tcp" ∨ rule.proto = "6"

def IsUdp : Prop := rule.proto = "udp" ∨ rule.proto = "17"

def IsIcmp : Prop := rule.proto = "icmp" ∨ rule.proto = "1"

/-- The protocol of a rule is any or one of the three. -/
def KnownProtocol : Prop :=
  rule.proto = "-1" ∨ rule.IsTcp ∨ rule.IsUdp ∨ rule.IsIcmp

variable (index : AddressIndex) (isEgress : Bool) (p : Packet)

def HasProtocol : Prop :=
  rule.proto = "-1" ∨ (rule.IsTcp ∧ p.protocol = 6) ∨ (rule.IsUdp ∧ p.protocol = 17) ∨
    (rule.IsIcmp ∧ p.protocol = 1)

def HasPort (port : Nat) : Prop :=
  isAny rule.fromPort ∨ isAny rule.toPort ∨
    ∃ first last, rule.fromPort = some first ∧ rule.toPort = some last ∧ first ≤ port ∧
      port ≤ last

/-- The ICMP type is the one of the rule, if it has one. -/
def HasType (type : Nat) : Prop :=
  isAny rule.fromPort ∨ rule.fromPort = some (type : Int)

/-- The ICMP code is the one of the rule, if it has one. -/
def HasCode (code : Nat) : Prop :=
  isAny rule.toPort ∨ rule.toPort = some (code : Int)

/-- The remote address is in an IPv4 range of the rule, or an interface with one
    of its source groups has it. -/
def HasRemote (remote : IPv4Address) : Prop :=
  (∃ range ∈ rule.cidrs, range.contains remote = true) ∨
    ∃ sgId ∈ rule.groupIds, ∃ entry ∈ index.enis.values, sgId ∈ entry.sgIds ∧
      remote ∈ entry.allIps

/-- The rule is about the packet. -/
def Allows : Prop :=
  rule.HasProtocol p ∧ (rule.IsTcp ∨ rule.IsUdp → rule.HasPort p.destinationPort) ∧
    (rule.IsIcmp → rule.HasType p.icmpType ∧ rule.HasCode p.icmpCode) ∧
    rule.HasRemote index (remoteAddress isEgress p)

/-- The rule names neither an IPv4 range nor a source group. -/
def NoSource : Prop := rule.cidrs = [] ∧ rule.groups = []

/-- A line of the rule matches the packet: the ICMP code is not asked for, and a
    rule without a source asks for no address. -/
def Covers : Prop :=
  rule.HasProtocol p ∧ (rule.IsTcp ∨ rule.IsUdp → rule.HasPort p.destinationPort) ∧
    (rule.IsIcmp → rule.HasType p.icmpType) ∧
    (rule.NoSource ∨ rule.HasRemote index (remoteAddress isEgress p))

/-- A line of the rule matches the packet by mistake. -/
def Widened : Prop :=
  rule.Covers index isEgress p ∧ (rule.NoSource ∨ (rule.IsIcmp ∧ ¬ rule.HasCode p.icmpCode))

theorem covers_of_allows (h : rule.Allows index isEgress p) : rule.Covers index isEgress p :=
  ⟨h.1, h.2.1, fun hicmp => (h.2.2.1 hicmp).1, .inr h.2.2.2⟩

theorem covers_not_allows_iff : rule.Covers index isEgress p ∧ ¬ rule.Allows index isEgress p ↔
      rule.Widened index isEgress p := by
  refine and_congr_right fun hcovers => ?_
  constructor
  · intro hnot
    by_contra hnone
    rw [not_or] at hnone
    refine hnot ⟨hcovers.1, hcovers.2.1, fun hicmp => ⟨hcovers.2.2.1 hicmp, ?_⟩,
      hcovers.2.2.2.resolve_left hnone.1⟩
    by_contra hcode
    exact hnone.2 ⟨hicmp, hcode⟩
  · rintro (⟨hcidrs, hgroups⟩ | ⟨hicmp, hcode⟩) hallows
    · rcases hallows.2.2.2 with ⟨range, hrange, _⟩ | ⟨sgId, hsgId, _⟩
      · rw [hcidrs] at hrange
        exact absurd hrange not_mem_nil
      · rw [groupIds, hgroups] at hsgId
        exact absurd hsgId not_mem_nil
    · exact hcode (hallows.2.2.1 hicmp).2

end SgRule

/-! ### The lines of a rule -/

variable (index : AddressIndex)

/-- The environment of a process with pinned addresses and a reachable index. -/
def pinned (order : SetOrder) : Environment := ⟨true, some index, order⟩

theorem exists_ruleCidrs_iff (hs : index.Consistent) (order : SetOrder) (rule : SgRule)
    (remote : IPv4Address) :
    (∃ cidr ∈ ruleCidrs (pinned index order) rule, cidr.contains remote = true) ↔
      rule.NoSource ∨ rule.HasRemote index remote := by
  have hmembers : ∀ cidr, cidr ∈ memberCidrs (pinned index order) rule ↔
      ∃ sgId ∈ rule.groupIds, ∃ ip ∈ index.getIpsForSg sgId, hostRange ip = cidr := by
    intro cidr
    simp only [memberCidrs, pinned, if_true, List.mem_flatMap, List.mem_map, order.mem_toList]
  -- The ranges that were collected before the fallback.
  have hcollected : (∃ cidr ∈ rule.cidrs ++ memberCidrs (pinned index order) rule,
      cidr.contains remote = true) ↔ rule.HasRemote index remote := by
    simp only [List.mem_append, or_and_right, exists_or, SgRule.HasRemote]
    refine or_congr Iff.rfl ?_
    constructor
    · rintro ⟨cidr, hcidr, hcontains⟩
      rcases (hmembers _).mp hcidr with ⟨sgId, hsgId, ip, hip, rfl⟩
      rw [hostRange, IPv4Network.contains_ofAddress] at hcontains
      rw [← hcontains, AddressIndex.mem_getIpsForSg _ hs] at hip
      exact ⟨sgId, hsgId, hip⟩
    · rintro ⟨sgId, hsgId, hentry⟩
      refine ⟨hostRange remote, (hmembers _).mpr ⟨sgId, hsgId, remote,
        (AddressIndex.mem_getIpsForSg _ hs _ _).mpr hentry, rfl⟩, ?_⟩
      rw [hostRange, IPv4Network.contains_ofAddress]
  rw [ruleCidrs]
  by_cases hempty : rule.cidrs ++ memberCidrs (pinned index order) rule = []
  · rw [hempty] at hcollected
    have hnone : ¬ rule.HasRemote index remote := by
      rw [← hcollected]
      simp
    have hcidrs : rule.cidrs = [] := (List.append_eq_nil_iff.mp hempty).1
    simp only [hempty, if_true]
    by_cases hgroups : rule.groups = []
    · rw [if_neg (fun hc => hc.2 hgroups)]
      exact ⟨fun _ => .inl ⟨hcidrs, hgroups⟩, fun _ => ⟨anyAddress, List.mem_singleton_self _,
        contains_anyAddress _⟩⟩
    · have hpinned : (pinned index order).ipPinning = true ∧ rule.groups ≠ [] := ⟨rfl, hgroups⟩
      rw [if_pos hpinned]
      constructor
      · rintro ⟨cidr, hcidr, _⟩
        exact absurd hcidr List.not_mem_nil
      · rintro (hsource | hremote)
        · exact absurd hsource.2 hgroups
        · exact absurd hremote hnone
  · simp only [hempty, if_false]
    rw [hcollected]
    refine (or_iff_right_of_imp fun hsource => ?_).symm
    -- A rule without a source has collected nothing.
    have hnil : memberCidrs (pinned index order) rule = [] := by
      rw [List.eq_nil_iff_forall_not_mem]
      intro cidr hcidr
      rcases (hmembers _).mp hcidr with ⟨sgId, hsgId, _⟩
      rw [SgRule.groupIds, hsource.2] at hsgId
      exact absurd hsgId List.not_mem_nil
    exact absurd (by rw [hsource.1, hnil]; rfl) hempty

variable (rule : SgRule)

def FlagsMatch (p : Packet) : Prop :=
  (protocolFlags rule).1.all (Flag.matches p) = true ∧
    (protocolFlags rule).2.all (Flag.matches p) = true

theorem flags_any_iff (h : rule.proto = "-1") (p : Packet) : FlagsMatch rule p := by
  simp [FlagsMatch, protocolFlags, h]

theorem flags_icmp_iff (h : rule.IsIcmp) (p : Packet) :
    FlagsMatch rule p ↔ p.protocol = 1 ∧ rule.HasType p.icmpType := by
  have hname : protoName rule.proto = "icmp" := by rcases h with h | h <;> rw [h] <;> decide
  have hany : ¬ rule.proto = "-1" := by rcases h with h | h <;> rw [h] <;> decide
  have hproto : (Flag.protocol "icmp").matches p = true ↔ p.protocol = 1 := by
    simp only [Flag.matches, protocolNumber_icmp, decide_eq_true_eq, some.injEq]
    exact eq_comm
  rw [FlagsMatch, protocolFlags, if_neg hany, if_pos hname, SgRule.HasType, isAny]
  rcases rule.fromPort with _ | type
  · simp [hproto]
  · by_cases hminus : type = -1
    · simp [hminus, hproto]
    · simp only [hminus, if_false, all_cons, all_nil, Bool.and_true, hproto]
      simp [Flag.matches, hminus]

theorem flags_ports_iff (name : String) (number : Nat) (hname : protoName rule.proto = name)
    (hany : rule.proto ≠ "-1") (hicmp : name ≠ "icmp")
    (hnumber : protocolNumber name = some number) (p : Packet) :
    FlagsMatch rule p ↔ p.protocol = number ∧ rule.HasPort p.destinationPort := by
  have hproto : (Flag.protocol name).matches p = true ↔ p.protocol = number := by
    simp only [Flag.matches, hnumber, decide_eq_true_eq, some.injEq]
    exact eq_comm
  rw [FlagsMatch, protocolFlags, if_neg hany, hname, if_neg hicmp, SgRule.HasPort, isAny, isAny]
  rcases rule.fromPort with _ | first
  · simp [hproto]
  · rcases rule.toPort with _ | last
    · simp [hproto]
    · by_cases hf : first = -1
      · simp [hf, hproto]
      · by_cases hl : last = -1
        · simp [hl, hproto]
        · simp only [hf, hl, ne_eq, not_false_eq_true, and_self, if_true, all_cons,
            all_nil, Bool.and_true, hproto]
          simp [Flag.matches, hf, hl]

theorem flagsMatch_iff (hknown : rule.KnownProtocol) (p : Packet) :
    FlagsMatch rule p ↔ rule.HasProtocol p ∧
      (rule.IsTcp ∨ rule.IsUdp → rule.HasPort p.destinationPort) ∧
      (rule.IsIcmp → rule.HasType p.icmpType) := by
  rw [SgRule.HasProtocol]
  rcases hknown with hany | htcp | hudp | hicmp
  · have h := flags_any_iff _ hany p
    simp [h, hany, SgRule.IsTcp, SgRule.IsUdp, SgRule.IsIcmp]
  · have h := flags_ports_iff _ "tcp" 6 (by rcases htcp with h | h <;> rw [h] <;> decide)
      (by rcases htcp with h | h <;> rw [h] <;> decide) (by decide) (by decide) p
    rw [h]
    rcases htcp with htcp | htcp <;> simp [htcp, SgRule.IsTcp, SgRule.IsUdp, SgRule.IsIcmp]
  · have h := flags_ports_iff _ "udp" 17 (by rcases hudp with h | h <;> rw [h] <;> decide)
      (by rcases hudp with h | h <;> rw [h] <;> decide) (by decide) (by decide) p
    rw [h]
    rcases hudp with hudp | hudp <;> simp [hudp, SgRule.IsTcp, SgRule.IsUdp, SgRule.IsIcmp]
  · rw [flags_icmp_iff _ hicmp p]
    rcases hicmp with hicmp | hicmp <;>
      simp [hicmp, SgRule.IsTcp, SgRule.IsUdp, SgRule.IsIcmp]

/-- What the lines of a rule match. -/
theorem covers_rule_iff (hs : index.Consistent) (order : SetOrder) (rule : SgRule)
    (hknown : rule.KnownProtocol) (chain : String) (isEgress : Bool)
    (p : Packet) :
    (∃ line ∈ ruleLines (pinned index order) chain isEgress rule, line.matches p = true) ↔
      rule.Covers index isEgress p := by
  have hline : ∀ cidr, (ruleLine chain isEgress rule cidr).matches p = true ↔
      FlagsMatch rule p ∧ cidr.contains (remoteAddress isEgress p) = true := by
    intro cidr
    have hremote : (remoteFlag isEgress cidr).matches p =
        cidr.contains (remoteAddress isEgress p) := by
      cases isEgress <;> rfl
    rw [Netfilter.Rule.matches, ruleLine, all_append, all_append, Bool.and_eq_true,
      Bool.and_eq_true, all_cons, all_nil, Bool.and_true, hremote, FlagsMatch]
    tauto
  rw [ruleLines, SgRule.Covers, ← exists_ruleCidrs_iff _ hs]
  simp only [List.mem_map, exists_exists_and_eq_and, hline, flagsMatch_iff _ hknown p]
  constructor
  · rintro ⟨cidr, hcidr, ⟨hproto, hports, htype⟩, hcontains⟩
    exact ⟨hproto, hports, htype, cidr, hcidr, hcontains⟩
  · rintro ⟨hproto, hports, htype, cidr, hcidr, hcontains⟩
    exact ⟨cidr, hcidr, ⟨hproto, hports, htype⟩, hcontains⟩

/-! ### The chain -/

/-- A new packet that is neither on loopback nor a name lookup. -/
structure Judged (isEgress : Bool) (p : Packet) : Prop where
  isNew : p.state = .new
  remote : (if isEgress then p.outInterface else p.inInterface) ≠ "lo"
  noLookup : ¬ (p.protocol = 17 ∧ p.destinationPort = 53)

theorem standingLines_not_match (chain : String) (isEgress : Bool) (p : Packet)
    (h : Judged isEgress p) : ∀ line ∈ standingLines chain isEgress, line.matches p = false := by
  intro line hline
  simp only [standingLines, mem_cons, not_mem_nil, or_false] at hline
  rcases hline with rfl | rfl | rfl
  · simp [Netfilter.Rule.matches, Flag.matches, h.isNew]
  · have hremote := h.remote
    cases isEgress
    · simpa [Netfilter.Rule.matches, Flag.matches] using hremote
    · simpa [Netfilter.Rule.matches, Flag.matches] using hremote
  · have hlookup := h.noLookup
    simp only [Netfilter.Rule.matches, all_cons, all_nil, Bool.and_true, Flag.matches,
      protocolNumber_udp, Bool.and_eq_false_imp, decide_eq_true_eq, decide_eq_false_iff_not,
      some.injEq]
    intro hproto hport
    exact hlookup ⟨hproto.symm, by omega⟩

/-- What the chain accepts. -/
theorem verdict_buildChainRules (hs : index.Consistent) (order : SetOrder) (rules : List SgRule)
    (hknown : ∀ rule ∈ rules, rule.KnownProtocol)
    (chain : String) (isEgress : Bool) (p : Packet) (hp : Judged isEgress p) :
    verdict p (buildChainRules (pinned index order) rules chain isEgress) = some .accept ↔
      ∃ rule ∈ rules, rule.Covers index isEgress p := by
  have haccept : ∀ line ∈ rules.flatMap (ruleLines (pinned index order) chain isEgress),
      line.target = .accept := by
    intro line hline
    rcases mem_flatMap.mp hline with ⟨rule, _, hrule⟩
    rcases mem_map.mp hrule with ⟨cidr, _, rfl⟩
    rfl
  have hmatch : (∃ line ∈ rules.flatMap (ruleLines (pinned index order) chain isEgress),
      line.matches p = true) ↔ ∃ rule ∈ rules, rule.Covers index isEgress p := by
    constructor
    · rintro ⟨line, hline, hm⟩
      rcases mem_flatMap.mp hline with ⟨rule, hrule, hmem⟩
      exact ⟨rule, hrule, (covers_rule_iff _ hs _ _ (hknown _ hrule) _ _ p).mp ⟨line, hmem, hm⟩⟩
    · rintro ⟨rule, hrule, hcovers⟩
      rcases (covers_rule_iff _ hs _ _ (hknown _ hrule) _ _ p).mpr hcovers with ⟨line, hmem, hm⟩
      exact ⟨line, mem_flatMap.mpr ⟨rule, hrule, hmem⟩, hm⟩
  rw [buildChainRules, verdict_append, verdict_append,
    verdict_eq_none p _ (standingLines_not_match _ _ p hp), verdict_of_accepting p _ haccept]
  by_cases hcovers : ∃ rule ∈ rules, rule.Covers index isEgress p
  · rw [if_pos (hmatch.mpr hcovers)]
    simp [hcovers]
  · rw [if_neg fun hc => hcovers (hmatch.mp hc)]
    simp only [hcovers, iff_false]
    simp [verdict, Netfilter.Rule.matches, Target.verdict]

/-- Records do not change the verdict. -/
theorem verdict_insertLogDirectives (rules : List Netfilter.Rule) (chain : String)
    (instanceId : Option String) (p : Packet) :
    verdict p (insertLogDirectives rules chain instanceId) = verdict p rules := by
  have hrecords : ∀ (id : String) (rule : Netfilter.Rule), ∀ r ∈ recordLines id chain rule,
      r.target.verdict = none := by
    intro id rule r hr
    rw [recordLines] at hr
    rcases haction : actionShort rule.target with _ | action
    · rw [haction] at hr
      exact absurd hr not_mem_nil
    · simp only [haction, mem_cons, not_mem_nil, or_false] at hr
      rcases hr with rfl | rfl
      · rfl
      · rfl
  unfold insertLogDirectives
  split
  · rfl
  · rfl
  · exact verdict_flatMap_record p _ _ (hrecords _)

/-- The chain is right about a packet, and stays so with its records, if and
    only if another rule allows every packet that a rule lets in by mistake. -/
theorem sg_filter_iff (ops : List Operation) (order : SetOrder) (rules : List SgRule)
    (hknown : ∀ rule ∈ rules, rule.KnownProtocol) (chain : String) (isEgress : Bool)
    (p : Packet) (hp : Judged isEgress p) :
    ((verdict p (buildChainRules (pinned (AddressIndex.run ops) order) rules chain isEgress) =
        some .accept ↔
        ∃ rule ∈ rules, rule.Allows (AddressIndex.run ops) isEgress p) ∧
      ∀ (instanceId : Option String) (q : Packet),
        verdict q (insertLogDirectives
          (buildChainRules (pinned (AddressIndex.run ops) order) rules chain isEgress) chain
          instanceId) =
        verdict q (buildChainRules (pinned (AddressIndex.run ops) order) rules chain isEgress)) ↔
      ∀ rule ∈ rules, rule.Widened (AddressIndex.run ops) isEgress p →
        ∃ other ∈ rules, other.Allows (AddressIndex.run ops) isEgress p := by
  rw [and_iff_left fun instanceId q => verdict_insertLogDirectives _ _ _ q,
    verdict_buildChainRules _ (AddressIndex.run_consistent _) _ _ hknown _ _
      p hp]
  constructor
  · intro h rule hrule hwidened
    exact h.mp ⟨rule, hrule, hwidened.1⟩
  · intro h
    constructor
    · rintro ⟨rule, hrule, hcovers⟩
      by_cases hallows : rule.Allows (AddressIndex.run ops) isEgress p
      · exact ⟨rule, hrule, hallows⟩
      · exact h _ hrule
          ((rule.covers_not_allows_iff (AddressIndex.run ops) isEgress p).mp ⟨hcovers, hallows⟩)
    · rintro ⟨rule, hrule, hallows⟩
      exact ⟨rule, hrule, rule.covers_of_allows _ _ _ hallows⟩

def ascending : SetOrder := ⟨fun s => s.sort, fun _ _ => Finset.mem_sort _⟩

theorem sshPacket_judged : Judged false sshPacket := ⟨rfl, by decide, by decide⟩

def sshRule : SgRule where
  ipProtocol := some "tcp"
  fromPort := some 22
  toPort := some 22
  ipRange := some { cidrIp := some anyAddress }

def httpsRule : SgRule := { sshRule with fromPort := some 443, toPort := some 443 }

theorem sg_filter_of_sshRule :
    (∀ rule ∈ [httpsRule, sshRule], rule.KnownProtocol) ∧ Judged false sshPacket ∧
      (verdict sshPacket (buildChainRules (pinned (AddressIndex.run []) ascending)
          [httpsRule, sshRule] "SG_IN" false) = some .accept ↔
        ∃ rule ∈ [httpsRule, sshRule], rule.Allows (AddressIndex.run []) false sshPacket) := by
  have hknown : ∀ rule ∈ [httpsRule, sshRule], rule.KnownProtocol := by
    intro rule hrule
    rcases mem_pair.mp hrule with rfl | rfl
    all_goals exact .inr (.inl (.inl rfl))
  refine ⟨hknown, sshPacket_judged, ((sg_filter_iff [] _ [httpsRule, sshRule] hknown "SG_IN" _
    _ sshPacket_judged).mpr ?_).1⟩
  intro rule hrule hwidened
  rcases mem_pair.mp hrule with rfl | rfl
  all_goals
    rcases hwidened.2 with hsource | ⟨hicmp, _⟩
    · exact absurd hsource.1 (by decide)
    · exact absurd hicmp (by simp [SgRule.IsIcmp, SgRule.proto, httpsRule, sshRule])

/-- A rule for "fragmentation needed": ICMP type 3, code 4. -/
def fragmentationRule : SgRule where
  ipProtocol := some "icmp"
  fromPort := some 3
  toPort := some 4
  ipRange := some { cidrIp := some anyAddress }

/-- A "host unreachable" packet: ICMP type 3, code 1. -/
def unreachablePacket : Packet := { sshPacket with protocol := 1, icmpType := 3, icmpCode := 1 }

/-- A rule for one ICMP code lets another one in. -/
theorem sg_filter_ignores_icmp_code :
    ¬ ∀ (ops : List Operation) (order : SetOrder) (rules : List SgRule) (chain : String)
      (isEgress : Bool) (p : Packet), (∀ rule ∈ rules, rule.KnownProtocol) → Judged isEgress p →
      (verdict p (buildChainRules (pinned (AddressIndex.run ops) order) rules chain isEgress) =
        some .accept ↔ ∃ rule ∈ rules, rule.Allows (AddressIndex.run ops) isEgress p) := by
  intro h
  have hknown : ∀ rule ∈ [fragmentationRule], rule.KnownProtocol := by
    intro rule hrule
    rw [mem_singleton.mp hrule]
    exact .inr (.inr (.inr (.inl rfl)))
  have hjudged : Judged false unreachablePacket := ⟨rfl, by decide, by decide⟩
  have haccepts : verdict unreachablePacket (buildChainRules
      (pinned (AddressIndex.run []) ascending) [fragmentationRule] "SG_IN" false) =
        some .accept := by
    decide
  rcases (h [] _ [fragmentationRule] "SG_IN" _ _ hknown hjudged).mp
    haccepts with ⟨rule, hrule, hallows⟩
  rw [mem_singleton.mp hrule] at hallows
  have hcode := (hallows.2.2.1 (.inl rfl)).2
  exact absurd hcode (by simp [SgRule.HasCode, isAny, fragmentationRule, unreachablePacket])

end LocalEmu.Ec2
