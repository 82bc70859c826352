import LocalEmu.Core.Ec2.NaclEnforcer

/-!
# The Filter of a Network ACL

The chain of a network ACL accepts a packet when the lowest numbered rule that
covers it allows. An entry covers more than it should in three cases: when it
has no IPv4 range, when its protocol is none of those the map knows, and when
it records its port range in a dict with a bound that is zero. The chain is
right about a packet exactly when the lowest entry that covers it by mistake
does not decide otherwise.
-/

namespace LocalEmu.Ec2

open List Option

open Netfilter

variable (entries : List NaclEntry) (egress : Bool) (entry : NaclEntry) (p : Packet)

def remoteAddress : IPv4Address :=
  if egress then p.destination else p.source

/-! ### Entries -/

/-- The bounds of the port range as the entry records them. -/
def PortRange.recorded : PortRange → Option Nat × Option Nat
  | flat first last => (first, last)
  | dict first last => (first, last)
  | object first last => (first, last)

/-- A port lies between two bounds, if both are there. -/
def within (bounds : Option Nat × Option Nat) (port : Nat) : Prop :=
  match bounds with
  | (some first, some last) => first ≤ port ∧ port ≤ last
  | _ => True

namespace NaclEntry

def HasPorts : Prop := entry.protocol = 6 ∨ entry.protocol = 17

/-- The entry is about the packet: its protocol, its destination port and its remote address. -/
def Matches : Prop :=
  (entry.protocol = -1 ∨ entry.protocol = p.protocol) ∧
    (entry.HasPorts → within entry.portRange.recorded p.destinationPort) ∧
    ∃ range, entry.cidrBlock = some range ∧ range.contains (remoteAddress egress p) = true

/-- The rule of the entry matches the packet. -/
def Covers : Prop :=
  (entryRule egress entry).matches p = true

/-- The rule of the entry matches the packet by mistake: the entry has no IPv4 range, its protocol
    is not in the map, or it records a zero bound in a dict. -/
def Widened : Prop :=
  entry.Covers egress p ∧
    (entry.cidrBlock = none ∨
      (entry.protocol ∉ [-1, 1, 6, 17] ∧ entry.protocol ≠ p.protocol) ∨
      (entry.HasPorts ∧ ¬ within entry.portRange.recorded p.destinationPort ∧
        ∃ first last, entry.portRange = .dict first last ∧ (first = some 0 ∨ last = some 0)))

end NaclEntry

theorem protocolNumber_tcp : protocolNumber "tcp" = some 6 := rfl

theorem protocolNumber_udp : protocolNumber "udp" = some 17 := by decide

theorem protocolNumber_icmp : protocolNumber "icmp" = some 1 := by decide

theorem contains_anyAddress (a : IPv4Address) : anyAddress.contains a = true := by
  rw [IPv4Network.contains_iff]
  simp only [anyAddress, IPv4Network.numAddresses]
  exact ⟨Nat.zero_le _, by simp⟩

variable (protocol : Int)

def protocolCovers (p : Packet) : Prop :=
  protocol ∈ [6, 17, 1] → protocol = p.protocol

theorem covers_iff : entry.Covers egress p ↔
      protocolCovers entry.protocol p ∧
        (entry.HasPorts → within entry.portRange.bounds p.destinationPort) ∧
        (entry.cidrBlock.getD anyAddress).contains (remoteAddress egress p) = true := by
  have hremote : (remoteFlag egress (entry.cidrBlock.getD anyAddress)).matches p =
      (entry.cidrBlock.getD anyAddress).contains (remoteAddress egress p) := by
    cases egress <;> rfl
  have hports : ((portFlags entry).all (Flag.matches p) = true) ↔
      (entry.HasPorts → within entry.portRange.bounds p.destinationPort) := by
    have htcp : (protoMap entry.protocol = .tcp ∨ protoMap entry.protocol = .udp) ↔
        entry.HasPorts := by
      rw [protoMap, NaclEntry.HasPorts]
      split
      · rename_i h
        simp [h]
      · split
        · rename_i h
          simp [h]
        · split
          · rename_i h
            simp [h]
          · rename_i h6 h17
            split <;> simp [h6, h17]
    rw [portFlags]
    by_cases hp : entry.HasPorts
    · rw [if_pos (htcp.mpr hp)]
      rcases entry.portRange.bounds with ⟨_ | first, _ | last⟩
      · simp [within]
      · simp [within]
      · simp [within]
      · simp [within, hp, Flag.matches]
    · rw [if_neg (fun h => hp (htcp.mp h))]
      simp [hp]
  have hproto : ((if protoMap entry.protocol = .all then []
      else [Flag.protocol (protoMap entry.protocol).name]).all (Flag.matches p) = true) ↔
      protocolCovers entry.protocol p := by
    rw [protocolCovers, protoMap]
    split
    · rename_i h
      simp [h]
    · split
      · rename_i h
        simp only [h, reduceCtorEq, if_false, all_cons, all_nil, Bool.and_true,
          Flag.matches, RuleProtocol.name, protocolNumber_tcp, decide_eq_true_eq,
          some.injEq]
        simp only [mem_cons, true_or, true_implies]
        omega
      · split
        · rename_i h
          simp only [h, reduceCtorEq, if_false, all_cons, all_nil, Bool.and_true,
            Flag.matches, RuleProtocol.name, protocolNumber_udp, decide_eq_true_eq,
            some.injEq]
          simp only [mem_cons, true_or, or_true, true_implies]
          omega
        · split
          · rename_i h
            simp only [h, reduceCtorEq, if_false, all_cons, all_nil, Bool.and_true,
              Flag.matches, RuleProtocol.name, protocolNumber_icmp, decide_eq_true_eq,
              some.injEq]
            simp
            omega
          · rename_i h6 h17 h1
            simp [h6, h17, h1]
  rw [NaclEntry.Covers, Netfilter.Rule.matches, entryRule, all_append, all_append,
    Bool.and_eq_true, Bool.and_eq_true, all_cons, all_nil,
    Bool.and_true, hremote]
  tauto

theorem truthyPort_some (port : Nat) (h : port ≠ 0) : truthyPort (some port) = some port := by
  simp [truthyPort, h]

theorem within_bounds (range : PortRange) (port : Nat) (h : within range.recorded port) :
    within range.bounds port := by
  rcases range with ⟨first, last⟩ | ⟨first, last⟩ | ⟨first, last⟩
  · exact h
  · rcases first with _ | first
    · trivial
    · rcases last with _ | last
      · by_cases hf : first = 0 <;> simp [PortRange.bounds, truthyPort, within, hf]
      · by_cases hf : first = 0
        · simp [PortRange.bounds, truthyPort, within, hf]
        · by_cases hl : last = 0
          · simp [PortRange.bounds, truthyPort, within, hl]
          · rw [PortRange.bounds, truthyPort_some _ hf, truthyPort_some _ hl]
            exact h
  · exact h

theorem zero_bound (range : PortRange) (port : Nat) (hbounds : within range.bounds port)
    (hrecorded : ¬ within range.recorded port) :
    ∃ first last, range = .dict first last ∧ (first = some 0 ∨ last = some 0) := by
  rcases range with ⟨first, last⟩ | ⟨first, last⟩ | ⟨first, last⟩
  · exact absurd hbounds hrecorded
  · refine ⟨first, last, rfl, ?_⟩
    by_contra hzero
    rw [not_or] at hzero
    have hfirst : truthyPort first = first := by
      rcases first with _ | first
      · rfl
      · exact truthyPort_some first fun h => hzero.1 (congrArg some h)
    have hlast : truthyPort last = last := by
      rcases last with _ | last
      · rfl
      · exact truthyPort_some last fun h => hzero.2 (congrArg some h)
    rw [PortRange.bounds, hfirst, hlast] at hbounds
    exact hrecorded hbounds
  · exact absurd hbounds hrecorded

theorem covers_of_matches (h : entry.Matches egress p) : entry.Covers egress p := by
  rcases h with ⟨hproto, hports, range, hrange, hcontains⟩
  rw [covers_iff]
  refine ⟨fun hmem => ?_, fun hp => within_bounds _ _ (hports hp), ?_⟩
  · rcases hproto with hany | heq
    · rw [hany] at hmem
      exact absurd hmem (by decide)
    · exact heq
  · rw [hrange]
    exact hcontains

/-- The three mistakes. -/
theorem covers_not_matches_iff :
    entry.Covers egress p ∧ ¬ entry.Matches egress p ↔ entry.Widened egress p := by
  refine and_congr_right fun hcovers => ?_
  rw [covers_iff] at hcovers
  rcases hcovers with ⟨hproto, hports, hremote⟩
  constructor
  · intro hnot
    by_contra hnone
    rw [not_or, not_or] at hnone
    rcases hnone with ⟨hcidr, hprotocol, hzero⟩
    refine hnot ⟨?_, ?_, ?_⟩
    · by_contra hother
      rw [not_or] at hother
      refine hprotocol ⟨fun hmem => ?_, hother.2⟩
      simp only [mem_cons, not_mem_nil, or_false] at hmem
      rcases hmem with h | h | h | h
      · exact hother.1 h
      · exact hother.2 (hproto (by simp [h]))
      · exact hother.2 (hproto (by simp [h]))
      · exact hother.2 (hproto (by simp [h]))
    · intro hp
      by_contra hout
      exact hzero ⟨hp, hout, zero_bound _ _ (hports hp) hout⟩
    · rcases hrange : entry.cidrBlock with _ | range
      · exact absurd hrange hcidr
      · rw [hrange] at hremote
        exact ⟨range, rfl, hremote⟩
  · rintro (hcidr | ⟨hnot, hne⟩ | ⟨hp, hout, _⟩) ⟨hmatch, hwithin, range, hrange, _⟩
    · rw [hcidr] at hrange
      cases hrange
    · rcases hmatch with h | h
      · exact hnot (by simp [h])
      · exact hne h
    · exact hout (hwithin hp)

/-! ### The chain -/

/-- What a network ACL says about a packet: among the entries of the direction
    that are about it, the one with the lowest number exists and allows. -/
def NaclAllows : Prop :=
  Decided (directionEntries entries egress) NaclEntry.ruleNumber
    (fun entry => entry.Matches egress p) fun entry => entry.ruleAction = "allow"

/-- Rule numbers are distinct in each direction. -/
def DistinctNumbers : Prop :=
  ∀ a ∈ entries, ∀ b ∈ entries, a.egress = b.egress → a.ruleNumber = b.ruleNumber → a = b

theorem DistinctNumbers.direction (h : DistinctNumbers entries)
    (egress : Bool) : ∀ a ∈ directionEntries entries egress,
      ∀ b ∈ directionEntries entries egress, a.ruleNumber = b.ruleNumber → a = b := by
  intro a ha b hb hnumber
  simp only [directionEntries, mem_filter, decide_eq_true_eq] at ha hb
  exact h a ha.1 b hb.1 (ha.2.1.trans hb.2.1.symm) hnumber

theorem verdict_sorted (entries : List NaclEntry)
    (hsorted : entries.Pairwise fun a b => a.ruleNumber ≤ b.ruleNumber)
    (hdistinct : ∀ a ∈ entries, ∀ b ∈ entries, a.ruleNumber = b.ruleNumber → a = b) :
    verdict p (entries.map (entryRule egress) ++ [⟨naclChain egress, [], .drop⟩]) =
        some .accept ↔
      Decided entries NaclEntry.ruleNumber (fun entry => entry.Covers egress p)
        fun entry => entry.ruleAction = "allow" := by
  induction entries with
  | nil =>
    constructor
    · intro h
      cases h
    · rintro ⟨a, ha, _⟩
      exact absurd ha not_mem_nil
  | cons entry entries ih =>
    rw [pairwise_cons] at hsorted
    rw [map_cons, cons_append, verdict]
    by_cases hcovers : entry.Covers egress p
    · -- The first rule ends the walk.
      have hlowest : ∀ b ∈ entry :: entries, b.Covers egress p →
          entry.ruleNumber ≤ b.ruleNumber := by
        intro b hb _
        rcases mem_cons.mp hb with rfl | hmem
        · exact le_refl _
        · exact hsorted.1 b hmem
      rw [decided_of_lowest _ _ _ _ hdistinct _ mem_cons_self hcovers hlowest,
        if_pos (show (entryRule egress entry).matches p = true from hcovers), entryRule]
      by_cases hallow : entry.ruleAction = "allow"
      · simp [hallow, Target.verdict]
      · simp [hallow, Target.verdict]
    · have hskip : Decided (entry :: entries) NaclEntry.ruleNumber
          (fun entry => entry.Covers egress p) (fun entry => entry.ruleAction = "allow") ↔
          Decided entries NaclEntry.ruleNumber (fun entry => entry.Covers egress p)
            fun entry => entry.ruleAction = "allow" := by
        rw [Decided, Decided]
        simp only [mem_cons, exists_eq_or_imp, forall_eq_or_imp, hcovers, false_and,
          false_or, false_implies, true_and]
      have hrest : ∀ a ∈ entries, ∀ b ∈ entries, a.ruleNumber = b.ruleNumber → a = b :=
        fun a ha b hb => hdistinct a (mem_cons_of_mem _ ha) b (mem_cons_of_mem _ hb)
      rw [if_neg (show ¬ (entryRule egress entry).matches p = true from hcovers), hskip]
      exact ih hsorted.2 hrest

/-- What the chain accepts. -/
theorem verdict_buildIptablesRules (h : DistinctNumbers entries) (egress : Bool) (p : Packet) :
    verdict p (buildIptablesRules entries egress) = some .accept ↔
      Decided (directionEntries entries egress) NaclEntry.ruleNumber
        (fun entry => entry.Covers egress p) fun entry => entry.ruleAction = "allow" := by
  have hperm := perm_insertionSort
    (fun a b : NaclEntry => a.ruleNumber ≤ b.ruleNumber) (directionEntries entries egress)
  have hsorted : ((directionEntries entries egress).insertionSort
      fun a b => a.ruleNumber ≤ b.ruleNumber).Pairwise fun a b => a.ruleNumber ≤ b.ruleNumber :=
    pairwise_insertionSort _ _
  have hdirection := h.direction _ egress
  rw [buildIptablesRules, verdict_sorted _ p _ hsorted
    fun a ha b hb => hdirection a (hperm.mem_iff.mp ha) b (hperm.mem_iff.mp hb)]
  rw [Decided, Decided]
  simp only [hperm.mem_iff]

/-- The chain is right about a packet if and only if the lowest entry that covers it, when it does
    so by mistake, has the action of the entry that should decide. -/
theorem nacl_filter_iff (hdistinct : DistinctNumbers entries) (egress : Bool) (p : Packet) :
    (verdict p (buildIptablesRules entries egress) = some .accept ↔
      NaclAllows entries egress p) ↔
      ∀ entry ∈ directionEntries entries egress, entry.Widened egress p →
        (∀ other ∈ directionEntries entries egress, other.ruleNumber < entry.ruleNumber →
          ¬ other.Covers egress p) →
        (entry.ruleAction = "allow" ↔ NaclAllows entries egress p) := by
  rw [verdict_buildIptablesRules _ hdistinct, NaclAllows, decided_congr_iff _ _ _ _ _
    (hdistinct.direction _ _) fun entry _ => covers_of_matches _ _ p]
  simp only [← covers_not_matches_iff, and_imp]

def sshPacket : Packet where
  protocol := 6
  source := 5
  destination := 6
  destinationPort := 22
  icmpType := 0
  icmpCode := 0
  inInterface := "eth0"
  outInterface := ""
  state := .new

def allowEntry : NaclEntry where
  ruleNumber := 100
  egress := false
  ruleAction := "allow"
  protocol := protocol
  cidrBlock := some anyAddress
  portRange := .flat (some 22) (some 22)

theorem allowEntry_distinct : DistinctNumbers [allowEntry protocol] := by
  intro a ha b hb _ _
  rw [mem_singleton.mp ha, mem_singleton.mp hb]

/-- Telnet is denied before SSH is allowed. -/
def tcpEntries : List NaclEntry :=
  [{ allowEntry 6 with
      ruleNumber := 90
      ruleAction := "deny"
      portRange := .flat (some 23) (some 23) }, allowEntry 6]

theorem nacl_filter_of_tcp_entry :
    DistinctNumbers tcpEntries ∧
      (verdict sshPacket (buildIptablesRules tcpEntries false) = some .accept ↔
        NaclAllows tcpEntries false sshPacket) := by
  have hdistinct : DistinctNumbers tcpEntries := by
    simp [DistinctNumbers, tcpEntries, allowEntry]
  refine ⟨hdistinct, (nacl_filter_iff tcpEntries hdistinct _ _).mpr ?_⟩
  intro entry hentry hwidened
  -- Neither entry is for another protocol, or for ports of the other kind.
  rcases mem_pair.mp (mem_filter.mp hentry).1 with rfl | rfl
  all_goals
    rcases hwidened.2 with h | ⟨h, _⟩ | ⟨_, _, _, _, h, _⟩
    · cases h
    · exact absurd h (by decide)
    · cases h

/-- An allow entry for one protocol lets a packet of another one in. -/
theorem nacl_filter_opens_other_protocols :
    ¬ ∀ (entries : List NaclEntry) (egress : Bool) (p : Packet), DistinctNumbers entries →
      (verdict p (buildIptablesRules entries egress) = some .accept ↔
        NaclAllows entries egress p) := by
  intro h
  have haccepts : verdict sshPacket (buildIptablesRules [allowEntry 50] false) =
      some .accept := by
    decide
  rcases (h [allowEntry 50] _ _ (allowEntry_distinct 50)).mp haccepts with ⟨a, ha, hmatches, _⟩
  simp only [directionEntries, mem_filter, mem_singleton] at ha
  rw [ha.1] at hmatches
  exact absurd hmatches.1 (by decide)

end LocalEmu.Ec2
