import LocalEmu.Base.Ipv4

/-!
# Packet Filters

Chains of an IPv4 packet filter: a rule is a list of flags, all of which a
packet has to meet, and a target. A chain is walked from the top; the first
rule that matches and whose target ends the walk decides. A target that only
records the packet does not end it.
-/

namespace LocalEmu.Netfilter

open List Option

/-- The state of the connection a packet belongs to. -/
inductive ConnState
  | new
  | established
  | related
  | invalid
  deriving DecidableEq

/-- What the flags read of an IPv4 packet. The port and the ICMP fields are
    those of a packet whose protocol has them. -/
structure Packet where
  protocol : Nat
  source : IPv4Address
  destination : IPv4Address
  destinationPort : Nat
  icmpType : Nat
  icmpCode : Nat
  inInterface : String
  outInterface : String
  state : ConnState

/-- A condition on a packet. -/
inductive Flag
  | state (states : List ConnState)
  | inInterface (name : String)
  | outInterface (name : String)
  | protocol (name : String)
  | source (range : IPv4Network)
  | destination (range : IPv4Network)
  | destinationPort (first last : Int)
  | icmpType (type : Int)

/-- What happens to a packet that matches. -/
inductive Target
  | accept
  | drop
  | log (text : String) (level : Nat)
  | nflog (group : Nat) (text : String)

/-- A rule of a chain. -/
structure Rule where
  chain : String
  flags : List Flag
  target : Target

/-! ### Matching -/

/-- The number of a protocol by name or number. -/
def protocolNumber (name : String) : Option Nat :=
  if name = "tcp" then some 6
  else if name = "udp" then some 17
  else if name = "icmp" then some 1
  else name.toNat?

/-- The packet meets the condition. An ICMP type without a code stands for the
    type with any code. -/
def Flag.matches (p : Packet) : Flag → Bool
  | state states => decide (p.state ∈ states)
  | inInterface name => decide (p.inInterface = name)
  | outInterface name => decide (p.outInterface = name)
  | protocol name => decide (protocolNumber name = some p.protocol)
  | source range => range.contains p.source
  | destination range => range.contains p.destination
  | destinationPort first last => decide (first ≤ p.destinationPort ∧ p.destinationPort ≤ last)
  | icmpType type => decide (type = p.icmpType)

/-- The packet meets every condition of the rule. -/
def Rule.matches (rule : Rule) (p : Packet) : Bool := rule.flags.all (Flag.matches p)

/-- The end of a walk. -/
inductive Verdict
  | accept
  | drop
  deriving DecidableEq

/-- The verdict of a target, if it ends the walk. -/
def Target.verdict : Target → Option Verdict
  | accept => some .accept
  | drop => some .drop
  | log _ _ => none
  | nflog _ _ => none

/-- What a chain does with a packet: the verdict of the first rule that matches and has one. -/
def verdict (p : Packet) : List Rule → Option Verdict
  | [] => none
  | rule :: rules =>
    if rule.matches p then rule.target.verdict.or (verdict p rules) else verdict p rules

/-! ### Walks -/

/-- A chain after another one. -/
theorem verdict_append (p : Packet) (rules rest : List Rule) :
    verdict p (rules ++ rest) = (verdict p rules).or (verdict p rest) := by
  induction rules with
  | nil => rfl
  | cons rule rules ih =>
    rw [cons_append, verdict, verdict, ih]
    by_cases hm : rule.matches p = true
    · rw [if_pos hm, if_pos hm, Option.or_assoc]
    · rw [if_neg hm, if_neg hm]

theorem verdict_eq_none (p : Packet) (rules : List Rule)
    (h : ∀ rule ∈ rules, rule.matches p = false) : verdict p rules = none := by
  induction rules with
  | nil => rfl
  | cons rule rules ih =>
    rw [verdict, h _ mem_cons_self]
    exact ih fun r hr => h r (mem_cons_of_mem rule hr)

/-- A chain that accepts, closed by a default. -/
theorem verdict_of_accepting (p : Packet) (rules : List Rule)
    (h : ∀ rule ∈ rules, rule.target = .accept) :
    verdict p rules = if ∃ rule ∈ rules, rule.matches p = true then some .accept else none := by
  induction rules with
  | nil => simp [verdict]
  | cons rule rules ih =>
    have hrest := ih fun r hr => h r (mem_cons_of_mem rule hr)
    rw [verdict, h _ mem_cons_self]
    by_cases hm : rule.matches p = true
    · rw [if_pos hm, if_pos ⟨rule, mem_cons_self, hm⟩]
      rfl
    · rw [if_neg hm, hrest]
      refine if_congr ?_ rfl rfl
      simp [hm]

/-- Recording rules do not change the verdict. -/
theorem verdict_flatMap_record (p : Packet) (records : Rule → List Rule) (rules : List Rule)
    (h : ∀ rule, ∀ r ∈ records rule, r.target.verdict = none) :
    verdict p (rules.flatMap fun rule => records rule ++ [rule]) = verdict p rules := by
  have hrecords : ∀ (l : List Rule), (∀ r ∈ l, r.target.verdict = none) → verdict p l = none := by
    intro l hl
    induction l with
    | nil => rfl
    | cons r l ih =>
      rw [verdict, hl r mem_cons_self, none_or, ite_self]
      exact ih fun r' hr' => hl r' (mem_cons_of_mem r hr')
  induction rules with
  | nil => rfl
  | cons rule rules ih =>
    rw [flatMap_cons, append_assoc, verdict_append, hrecords _ (h _),
      none_or, singleton_append, verdict, verdict, ih]

/-! ### Numbered items -/

section Decided

variable {α : Type}

variable (items : List α) (number : α → Int)

/-- Among the items that apply, the one with the lowest number exists and allows. -/
def Decided (applies allows : α → Prop) : Prop :=
  ∃ a ∈ items, applies a ∧ (∀ b ∈ items, applies b → number a ≤ number b) ∧ allows a

/-- The lowest item that applies decides. -/
theorem decided_of_lowest (applies allows : α → Prop)
    (hdistinct : ∀ a ∈ items, ∀ b ∈ items, number a = number b → a = b) (a : α)
    (ha : a ∈ items) (happlies : applies a)
    (hlowest : ∀ b ∈ items, applies b → number a ≤ number b) :
    Decided items number applies allows ↔ allows a := by
  constructor
  · rintro ⟨b, hb, hbapplies, hblowest, hallows⟩
    have hle := hlowest b hb hbapplies
    have hge := hblowest a ha happlies
    rw [hdistinct a ha b hb (by omega)]
    exact hallows
  · exact fun hallows => ⟨a, ha, happlies, hlowest, hallows⟩

theorem exists_lowest (applies : α → Prop) (h : ∃ a ∈ items, applies a) :
    ∃ a ∈ items, applies a ∧ ∀ b ∈ items, applies b → number a ≤ number b := by
  induction items with
  | nil =>
    rcases h with ⟨a, ha, _⟩
    exact absurd ha not_mem_nil
  | cons c items ih =>
    by_cases hrest : ∃ a ∈ items, applies a
    · rcases ih hrest with ⟨a, ha, happlies, hlowest⟩
      -- The head goes before the lowest of the rest if it applies and is lower.
      by_cases hhead : applies c ∧ number c ≤ number a
      · refine ⟨c, mem_cons_self, hhead.1, fun b hb hbapplies => ?_⟩
        rcases mem_cons.mp hb with rfl | hmem
        · exact le_refl _
        · exact le_trans hhead.2 (hlowest b hmem hbapplies)
      · refine ⟨a, mem_cons_of_mem c ha, happlies, fun b hb hbapplies => ?_⟩
        rcases mem_cons.mp hb with rfl | hmem
        · exact le_of_not_ge fun hle => hhead ⟨hbapplies, hle⟩
        · exact hlowest b hmem hbapplies
    · rcases h with ⟨a, ha, happlies⟩
      rcases mem_cons.mp ha with rfl | hmem
      · refine ⟨a, mem_cons_self, happlies, fun b hb hbapplies => ?_⟩
        rcases mem_cons.mp hb with rfl | hmem
        · exact le_refl _
        · exact absurd ⟨b, hmem, hbapplies⟩ hrest
      · exact absurd ⟨a, hmem, happlies⟩ hrest

/-- A reading of the items that applies more widely decides alike exactly when the lowest item it
    applies to, if that is wrong, allows what should be decided. -/
theorem decided_congr_iff (wide narrow allows : α → Prop)
    (hdistinct : ∀ a ∈ items, ∀ b ∈ items, number a = number b → a = b)
    (hwide : ∀ a ∈ items, narrow a → wide a) :
    (Decided items number wide allows ↔ Decided items number narrow allows) ↔
      ∀ a ∈ items, wide a → ¬ narrow a → (∀ b ∈ items, number b < number a → ¬ wide b) →
        (allows a ↔ Decided items number narrow allows) := by
  constructor
  · intro h a ha hw _ hlower
    have hlowest : ∀ b ∈ items, wide b → number a ≤ number b :=
      fun b hb hbw => le_of_not_gt fun hlt => hlower b hb hlt hbw
    rw [← h]
    exact (decided_of_lowest _ _ _ _ hdistinct a ha hw hlowest).symm
  · intro h
    by_cases hany : ∃ a ∈ items, wide a
    · rcases exists_lowest _ _ _ hany with ⟨a, ha, hw, hlowest⟩
      rw [decided_of_lowest _ _ _ _ hdistinct a ha hw hlowest]
      by_cases hn : narrow a
      · have hlowestNarrow : ∀ b ∈ items, narrow b → number a ≤ number b :=
          fun b hb hbn => hlowest b hb (hwide b hb hbn)
        exact (decided_of_lowest _ _ _ _ hdistinct a ha hn hlowestNarrow).symm
      · refine h a ha hw hn fun b hb hlt hbw => ?_
        exact absurd hlt (not_lt.mpr (hlowest b hb hbw))
    · constructor
      · rintro ⟨a, ha, hw, _⟩
        exact absurd ⟨a, ha, hw⟩ hany
      · rintro ⟨a, ha, hn, _⟩
        exact absurd ⟨a, ha, hwide a ha hn⟩ hany

end Decided

end LocalEmu.Netfilter
