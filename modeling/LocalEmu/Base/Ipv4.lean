import Mathlib.Order.Fin.Basic
import Mathlib.Data.List.Basic
import Mathlib.Tactic.Ring

/-!
# IPv4 Addresses and Networks

Addresses, networks in CIDR notation and their texts, after the `ipaddress`
module of the Python standard library.

A network is its lowest address and the length of its prefix; the structure
carries that no bit behind the prefix is set. `contains` compares addresses
under the mask, as the library does, and `contains_iff` turns this into an
interval, which is what walks over a network use.
-/

namespace LocalEmu

open List Option

/-- An IPv4 address. -/
abbrev IPv4Address := Fin (2 ^ 32)

instance instNeZeroAddresses : NeZero (2 ^ 32) := ⟨by decide⟩

namespace IPv4Address

variable (a : IPv4Address)

def octets : List Nat :=
  [a.val / 2 ^ 24 % 256, a.val / 2 ^ 16 % 256, a.val / 2 ^ 8 % 256, a.val % 256]

def chars : List Char := ['.'].intercalate ((octets a).map (Nat.toDigits 10))

/-- `str(address)`. -/
def text : String := String.ofList (chars a)

/-- An octet: one to three decimal digits without a leading zero. -/
def parseOctet (digits : List Char) : Option Nat :=
  if digits = [] ∨ ¬ digits.all Char.isDigit ∨ 3 < digits.length ∨
      (digits ≠ ['0'] ∧ digits.head? = some '0') ∨ 255 < Nat.ofDigitChars 10 digits 0 then none
  else some (Nat.ofDigitChars 10 digits 0)

/-- The address with a number, if there is one. -/
def ofNat? (n : Nat) : Option IPv4Address := if h : n < 2 ^ 32 then some ⟨n, h⟩ else none

def ofChars (cs : List Char) : Option IPv4Address :=
  match (cs.splitOn '.').mapM parseOctet with
  | some [a, b, c, d] => ofNat? (((a * 256 + b) * 256 + c) * 256 + d)
  | _ => none

/-- `IPv4Address(text)`. -/
def ofText (s : String) : Option IPv4Address := ofChars s.toList

/-- `address + 1`, which fails behind the last address. -/
def succ? : Option IPv4Address := ofNat? (a.val + 1)

theorem ofNat?_eq_some (n : Nat) (a : IPv4Address) : ofNat? n = some a ↔ a.val = n := by
  rw [ofNat?]
  by_cases h : n < 2 ^ 32
  · rw [dif_pos h, some.injEq, Fin.ext_iff, eq_comm]
  · rw [dif_neg h]
    constructor
    · exact fun hsome => absurd hsome (by simp)
    · intro hval
      exact absurd (hval ▸ a.isLt) h

theorem parseOctet_toDigits : ∀ n : Fin 256, parseOctet (Nat.toDigits 10 n.val) = some n.val := by
  decide +kernel

theorem toDigits_separators :
    ∀ n : Fin 256, '.' ∉ Nat.toDigits 10 n.val ∧ '/' ∉ Nat.toDigits 10 n.val := by
  decide +kernel

theorem octets_lt (n : Nat) (h : n ∈ octets a) : n < 256 := by
  simp only [octets, mem_cons, not_mem_nil, or_false] at h
  omega

theorem ofChars_chars : ofChars (chars a) = some a := by
  have hdots : ∀ l ∈ (octets a).map (Nat.toDigits 10), '.' ∉ l := by
    intro l hl
    rcases List.mem_map.mp hl with ⟨n, hn, rfl⟩
    exact (toDigits_separators ⟨n, octets_lt a n hn⟩).1
  have hsplit : (chars a).splitOn '.' = (octets a).map (Nat.toDigits 10) :=
    List.splitOn_intercalate '.' hdots (by simp [octets])
  have hoctet : ∀ n ∈ octets a, parseOctet (Nat.toDigits 10 n) = some n :=
    fun n hn => parseOctet_toDigits ⟨n, octets_lt a n hn⟩
  simp only [octets, List.mem_cons, List.not_mem_nil, or_false, forall_eq_or_imp,
    forall_eq] at hoctet
  rcases hoctet with ⟨h1, h2, h3, h4⟩
  rw [ofChars, hsplit]
  simp only [octets, List.map_cons, List.map_nil, List.mapM_cons, List.mapM_nil, h1, h2, h3, h4,
    pure, bind, Option.bind]
  rw [ofNat?_eq_some]
  omega

/-- Reading the text of an address back. -/
theorem ofText_text : ofText (text a) = some a := by
  rw [ofText, text, String.toList_ofList, ofChars_chars]

theorem text_injective : Function.Injective text := by
  intro a b h
  have hparse : ofText (text a) = ofText (text b) := by rw [h]
  rw [ofText_text, ofText_text, some.injEq] at hparse
  exact hparse

theorem slash_not_mem_chars : '/' ∉ chars a := by
  have hdigits : ∀ n ∈ octets a, '/' ∉ Nat.toDigits 10 n :=
    fun n hn => (toDigits_separators ⟨n, octets_lt a n hn⟩).2
  simpa [chars, octets, intercalate, intersperse] using hdigits

theorem succ?_eq_some (b : IPv4Address) : succ? a = some b ↔ b.val = a.val + 1 :=
  ofNat?_eq_some _ _

end IPv4Address

/-- A network: no bit of its address behind the prefix is set. -/
structure IPv4Network where
  networkAddress : IPv4Address
  prefixlen : Nat
  prefixlen_le : prefixlen ≤ 32
  aligned : networkAddress.val % 2 ^ (32 - prefixlen) = 0
  deriving DecidableEq

namespace IPv4Network

variable (net : IPv4Network)

def numAddresses : Nat := 2 ^ (32 - net.prefixlen)

theorem numAddresses_pos : 0 < net.numAddresses := Nat.two_pow_pos _

theorem networkAddress_add_le : net.networkAddress.val + net.numAddresses ≤ 2 ^ 32 := by
  have hdvd : net.numAddresses ∣ net.networkAddress.val := Nat.dvd_of_mod_eq_zero net.aligned
  have hdvd32 : net.numAddresses ∣ 2 ^ 32 := Nat.pow_dvd_pow 2 (by omega)
  have hlt := net.networkAddress.isLt
  rcases hdvd with ⟨k, hk⟩
  rcases hdvd32 with ⟨m, hm⟩
  rw [hk, hm] at hlt
  have hkm : k < m := Nat.lt_of_mul_lt_mul_left hlt
  calc net.networkAddress.val + net.numAddresses = net.numAddresses * (k + 1) := by
        rw [hk, Nat.mul_succ]
    _ ≤ net.numAddresses * m := Nat.mul_le_mul_left _ hkm
    _ = 2 ^ 32 := hm.symm

def broadcastAddress : IPv4Address :=
  ⟨net.networkAddress.val + net.numAddresses - 1, by
    have h := net.networkAddress_add_le
    have hpos := net.numAddresses_pos
    omega⟩

variable (a : IPv4Address)

/-- `address in network`: the address under the mask. -/
def contains : Bool :=
  a.val - a.val % net.numAddresses == net.networkAddress.val

/-- The addresses of a network are an interval. -/
theorem contains_iff : net.contains a = true ↔
      net.networkAddress.val ≤ a.val ∧ a.val < net.networkAddress.val + net.numAddresses := by
  have hpos := net.numAddresses_pos
  rcases Nat.dvd_of_mod_eq_zero net.aligned with ⟨k, hk⟩
  change net.networkAddress.val = net.numAddresses * k at hk
  have hdiv := Nat.div_add_mod a.val net.numAddresses
  have hmod := Nat.mod_lt a.val hpos
  rw [contains, beq_iff_eq]
  constructor
  · intro h
    omega
  · rintro ⟨hle, hlt⟩
    -- Between two multiples of the size there is no third one.
    have hq : a.val / net.numAddresses = k := by
      rw [hk] at hle hlt
      rw [Nat.div_eq_iff hpos]
      constructor
      · rw [Nat.mul_comm]
        exact hle
      · rw [Nat.mul_comm k]
        omega
    rw [hq] at hdiv
    omega

/-- The addresses of a network from one position to another. -/
def addressesFrom (first count : Nat) : List IPv4Address :=
  (List.range count).filterMap fun i => IPv4Address.ofNat? (net.networkAddress.val + first + i)

theorem mem_addressesFrom (first count : Nat) (a : IPv4Address) :
    a ∈ net.addressesFrom first count ↔
      net.networkAddress.val + first ≤ a.val ∧
        a.val < net.networkAddress.val + first + count := by
  rw [addressesFrom, mem_filterMap]
  constructor
  · rintro ⟨i, hi, ha⟩
    rw [mem_range] at hi
    rw [IPv4Address.ofNat?_eq_some] at ha
    omega
  · rintro ⟨hle, hlt⟩
    refine ⟨a.val - (net.networkAddress.val + first), mem_range.mpr (by omega), ?_⟩
    rw [IPv4Address.ofNat?_eq_some]
    omega

/-- `hosts()`: all but the network and the broadcast address, where there is room for these. -/
def hosts : List IPv4Address :=
  if net.prefixlen < 31 then net.addressesFrom 1 (net.numAddresses - 2)
  else net.addressesFrom 0 net.numAddresses

/-- The hosts of a network with room for them. -/
theorem mem_hosts (h : net.prefixlen < 31) (a : IPv4Address) : a ∈ net.hosts ↔
      net.networkAddress.val < a.val ∧ a.val < net.broadcastAddress.val := by
  rw [hosts, if_pos h, mem_addressesFrom]
  simp only [broadcastAddress]
  omega

theorem head?_hosts (h : net.prefixlen < 31) :
    ∃ a, net.hosts.head? = some a ∧ a.val = net.networkAddress.val + 1 := by
  have hsize : 2 ^ 2 ≤ net.numAddresses := Nat.pow_le_pow_right (by omega) (by omega)
  have hend := net.networkAddress_add_le
  obtain ⟨n, hn⟩ : ∃ n, net.numAddresses - 2 = n + 1 := ⟨net.numAddresses - 3, by omega⟩
  refine ⟨⟨net.networkAddress.val + 1, by omega⟩, ?_, rfl⟩
  have hfirst : IPv4Address.ofNat? (net.networkAddress.val + 1 + 0) =
      some ⟨net.networkAddress.val + 1, by omega⟩ := by
    rw [IPv4Address.ofNat?_eq_some]
  rw [hosts, if_pos h, addressesFrom, hn, range_succ_eq_map, filterMap_cons, hfirst]
  rfl

/-- The network of an address: `IPv4Network((address, prefixlen), strict=False)`. -/
def ofAddress (prefixlen : Nat) (h : prefixlen ≤ 32) : IPv4Network where
  networkAddress := ⟨a.val - a.val % 2 ^ (32 - prefixlen), by have := a.isLt; omega⟩
  prefixlen := prefixlen
  prefixlen_le := h
  aligned := Nat.sub_mod_eq_zero_of_mod_eq (Nat.mod_mod _ _).symm

/-- `str(network)`. -/
def text : String :=
  String.ofList (IPv4Address.chars net.networkAddress ++ '/' :: Nat.toDigits 10 net.prefixlen)

/-- `IPv4Network(text, strict=False)`, where a mask is spelled as a prefix length. -/
def ofText (s : String) : Option IPv4Network :=
  match s.toList.splitOn '/' with
  | [address] => (IPv4Address.ofChars address).map fun a => ofAddress a 32 (Nat.le_refl _)
  | [address, digits] =>
    if digits ≠ [] ∧ digits.all Char.isDigit then
      if h : Nat.ofDigitChars 10 digits 0 ≤ 32 then
        (IPv4Address.ofChars address).map fun a => ofAddress a _ h
      else none
    else none
  | _ => none

theorem prefixDigits : ∀ n : Fin 33, '/' ∉ Nat.toDigits 10 n.val ∧
    Nat.toDigits 10 n.val ≠ [] ∧ (Nat.toDigits 10 n.val).all Char.isDigit = true ∧
    Nat.ofDigitChars 10 (Nat.toDigits 10 n.val) 0 = n.val := by
  decide +kernel

theorem ofAddress_networkAddress (n : Nat) (hn : n ≤ 32)
    (h : n = net.prefixlen) : ofAddress net.networkAddress n hn = net := by
  subst h
  cases net with
  | mk a p hle haligned =>
    simp only [ofAddress, mk.injEq, and_true]
    rw [Fin.ext_iff]
    change a.val - a.val % 2 ^ (32 - p) = a.val
    change a.val % 2 ^ (32 - p) = 0 at haligned
    rw [haligned, Nat.sub_zero]

theorem ofText_text : ofText (text net) = some net := by
  rcases prefixDigits ⟨net.prefixlen, Nat.lt_succ_of_le net.prefixlen_le⟩ with
    ⟨hslash, hne, hall, hval⟩
  have hsplit : (IPv4Address.chars net.networkAddress ++
      '/' :: Nat.toDigits 10 net.prefixlen).splitOn '/' =
      [IPv4Address.chars net.networkAddress, Nat.toDigits 10 net.prefixlen] := by
    rw [splitOn_append_cons_self_of_not_mem (IPv4Address.slash_not_mem_chars _),
      splitOn_eq_singleton hslash]
  have hle : Nat.ofDigitChars 10 (Nat.toDigits 10 net.prefixlen) 0 ≤ 32 := by
    rw [hval]
    exact net.prefixlen_le
  rw [ofText, text, String.toList_ofList, hsplit]
  simp only [hne, hall, ne_eq, not_false_eq_true, and_self, if_true, IPv4Address.ofChars_chars,
    map_some]
  rw [dif_pos hle, ofAddress_networkAddress _ _ hle hval]

/-- No address belongs to both networks. -/
def Disjoint (other : IPv4Network) : Prop :=
  ∀ a, ¬ (net.contains a = true ∧ other.contains a = true)

theorem contains_ofAddress (b : IPv4Address) :
    (ofAddress a 32 (Nat.le_refl _)).contains b = true ↔ b = a := by
  rw [contains_iff, Fin.ext_iff]
  simp only [ofAddress, numAddresses, Nat.sub_self, pow_zero, Nat.mod_one, Nat.sub_zero]
  omega

end IPv4Network

end LocalEmu
