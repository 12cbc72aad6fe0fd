import Ohno.DyadicBlocks
import Ohno.Subnets

/-!
# Subnets as ranges of addresses

The addresses of a network are the block of its host bits. `generateIp` counts
from the address the network was written with, which need not be the first of
the block. `isSubnetOf` looks at the version of one network only, and an IPv6
network has the default 0.0.0.0/0 in its IPv4 half.
-/
namespace Ohno.SubnetRanges
open DyadicBlocks AddressText EtcdClientShell Subnets

def hostBits (n : NetworkV4) : ℕ := 32 - n.prefixLength

/-- The addresses of a network as numbers. -/
def addresses (n : NetworkV4) : Set ℕ := block (hostBits n) n.address.toNat

/-- An address of the network, but not the network or broadcast address. -/
structure IsHost (n : NetworkV4) (a : BitVec 32) : Prop where
  mem : a.toNat ∈ addresses n
  ne_network : a.toNat ≠ first (hostBits n) n.address.toNat
  ne_broadcast : a.toNat ≠ last (hostBits n) n.address.toNat

/-! ### Generated addresses -/

/-- The indices that `Ipam::allocateIp` tries. -/
def IsIndex (s : Subnet) (i : ℕ) : Prop := 1 ≤ i ∧ ∃ m, s.getMaxHosts = .ok m ∧ i < m - 1

/-- The address of the index is a host, and its computation does not wrap. -/
def Inside (s : Subnet) (i : ℕ) : Prop :=
  s.subnetV4.address.toNat + i < 2 ^ 32 ∧
    ∃ a, s.generateIp i = .ok (cidr a s.subnetV4.prefixLength) ∧ IsHost s.subnetV4 a

/-- Every index has a host of its own. -/
def HostsInside (s : Subnet) : Prop :=
  (∀ i, IsIndex s i → Inside s i) ∧
    ∀ i j, IsIndex s i → IsIndex s j → s.generateIp i = s.generateIp j → i = j

theorem init_ipv4 {boost : Boost} {t : Text} {s : Subnet} (h : Subnet.init boost t = .ok s)
    (hv : s.ipVersion = .ipv4) : s = ⟨s.subnetV4, .ipv4⟩ ∧ s.subnetV4.prefixLength ≤ 32 := by
  unfold Subnet.init at h
  split at h
  · split at h
    · rename_i net hnet
      cases h
      exact ⟨rfl, boost.prefixLength_le t net hnet⟩
    · cases h
  · split at h
    · split at h
      · cases h
        cases hv
      · cases h
    · cases h

section Indices
variable {n : NetworkV4}

theorem isIndex_iff (hp : 1 ≤ n.prefixLength) (hp' : n.prefixLength < 32) (i : ℕ) :
    IsIndex ⟨n, .ipv4⟩ i ↔ 1 ≤ i ∧ i < 2 ^ hostBits n - 1 := by
  have hmod : (32 - n.prefixLength) % 32 = 32 - n.prefixLength := Nat.mod_eq_of_lt (by omega)
  rw [IsIndex, Subnet.getMaxHosts_ipv4 n hp', hmod]
  simp [hostBits]

theorem inside_iff {i : ℕ} (hi : 1 ≤ i) (hp : n.prefixLength < 32) :
    Inside ⟨n, .ipv4⟩ i ↔
      n.address.toNat + i < 2 ^ 32 ∧ IsHost n (n.address + BitVec.ofNat 32 i) := by
  simp only [Inside, Subnet.generateIp_ipv4 n hi hp, Except.ok.injEq]
  constructor
  · intro h
    obtain ⟨hlt, a, ha, hhost⟩ := h
    rw [(cidr_injective ha).1]
    exact ⟨hlt, hhost⟩
  · intro h
    obtain ⟨hlt, hhost⟩ := h
    exact ⟨hlt, _, rfl, hhost⟩

theorem isHost_add_iff {i : ℕ} (hi : 1 ≤ i) (hlt : n.address.toNat + i < 2 ^ 32) :
    IsHost n (n.address + BitVec.ofNat 32 i) ↔
      n.address.toNat % 2 ^ hostBits n + i < 2 ^ hostBits n - 1 := by
  have ha : (n.address + BitVec.ofNat 32 i).toNat = n.address.toNat + i := by
    have hi : i < 2 ^ 32 := by omega
    rw [BitVec.toNat_add, BitVec.toNat_ofNat, Nat.mod_eq_of_lt hi, Nat.mod_eq_of_lt hlt]
  have hfirst := first_add_mod (hostBits n) n.address.toNat
  have hlast : last (hostBits n) n.address.toNat =
    first (hostBits n) n.address.toNat + (2 ^ hostBits n - 1) := rfl
  constructor
  · intro h
    have hmem := h.mem
    have hne := h.ne_broadcast
    rw [ha] at hmem hne
    have hin := (add_mem_block_iff i).mp hmem
    omega
  · intro h
    refine ⟨?_, ?_, ?_⟩
    · rw [ha]
      exact (add_mem_block_iff i).mpr (by omega)
    · rw [ha]
      omega
    · rw [ha]
      omega

/-- An address that stays below the broadcast address does not wrap. -/
theorem inside_index_iff (hp : 1 ≤ n.prefixLength) (hp' : n.prefixLength < 32) {i : ℕ}
    (hi : IsIndex ⟨n, .ipv4⟩ i) :
    Inside ⟨n, .ipv4⟩ i ↔ n.address.toNat % 2 ^ hostBits n + i < 2 ^ hostBits n - 1 := by
  rw [isIndex_iff hp hp'] at hi
  rw [inside_iff hi.1 hp']
  constructor
  · intro h
    obtain ⟨hlt, hhost⟩ := h
    exact (isHost_add_iff hi.1 hlt).mp hhost
  · intro h
    have hmem : n.address.toNat + i ∈ block (hostBits n) n.address.toNat :=
      (add_mem_block_iff i).mpr (by omega)
    have hlt := lt_of_mem_block n.address.isLt (Nat.sub_le 32 n.prefixLength) hmem
    exact ⟨hlt, (isHost_add_iff hi.1 hlt).mpr h⟩

theorem generateIp_injective (hp : 1 ≤ n.prefixLength) (hp' : n.prefixLength < 32) {i j : ℕ}
    (hi : IsIndex ⟨n, .ipv4⟩ i) (hj : IsIndex ⟨n, .ipv4⟩ j)
    (h : Subnet.generateIp ⟨n, .ipv4⟩ i = Subnet.generateIp ⟨n, .ipv4⟩ j) : i = j := by
  rw [isIndex_iff hp hp'] at hi hj
  rw [Subnet.generateIp_ipv4 n hi.1 hp', Subnet.generateIp_ipv4 n hj.1 hp', Except.ok.injEq] at h
  have hle : 2 ^ hostBits n ≤ 2 ^ 32 := Nat.pow_le_pow_right (by omega) (Nat.sub_le _ _)
  have hadd := congrArg BitVec.toNat ((BitVec.add_right_inj _).mp (cidr_injective h).1)
  rw [BitVec.toNat_ofNat, BitVec.toNat_ofNat, Nat.mod_eq_of_lt (by omega),
    Nat.mod_eq_of_lt (by omega)] at hadd
  exact hadd

theorem hostsInside_iff (hp : 1 ≤ n.prefixLength) (hp' : n.prefixLength ≤ 30) :
    HostsInside ⟨n, .ipv4⟩ ↔ n.address.toNat % 2 ^ hostBits n = 0 := by
  have hp'' : n.prefixLength < 32 := by omega
  constructor
  · intro h
    -- the largest index leaves no room for host bits
    have hfour : 2 ^ 2 ≤ 2 ^ hostBits n :=
      Nat.pow_le_pow_right (by omega) (by unfold hostBits; omega)
    have hi : IsIndex ⟨n, .ipv4⟩ (2 ^ hostBits n - 2) := by
      rw [isIndex_iff hp hp'']
      omega
    have hin := (inside_index_iff hp hp'' hi).mp (h.1 _ hi)
    omega
  · intro h
    refine ⟨fun i hi => ?_, fun i j hi hj => generateIp_injective hp hp'' hi hj⟩
    rw [inside_index_iff hp hp'' hi, h]
    have hrange := (isIndex_iff hp hp'' i).mp hi
    omega

end Indices

/-- The indices of a subnet all give hosts exactly when its text has no host
bits; one index does exactly when host bits and index stay below the last
address. -/
theorem generated_inside_iff (boost : Boost) {t : Text} {s : Subnet}
    (hs : Subnet.init boost t = .ok s) (hv : s.ipVersion = .ipv4)
    (hp : 1 ≤ s.subnetV4.prefixLength) (hp' : s.subnetV4.prefixLength ≤ 30) :
    (HostsInside s ↔ s.subnetV4.address.toNat % 2 ^ hostBits s.subnetV4 = 0) ∧
      ∀ i, IsIndex s i → (Inside s i ↔
        s.subnetV4.address.toNat % 2 ^ hostBits s.subnetV4 + i < 2 ^ hostBits s.subnetV4 - 1) := by
  obtain ⟨net, version⟩ := s
  cases hv
  exact ⟨hostsInside_iff hp hp', fun i hi => inside_index_iff hp (by omega) hi⟩

/-- A subnet written with its network address. -/
theorem generated_inside_zero : HostsInside ⟨⟨0x0a000100#32, 24⟩, .ipv4⟩ :=
  (generated_inside_iff Boost.reference (Subnet.init_cidr _ 0x0a000100#32 (p := 24) (by decide)) rfl
    (by decide) (by decide)).1.mpr (by decide)

/-- One written with a host address: the address of an index is in the next subnet. -/
theorem generated_outside :
    let s : Subnet := ⟨⟨0x0a0000c8#32, 24⟩, .ipv4⟩
    Subnet.init Boost.reference "10.0.0.200/24".toList = .ok s ∧ IsIndex s 100 ∧
      s.generateIp 100 = .ok "10.0.1.44/24".toList ∧ ¬ HostsInside s := by
  refine ⟨by decide +kernel, ⟨by decide, 256, by decide, by decide⟩, by decide +kernel, fun h => ?_⟩
  exact absurd ((hostsInside_iff (by decide) (by decide)).mp h) (by decide)

/-! ### Strict containment -/

/-- The answer is the strict containment of the ranges for an IPv4 CIDR, and
everything else throws. -/
structure Decides (boost : Boost) (s : Subnet) (c : Text) : Prop where
  true_iff : s.isSubnetOf boost c = .ok true ↔ ∃ o, Subnet.init boost c = .ok o ∧
    o.ipVersion = .ipv4 ∧ addresses s.subnetV4 ⊂ addresses o.subnetV4
  false_of : ∀ o, Subnet.init boost c = .ok o → o.ipVersion = .ipv4 →
    ¬ addresses s.subnetV4 ⊂ addresses o.subnetV4 → s.isSubnetOf boost c = .ok false
  throws : (∀ o, Subnet.init boost c = .ok o → o.ipVersion ≠ .ipv4) →
    ∃ e, s.isSubnetOf boost c = .error e

/-- The relation that `isSubnetOf` is on texts. -/
def Related (boost : Boost) (t c : Text) : Prop :=
  ∃ s, Subnet.init boost t = .ok s ∧ s.isSubnetOf boost c = .ok true

section Containment
variable {boost : Boost} {s o : Subnet} {t c : Text}

theorem init_ipv6 (h : Subnet.init boost t = .ok s) (hv : s.ipVersion ≠ .ipv4) :
    s = ⟨{}, .ipv6⟩ := by
  unfold Subnet.init at h
  split at h
  · split at h
    · cases h
      exact absurd rfl hv
    · cases h
  · split at h
    · split at h
      · cases h
        rfl
      · cases h
    · cases h

theorem isSubnetOf_ssubset (m n : NetworkV4) (hm : m.prefixLength ≤ 32) :
    boost.isSubnetOf m n = true ↔ addresses m ⊂ addresses n := by
  rw [boost.isSubnetOf_iff, addresses, addresses, block_ssubset_iff, hostBits, hostBits]
  constructor
  · intro h
    obtain ⟨hlt, hbits⟩ := h
    exact ⟨by omega, hbits⟩
  · intro h
    obtain ⟨hlt, hbits⟩ := h
    exact ⟨by omega, hbits⟩

theorem isSubnetOf_error {e : Thrown} (h : Subnet.init boost c = .error e) (s : Subnet) :
    s.isSubnetOf boost c = .error e := by
  simp [Subnet.isSubnetOf, h, bind, Except.bind]

theorem isSubnetOf_ok (hv : s.ipVersion = .ipv4) (ho : Subnet.init boost c = .ok o) :
    s.isSubnetOf boost c = .ok (boost.isSubnetOf s.subnetV4 o.subnetV4) := by
  simp [Subnet.isSubnetOf, Subnet.checkIpv6, ho, hv, bind, Except.bind, pure, Except.pure]

theorem isSubnetOf_ipv4_iff (hs : Subnet.init boost t = .ok s) (hv : s.ipVersion = .ipv4)
    (ho : Subnet.init boost c = .ok o) :
    s.isSubnetOf boost c = .ok true ↔ addresses s.subnetV4 ⊂ addresses o.subnetV4 := by
  rw [isSubnetOf_ok hv ho, Except.ok.injEq, isSubnetOf_ssubset _ _ (init_ipv4 hs hv).2]

/-- An IPv6 CIDR is compared as 0.0.0.0/0. -/
theorem decides_ipv4_iff (hs : Subnet.init boost t = .ok s) (hv : s.ipVersion = .ipv4) (c : Text) :
    Decides boost s c ↔ ∀ o, Subnet.init boost c = .ok o → o.ipVersion ≠ .ipv6 := by
  constructor
  · intro h o ho hv'
    obtain ⟨e, he⟩ := h.throws fun o' ho' => by
      rw [ho] at ho'
      cases ho'
      simp [hv']
    rw [isSubnetOf_ok hv ho] at he
    cases he
  · intro h
    cases ho : Subnet.init boost c with
    | error e =>
        have hthrow := isSubnetOf_error ho s
        refine ⟨?_, ?_, fun _ => ⟨e, hthrow⟩⟩
        · simp [hthrow, ho]
        · simp [ho]
    | ok o =>
        have hv' : o.ipVersion = .ipv4 := by
          by_contra hne
          have h6 := init_ipv6 ho hne
          exact h o ho (by rw [h6])
        have hiff := isSubnetOf_ipv4_iff hs hv ho
        refine ⟨?_, ?_, ?_⟩
        · rw [hiff, ho]
          simp [hv']
        · intro o' ho' _ hnot
          rw [ho] at ho'
          cases ho'
          rw [← hiff, isSubnetOf_ok hv ho, Except.ok.injEq, Bool.not_eq_true] at hnot
          rw [isSubnetOf_ok hv ho, hnot]
        · intro hnone
          exact absurd hv' (hnone o ho)

/-- The left side has to be an IPv4 network. -/
theorem related_iff : Related boost t c ↔ ∃ s o, Subnet.init boost t = .ok s ∧
    s.ipVersion = .ipv4 ∧ Subnet.init boost c = .ok o ∧
    addresses s.subnetV4 ⊂ addresses o.subnetV4 := by
  constructor
  · intro h
    obtain ⟨s, hs, h⟩ := h
    have hv : s.ipVersion = .ipv4 := by
      by_contra hne
      rw [init_ipv6 hs hne] at h
      cases ho : Subnet.init boost c <;>
        simp [Subnet.isSubnetOf, Subnet.checkIpv6, ho, bind, Except.bind] at h
    cases ho : Subnet.init boost c with
    | error e =>
        rw [isSubnetOf_error ho] at h
        cases h
    | ok o => exact ⟨s, o, hs, hv, rfl, (isSubnetOf_ipv4_iff hs hv ho).mp h⟩
  · intro h
    obtain ⟨s, o, hs, hv, ho, h⟩ := h
    exact ⟨s, hs, (isSubnetOf_ipv4_iff hs hv ho).mpr h⟩

theorem related_irrefl (boost : Boost) (t : Text) : ¬ Related boost t t := by
  intro h
  obtain ⟨s, o, hs, -, ho, hsub⟩ := related_iff.mp h
  rw [hs] at ho
  cases ho
  exact ssubset_irrefl _ hsub

theorem related_trans {u : Text} (h : Related boost t u) (h' : Related boost u c) :
    Related boost t c := by
  obtain ⟨s, o, hs, hv, ho, hsub⟩ := related_iff.mp h
  obtain ⟨o', p, ho', -, hp, hsub'⟩ := related_iff.mp h'
  rw [ho] at ho'
  cases ho'
  exact related_iff.mpr ⟨s, p, hs, hv, hp, hsub.trans hsub'⟩

end Containment

/-- An instance that accepts one IPv6 network. -/
def oneIpv6 : Boost :=
  { Boost.reference with makeNetworkV6 := fun t => t = "2001:db8::/32".toList }

end Ohno.SubnetRanges
