import Ohno.ClusterHistories

/-!
# The addresses of a cluster

On one node an address is recorded for one interface, it is a host of the pod
CIDR, and IPAM holds it; the VXLAN device has the network address. All calls
keep this, under whatever names the interfaces are added and deleted. Where the
pod CIDRs of the nodes are apart, no two interfaces have the same address.
-/
namespace Ohno.ClusterAddresses
open CommandPrograms DelimitedLists AddressText EtcdClientShell Subnets FirstFit Ipam Netlink Nics
open Storage CniPlugin Records Conducts RecordPrograms RestoredNode DelRecords AddRecords NodeStates
open NodeState NodeHistories NodeInvariants NodeLifecycle RegistryHistories IpamSequential
open ClusterHistories

/-- Each address is recorded for one interface. -/
structure Distinct (net : NetworkV4) (R : Registry) : Prop where
  within : ∀ p i x, x ∈ R.list (.addrs p i) →
    (x ∈ R.list .addresses ∧ ∃ k, 1 ≤ k ∧ k ≤ hostCount net ∧ x = hostText net k) ∨
      (p = host ∧ i = nameVxlan ∧ x = cidr net.address 32)
  single : ∀ p i q j x, x ∈ R.list (.addrs p i) → x ∈ R.list (.addrs q j) → p = q ∧ i = j

section Steps
variable {cni : Cni} {net : NetworkV4} {R R' R₀ : Registry} {p i x : Text}

theorem hostText_ne_cidr (law : Lawful cni net) (k : ℕ) : hostText net k ≠ cidr net.address 32 := by
  intro h
  have hp : net.prefixLength = 32 := (cidr_injective h).2
  have hle := law.prefixLength_le
  omega

theorem distinct_fresh {others : List Text} (ho : ∀ x ∈ others, Store.Item x) :
    Distinct net (fresh others ho) where
  within := by simp [fresh]
  single := by simp [fresh]

/-! ### Addresses that are taken away -/

theorem Distinct.of_subset (h : Distinct net R)
    (sub : ∀ p i, R'.list (.addrs p i) ⊆ R.list (.addrs p i))
    (held : ∀ p i x, x ∈ R'.list (.addrs p i) → x ∈ R.list .addresses → x ∈ R'.list .addresses) :
    Distinct net R' where
  within := by
    intro p i x hx
    rcases h.within p i x (sub p i hx) with ⟨ha, hk⟩ | hv
    · exact .inl ⟨held p i x hx ha, hk⟩
    · exact .inr hv
  single p i q j x hx hy := h.single p i q j x (sub p i hx) (sub q j hy)

/-- Nothing has been recorded for any interface since `R₀`. -/
structure Under (net : NetworkV4) (R₀ R : Registry) : Prop where
  before : Distinct net R₀
  now : Distinct net R
  sub : ∀ p i, R.list (.addrs p i) ⊆ R₀.list (.addrs p i)

/-- The first address of an interface is that of no other one. -/
theorem Distinct.ne_firstAddr (h : Distinct net R) {pod nic : Text} (hx : x ∈ R.list (.addrs p i))
    (hne : ¬ (p = pod ∧ i = nic)) : x ≠ firstAddr R pod nic := by
  intro he
  have hmem : firstAddr R pod nic ∈ R.list (.addrs pod nic) := by
    cases hl : R.list (.addrs pod nic) with
    | nil =>
        rw [firstAddr, hl] at he
        exact absurd he (R.item _ x hx).ne_nil
    | cons y l => simp [firstAddr, hl]
  exact hne (h.single p i pod nic x hx (he ▸ hmem))

theorem Under.dropNic (h : Under net R₀ R) (pod nic : Text) :
    Under net R₀ (dropNic cni pod nic (firstAddr R₀ pod nic) R) := by
  have hmem : ∀ q j y,
      y ∈ (DelRecords.dropNic cni pod nic (firstAddr R₀ pod nic) R).list (.addrs q j) →
      y ∈ R.list (.addrs q j) ∧ ¬ (q = pod ∧ j = nic) := by
    intro q j y hy
    rw [dropNic_list] at hy
    simp only [reduceCtorEq, if_false, or_false, false_and, ListKey.addrs.injEq] at hy
    split_ifs at hy with hq
    · cases hy
    · exact ⟨hy, hq⟩
  refine ⟨h.before, h.now.of_subset (fun q j y hy => (hmem q j y hy).1) ?_,
    fun q j y hy => h.sub q j (hmem q j y hy).1⟩
  intro q j y hy ha
  obtain ⟨hyR, hne⟩ := hmem q j y hy
  have hfirst := h.before.ne_firstAddr (h.sub q j hyR) hne
  rw [dropNic_list]
  simp only [reduceCtorEq, if_false, true_and, or_self]
  split_ifs
  · exact ha
  · exact List.mem_filter.mpr ⟨ha, decide_eq_true hfirst⟩

/-- What touches neither list of addresses. -/
theorem Under.of_eq (h : Under net R₀ R) (ha : R'.list .addresses = R.list .addresses)
    (hi : ∀ p i, R'.list (.addrs p i) = R.list (.addrs p i)) : Under net R₀ R' := by
  refine ⟨h.before, h.now.of_subset (fun p i y hy => hi p i ▸ hy) ?_, fun p i => hi p i ▸ h.sub p i⟩
  intro p i y _ hy
  rw [ha]
  exact hy

theorem Under.dropPod (h : Under net R₀ R) (pod : Text) : Under net R₀ (dropPod pod R) :=
  h.of_eq (dropPod_list pod R (by simp)) fun _ _ => dropPod_list pod R (by simp)

theorem Under.dropHostNic (h : Under net R₀ R) (nic : Text) :
    Under net R₀ (dropHostNic cni R₀ nic R) := by
  unfold DelRecords.dropHostNic
  split_ifs
  · exact h.dropNic host nic
  · exact h

theorem Under.tearDown (h : Under net R₀ R) : Under net R₀ (tearDownRecords cni net R₀ R) := by
  have hbridge := @Under.dropHostNic cni net R R₀ h cni.conf.bridge
  have hvxlan := @Under.dropHostNic cni net _ R₀ hbridge nameVxlan
  have hunderlay := @Under.dropHostNic cni net _ R₀ hvxlan cni.underlayDev
  exact (hunderlay.dropPod host).of_eq rfl fun _ _ => rfl

theorem Distinct.del (h : Distinct net R) (cni : Cni) (c i : Text) :
    Distinct net (delRecords cni net c i R) := by
  have hself : Under net R R := ⟨h, h, fun _ _ _ hx => hx⟩
  have hdrop : Under net R (dropContainer cni c i R) := by
    unfold dropContainer
    split_ifs
    · exact (hself.dropNic c i).dropPod c
    · exact hself.dropPod c
  unfold delRecords
  split_ifs
  · exact hdrop.tearDown.now
  · exact hdrop.now
  · exact h

/-! ### Addresses that are recorded -/

/-- A free host is recorded. -/
theorem Distinct.record (h : Distinct net R) (law : Lawful cni net) {k : ℕ}
    (fit : firstFree (hostText net) (hostCount net) (R.list .addresses) = some k)
    (ha : R'.list .addresses = R.list .addresses ++ [hostText net k])
    (own : R'.list (.addrs p i) = R.list (.addrs p i) ++ [hostText net k])
    (rest : ∀ q j, ¬ (q = p ∧ j = i) → R'.list (.addrs q j) = R.list (.addrs q j)) :
    Distinct net R' := by
  obtain ⟨hpos, hle, hfree, -⟩ := firstFree_eq_some_iff.mp fit
  have hmem : ∀ q j y, y ∈ R'.list (.addrs q j) →
      y ∈ R.list (.addrs q j) ∨ (q = p ∧ j = i ∧ y = hostText net k) := by
    intro q j y hy
    by_cases hq : q = p ∧ j = i
    · obtain ⟨rfl, rfl⟩ := hq
      rw [own, List.mem_append, List.mem_singleton] at hy
      exact hy.imp id fun he => ⟨rfl, rfl, he⟩
    · rw [rest q j hq] at hy
      exact .inl hy
  have hnew : ∀ q j, hostText net k ∉ R.list (.addrs q j) := by
    intro q j hy
    rcases h.within q j _ hy with hw | hw
    · exact hfree hw.1
    · exact hostText_ne_cidr law k hw.2.2
  constructor
  · intro q j y hy
    rcases hmem q j y hy with hy | ⟨-, -, rfl⟩
    · rcases h.within q j y hy with hw | hw
      · exact .inl ⟨by simp [ha, hw.1], hw.2⟩
      · exact .inr hw
    · exact .inl ⟨by simp [ha], k, hpos, hle, rfl⟩
  · intro q j q' j' y hy hy'
    rcases hmem q j y hy with hy | ⟨rfl, rfl, rfl⟩
    · rcases hmem q' j' y hy' with hy' | ⟨-, -, rfl⟩
      · exact h.single q j q' j' y hy hy'
      · exact absurd hy (hnew q j)
    · rcases hmem q' j' _ hy' with hy' | ⟨rfl, rfl, -⟩
      · exact absurd hy' (hnew q' j')
      · exact ⟨rfl, rfl⟩

/-- The VXLAN device has an address of its own. -/
theorem Distinct.recordVxlan (h : Distinct net R) (law : Lawful cni net)
    (ha : R'.list .addresses = R.list .addresses)
    (own : R'.list (.addrs host nameVxlan) =
      R.list (.addrs host nameVxlan) ++ [cidr net.address 32])
    (rest : ∀ q j, ¬ (q = host ∧ j = nameVxlan) → R'.list (.addrs q j) = R.list (.addrs q j)) :
    Distinct net R' := by
  have hmem : ∀ q j y, y ∈ R'.list (.addrs q j) → y ∈ R.list (.addrs q j) ∨
      (q = host ∧ j = nameVxlan ∧ y = cidr net.address 32) := by
    intro q j y hy
    by_cases hq : q = host ∧ j = nameVxlan
    · obtain ⟨rfl, rfl⟩ := hq
      rw [own, List.mem_append, List.mem_singleton] at hy
      exact hy.imp id fun he => ⟨rfl, rfl, he⟩
    · rw [rest q j hq] at hy
      exact .inl hy
  have hold : ∀ q j, cidr net.address 32 ∈ R.list (.addrs q j) → q = host ∧ j = nameVxlan := by
    intro q j hy
    rcases h.within q j _ hy with hw | hw
    · obtain ⟨-, k, -, -, he⟩ := hw
      exact absurd he.symm (hostText_ne_cidr law k)
    · exact ⟨hw.1, hw.2.1⟩
  constructor
  · intro q j y hy
    rcases hmem q j y hy with hy | hw
    · rcases h.within q j y hy with hw | hw
      · exact .inl ⟨ha ▸ hw.1, hw.2⟩
      · exact .inr hw
    · exact .inr hw
  · intro q j q' j' y hy hy'
    rcases hmem q j y hy with hy | ⟨rfl, rfl, rfl⟩
    · rcases hmem q' j' y hy' with hy' | ⟨rfl, rfl, rfl⟩
      · exact h.single q j q' j' y hy hy'
      · exact hold q j hy
    · rcases hmem q' j' _ hy' with hy' | ⟨rfl, rfl, -⟩
      · obtain ⟨rfl, rfl⟩ := hold q' j' hy'
        exact ⟨rfl, rfl⟩
      · exact ⟨rfl, rfl⟩

theorem Distinct.nodeRecords (h : Distinct net R) (law : Lawful cni net) {k : ℕ}
    (fit : firstFree (hostText net) (hostCount net) (R.list .addresses) = some k) :
    Distinct net (nodeRecords law (hostText net k) (item_hostText net k) R) := by
  have hne := law.bridge_ne_vxlan
  -- the bridge first, then the VXLAN device
  have hbridge : Distinct net ((R.push .addresses _ (item_hostText net k)).push
      (.addrs host cni.conf.bridge) _ (item_hostText net k)) := by
    apply h.record law fit (p := host) (i := cni.conf.bridge)
    · simp
    · simp
    · intro q j hq
      simp [hq]
  by_cases hv : cni.ipamMode = .vxlan
  · apply hbridge.recordVxlan law
    · simp [nodeRecords_list]
    · simp [nodeRecords_list, hv, hne.symm]
    · intro q j hq
      simp only [nodeRecords_list, hv, hq, ListKey.addrs.injEq, reduceCtorEq, if_false, and_false,
        Registry.push_list]
  · have hself : Under net _ _ := ⟨hbridge, hbridge, fun _ _ _ hx => hx⟩
    apply (hself.of_eq _ _).now
    · simp [nodeRecords_list]
    · intro q j
      simp [nodeRecords_list, hv]

variable {c : Container} {gw : BitVec 32} {o : Except Thrown CniResult}

theorem Distinct.newEnd (h : Distinct net R) (law : Lawful cni net)
    (hend : NewEnd cni net gw c R o R') : Distinct net R' := by
  have hpod : Distinct net (withPod c R) := by
    have hself : Under net R R := ⟨h, h, fun _ _ _ hx => hx⟩
    apply (hself.of_eq _ _).now
    · simp [withPod_list]
    · intro q j
      simp [withPod_list]
  cases hend with
  | refused e => exact h
  | exhausted e free full => exact hpod
  | new k free fit =>
      have fit' : firstFree (hostText net) (hostCount net) ((withPod c R).list .addresses) =
          some k := by
        simpa [withPod_list] using fit
      apply hpod.record law fit' (p := c.id) (i := c.nic)
      · simp [withAddr_list]
      · simp [withAddr_list]
      · intro q j hq
        simp [withAddr_list, hq]

end Steps

theorem Distinct.ends {cni : Cni} {net : NetworkV4} {law : Lawful cni net} {R R' : Registry}
    {call : Call} {o : Outcome} (h : Distinct net R) (hend : Ends law call o R R') :
    Distinct net R' := by
  cases hend with
  | @first c mac uniqueId k o R R' idle fit hend =>
      exact (h.nodeRecords (lawful_process law mac uniqueId) fit).newEnd law hend
  | added setUp hend =>
      cases hend with
      | found => exact h
      | bare => exact h
      | new absent hend => exact h.newEnd law hend
  | unknown idle => exact h
  | @deleted c mac uniqueId k R setUp => exact h.del cni c.id c.nic

theorem invariant_distinct :
    Invariant fun m R => RegistryHistories.Sound m.cni m.net R ∧ Distinct m.net R where
  sound h := h.1
  fresh m _ ho := ⟨invariant_sound.fresh m ho, distinct_fresh ho⟩
  shared hl h := ⟨sound_shared hl h.1, ⟨h.2.within, h.2.single⟩⟩
  ends h hend := ⟨hend.sound, h.2.ends hend⟩

/-! ### The cluster -/

section Cluster
variable {k : Cluster} {s : Store} {m n : Member} {p i q j x : Text}

/-- The address behind a recorded text. -/
theorem Distinct.address {net : NetworkV4} {R : Registry} (h : Distinct net R) {p i : Text}
    {a : BitVec 32} {l : ℕ} (hx : cidr a l ∈ R.list (.addrs p i)) :
    ∃ j, j ≤ hostCount net ∧ a = net.address + BitVec.ofNat 32 j ∧
      (j = 0 → p = host ∧ i = nameVxlan) ∧ (j ≠ 0 → cidr a l = hostText net j) := by
  rcases h.within p i _ hx with hw | hw
  · obtain ⟨-, j, hpos, hle, he⟩ := hw
    exact ⟨j, hle, (cidr_injective he).1, fun h0 => by omega, fun _ => he⟩
  · obtain ⟨hp, hi, he⟩ := hw
    exact ⟨0, Nat.zero_le _, by simp [(cidr_injective he).1], fun _ => ⟨hp, hi⟩,
      fun h0 => absurd rfl h0⟩

theorem contains_add {cni : Cni} {net : NetworkV4} (law : Lawful cni net) {j : ℕ}
    (hj : j ≤ hostCount net) : Contains net (net.address + BitVec.ofNat 32 j) := by
  have hle := law.prefixLength_le
  by_cases h0 : j = 0
  · simp [h0, Contains]
  · rw [hostCount_of_lawful law] at hj
    exact (host_inside law.hostBits (by omega) (by omega) hj).1

/-- What the functions of `Storage` and `Ipam` read of a node. -/
structure Reads (node : Text) (R : Registry) (s : Store) : Prop where
  subnet : s.value (subnetKey node) = (R.value .subnet).getD []
  pods : ask (getAllPods node) s = R.list .pods
  addrs : ∀ {p i}, '/' ∉ p → '/' ∉ i → ask (getAllAddrs node p i) s = R.list (.addrs p i)

theorem reads_of_eq {node : Text} {R : Registry} (h : s = R.store node s) : Reads node R s := by
  rw [h]
  exact ⟨Registry.value_store R node s (j := .subnet) trivial, ask_getAllPods, ask_getAllAddrs⟩

/-- The node has records, and they are in order. -/
def Seen (m : Member) (s : Store) : Prop :=
  ∃ R, (RegistryHistories.Sound m.cni m.net R ∧ Distinct m.net R) ∧ Reads m.node R s

/-- A recorded address is a host of the node, or that of its VXLAN device. -/
theorem Seen.inside (h : Seen m s) (hp : '/' ∉ p) (hi : '/' ∉ i)
    (hx : x ∈ ask (getAllAddrs m.node p i) s) : ∃ a l, x = cidr a l ∧ Contains m.net a := by
  obtain ⟨R, ⟨-, hdistinct⟩, hreads⟩ := h
  rw [hreads.addrs hp hi] at hx
  obtain ⟨a, l, rfl⟩ : ∃ a l, x = cidr a l := by
    rcases hdistinct.within p i x hx with hw | hw
    · obtain ⟨-, j, -, -, he⟩ := hw
      exact ⟨_, _, he⟩
    · exact ⟨_, _, hw.2.2⟩
  obtain ⟨j, hj, ha, -, -⟩ := hdistinct.address hx
  exact ⟨a, l, rfl, ha ▸ contains_add m.law hj⟩

/-- An address of a node is recorded for one of its interfaces. -/
theorem Seen.single (h : Seen m s) (hp : '/' ∉ p) (hi : '/' ∉ i) (hq : '/' ∉ q) (hj : '/' ∉ j)
    {a : BitVec 32} {l l' : ℕ} (hx : cidr a l ∈ ask (getAllAddrs m.node p i) s)
    (hy : cidr a l' ∈ ask (getAllAddrs m.node q j) s) : q = p ∧ j = i := by
  obtain ⟨R, ⟨-, hdistinct⟩, hreads⟩ := h
  rw [hreads.addrs hp hi] at hx
  rw [hreads.addrs hq hj] at hy
  obtain ⟨e, he, ha, hvxlan, hhost⟩ := hdistinct.address hx
  obtain ⟨e', he', ha', hvxlan', hhost'⟩ := hdistinct.address hy
  -- the address tells the host
  have hlt := hostCount_lt m.net
  have hee : e' = e := by
    have hb := congrArg BitVec.toNat (add_left_cancel (ha'.symm.trans ha))
    rw [BitVec.toNat_ofNat, BitVec.toNat_ofNat, Nat.mod_eq_of_lt (by omega),
      Nat.mod_eq_of_lt (by omega)] at hb
    exact hb
  subst hee
  by_cases h0 : e' = 0
  · obtain ⟨rfl, rfl⟩ := hvxlan h0
    exact hvxlan' h0
  · rw [hhost' h0, ← hhost h0] at hy
    exact hdistinct.single q j p i _ hy hx

/-- An address is recorded on one node. -/
theorem Seen.one_node (hm : m ∈ k.members) (hn : n ∈ k.members) (h : Seen m s) (h' : Seen n s)
    (hp : '/' ∉ p) (hi : '/' ∉ i) (hq : '/' ∉ q) (hj : '/' ∉ j) {a : BitVec 32} {l l' : ℕ}
    (hx : cidr a l ∈ ask (getAllAddrs m.node p i) s)
    (hy : cidr a l' ∈ ask (getAllAddrs n.node q j) s) : n = m := by
  obtain ⟨b, lb, hb, hcontains⟩ := h.inside hp hi hx
  obtain ⟨b', lb', hb', hcontains'⟩ := h'.inside hq hj hy
  obtain rfl : a = b := (cidr_injective hb).1
  obtain rfl : a = b' := (cidr_injective hb').1
  by_contra hne
  exact Cluster.apart_of_ne hn hm hne a ⟨hcontains', hcontains⟩

/-- A node with a container has its subnet. -/
theorem Seen.subnet (h : Seen m s) (hp : p ∈ ask (getAllPods m.node) s) :
    s.value (subnetKey m.node) ≠ [] := by
  obtain ⟨R, ⟨hsound, -⟩, hreads⟩ := h
  rw [hreads.pods] at hp
  rw [hreads.subnet]
  rcases hsound with hidle | hset
  · rw [hidle.pods] at hp
    cases hp
  · obtain ⟨j, hset⟩ := hset
    rw [hset.intact.subnet]
    exact (item_text m.net).ne_nil

end Cluster
end Ohno.ClusterAddresses
