import Ohno.Storage
import Ohno.SubnetAllocation

/-!
# The way of an address through the program

`Ipam` writes an address down as `generateIp` prints it. The plugin reads it
with `Addr`, `Storage` lists what `Addr` prints, and what is listed goes
through `Addr` once more before it is compared with the stored text. A CIDR
text is a fixed point of all of these, and so is taken from the list exactly.
-/
namespace Ohno.AddressRoundTrip
open CommandPrograms DelimitedLists AddressText EtcdClientShell Subnets FirstFit Ipam Nics Storage
open SubnetAllocation

/-- A text that comes back as it was from `Addr`, from the address list of any
interface in any store, and from both. -/
structure Recovered (boost : Boost) (node t : Text) : Prop where
  addr : (Addr.ofCidr boost t).getAddrCidr = .ok t
  listed : ∀ (pod nic : Text) (s : Store), ∃ (earlier : List Text) (u : Store),
    (addAddr node pod nic (Addr.ofCidr boost t)).run Etcd.ok s = (.ok true, u) ∧
    (getAllAddrs node pod nic).run Etcd.ok u = (.ok (earlier ++ [t]), u)

/-- A text that was added to a list by going from `s` to `u` and taken out of
it by going to `w`. -/
structure TakenOut (k t : Text) (s u w : Store) : Prop where
  stored : t ∈ u.values k
  gone : t ∉ w.values k
  restored : t ∉ s.values k → w.value k = s.value k

/-! ### Lists -/

section Lists
variable {s : Store} {k v : Text}

/-- Writing a list and reading it gives no new items. -/
theorem mem_of_mem_split_join {items : List Text} (h : ∀ x ∈ items, ',' ∉ x) {x : Text}
    (hx : x ∈ split ',' (join ',' items)) : x ∈ items := by
  by_cases hn : items = []
  · simp [hn, split] at hx
  · have hs : (join ',' items).splitOn ',' = items := List.splitOn_intercalate ',' h hn
    rw [splitOn_eq] at hs
    split at hs
    · exact hs ▸ List.mem_append_left _ hx
    · exact hs ▸ hx

theorem value_append (hi : Store.Item v) :
    (s.append k v).value k = if s.value k = [] then v else s.value k ++ ',' :: v := by
  have hline : '\n' ∉ if s.value k = [] then v else s.value k ++ ',' :: v := by
    split
    · exact hi.line
    · simp [Store.newline_notMem_value, hi.line]
  exact Store.value_set hline

/-- The item is the last one, whatever the list text was. -/
theorem values_append (hi : Store.Item v) :
    ∃ earlier, (s.append k v).values k = earlier ++ [v] := by
  have hv : split ',' v = [v] := split_eq_singleton hi.comma hi.ne_nil
  by_cases hn : s.value k = []
  · exact ⟨[], by rw [Store.values, value_append hi, if_pos hn, hv, List.nil_append]⟩
  · exact ⟨(s.value k).splitOn ',', by
      rw [Store.values, value_append hi, if_neg hn, split_append_cons, hv]⟩

theorem notMem_values_delValue (s : Store) (k v : Text) : v ∉ (s.delValue k v).values k := by
  have hpruned : join ',' ((s.values k).filter (· ≠ v)) = pruned v (s.shown k) := by
    rw [pruned, Store.eraseNewlines_shown]
    rfl
  simp only [Store.delValue]
  split
  · simp [Store.values, split]
  · rw [Store.values, Store.value_set (hpruned ▸ newline_notMem_pruned)]
    intro hv
    have hmem := mem_of_mem_split_join (fun x hx =>
      free_of_mem_split ',' (s.value k) x (List.mem_of_mem_filter hx)) hv
    simpa using List.of_mem_filter hmem

/-- An item that is not in the list leaves it as it was. -/
theorem value_delValue_append (hi : Store.Item v) (hv : v ∉ s.values k) :
    ((s.append k v).delValue k v).value k = s.value k := by
  rw [Store.append, delValue_set]
  have hvalue : ∀ t, '\n' ∉ t → Store.value (Function.update s k (kept t)) k = t := by
    intro t ht
    simp only [Store.value, Store.shown, Function.update_self, kept]
    split
    · rename_i hnil
      simp [hnil]
    · simp [eraseNewlines_eq_self ht]
  rw [hvalue _ newline_notMem_pruned]
  split
  · rename_i hn
    rw [pruned_self hi, hn]
  · rename_i hn
    exact (pruned_append_item Store.newline_notMem_value hn hi).mpr hv

theorem takenOut_append (hi : Store.Item v) {u : Store} (hu : u k = (s.append k v) k) {w : Store}
    (hw : w k = (s.append k v).delValue k v k) : TakenOut k v s u w := by
  obtain ⟨earlier, hlast⟩ : ∃ earlier, (s.append k v).values k = earlier ++ [v] := values_append hi
  constructor
  · rw [Store.values_congr hu, hlast]
    simp
  · rw [Store.values_congr hw]
    exact notMem_values_delValue _ k v
  · intro hv
    rw [Store.value_congr hw]
    exact value_delValue_append hi hv

theorem delValue_congr {t : Store} (h : s k = t k) : s.delValue k v k = t.delValue k v k := by
  simp only [Store.delValue, Store.values_congr h]
  split <;> simp

end Lists

/-! ### Canonical texts -/

variable (boost : Boost) {a : BitVec 32} {p : ℕ}

/-- The item that `Storage` lists is the text itself. -/
theorem run_addAddr_cidr (hp : p ≤ 32) (node pod nic : Text) (s : Store) :
    (addAddr node pod nic (Addr.ofCidr boost (cidr a p))).run Etcd.ok s =
      (.ok true, s.append (getAddrKey node pod nic) (cidr a p)) := by
  simp [addAddr, Addr.ofCidr_cidr boost a hp]

theorem item_cidr (a : BitVec 32) (p : ℕ) : Store.Item (cidr a p) where
  ne_nil := cidr_ne_nil _ _
  comma := notMem_cidr (by decide) (by decide) (by decide)
  line := notMem_cidr (by decide) (by decide) (by decide)

theorem recovered_cidr (hp : p ≤ 32) (node : Text) : Recovered boost node (cidr a p) := by
  constructor
  · rw [Addr.ofCidr_cidr boost a hp, Addr.getAddrCidr_ipv4]
  · intro pod nic s
    obtain ⟨earlier, hlast⟩ : ∃ earlier,
        (s.append (getAddrKey node pod nic) (cidr a p)).values (getAddrKey node pod nic) =
          earlier ++ [cidr a p] := values_append (item_cidr a p)
    refine ⟨earlier, _, run_addAddr_cidr boost hp node pod nic s, ?_⟩
    simp [getAllAddrs, listOrEmpty, hlast]

/-- Every text that `generateIp` prints is canonical, that of a single address too. -/
theorem generateIp_cidr {i : ℕ} {t : Text} (h : Subnet.generateIp ⟨⟨a, p⟩, .ipv4⟩ i = .ok t) :
    ∃ b, t = cidr b p := by
  simp only [Subnet.generateIp, Subnet.checkIpv6_ipv4, Subnet.generateIpImpl, bind, Except.bind,
    pure, Except.pure] at h
  split at h
  · simp at h
  · rename_i b hb
    exact ⟨b, (Except.ok.inj h).symm⟩

/-- What `allocateIp` returns is a text of `generateIp` that was not in the list. -/
theorem allocateIp_ok {node ip : Text} {s u : Store} (hp : p ≤ 32)
    (hs : s.value (subnetKey node) = cidr a p)
    (h : (allocateIp boost node).run Etcd.ok s = (.ok (true, ip), u)) :
    (∃ i, Subnet.generateIp ⟨⟨a, p⟩, .ipv4⟩ i = .ok ip) ∧ ip ∉ s.values (addressKey node) ∧
      u = s.append (addressKey node) ip := by
  have hinit : Subnet.init boost (s.value (subnetKey node)) = .ok ⟨⟨a, p⟩, .ipv4⟩ := by
    rw [hs, Subnet.init_cidr boost a hp]
  by_cases hlt : p < 32
  · rw [run_allocateIp boost s hinit hlt] at h
    split at h
    · rename_i j hj
      obtain ⟨hj, -, hfree, -⟩ := firstFree_eq_some_iff.mp hj
      simp only [Prod.mk.injEq, Except.ok.injEq, true_and] at h
      obtain ⟨rfl, rfl⟩ := h
      exact ⟨⟨j, Subnet.generateIp_ipv4 ⟨a, p⟩ hj hlt⟩, hfree, rfl⟩
    · simp at h
  · -- A network of one address has no number of hosts.
    have h32 : p = 32 := by omega
    subst h32
    simp [allocateIp, cidr_ne_nil, hs, Subnet.init_cidr boost a hp, Subnet.getMaxHosts,
      Subnet.getMaxSubnetsFromCidr, maxPrefixIpv4, bind, Except.bind] at h

theorem takenOut_releaseIp {node ip : Text} {s u : Store} (hp : p ≤ 32)
    (hs : s.value (subnetKey node) = cidr a p)
    (h : (allocateIp boost node).run Etcd.ok s = (.ok (true, ip), u)) :
    ∃ w, (releaseIp node ip).run Etcd.ok u = (.ok true, w) ∧
      TakenOut (addressKey node) ip s u w := by
  obtain ⟨⟨i, hi⟩, -, rfl⟩ := allocateIp_ok boost hp hs h
  obtain ⟨b, rfl⟩ := generateIp_cidr hi
  exact ⟨_, run_releaseIp .., takenOut_append (item_cidr b p) rfl rfl⟩

theorem etcdKeySubnet_ne_subnetKey (node : Text) : etcdKeySubnet ≠ subnetKey node := by
  intro h
  have hlen := congrArg List.length h
  simp [subnetKey] at hlen

theorem takenOut_releaseSubnet {node : Text} {s : Store} (hs : s.value (subnetKey node) = []) :
    ∃ u w, (allocateSubnet node (cidr a p)).run Etcd.ok s = (.ok (true, cidr a p), u) ∧
      (releaseSubnet node (cidr a p)).run Etcd.ok u = (.ok true, w) ∧
      w (subnetKey node) = none ∧ TakenOut etcdKeySubnet (cidr a p) s u w := by
  have hne := etcdKeySubnet_ne_subnetKey node
  refine ⟨(s.append etcdKeySubnet (cidr a p)).set (subnetKey node) (cidr a p),
    (((s.append etcdKeySubnet (cidr a p)).set (subnetKey node) (cidr a p)).erase
      (subnetKey node)).delValue etcdKeySubnet (cidr a p), ?_, ?_, ?_, ?_⟩
  · simp [allocateSubnet, hs]
  · simp [releaseSubnet]
  · rw [Store.delValue_of_ne (Ne.symm hne), Store.erase_same]
  · apply takenOut_append (item_cidr a p) (Store.set_of_ne hne)
    apply delValue_congr
    rw [Store.erase_of_ne hne, Store.set_of_ne hne]

/-- A canonical CIDR text goes through `Addr` and through `Subnet` unchanged. So
what `generateIp` prints and `allocateIp` stores is recovered from `Storage` as
it was, and releasing it, or the subnet, takes out what was stored. -/
theorem canonical_cidr (a : BitVec 32) (hp : p ≤ 32) (node : Text) :
    (Addr.ofCidr boost (cidr a p)).getAddrCidr = .ok (cidr a p) ∧
    (Subnet.init boost (cidr a p)).bind Subnet.getSubnet = .ok (cidr a p) ∧
    (∀ i t, (Subnet.init boost (cidr a p)).bind (Subnet.generateIp · i) = .ok t →
      Recovered boost node t) ∧
    (∀ (s u : Store) (ip : Text), s.value (subnetKey node) = cidr a p →
      (allocateIp boost node).run Etcd.ok s = (.ok (true, ip), u) →
      (∃ i, (Subnet.init boost (cidr a p)).bind (Subnet.generateIp · i) = .ok ip) ∧
      ip ∉ s.values (addressKey node) ∧
      ∃ w, (releaseIp node ip).run Etcd.ok u = (.ok true, w) ∧
        TakenOut (addressKey node) ip s u w) ∧
    ∀ s : Store, s.value (subnetKey node) = [] →
      ∃ u w, (allocateSubnet node (cidr a p)).run Etcd.ok s = (.ok (true, cidr a p), u) ∧
        (releaseSubnet node (cidr a p)).run Etcd.ok u = (.ok true, w) ∧
        w (subnetKey node) = none ∧ TakenOut etcdKeySubnet (cidr a p) s u w := by
  have hinit : Subnet.init boost (cidr a p) = .ok ⟨⟨a, p⟩, .ipv4⟩ := Subnet.init_cidr boost a hp
  rw [hinit]
  refine ⟨(recovered_cidr boost hp node).addr, rfl, ?_, ?_, ?_⟩
  · intro i t ht
    obtain ⟨b, rfl⟩ := generateIp_cidr ht
    exact recovered_cidr boost hp node
  · intro s u ip hs h
    obtain ⟨hi, hfree, -⟩ := allocateIp_ok boost hp hs h
    exact ⟨hi, hfree, takenOut_releaseIp boost hp hs h⟩
  · intro s hs
    exact takenOut_releaseSubnet hs

/-- The first address of 10.1.0.0/24, allocated and released. -/
theorem canonical_cidr_slash24 :
    let ip := cidr 0x0a010001 24
    let s := Store.set (fun _ => none) (subnetKey ['a']) (cidr 0x0a010000 24)
    let u := s.append (addressKey ['a']) ip
    ∃ w, (releaseIp ['a'] ip).run Etcd.ok u = (.ok true, w) ∧
      TakenOut (addressKey ['a']) ip s u w := by
  intro ip s u
  have hs : s.value (subnetKey ['a']) = cidr 0x0a010000 24 := Store.value_set (item_cidr _ _).line
  have hnone : s (addressKey ['a']) = none :=
    Store.set_of_ne (subnetKey_ne_addressKey _ _).symm
  have hnil : s.values (addressKey ['a']) = [] := (Store.Holds.nil hnone).values
  have hfirst : firstFree (hostText ⟨0x0a010000, 24⟩) (hostCount ⟨0x0a010000, 24⟩) [] = some 1 :=
    firstFree_eq_some_iff.mpr ⟨le_rfl, by decide, by simp, by omega⟩
  have hrun : (allocateIp Boost.reference ['a']).run Etcd.ok s = (.ok (true, ip), u) := by
    rw [run_allocateIp Boost.reference s (hs ▸ Subnet.init_cidr Boost.reference _ (by decide))
      (by decide), hnil, hfirst]
    rfl
  exact ((canonical_cidr Boost.reference 0x0a010000 (by decide) ['a']).2.2.2.1 _ _ _ hs hrun).2.2

end Ohno.AddressRoundTrip
