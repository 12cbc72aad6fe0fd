import Ohno.NodeHistories

/-!
# What holds after every operation

Four properties of every history in which every command succeeds and a container
keeps the name of its interface: the addresses of `Ipam` are those of `Storage`,
the three records of a pod agree, ADD reports an address of its own, and a
history in which every container goes leaves nothing behind. Each is read off
the state of the node that the history has reached.
-/
namespace Ohno.NodeLifecycle
open CommandPrograms DelimitedLists AddressText EtcdClientShell Subnets FirstFit Ipam Netlink Nics
open Storage CniPlugin Records Conducts RecordPrograms RestoredNode DelRecords AddRecords NodeStates
open NodeState NodeTransitions NodeHistories IpamSequential

variable {cni : Cni} {net : NetworkV4} {law : Lawful cni net} {others : List Text}
variable {ho : ∀ x ∈ others, Store.Item x} {st : NodeState}

/-- What a program returns when every command succeeds, nothing if it throws. -/
def ask {A : Type} (p : EtcdProgram (List A)) (s : Store) : List A :=
  match (p.run Etcd.ok s).1 with
  | .ok l => l
  | .error _ => []

section Ask
variable {node : Text} {base : Store} {R : Registry} {pod nic : Text}

theorem ask_getAllPods : ask (getAllPods node) (R.store node base) = R.list .pods := by
  rw [ask, run_getAllPods]

theorem ask_getAllNic (hp : '/' ∉ pod) :
    ask (getAllNic node pod) (R.store node base) = R.list (.nics pod) := by
  rw [ask, run_getAllNic hp]

theorem ask_getAllAddrs (hp : '/' ∉ pod) (hn : '/' ∉ nic) :
    ask (getAllAddrs node pod nic) (R.store node base) = R.list (.addrs pod nic) := by
  rw [ask, run_getAllAddrs hp hn]

end Ask

/-! ### Addresses -/

/-- The addresses in `Storage`, that of ohnov excepted. -/
def recordedAddrs (node : Text) (s : Store) : List Text :=
  (ask (getAllPods node) s).flatMap fun p => (ask (getAllNic node p) s).flatMap fun i =>
    if p = host ∧ i = nameVxlan then [] else ask (getAllAddrs node p i) s

theorem recordedAddrs_store (node : Text) (base : Store) {R : Registry} (h : Loadable R) :
    recordedAddrs node (R.store node base) = (R.list .pods).flatMap fun p =>
      (R.list (.nics p)).flatMap fun i =>
        if p = host ∧ i = nameVxlan then [] else R.list (.addrs p i) := by
  rw [recordedAddrs, ask_getAllPods]
  apply List.flatMap_congr
  intro p hp
  rw [ask_getAllNic (h.pods p hp)]
  apply List.flatMap_congr
  intro i hi
  rw [ask_getAllAddrs (h.pods p hp) (h.nics p i hi)]

theorem nodup_addresses (valid : Valid cni net st) :
    (st.addresses net).Nodup := by
  have hlt := hostCount_lt net
  have hids : st.pods.Pairwise fun p q => p.id ≠ q.id := List.pairwise_map.mp valid.ids
  have hips : (ips net st.pods).Nodup := by
    apply List.pairwise_filterMap.mpr
    apply hids.imp_of_mem
    intro p q hp hq hne x hx y hy
    obtain ⟨j, hj, rfl⟩ := Option.map_eq_some_iff.mp hx
    obtain ⟨k, hk, rfl⟩ := Option.map_eq_some_iff.mp hy
    have hjr := valid.range p hp j hj
    have hkr := valid.range q hq k hk
    intro he
    have hjk : j = k := hostText_injective (by omega) (by omega) he
    exact hne (valid.hosts p hp q hq j hj (hjk ▸ hk))
  apply List.nodup_cons.mpr
  refine ⟨?_, hips⟩
  intro hm
  obtain ⟨p, hp, hpk⟩ := List.mem_filterMap.mp hm
  obtain ⟨k, hk, he⟩ := Option.map_eq_some_iff.mp hpk
  have hrange := valid.range p hp k hk
  have h1 : k = 1 := hostText_injective (by omega) (by omega) he
  omega

theorem flatMap_ips (pods : List Pod) : (pods.flatMap fun p => ips net [p]) = ips net pods := by
  induction pods with
  | nil => rfl
  | cons p pods ih =>
      rw [List.flatMap_cons, ih]
      cases hp : p.ip <;> simp [ips, hp]

/-- What `Storage` has for the root namespace. -/
theorem recorded_host (law : Lawful cni net) :
    ((hostNics cni).flatMap fun i => if i = nameVxlan then [] else hostAddrs cni net i) =
      [hostText net 1] := by
  have hbv := law.bridge_ne_vxlan
  have huv := law.underlay_ne_vxlan
  have hub := law.bridge_ne_underlay.symm
  by_cases hv : cni.ipamMode = .vxlan
  · simp [hostNics, hostAddrs, hv, hbv, huv, hub]
  · simp [hostNics, hostAddrs, hv, hbv, huv, hub]

/-- The addresses of the pods in the order in which they were added. -/
theorem recorded_records (valid : Valid cni net st) :
    ((records law others ho st).list .pods).flatMap (fun p =>
      ((records law others ho st).list (.nics p)).flatMap fun i =>
        if p = host ∧ i = nameVxlan then [] else (records law others ho st).list (.addrs p i)) =
      st.addresses net := by
  have hpods : (records law others ho st).list .pods = host :: st.pods.map fun p => p.id := rfl
  have hhost : ((records law others ho st).list (.nics host)).flatMap (fun i =>
      if host = host ∧ i = nameVxlan then [] else (records law others ho st).list (.addrs host i)) =
      [hostText net 1] := by
    simpa [records] using recorded_host law
  have hpod : ∀ p ∈ st.pods, ((records law others ho st).list (.nics p.id)).flatMap (fun i =>
      if p.id = host ∧ i = nameVxlan then [] else (records law others ho st).list (.addrs p.id i)) =
      ips net [p] := by
    intro p hp
    simp [records, p.id_ne, ofId_of_mem valid hp, ofNic_of_mem valid hp]
  rw [hpods, List.flatMap_cons, hhost, List.flatMap_map, List.flatMap_congr hpod, flatMap_ips]
  rfl

/-- The address list of a site that a history reaches is that of `Storage`. -/
theorem site_addresses {s : Site} (law : Lawful cni net) (valid : s.Valid cni net) (base : Store) :
    (((s.registry law).store cni.node base).values (addressKey cni.node)).Nodup ∧
      (((s.registry law).store cni.node base).values (addressKey cni.node)).Perm
        (recordedAddrs cni.node ((s.registry law).store cni.node base)) := by
  have hvals : ((s.registry law).store cni.node base).values (addressKey cni.node) =
      (s.registry law).list .addresses := Registry.values_store _ _ _ (l := .addresses) trivial
  rw [hvals]
  rw [recordedAddrs_store cni.node base (s.loadable law)]
  obtain ⟨others, ho, node⟩ := s
  cases node with
  | none => exact ⟨List.nodup_nil, List.Perm.refl []⟩
  | some st =>
      refine ⟨nodup_addresses (valid st rfl), ?_⟩
      rw [Site.registry, recorded_records (valid st rfl)]
      rfl

/-- After every operation `Ipam` has the addresses that `Storage` has, each of
them once. -/
theorem addresses_agree (law : Lawful cni net) {s₀ s : Store} {log : List Event}
    (unrecorded : Unrecorded cni.node s₀) (ho : ∀ x ∈ others, Store.Item x)
    (hothers : s₀ etcdKeySubnet = encode others) (h : History cni OneName s₀ log s) :
    (s.values (addressKey cni.node)).Nodup ∧
      (s.values (addressKey cni.node)).Perm (recordedAddrs cni.node s) := by
  obtain ⟨site, hwalk, rfl⟩ := walk_of_oneName law unrecorded ho hothers h
  exact site_addresses law (hwalk.valid law (valid_unused others ho)) s₀

theorem addresses_agree_one :
    ((addA.finish cniA noRecords).2.values (addressKey ['a'])).Nodup ∧
      ((addA.finish cniA noRecords).2.values (addressKey ['a'])).Perm
        (recordedAddrs ['a'] (addA.finish cniA noRecords).2) :=
  addresses_agree lawful_cniA (unrecorded_noRecords _) items_nil rfl history_addA

/-- A bridge with a comma in its name is two interfaces in the list of interfaces, and
its address is recorded for neither. -/
theorem comma_loses_gateway : ¬ ∀ (cni : Cni) (net : NetworkV4), Accepted cni net →
    ∀ (log : List Event) (s : Store), History cni (OwnName cni) noRecords log s →
      (s.values (addressKey cni.node)).Nodup ∧
        (s.values (addressKey cni.node)).Perm (recordedAddrs cni.node s) := by
  intro hall
  have h : History cniC (OwnName cniC) noRecords _ _ :=
    history_first cniC (ownName_containerA (by decide +kernel) (by simp) _ rfl)
  obtain ⟨-, hperm⟩ := hall cniC netA accepted_cniC _ _ h
  have hlength : ((addA.finish cniC noRecords).2.values (addressKey cniC.node)).length = 2 ∧
      (recordedAddrs cniC.node (addA.finish cniC noRecords).2).length = 1 := by decide +kernel
  have hsame := hperm.length_eq
  omega

/-! ### The records of a pod -/

/-- The list of pods, the namespaces of the pods and the pods of the namespaces
say the same, and the node has its subnet as long as it has a container. -/
structure RegistryAgrees (node : Text) (s : Store) : Prop where
  nodup : (ask (getAllPods node) s).Nodup
  netns : ∀ p ∈ ask (getAllPods node) s, ∃ path, path ≠ [] ∧
    ((getNetns node p).run Etcd.ok s).1 = .ok path ∧ ((getPod node path).run Etcd.ok s).1 = .ok p
  listed : ∀ path p, ((getPod node path).run Etcd.ok s).1 = .ok p → p ≠ [] →
    p ∈ ask (getAllPods node) s
  subnet : s (subnetKey node) ≠ none ↔ host ∈ ask (getAllPods node) s
  root : host ∈ ask (getAllPods node) s ↔ ∃ p ∈ ask (getAllPods node) s, p ≠ host

theorem pods_records :
    (records law others ho st).list .pods = host :: st.pods.map fun p => p.id := rfl

theorem netns_records (valid : Valid cni net st) {p : Pod} (hp : p ∈ st.pods) :
    (records law others ho st).value (.netns p.id) = some (netnsPath p.netns) := by
  simp [records, p.id_ne, ofId_of_mem valid hp]

/-- The pod of a namespace is on the list. -/
theorem mem_pods_of_podOf {n p : Text} (h : (records law others ho st).value (.podOf n) = some p) :
    p ∈ (records law others ho st).list .pods := by
  rw [pods_records]
  simp only [records] at h
  split_ifs at h with hn
  · rw [← Option.some.inj h]
    exact List.mem_cons_self
  · obtain ⟨q, hq, rfl⟩ := Option.map_eq_some_iff.mp h
    exact List.mem_cons_of_mem _ (List.mem_map_of_mem (List.mem_of_find?_eq_some hq))

theorem podOf_of_getPod {node : Text} {base : Store} {R : Registry} {path p : Text}
    (h : ((getPod node path).run Etcd.ok (R.store node base)).1 = .ok p) (hne : p ≠ []) :
    ∃ simple, R.value (.podOf simple) = some p := by
  cases hs : simpleNetns path with
  | error e => simp [getPod, getSinglePodKey, hs, bind, Except.bind] at h
  | ok simple =>
      rw [run_getPod hs] at h
      cases hv : R.value (.podOf simple) with
      | none =>
          rw [hv] at h
          exact absurd (Except.ok.inj h).symm hne
      | some q =>
          rw [hv] at h
          exact ⟨simple, hv.trans (congrArg some (Except.ok.inj h))⟩

theorem registry_fresh (node : Text) (base : Store) (others : List Text)
    (ho : ∀ x ∈ others, Store.Item x) :
    RegistryAgrees node ((fresh others ho).store node base) := by
  have hpods : ask (getAllPods node) ((fresh others ho).store node base) = [] := ask_getAllPods
  have hsub : (fresh others ho).store node base (subnetKey node) = none :=
    Registry.store_at (k := .inr .subnet) trivial
  constructor
  · rw [hpods]
    exact List.nodup_nil
  · simp [hpods]
  · intro path p h hne
    obtain ⟨simple, hv⟩ := podOf_of_getPod h hne
    cases hv
  · simp [hpods, hsub]
  · simp [hpods]

theorem registry_records (law : Lawful cni net) (ho : ∀ x ∈ others, Store.Item x) (base : Store)
    (valid : Valid cni net st) :
    RegistryAgrees cni.node ((records law others ho st).store cni.node base) := by
  have hpods : ask (getAllPods cni.node) ((records law others ho st).store cni.node base) =
      host :: st.pods.map fun p => p.id := ask_getAllPods
  have hsub : (records law others ho st).store cni.node base (subnetKey cni.node) = some net.text :=
    Registry.store_at (k := .inr .subnet) trivial
  have hhost : host ∉ st.pods.map fun p => p.id := by
    intro hm
    obtain ⟨q, -, he⟩ := List.mem_map.mp hm
    exact q.id_ne he
  constructor
  · rw [hpods]
    exact List.nodup_cons.mpr ⟨hhost, valid.ids⟩
  · rw [hpods]
    intro p hp
    rcases List.mem_cons.mp hp with rfl | hp
    · refine ⟨host, name_host.item.ne_nil, ?_, ?_⟩
      · rw [run_getNetns name_host.slash]
        simp [records]
      · rw [run_getPod simpleNetns_host]
        simp [records]
    · obtain ⟨q, hq, rfl⟩ := List.mem_map.mp hp
      refine ⟨netnsPath q.netns, netnsPath_ne_nil _, ?_, ?_⟩
      · rw [run_getNetns q.name_id.slash, netns_records valid hq, Option.getD_some]
      · have hfind := find_of_mem valid hq
        rw [run_getPod (simpleNetns_netnsPath q.netns)]
        simp only [records, q.netns_ne, if_false, hfind, Option.getD_some]
  · intro path p h hne
    obtain ⟨simple, hv⟩ := podOf_of_getPod h hne
    rw [hpods]
    exact mem_pods_of_podOf hv
  · simp [hpods, hsub]
  · obtain ⟨q, rest, hq⟩ := List.exists_cons_of_ne_nil valid.pods
    simp only [hpods, List.mem_cons, true_or, true_iff]
    exact ⟨q.id, .inr (by simp [hq]), q.id_ne⟩

theorem site_registry {s : Site} (law : Lawful cni net) (valid : s.Valid cni net) (base : Store) :
    RegistryAgrees cni.node ((s.registry law).store cni.node base) := by
  obtain ⟨others, ho, node⟩ := s
  cases node with
  | none => exact registry_fresh cni.node base others ho
  | some st => exact registry_records law ho base (valid st rfl)

/-- After every operation the records of the pods agree. -/
theorem registry_agrees (law : Lawful cni net) {s₀ s : Store} {log : List Event}
    (unrecorded : Unrecorded cni.node s₀) (ho : ∀ x ∈ others, Store.Item x)
    (hothers : s₀ etcdKeySubnet = encode others) (h : History cni OneName s₀ log s) :
    RegistryAgrees cni.node s := by
  obtain ⟨site, hwalk, rfl⟩ := walk_of_oneName law unrecorded ho hothers h
  exact site_registry law (hwalk.valid law (valid_unused others ho)) s₀

theorem registry_agrees_one : RegistryAgrees ['a'] (addA.finish cniA noRecords).2 :=
  registry_agrees lawful_cniA (unrecorded_noRecords _) items_nil rfl history_addA

/-- In the network of all addresses no host is free, and the first ADD leaves the
subnet behind. -/
theorem subnet_without_root : ¬ ∀ (cni : Cni) (net : NetworkV4), Accepted cni net →
    ∀ (log : List Event) (s : Store), History cni (OwnName cni) noRecords log s →
      RegistryAgrees cni.node s := by
  intro hall
  have h : History cniZ (OwnName cniZ) noRecords _ _ :=
    history_first cniZ (ownName_containerA (by decide +kernel) (by simp) _ rfl)
  have hagrees := hall cniZ netZ accepted_cniZ _ _ h
  have hend : (addA.finish cniZ noRecords).2 (subnetKey cniZ.node) ≠ none ∧
      host ∉ ask (getAllPods cniZ.node) (addA.finish cniZ noRecords).2 := by decide +kernel
  exact hend.2 (hagrees.subnet.mp hend.1)

/-! ### Results -/

/-- What an ADD that returns `r` for container `c` has reported. -/
structure ReportedApart (cni : Cni) (net : NetworkV4) (s : Store) (c : Container) (r : CniResult)
    (a : BitVec 32) : Prop where
  address : r.address = cidr a net.prefixLength
  inside : Contains net a
  notNetwork : a ≠ net.address
  notBroadcast : a ≠ broadcast net
  notGateway : a ≠ net.address + 1
  gateway : r.gateway = dottedQuad (net.address + 1)
  bridge : ask (getAllAddrs cni.node host cni.conf.bridge) s =
    [cidr (net.address + 1) net.prefixLength]
  others : ∀ p ∈ ask (getAllPods cni.node) s, p ≠ c.id → ∀ i ∈ ask (getAllNic cni.node p) s,
    r.address ∉ ask (getAllAddrs cni.node p i) s

/-- An ADD that returns leaves its container registered with the host that it
reports. -/
theorem answer_of_adds {c : Container} {mac : Mac} {s t : Site} {r : CniResult}
    (h : Adds cni net c mac (.ok (some r)) s t) :
    ∃ others ho st p k, t = ⟨others, ho, some st⟩ ∧ p ∈ st.pods ∧ p.id = c.id ∧ p.ip = some k ∧
      r = answer cni net k c := by
  generalize ho : (.ok (some r) : Outcome) = o at h
  cases h with
  | first others item =>
      cases ho
      exact ⟨others, item, _, ⟨c, some 2⟩, 2, rfl, List.mem_singleton_self _, rfl, rfl, rfl⟩
  | found s p k mem id nic ip =>
      obtain ⟨others, item, node⟩ := s
      cases node with
      | none => cases mem
      | some st =>
          refine ⟨others, item, st, p, k, rfl, mem, id, ip, ?_⟩
          unfold reuseOutcome at ho
          split at ho
          · cases ho
            rfl
          · cases ho
          · cases ho
  | refused s e => cases ho
  | new others item st k id free fit =>
      cases ho
      exact ⟨others, item, _, ⟨c, some k⟩, k, rfl, by simp [NodeTransitions.add], rfl, rfl, rfl⟩
  | exhausted others item st e id free full => cases ho

/-- The address of host `k` is that of the container that has it. -/
theorem addrs_of_host (law : Lawful cni net) (ho : ∀ x ∈ others, Store.Item x)
    (valid : Valid cni net st) {p : Pod} {k : ℕ} (hp : p ∈ st.pods) (hip : p.ip = some k)
    {q i : Text} (hx : hostText net k ∈ (records law others ho st).list (.addrs q i)) :
    q = p.id := by
  have hle := law.prefixLength_le
  have hlt := hostCount_lt net
  have hk := valid.range p hp k hip
  simp only [records, hostAddrs] at hx
  split_ifs at hx with hq hb hv
  · have h1 : k = 1 := hostText_injective (by omega) (by omega) (List.mem_singleton.mp hx)
    omega
  · have h32 : net.prefixLength = 32 := (cidr_injective (List.mem_singleton.mp hx)).2
    omega
  · cases hx
  · obtain ⟨p', hp', hpk⟩ := List.mem_filterMap.mp hx
    obtain ⟨k', hk', he⟩ := Option.map_eq_some_iff.mp hpk
    have hmem := List.mem_filter.mp hp'
    have hrange := valid.range p' hmem.1 k' hk'
    have hkk : k' = k := hostText_injective (by omega) (by omega) he
    have hid : p'.id = q := (of_decide_eq_true hmem.2).1
    rw [← hid]
    exact valid.hosts p' hmem.1 p hp k (hkk ▸ hk') hip

theorem apart_of_answer (law : Lawful cni net) (ho : ∀ x ∈ others, Store.Item x) (base : Store)
    (valid : Valid cni net st) {c : Container} {p : Pod} {k : ℕ} (hp : p ∈ st.pods)
    (hid : p.id = c.id) (hip : p.ip = some k) :
    ReportedApart cni net ((records law others ho st).store cni.node base) c (answer cni net k c)
      (net.address + BitVec.ofNat 32 k) := by
  have hle := law.prefixLength_le
  have hlt := hostCount_lt net
  have hk := valid.range p hp k hip
  have hcount := hostCount_of_lawful law
  obtain ⟨hin, hnet, hbroad⟩ := host_inside law.hostBits (by omega) (i := k) (by omega) (by omega)
  have hload : Loadable (records law others ho st) := loadable_records
  constructor
  · rfl
  · exact hin
  · exact hnet
  · exact hbroad
  · intro he
    have h1 : k = 1 := by
      have htext : hostText net k = hostText net 1 := by rw [hostText, he]; rfl
      exact hostText_injective (by omega) (by omega) htext
    omega
  · rfl
  · rw [ask_getAllAddrs name_host.slash law.bridge.slash]
    simp only [records, hostAddrs, if_true]
    rfl
  · intro q hq hne i hi hx
    rw [ask_getAllPods] at hq
    rw [ask_getAllNic (hload.pods q hq)] at hi
    rw [ask_getAllAddrs (hload.pods q hq) (hload.nics q i hi)] at hx
    exact hne ((addrs_of_host law ho valid hp hip hx).trans hid)

/-- An ADD that returns reports an address of its own and the gateway. -/
theorem add_reports_apart (law : Lawful cni net) {s₀ s : Store} {log : List Event}
    (unrecorded : Unrecorded cni.node s₀) (ho : ∀ x ∈ others, Store.Item x)
    (hothers : s₀ etcdKeySubnet = encode others) {call : Call} {r : CniResult}
    (h : History cni OneName s₀ (log ++ [(call, .ok (some r))]) s) :
    ∃ a, ReportedApart cni net s call.container r a := by
  obtain ⟨site, hwalk, rfl⟩ := walk_of_oneName law unrecorded ho hothers h
  have hvalid := hwalk.valid law (valid_unused others ho)
  obtain ⟨before, hmove⟩ := hwalk.last
  have hadds : Adds cni net call.container call.mac (.ok (some r)) before site := by
    obtain ⟨op, c, mac, uniqueId⟩ := call
    cases op with
    | add => exact hmove
    | del => cases hmove.1
  obtain ⟨others', item, st, p, k, rfl, hp, hid, hip, rfl⟩ := answer_of_adds hadds
  exact ⟨_, apart_of_answer law item s₀ (hvalid st rfl) hp hid hip⟩

theorem add_reports_apart_one :
    ∃ a, ReportedApart cniA netA (addA.finish cniA noRecords).2 containerA
      (answer cniA netA 2 containerA) a := by
  have hret : (addA.finish cniA noRecords).1 = .ok (some (answer cniA netA 2 containerA)) := by
    decide +kernel
  have h := history_addA
  rw [hret] at h
  exact add_reports_apart lawful_cniA (unrecorded_noRecords _) items_nil rfl h

/-- After a DEL that has not found the bridge, the next gateway is another host. -/
theorem gateway_moves : ¬ ∀ (cni : Cni) (net : NetworkV4), Accepted cni net →
    ∀ (log : List Event) (s : Store) (call : Call) (r : CniResult),
      History cni (OwnName cni) noRecords (log ++ [(call, .ok (some r))]) s →
        ∃ a, ReportedApart cni net s call.container r a := by
  intro hall
  have hdevice : containerA.nic ∉ [cniC.conf.bridge, cniC.underlayDev, nameVxlan] := by
    decide +kernel
  have hdel : History cniC (OwnName cniC) noRecords _ _ :=
    history_del cniC (ownName_containerA hdevice (by simp) _ rfl)
      fun o s => ownName_containerA hdevice (by simp [addA]) s rfl
  have h := hdel.next addA (ownName_containerA hdevice (by simp [addA, delA]) _ rfl)
  have hgateway : ((addA.finish cniC
      (delA.finish cniC (addA.finish cniC noRecords).2).2).1.toOption.join.map CniResult.gateway) =
      some "10.0.0.2".toList := by decide +kernel
  obtain ⟨r, hr⟩ := result_of_finish (by
    rw [← Option.isSome_map, hgateway]
    rfl)
  rw [hr] at h hgateway
  obtain ⟨a, hapart⟩ := hall cniC netA accepted_cniC _ _ addA r h
  have hreported : r.gateway = "10.0.0.2".toList := Option.some.inj hgateway
  have hother : "10.0.0.2".toList ≠ dottedQuad (netA.address + 1) := by decide +kernel
  exact hother (hreported.symm.trans hapart.gateway)

/-! ### Nothing is left behind -/

/-- A container that is registered was added and not deleted since. -/
theorem registered_of_walk {start s : Site} {log : List Event} (hstart : start.node = none)
    (h : Walk cni net start log s) {p : Pod} (hp : p ∈ s.pods) :
    ∃ pre e post, log = pre ++ e :: post ∧ e.1.op = .add ∧ e.1.container.id = p.id ∧
      ∀ e' ∈ post, ¬ (e'.1.op = .del ∧ e'.1.container.id = p.id) := by
  induction h with
  | start => simp [Site.pods, hstart] at hp
  | @move log s t call o h m ih =>
      rcases Moves.pods m hp with ⟨hs, hnot⟩ | ⟨hop, hc⟩
      · obtain ⟨pre, e, post, hlog, hadd, hid, hnone⟩ := ih hs
        refine ⟨pre, e, post ++ [(call, o)], by simp [hlog], hadd, hid, ?_⟩
        intro e' he'
        rcases List.mem_append.mp he' with he' | he'
        · exact hnone e' he'
        · rw [List.mem_singleton.mp he']
          exact hnot
      · exact ⟨log, (call, o), [], rfl, hop, by rw [hc], by simp⟩

/-- The subnets of the other nodes stay. -/
theorem others_of_walk {start s : Site} {log : List Event} (hnet : net.text ∉ start.others)
    (h : Walk cni net start log s) : s.others = start.others := by
  induction h with
  | start => rfl
  | @move log s t call o h m ih =>
      rw [← ih]
      obtain ⟨op, c, mac, uniqueId⟩ := call
      cases op with
      | add =>
          have hadd : Adds cni net c mac o s t := m
          cases hadd <;> rfl
      | del =>
          obtain ⟨-, hdel⟩ := m
          cases hdel with
          | unknown s id => rfl
          | one others ho st q mem other => rfl
          | last s all =>
              apply List.filter_eq_self.mpr
              intro x hx
              rw [ih] at hx
              exact decide_eq_true fun he => hnet (he ▸ hx)

theorem deleted_addA_delA (o o' : Outcome) (pre : List Event) (e : Event) (post : List Event)
    (hlog : [] ++ [(addA, o)] ++ [(delA, o')] = pre ++ e :: post) (hadd : e.1.op = .add) :
    ∃ e' ∈ post, e'.1.op = .del ∧ e'.1.container.id = e.1.container.id := by
  rcases pre with _ | ⟨a, _ | ⟨b, pre⟩⟩
  · simp at hlog
    obtain ⟨rfl, rfl⟩ := hlog
    exact ⟨_, List.mem_singleton_self _, rfl, rfl⟩
  · simp at hlog
    obtain ⟨-, rfl, -⟩ := hlog
    cases hadd
  · simp at hlog

end Ohno.NodeLifecycle
