import Mathlib.Data.List.Find
import Ohno.NodeStates

/-!
# The operations on the state of a node

On the records of a state, ADD appends a container and DEL removes one, and
nothing else changes. The last DEL leaves no record of the node.
-/
namespace Ohno.NodeTransitions
open CommandPrograms DelimitedLists AddressText EtcdClientShell Subnets FirstFit Ipam Netlink Nics
open Storage CniPlugin Records Conducts RecordPrograms RestoredNode DelRecords AddRecords NodeStates
open NodeState

variable {cni : Cni} {net : NetworkV4} {law : Lawful cni net} {others : List Text}
variable {ho : ∀ x ∈ others, Store.Item x} {st : NodeState}

/-! ### ADD -/

def add (st : NodeState) (p : Pod) : NodeState := { st with pods := st.pods ++ [p] }

theorem ofId_add (p : Pod) (c : Text) :
    (add st p).ofId c = if p.id = c then st.ofId c ++ [p] else st.ofId c := by
  unfold ofId add
  split_ifs with h <;> simp [h]

theorem ofNic_add (p : Pod) (c i : Text) :
    (add st p).ofNic c i = if p.id = c ∧ p.nic = i then st.ofNic c i ++ [p] else st.ofNic c i := by
  unfold ofNic add
  split_ifs with h <;> simp [h]

theorem ips_concat (pods : List Pod) (p : Pod) :
    ips net (pods ++ [p]) = ips net pods ++ (p.ip.map (hostText net)).toList := by
  unfold ips
  rw [List.filterMap_append]
  cases hp : p.ip <;> simp [hp]

theorem addresses_add (p : Pod) :
    (add st p).addresses net = st.addresses net ++ (p.ip.map (hostText net)).toList := by
  simp only [addresses, add, ips_concat, List.cons_append]

/-- A namespace is found with the first of its pods, which is the same container. -/
theorem find_add (p : Pod) (hfree : ∀ q ∈ st.pods, q.netns = p.netns → q.id = p.id) (n : Text) :
    ((add st p).pods.find? (·.netns = n)).map (fun q => q.id) =
      if n = p.netns then some p.id else (st.pods.find? (·.netns = n)).map fun q => q.id := by
  rw [add, List.find?_append]
  cases hf : st.pods.find? (·.netns = n) with
  | none =>
      by_cases hn : n = p.netns
      · simp [hn]
      · simp [hn, Ne.symm hn]
  | some q =>
      have hq : q.netns = n := by simpa using List.find?_some hf
      have hmem : q ∈ st.pods := List.mem_of_find?_eq_some hf
      split_ifs with hn
      · simp [hfree q hmem (hq.trans hn)]
      · rfl

theorem podRecords_records (law : Lawful cni net) (ho : ∀ x ∈ others, Store.Item x) (c : Container)
    (hfree : ∀ q ∈ st.pods, q.netns = c.netns → q.id = c.id) :
    podRecords c.name_id c.name_nic c.line_path c.netns (records law others ho st) =
      records law others ho (add st ⟨c, none⟩) := by
  have hid := c.id_ne
  have hns := c.netns_ne
  have hfind := find_add ⟨c, none⟩ hfree
  apply Registry.ext
  · funext k
    cases k with
    | subnets => rfl
    | addresses => simp [podRecords, records, addresses_add]
    | pods => simp [podRecords, records, add]
    | nics p =>
        by_cases hp : p = c.id
        · simp [podRecords, records, ofId_add, hp, hid]
        · simp [podRecords, records, ofId_add, hp, Ne.symm hp]
    | addrs p i => simp [podRecords, records, ofNic_add, apply_ite (ips net), ips_concat]
    | routes p i => simp [podRecords, records, ofNic_add, apply_ite (ips net), ips_concat]
  · funext j
    cases j with
    | subnet => rfl
    | vtep => rfl
    | netns p =>
        by_cases hp : p = c.id
        · simp [podRecords, records, ofId_add, hp, hid]
        · simp [podRecords, records, ofId_add, hp, Ne.symm hp]
    | podOf n =>
        by_cases hn : n = c.netns
        · simp [podRecords, records, hfind, hn, hns]
        · simp [podRecords, records, hfind, hn]

theorem addrRecords_records (c : Container) (k : ℕ) :
    addrRecords c.id c.name_nic (gateway net) (hostText net k) (item_hostText net k)
        (records law others ho (add st ⟨c, none⟩)) =
      records law others ho (add st ⟨c, some k⟩) := by
  have hid := c.id_ne
  apply Registry.ext
  · funext key
    cases key with
    | subnets => rfl
    | addresses => simp [addrRecords, records, addresses_add]
    | pods => simp [addrRecords, records, add]
    | nics p => simp [addrRecords, records, ofId_add, apply_ite (List.map _)]
    | addrs p i =>
        by_cases hp : p = c.id ∧ i = c.nic
        · simp [addrRecords, records, ofNic_add, ips_concat, hp.1, hp.2, hid]
        · have hq : ¬ (c.id = p ∧ c.nic = i) := fun h => hp ⟨h.1.symm, h.2.symm⟩
          simp [addrRecords, records, ofNic_add, hp, hq]
    | routes p i =>
        by_cases hp : p = c.id ∧ i = c.nic
        · simp [addrRecords, records, ofNic_add, ips_concat, hp.1, hp.2, hid, List.replicate_succ']
        · have hq : ¬ (c.id = p ∧ c.nic = i) := fun h => hp ⟨h.1.symm, h.2.symm⟩
          simp [addrRecords, records, ofNic_add, hp, hq]
  · funext j
    cases j with
    | subnet => rfl
    | vtep => rfl
    | netns p => by_cases hp : c.id = p <;> simp [addrRecords, records, ofId_add, hp]
    | podOf n =>
        by_cases hn : c.netns = n
        · cases hf : st.pods.find? (·.netns = n) <;>
            simp [addrRecords, records, add, List.find?_append, hn, hf]
        · simp [addrRecords, records, add, List.find?_append, hn]

/-- Creating the node. -/
theorem nodeRecords_fresh (mac : Mac) (hmac : cni.vxlanMac = mac.text) :
    nodeRecords law (hostText net 1) (item_hostText net 1) (fresh others ho) =
      records law others ho ⟨[], if cni.ipamMode = .vxlan then some mac else none⟩ := by
  have hne := law.bridge_ne_vxlan
  apply Registry.ext
  · funext k
    rw [nodeRecords_list]
    cases k with
    | subnets => simp [fresh, records]
    | addresses => simp [fresh, records, addresses, ips]
    | pods => simp [fresh, records]
    | nics p => by_cases hp : p = host <;> simp [fresh, records, ofId, hp]
    | addrs p i =>
        by_cases hp : p = host
        · by_cases hi : i = cni.conf.bridge
          · simp [fresh, records, hostAddrs, hp, hi]
          · simp [fresh, records, hostAddrs, hp, hi]
        · simp [fresh, records, ofNic, ips, hp]
    | routes p i => simp [fresh, records, ofNic, ips]
  · funext j
    rw [nodeRecords_value]
    cases j with
    | subnet => simp [records]
    | vtep => by_cases hv : cni.ipamMode = .vxlan <;> simp [fresh, records, hv, hmac]
    | netns p => by_cases hp : p = host <;> simp [fresh, records, ofId, hp]
    | podOf n =>
        by_cases hn : n = host
        · simp [records, hn]
        · simp [fresh, records, hn]

/-! ### DEL -/

/-- The VTEP goes with any interface. -/
def remove (cni : Cni) (st : NodeState) (c : Text) : NodeState where
  pods := st.pods.filter fun p => p.id ≠ c
  vtep := if cni.ipamMode = .vxlan then none else st.vtep

section Remove
variable {p q : Pod}

/-- Entries with distinct keys: a key selects its entry. -/
theorem filter_key {A B : Type} [DecidableEq B] {f : A → B} {l : List A}
    (h : (l.map f).Nodup) {a : A}
    (ha : a ∈ l) : l.filter (f · = f a) = [a] := by
  induction l with
  | nil => cases ha
  | cons b l ih =>
      obtain ⟨hb, hl⟩ := List.nodup_cons.mp h
      by_cases he : f b = f a
      · have hab : a = b := by
          rcases List.mem_cons.mp ha with hab | hal
          · exact hab
          · exact absurd (List.mem_map_of_mem hal) (he ▸ hb)
        have hrest : l.filter (f · = f a) = [] := by
          rw [List.filter_eq_nil_iff]
          intro x hx hfx
          exact hb (he ▸ of_decide_eq_true hfx ▸ List.mem_map_of_mem hx)
        rw [List.filter_cons_of_pos (by simp [he]), hrest, hab]
      · have hal : a ∈ l := (List.mem_cons.mp ha).resolve_left fun hab => he (hab ▸ rfl)
        rw [List.filter_cons_of_neg (by simp [he]), ih hl hal]

theorem eq_of_id (valid : Valid cni net st) (hp : p ∈ st.pods) (hq : q ∈ st.pods)
    (h : q.id = p.id) : q = p :=
  List.inj_on_of_nodup_map valid.ids hq hp h

/-- A container has one entry. -/
theorem ofId_of_mem (valid : Valid cni net st) (hp : p ∈ st.pods) : st.ofId p.id = [p] :=
  filter_key valid.ids hp

theorem ofNic_of_mem (valid : Valid cni net st) (hp : p ∈ st.pods) (i : Text) :
    st.ofNic p.id i = if i = p.nic then [p] else [] := by
  have hsplit : st.ofNic p.id i = (st.ofId p.id).filter fun q => q.nic = i := by
    simp only [ofNic, ofId, List.filter_filter, Bool.decide_and, Bool.and_comm]
  rw [hsplit, ofId_of_mem valid hp]
  by_cases hi : i = p.nic
  · simp [hi]
  · simp [hi, Ne.symm hi]

theorem ofId_remove (c q : Text) :
    (remove cni st c).ofId q = if q = c then [] else st.ofId q := by
  simp only [ofId, remove, List.filter_filter]
  split_ifs with h
  · subst h
    rw [List.filter_eq_nil_iff]
    simp
  · apply List.filter_congr
    intro x _
    by_cases hx : x.id = q <;> simp [hx, h]

theorem ofNic_remove (c q i : Text) :
    (remove cni st c).ofNic q i = if q = c then [] else st.ofNic q i := by
  simp only [ofNic, remove, List.filter_filter]
  split_ifs with h
  · subst h
    rw [List.filter_eq_nil_iff]
    simp +contextual
  · apply List.filter_congr
    intro x _
    by_cases hx : x.id = q <;> simp [hx, h]

/-- The address of a container, empty if it has none. -/
def ipText (net : NetworkV4) (p : Pod) : Text := (p.ip.map (hostText net)).getD []

/-- No other container has the address. -/
theorem ips_remove (valid : Valid cni net st) (hp : p ∈ st.pods) :
    (ips net st.pods).filter (· ≠ ipText net p) = ips net (remove cni st p.id).pods := by
  simp only [ips, remove, List.filter_filterMap, List.filterMap_filter]
  apply List.filterMap_congr
  intro q hq
  by_cases hid : q.id = p.id
  · have hqp := eq_of_id valid hp hq hid
    subst hqp
    cases hip : q.ip <;> simp [ipText, hip]
  · cases hip : q.ip with
    | none => simp [hid]
    | some k =>
        have hne : hostText net k ≠ ipText net p := by
          cases hip' : p.ip with
          | none => simpa [ipText, hip'] using (item_hostText net k).ne_nil
          | some k' =>
              have hlt := hostCount_lt net
              have hk := valid.range q hq k hip
              have hk' := valid.range p hp k' hip'
              intro he
              have hkk : k = k' := by
                have htext : hostText net k = hostText net k' := by simpa [ipText, hip'] using he
                exact hostText_injective (by omega) (by omega) htext
              exact hid (valid.hosts q hq p hp k hip (hkk ▸ hip'))
        simp [hid, hne]

theorem addresses_remove (valid : Valid cni net st) (hp : p ∈ st.pods) :
    (st.addresses net).filter (· ≠ ipText net p) = (remove cni st p.id).addresses net := by
  have hgw : hostText net 1 ≠ ipText net p := by
    cases hip : p.ip with
    | none => simpa [ipText, hip] using (item_hostText net 1).ne_nil
    | some k =>
        have hlt := hostCount_lt net
        have hk := valid.range p hp k hip
        intro he
        have h1 : 1 = k := by
          have htext : hostText net 1 = hostText net k := by simpa [ipText, hip] using he
          exact hostText_injective (by omega) (by omega) htext
        omega
  simp only [addresses]
  rw [List.filter_cons_of_pos (by simpa using hgw), ips_remove valid hp]

theorem find_remove (cni : Cni) (valid : Valid cni net st) (hp : p ∈ st.pods) (n : Text) :
    ((remove cni st p.id).pods.find? (·.netns = n)).map (fun q => q.id) =
      if n = p.netns then none else (st.pods.find? (·.netns = n)).map fun q => q.id := by
  simp only [remove, List.find?_filter]
  split_ifs with hn
  · rw [Option.map_eq_none_iff, List.find?_eq_none]
    intro q hq hand
    simp only [decide_eq_true_eq] at hand
    exact hand.1 (valid.owner q hq p hp (hand.2.trans hn))
  · congr 1
    apply List.find?_congr
    intro q hq
    by_cases hid : q.id = p.id
    · have hqp := eq_of_id valid hp hq hid
      subst hqp
      simp [Ne.symm hn]
    · simp [hid]

/-- A pod with a namespace under which it is registered. -/
theorem dropPod_eq {R : Registry} {c path simple d : Text} (hpath : R.value (.netns c) = some path)
    (hne : path ≠ []) (hs : simpleNetns path = .ok simple) (hd : R.value (.podOf simple) = some d) :
    dropPod c R = ((R.clear (.netns c)).clear (.podOf simple)).prune .pods d := by
  simp only [dropPod, hpath, Option.getD_some, if_neg hne, hs, hd]

theorem netnsPath_ne_nil (netns : Text) : netnsPath netns ≠ [] := by simp [netnsPath]

theorem find_of_mem (valid : Valid cni net st) (hp : p ∈ st.pods) :
    (st.pods.find? (·.netns = p.netns)).map (fun q => q.id) = some p.id := by
  cases hf : st.pods.find? (·.netns = p.netns) with
  | none => simpa using List.find?_eq_none.mp hf p hp
  | some q =>
      have hq : q.netns = p.netns := by simpa using List.find?_some hf
      rw [Option.map_some, valid.owner q (List.mem_of_find?_eq_some hf) p hp hq]

/-- The records of a container go, and no others. -/
theorem dropContainer_records (valid : Valid cni net st) (hp : p ∈ st.pods) :
    dropContainer cni p.id p.nic (records law others ho st) =
      records law others ho (remove cni st p.id) := by
  have hid := p.id_ne
  have hns := p.netns_ne
  have hofId := ofId_of_mem valid hp
  have hofNic := ofNic_of_mem valid hp p.nic
  rw [if_pos rfl] at hofNic
  have hnics : (records law others ho st).list (.nics p.id) = [p.nic] := by
    simp [records, hid, hofId]
  have hfirst : firstAddr (records law others ho st) p.id p.nic = ipText net p := by
    cases hip : p.ip <;> simp [firstAddr, records, hid, hofNic, ips, ipText, hip]
  have hpath : (dropNic cni p.id p.nic (ipText net p) (records law others ho st)).value
      (.netns p.id) = some (netnsPath p.netns) := by
    simp [dropNic_value, records, hid, hofId]
  have hpod : (dropNic cni p.id p.nic (ipText net p) (records law others ho st)).value
      (.podOf p.netns) = some p.id := by
    have hfind := find_of_mem valid hp
    simpa [dropNic_value, records, hns] using hfind
  rw [dropContainer, hnics, if_pos (List.mem_singleton_self _), hfirst,
    dropPod_eq hpath (netnsPath_ne_nil _) (simpleNetns_netnsPath _) hpod]
  have haddresses := addresses_remove valid hp
  apply Registry.ext
  · funext k
    cases k with
    | subnets => simp [dropNic_list, records]
    | addresses => simpa [dropNic_list, hid, records] using haddresses
    | pods =>
        simp [dropNic_list, records, remove, List.filter_map, hid.symm, Function.comp_def]
    | nics q =>
        by_cases hq : q = p.id
        · simp [dropNic_list, records, hq, hid, hofId, ofId_remove]
        · simp [dropNic_list, records, hq, ofId_remove]
    | addrs q i =>
        by_cases hq : q = p.id
        · by_cases hi : i = p.nic
          · simp [dropNic_list, records, hq, hid, hi, ofNic_remove, ips]
          · simp [dropNic_list, records, hq, hid, hi, ofNic_remove, ips, ofNic_of_mem valid hp]
        · simp [dropNic_list, records, hq, ofNic_remove]
    | routes q i =>
        by_cases hq : q = p.id
        · by_cases hi : i = p.nic
          · simp [dropNic_list, records, hq, hid, hi, ofNic_remove, ips]
          · simp [dropNic_list, records, hq, hid, hi, ofNic_remove, ips, ofNic_of_mem valid hp]
        · simp [dropNic_list, records, hq, ofNic_remove]
  · funext j
    cases j with
    | subnet => simp [dropNic_value, records]
    | vtep => by_cases hv : cni.ipamMode = .vxlan <;> simp [dropNic_value, records, remove, hv]
    | netns q =>
        by_cases hq : q = p.id
        · simp [records, hq, hid, ofId_remove]
        · simp [dropNic_value, records, hq, ofId_remove]
    | podOf n =>
        have hfind := find_remove cni valid hp n
        by_cases hn : n = p.netns
        · subst hn
          rw [if_pos rfl] at hfind
          simpa [dropNic_value, records, hns] using hfind
        · simp [dropNic_value, records, hn, hfind]

end Remove

/-- The root namespace has its interfaces, whichever containers there are. -/
theorem dropHostNics_value (st : NodeState) {R : Registry} (j : ValueKey) :
    (dropHostNic cni (records law others ho st) cni.underlayDev
      (dropHostNic cni (records law others ho st) nameVxlan
        (dropHostNic cni (records law others ho st) cni.conf.bridge R))).value j =
      if cni.ipamMode = .vxlan ∧ j = .vtep then none else R.value j := by
  by_cases hv : cni.ipamMode = .vxlan
  · by_cases hj : j = .vtep
    · simp [dropHostNic, records, hostNics, hv, hj, dropNic_value]
    · simp [hj, dropHostNic_value]
  · simp only [hv, false_and, if_false]
    unfold dropHostNic
    split_ifs <;> simp [dropNic_value, hv]

theorem dropHostNics_list (st : NodeState) {v : Option Mac} (k : ListKey) :
    (dropHostNic cni (records law others ho st) cni.underlayDev
      (dropHostNic cni (records law others ho st) nameVxlan
        (dropHostNic cni (records law others ho st) cni.conf.bridge
          (records law others ho ⟨[], v⟩)))).list k =
      if k = .subnets then others ++ [net.text] else if k = .pods then [host] else [] := by
  have hbv := law.bridge_ne_vxlan
  have hbu := law.bridge_ne_underlay
  have huv := law.underlay_ne_vxlan
  have hnics : (records law others ho st).list (.nics host) = hostNics cni := by simp [records]
  have hnics' : (records law others ho ⟨[], v⟩).list (.nics host) = hostNics cni := by
    simp [records]
  have hfirst : firstAddr (records law others ho st) host cni.conf.bridge = hostText net 1 := by
    simp [firstAddr, records, hostAddrs]
  have haddrs : ∀ p i, (records law others ho ⟨[], v⟩).list (.addrs p i) =
      if p = host then hostAddrs cni net i else [] := by
    intro p i
    simp [records, ofNic, ips]
  have hroutes : ∀ p i, (records law others ho ⟨[], v⟩).list (.routes p i) = [] := by
    intro p i
    simp [records, ofNic, ips]
  by_cases hv : cni.ipamMode = .vxlan
  · have h : hostNics cni = [cni.conf.bridge, nameVxlan, cni.underlayDev] := if_pos hv
    simp only [dropHostNic, hnics, hfirst, h, List.mem_cons, true_or, or_true, if_true,
      dropNic_list, hnics']
    cases k with
    | subnets => simp [records]
    | addresses => simp [records, addresses, ips, hbu]
    | pods => simp [records]
    | nics p =>
        by_cases hp : p = host
        · simp [hp, huv, hbv.symm, hbu.symm]
        · simp [records, hp, ofId]
    | addrs p i =>
        by_cases hi : i = cni.underlayDev ∨ i = nameVxlan ∨ i = cni.conf.bridge
        · by_cases hp : p = host
          · rcases hi with rfl | rfl | rfl <;> simp [hp]
          · simp [haddrs, hp]
        · simp [haddrs, hostAddrs, not_or.mp hi, not_or.mp (not_or.mp hi).2]
    | routes p i => simp [hroutes]
  · have h : hostNics cni = [cni.conf.bridge, cni.underlayDev] := if_neg hv
    simp only [dropHostNic, hnics, hfirst, h, List.mem_cons, true_or, or_true, if_true,
      dropNic_list, hnics', hbv.symm, huv.symm, List.not_mem_nil, or_self, if_false]
    cases k with
    | subnets => simp [records]
    | addresses => simp [records, addresses, ips, hbu]
    | pods => simp [records]
    | nics p =>
        by_cases hp : p = host
        · simp [hp, hbu.symm]
        · simp [records, hp, ofId]
    | addrs p i =>
        by_cases hi : i = cni.underlayDev ∨ i = cni.conf.bridge
        · by_cases hp : p = host
          · rcases hi with rfl | rfl <;> simp [hp]
          · simp [haddrs, hp]
        · simp [haddrs, hostAddrs, not_or.mp hi, hv]
    | routes p i => simp [hroutes]

/-- The last container has gone: so does the node. -/
theorem tearDownRecords_records (st : NodeState) {v : Option Mac}
    (hv : cni.ipamMode ≠ .vxlan → v = none) :
    tearDownRecords cni net (records law others ho st) (records law others ho ⟨[], v⟩) =
      fresh (others.filter (· ≠ net.text)) fun x hx => ho x (List.mem_of_mem_filter hx) := by
  have hpath : (dropHostNic cni (records law others ho st) cni.underlayDev
      (dropHostNic cni (records law others ho st) nameVxlan
        (dropHostNic cni (records law others ho st) cni.conf.bridge
          (records law others ho ⟨[], v⟩)))).value (.netns host) = some host := by
    rw [dropHostNics_value, if_neg (by simp)]
    simp [records]
  have hpod : (dropHostNic cni (records law others ho st) cni.underlayDev
      (dropHostNic cni (records law others ho st) nameVxlan
        (dropHostNic cni (records law others ho st) cni.conf.bridge
          (records law others ho ⟨[], v⟩)))).value (.podOf host) = some host := by
    rw [dropHostNics_value, if_neg (by simp)]
    simp [records]
  rw [tearDownRecords, dropPod_eq hpath name_host.item.ne_nil simpleNetns_host hpod]
  apply Registry.ext
  · funext k
    cases k <;> simp [dropHostNics_list, fresh]
  · funext j
    simp only [Registry.clear_value, Registry.prune_value, dropHostNics_value]
    cases j with
    | subnet => simp [fresh]
    | vtep => by_cases hm : cni.ipamMode = .vxlan <;> simp [records, fresh, hm, hv]
    | netns p => simp [records, fresh, ofId]
    | podOf n => simp [records, fresh]

theorem alone_iff (c : Text) :
    Alone (records law others ho st) c ↔ ∀ q ∈ st.pods, q.id = c := by
  constructor
  · intro ⟨_, hall⟩ q hq
    have hmem : q.id ∈ (records law others ho st).list .pods :=
      List.mem_cons_of_mem _ (List.mem_map_of_mem hq)
    exact (hall q.id hmem).resolve_right q.id_ne
  · intro hall
    refine ⟨List.mem_cons_self, ?_⟩
    intro p hp
    rcases List.mem_cons.mp hp with rfl | hp
    · exact .inr rfl
    · obtain ⟨q, hq, rfl⟩ := List.mem_map.mp hp
      exact .inl (hall q hq)

theorem mem_pods_iff {c : Text} (hc : c ≠ host) :
    c ∈ (records law others ho st).list .pods ↔ ∃ q ∈ st.pods, q.id = c := by
  simp [records, hc]

theorem remove_pods_eq_nil_iff (c : Text) :
    (remove cni st c).pods = [] ↔ ∀ q ∈ st.pods, q.id = c := by
  simp [remove, List.filter_eq_nil_iff]

theorem delRecords_last {p : Pod} (valid : Valid cni net st) (hp : p ∈ st.pods)
    (hlast : ∀ q ∈ st.pods, q.id = p.id) :
    delRecords cni net p.id p.nic (records law others ho st) =
      fresh (others.filter (· ≠ net.text)) fun x hx => ho x (List.mem_of_mem_filter hx) := by
  have hmem : p.id ∈ (records law others ho st).list .pods :=
    (mem_pods_iff p.id_ne).mpr ⟨p, hp, rfl⟩
  have hnil : (remove cni st p.id).pods = [] := (remove_pods_eq_nil_iff p.id).mpr hlast
  have hstate : remove cni st p.id = ⟨[], (remove cni st p.id).vtep⟩ := by rw [← hnil]
  have hvtep : cni.ipamMode ≠ .vxlan → (remove cni st p.id).vtep = none := by
    intro hv
    simp [remove, hv, valid.vtep hv]
  rw [delRecords, if_pos hmem, if_pos ((alone_iff p.id).mpr hlast), dropContainer_records valid hp,
    hstate, tearDownRecords_records st hvtep]

theorem delRecords_one_of_several {p q : Pod} (valid : Valid cni net st) (hp : p ∈ st.pods)
    (hq : q ∈ st.pods) (hne : q.id ≠ p.id) :
    delRecords cni net p.id p.nic (records law others ho st) =
      records law others ho (remove cni st p.id) := by
  have hmem : p.id ∈ (records law others ho st).list .pods :=
    (mem_pods_iff p.id_ne).mpr ⟨p, hp, rfl⟩
  have hnot : ¬ Alone (records law others ho st) p.id := fun h => hne ((alone_iff p.id).mp h q hq)
  rw [delRecords, if_pos hmem, if_neg hnot, dropContainer_records valid hp]

theorem delRecords_unknown {c i : Text} (hc : c ≠ host) (hnone : ∀ q ∈ st.pods, q.id ≠ c) :
    delRecords cni net c i (records law others ho st) = records law others ho st := by
  have hmem : c ∉ (records law others ho st).list .pods := by
    rw [mem_pods_iff hc]
    intro ⟨q, hq, he⟩
    exact hnone q hq he
  rw [delRecords, if_neg hmem]

/-! ### Valid states -/

theorem Valid.first {c : Container} {v : Option Mac} (law : Lawful cni net)
    (hv : cni.ipamMode ≠ .vxlan → v = none) : Valid cni net ⟨[⟨c, some 2⟩], v⟩ where
  pods := by simp
  ids := by simp
  owner := by simp
  hosts := by simp
  range := by
    have h2 := two_le_hostCount law
    intro p hp k hk
    rw [List.mem_singleton.mp hp] at hk
    cases hk
    exact ⟨le_rfl, h2⟩
  vtep := hv

theorem Valid.add {c : Container} {ip : Option ℕ} (valid : Valid cni net st)
    (hnew : ∀ q ∈ st.pods, q.id ≠ c.id) (hfree : ∀ q ∈ st.pods, q.netns ≠ c.netns)
    (hip : ∀ k, ip = some k → (2 ≤ k ∧ k ≤ hostCount net) ∧ ∀ q ∈ st.pods, q.ip ≠ some k) :
    Valid cni net (NodeTransitions.add st ⟨c, ip⟩) where
  pods := by simp [NodeTransitions.add]
  ids := by
    simp only [NodeTransitions.add, List.map_append, List.map_singleton]
    apply FirstFit.nodup_concat valid.ids
    intro hm
    obtain ⟨q, hq, he⟩ := List.mem_map.mp hm
    exact hnew q hq he
  owner := by
    intro p hp q hq he
    simp only [NodeTransitions.add, List.mem_append, List.mem_singleton] at hp hq
    rcases hp with hp | rfl <;> rcases hq with hq | rfl
    · exact valid.owner p hp q hq he
    · exact absurd he (hfree p hp)
    · exact absurd he.symm (hfree q hq)
    · rfl
  hosts := by
    intro p hp q hq k hpk hqk
    simp only [NodeTransitions.add, List.mem_append, List.mem_singleton] at hp hq
    rcases hp with hp | rfl <;> rcases hq with hq | rfl
    · exact valid.hosts p hp q hq k hpk hqk
    · exact absurd hpk ((hip k hqk).2 p hp)
    · exact absurd hqk ((hip k hpk).2 q hq)
    · rfl
  range := by
    intro p hp k hk
    simp only [NodeTransitions.add, List.mem_append, List.mem_singleton] at hp
    rcases hp with hp | rfl
    · exact valid.range p hp k hk
    · exact (hip k hk).1
  vtep := valid.vtep

theorem Valid.remove {c : Text} {q : Pod} (valid : Valid cni net st) (hq : q ∈ st.pods)
    (hne : q.id ≠ c) : Valid cni net (NodeTransitions.remove cni st c) where
  pods := by
    intro hnil
    exact hne ((remove_pods_eq_nil_iff c).mp hnil q hq)
  ids := valid.ids.sublist (List.filter_sublist.map _)
  owner p hp q hq := valid.owner p (List.mem_of_mem_filter hp) q (List.mem_of_mem_filter hq)
  hosts p hp q hq := valid.hosts p (List.mem_of_mem_filter hp) q (List.mem_of_mem_filter hq)
  range p hp := valid.range p (List.mem_of_mem_filter hp)
  vtep := by
    intro hv
    simp [NodeTransitions.remove, hv, valid.vtep hv]

/-- The host that first fit takes is a new one. -/
theorem host_of_firstFree {k : ℕ}
    (hk : firstFree (hostText net) (hostCount net) (st.addresses net) = some k) :
    (2 ≤ k ∧ k ≤ hostCount net) ∧ ∀ q ∈ st.pods, q.ip ≠ some k := by
  obtain ⟨hpos, hle, hfree, -⟩ := firstFree_eq_some_iff.mp hk
  have hne : k ≠ 1 := by
    rintro rfl
    exact hfree List.mem_cons_self
  refine ⟨⟨by omega, hle⟩, ?_⟩
  intro q hq hip
  apply hfree
  apply List.mem_cons_of_mem
  exact List.mem_filterMap.mpr ⟨q, hq, by simp [hip]⟩

end Ohno.NodeTransitions
