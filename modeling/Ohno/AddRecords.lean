import Ohno.DelRecords

/-!
# What ADD does to the records

`Cni::add` writes the records of the node if there are none, then those of the
container, or finds the interface and writes nothing. When every command
succeeds the registry it leaves is a function of the one it found, built here
from one step for the node, one for the container and one for its address.
-/
namespace Ohno.AddRecords
open CommandPrograms DelimitedLists AddressText EtcdClientShell Subnets FirstFit Ipam Netlink Nics
open Storage CniPlugin Records Conducts RecordPrograms RestoredNode DelRecords

theorem simpleNetns_host : simpleNetns host = .ok host := by decide +kernel

theorem item_cidr (a : BitVec 32) (p : ℕ) : Store.Item (cidr a p) where
  ne_nil := cidr_ne_nil _ _
  comma := notMem_cidr (by decide) (by decide) (by decide)
  line := notMem_cidr (by decide) (by decide) (by decide)

theorem item_text (net : NetworkV4) : Store.Item net.text := item_cidr _ _

theorem notMem_dottedQuad {a : BitVec 32} {c : Char} (hd : c ≠ '.') (hc : c.isDigit = false) :
    c ∉ dottedQuad a := by
  intro h
  rcases mem_dottedQuad h with h | h
  · exact hd h
  · simp [h] at hc

/-- The route that every pod gets. -/
def defaultRoute (gw : BitVec 32) (nic : Text) : Text := getRouteValue [] (dottedQuad gw) nic

theorem item_defaultRoute (gw : BitVec 32) {nic : Text} (hi : Name nic) :
    Store.Item (defaultRoute gw nic) := by
  have hcomma : ',' ∉ dottedQuad gw := notMem_dottedQuad (by decide) (by decide)
  have hline : '\n' ∉ dottedQuad gw := notMem_dottedQuad (by decide) (by decide)
  constructor
  · simp [defaultRoute, getRouteValue, separator]
  · simp [defaultRoute, getRouteValue, separator, hcomma, hi.item.comma]
  · simp [defaultRoute, getRouteValue, separator, hline, hi.item.line]

theorem line_vtep (net : NetworkV4) {mac : Text} (h : '\n' ∉ mac) :
    '\n' ∉ getVtepValue (dottedQuad net.address) mac := by
  have hline : '\n' ∉ dottedQuad net.address := notMem_dottedQuad (by decide) (by decide)
  simp [getVtepValue, separator, hline, h]

section Steps
variable {cni : Cni} {net : NetworkV4}

/-- The records of the interfaces of the root namespace. -/
def hostNicRecords (law : Lawful cni net) (gw : Text) (hgw : Store.Item gw) (R : Registry) :
    Registry :=
  let bridge := (R.push (.nics host) cni.conf.bridge law.bridge.item).push
    (.addrs host cni.conf.bridge) gw hgw
  let vxlan := if cni.ipamMode = .vxlan then
      ((bridge.push (.nics host) nameVxlan name_nameVxlan.item).push (.addrs host nameVxlan)
        (cidr net.address 32) (item_cidr _ _)).assign .vtep
        (getVtepValue (dottedQuad net.address) cni.vxlanMac) (line_vtep net law.mac.2)
    else bridge
  vxlan.push (.nics host) cni.underlayDev law.underlay.item

/-- The records that creating the node writes. -/
def nodeRecords (law : Lawful cni net) (gw : Text) (hgw : Store.Item gw) (R : Registry) :
    Registry :=
  let subnet := ((R.push .subnets net.text (item_text net)).assign .subnet net.text
    (item_text net).line).push .addresses gw hgw
  let nics := hostNicRecords law gw hgw subnet
  ((nics.assign (.netns host) host name_host.item.line).assign (.podOf host) host
    name_host.item.line).push .pods host name_host.item

/-- The interfaces of the root namespace in the order in which they are recorded. -/
def hostNics (cni : Cni) : List Text :=
  if cni.ipamMode = .vxlan then [cni.conf.bridge, nameVxlan, cni.underlayDev]
  else [cni.conf.bridge, cni.underlayDev]

theorem nodeRecords_value (law : Lawful cni net) {gw : Text} (hgw : Store.Item gw) (R : Registry)
    (j : ValueKey) : (nodeRecords law gw hgw R).value j =
      if j = .podOf host ∨ j = .netns host then some host
      else if cni.ipamMode = .vxlan ∧ j = .vtep then
        some (getVtepValue (dottedQuad net.address) cni.vxlanMac)
      else if j = .subnet then some net.text
      else R.value j := by
  by_cases hv : cni.ipamMode = .vxlan
  · cases j <;> simp [nodeRecords, hostNicRecords, hv, eq_comm]
  · cases j <;> simp [nodeRecords, hostNicRecords, hv, eq_comm]

theorem nodeRecords_list (law : Lawful cni net) {gw : Text} (hgw : Store.Item gw) (R : Registry)
    (k : ListKey) : (nodeRecords law gw hgw R).list k =
      if k = .pods then R.list .pods ++ [host]
      else if k = .nics host then R.list (.nics host) ++ hostNics cni
      else if k = .addrs host cni.conf.bridge then R.list (.addrs host cni.conf.bridge) ++ [gw]
      else if cni.ipamMode = .vxlan ∧ k = .addrs host nameVxlan then
        R.list (.addrs host nameVxlan) ++ [cidr net.address 32]
      else if k = .addresses then R.list .addresses ++ [gw]
      else if k = .subnets then R.list .subnets ++ [net.text]
      else R.list k := by
  have hne := law.bridge_ne_vxlan
  by_cases hv : cni.ipamMode = .vxlan
  · cases k <;> simp [nodeRecords, hostNicRecords, hostNics, hv] <;> split_ifs <;> simp_all
  · cases k <;> simp [nodeRecords, hostNicRecords, hostNics, hv]
    split_ifs <;> simp_all

/-- The records of a container before it has an address. -/
def podRecords {c i path : Text} (hc : Name c) (hi : Name i) (hpath : '\n' ∉ path) (simple : Text)
    (R : Registry) : Registry :=
  (((R.assign (.podOf simple) c hc.item.line).push .pods c hc.item).assign (.netns c) path
    hpath).push (.nics c) i hi.item

/-- The records of its address. -/
def addrRecords {i : Text} (c : Text) (hi : Name i) (gw : BitVec 32) (ip : Text)
    (hip : Store.Item ip) (R : Registry) : Registry :=
  ((R.push .addresses ip hip).push (.addrs c i) ip hip).push (.routes c i) (defaultRoute gw i)
    (item_defaultRoute gw hi)

end Steps

section NicRuns
variable {node : Text} {base : Store} {R : Registry} {nic : Nic}

theorem runs_setStatus (hn : nic.netlink = true) (status : LinkStatus) :
    Runs node base (nic.setStatus status) R (.ok true) R := by
  unfold Nic.setStatus
  simp only [hn, if_true]
  split
  · apply Runs.netlink_bind rfl
    simp only [if_true]
    exact Runs.netlink rfl
  · exact Runs.netlink rfl

theorem runs_rename (hn : nic.netlink = true) {name : Text} (hne : name ≠ []) :
    Runs node base (nic.rename name) R (.ok (true, { nic with name := name })) R := by
  unfold Nic.rename
  simp only [if_neg hne, hn, if_true]
  exact Runs.netlink_bind rfl (Runs.pure _ R)

theorem runs_setMaster (hn : nic.netlink = true) (name : Text) :
    Runs node base (nic.setMaster name) R (.ok true) R := by
  unfold Nic.setMaster
  simp only [hn, if_true]
  exact Runs.netlink rfl

end NicRuns

/-! ### The node -/

section Node
variable {cni : Cni} {net : NetworkV4} {base : Store} {R : Registry}

theorem runs_storeAddr {nic text : Text} (hi : '/' ∉ nic) {addr : Addr}
    (ha : addr.getAddrCidr = .ok text) (ht : Store.Item text) :
    Runs cni.node base (cni.storeAddr nic addr true) R (.ok true)
      (R.push (.addrs host nic) text ht) := by
  simp only [Cni.storeAddr, if_true]
  exact Runs.etcd (run_addAddr name_host.slash hi ha ht)

theorem runs_getBridge (law : Lawful cni net) (gw : BitVec 32) {p : ℕ} (hp : p ≤ 32) :
    Runs cni.node base (cni.getBridge (cidr gw p)) R
      (.ok { kind := .bridge, netlink := true, name := cni.conf.bridge, addrs := [⟨gw, .ipv4, p⟩] })
      ((R.push (.nics host) cni.conf.bridge law.bridge.item).push (.addrs host cni.conf.bridge)
        (cidr gw p) (item_cidr _ _)) := by
  unfold Cni.getBridge
  apply Runs.etcd_bind (run_addNic name_host.slash law.bridge.item)
  simp only [if_true]
  apply Runs.bind (runs_setup _)
  simp only [if_true, Addr.ofCidr_cidr cni.boost gw hp]
  apply Runs.bind (runs_addAddr rfl (Addr.getAddrCidr_ipv4 gw p))
  apply Runs.bind (runs_storeAddr law.bridge.slash (Addr.getAddrCidr_ipv4 gw p) (item_cidr _ _))
  simp only [if_true]
  apply Runs.bind (runs_setStatus rfl .up)
  exact Runs.pure _ _

theorem runs_getVxlan (law : Lawful cni net) :
    Runs cni.node base (cni.getVxlan net.text) R
      (.ok { kind := cni.vxlanKind, netlink := true, name := nameVxlan,
             addrs := [⟨net.address, .ipv4, 32⟩] })
      (((R.push (.nics host) nameVxlan name_nameVxlan.item).push (.addrs host nameVxlan)
        (cidr net.address 32) (item_cidr _ _)).assign .vtep
        (getVtepValue (dottedQuad net.address) cni.vxlanMac) (line_vtep net law.mac.2)) := by
  have hp := law.prefixLength_le
  have hinit : Subnet.init cni.boost net.text = .ok ⟨net, .ipv4⟩ :=
    Subnet.init_cidr _ _ (by omega)
  unfold Cni.getVxlan
  apply Runs.etcd_bind (run_addNic name_host.slash name_nameVxlan.item)
  simp only [if_true]
  apply Runs.bind (runs_setup _)
  simp only [if_true, hinit, Subnet.extractAddr_ipv4, Program.ofExcept_ok, Program.bind_eq,
    Program.pure_bind, Addr.ofCidr_dottedQuad]
  apply Runs.bind (runs_addAddr rfl (Addr.getAddrCidr_ipv4 _ _))
  apply Runs.bind (runs_storeAddr name_nameVxlan.slash (Addr.getAddrCidr_ipv4 _ _) (item_cidr _ _))
  simp only [if_true]
  apply Runs.bind (runs_setStatus rfl .up)
  simp only [if_neg law.mac.1]
  apply Runs.etcd_bind (run_addVtep (line_vtep net law.mac.2))
  exact Runs.pure _ _

/-- The object of a node that was just created. -/
structure Born (cni : Cni) (obj : Node) : Prop where
  bridge : ∃ pod nic, obj.netns.lookup host = some pod ∧
    pod.nics.lookup cni.conf.bridge = some nic ∧ nic.kind = .bridge ∧ nic.netlink = true
  fresh : ∀ p, p ≠ host → obj.netns.lookup p = none

theorem lookup_rootPod (bridge underlay : Nic) (vxlan : Option Nic) :
    (cni.rootPod bridge vxlan underlay).nics.lookup bridge.name = some bridge := by
  have h : ∀ (pod : Netns) (nic : Nic), pod.nics.lookup bridge.name = some bridge →
      (pod.addNic nic).nics.lookup bridge.name = some bridge := by
    intro pod nic hpod
    simp only [Netns.addNic, lookup_emplace]
    split_ifs with he
    · simp [← he, hpod]
    · exact hpod
  have hbridge : (Netns.addNic {} bridge).nics.lookup bridge.name = some bridge := by
    simp [Netns.addNic]
  unfold Cni.rootPod
  apply h
  split
  · exact h _ _ hbridge
  · exact hbridge

theorem born_rootPod {b : Nic} (hname : b.name = cni.conf.bridge) (hkind : b.kind = .bridge)
    (hn : b.netlink = true) (vxlan : Option Nic) (underlay : Nic) (subnet : Option Subnet) :
    Born cni { subnet := subnet, netns := emplace [] host (cni.rootPod b vxlan underlay) } where
  bridge := by
    refine ⟨cni.rootPod b vxlan underlay, b, by simp, ?_, hkind, hn⟩
    rw [← hname, lookup_rootPod]
  fresh := by
    intro p hp
    simp [hp]

theorem runs_getRootPod (bridge underlay : Nic) (vxlan : Option Nic) :
    Runs cni.node base (cni.getRootPod {} bridge vxlan underlay) R
      (.ok { netns := emplace [] host (cni.rootPod bridge vxlan underlay) })
      (((R.assign (.netns host) host name_host.item.line).assign (.podOf host) host
        name_host.item.line).push .pods host name_host.item) := by
  unfold Cni.getRootPod
  apply Runs.etcd_bind (run_addNetns name_host.slash name_host.item.line)
  simp only [if_true]
  apply Runs.etcd_bind (run_addPod simpleNetns_host name_host.item)
  exact Runs.pure _ _

theorem runs_createVxlan (law : Lawful cni net) (base : Store) (R : Registry) :
    ∃ vxlan, Runs cni.node base (cni.createVxlan net.text) R (.ok vxlan)
      (if cni.ipamMode = .vxlan then
        ((R.push (.nics host) nameVxlan name_nameVxlan.item).push (.addrs host nameVxlan)
          (cidr net.address 32) (item_cidr _ _)).assign .vtep
          (getVtepValue (dottedQuad net.address) cni.vxlanMac) (line_vtep net law.mac.2)
      else R) := by
  unfold Cni.createVxlan
  split_ifs
  · exact ⟨_, Runs.bind (runs_getVxlan law) (Runs.pure _ _)⟩
  · exact ⟨none, Runs.pure _ _⟩

theorem runs_createNode (base : Store) (law : Lawful cni net) (hs : R.value .subnet = none) {j : ℕ}
    (hj : firstFree (hostText net) (hostCount net) (R.list .addresses) = some j) :
    ∃ obj, Born cni obj ∧ Runs cni.node base (cni.createNode {}) R
      (.ok (obj, ⟨[(cni.node, obj)],
        some ⟨net.address + BitVec.ofNat 32 j, .ipv4, net.prefixLength⟩⟩))
      (nodeRecords law (hostText net j) (item_hostText net j) R) := by
  have hp := law.prefixLength_le
  have hinit : Subnet.init cni.boost net.text = .ok ⟨net, .ipv4⟩ :=
    Subnet.init_cidr _ _ (by omega)
  have haddr : Addr.ofCidr cni.boost (hostText net j) =
      ⟨net.address + BitVec.ofNat 32 j, .ipv4, net.prefixLength⟩ :=
    Addr.ofCidr_cidr cni.boost _ (by omega)
  have htake := takeIp_some (R := (R.push .subnets net.text (item_text net)).assign .subnet net.text
    (item_text net).line) (by simpa using hj)
  obtain ⟨vxlan, hvxlan⟩ := runs_createVxlan law base
    (((((R.push .subnets net.text (item_text net)).assign .subnet net.text
      (item_text net).line).push .addresses (hostText net j) (item_hostText net j)).push
      (.nics host) cni.conf.bridge law.bridge.item).push (.addrs host cni.conf.bridge)
        (hostText net j) (item_hostText net j))
  have hborn := born_rootPod
    (b := ⟨.bridge, true, cni.conf.bridge, [],
      [⟨net.address + BitVec.ofNat 32 j, .ipv4, net.prefixLength⟩], [], [], []⟩)
    rfl rfl rfl vxlan { kind := .underlay, name := cni.underlayDev } (some ⟨net, .ipv4⟩)
  refine ⟨_, hborn, ?_⟩
  unfold Cni.createNode
  rw [law.podCidr]
  apply Runs.etcd_bind (run_allocateSubnet hs (item_text net))
  simp only [if_true]
  apply Runs.etcd_bind (run_allocateIp_store cni.boost (by simpa using hinit) (by omega))
  rw [htake]
  simp only [if_true]
  apply Runs.bind (runs_getBridge law _ (by omega))
  apply Runs.bind hvxlan
  apply Runs.etcd_bind (run_addNic name_host.slash law.underlay.item)
  simp only [if_true]
  apply Runs.bind (runs_getRootPod _ _ _)
  simp only [Cni.initKubernetesNode, hinit, bind, Except.bind, pure, Except.pure,
    Program.ofExcept_ok, Program.bind, haddr]
  exact Runs.pure _ _

end Node

/-! ### The container -/

section Container
variable {cni : Cni} {net : NetworkV4} {base : Store} {R : Registry} {gw : BitVec 32}

/-- What the objects must have for an interface to be created. -/
structure Ready (cni : Cni) (loaded : Loaded) (gw : BitVec 32) : Prop where
  gateway : ∃ p, loaded.gateway = some ⟨gw, .ipv4, p⟩
  bridge : ∃ obj pod nic, loaded.cluster.lookup cni.node = some obj ∧
    obj.netns.lookup host = some pod ∧ pod.nics.lookup cni.conf.bridge = some nic ∧
    nic.kind = .bridge ∧ nic.netlink = true

theorem runs_nicPluginBridge {loaded : Loaded} (h : Ready cni loaded gw) (nic : Text) :
    Runs cni.node base (cni.nicPluginBridge loaded nic) R (.ok ()) R := by
  obtain ⟨obj, pod, bridge, hobj, hpod, hbridge, hkind, hn⟩ := h.bridge
  unfold Cni.nicPluginBridge
  simp only [hobj, Cni.getKubernetesPod, hpod, Program.pure_eq, Program.bind_eq, Program.pure_bind,
    hbridge, hkind, if_true]
  apply Runs.bind (runs_setMaster hn nic)
  exact Runs.pure _ R

/-- An address is there: it is recorded for the interface. -/
theorem runs_configPodNetwork (base : Store) (gw : BitVec 32) (p : ℕ) (law : Lawful cni net)
    {c i : Text} (hc : '/' ∉ c) (hi : Name i) (hs : R.value .subnet = some net.text) {j : ℕ}
    {nic : Nic} (hn : nic.netlink = true)
    (hj : firstFree (hostText net) (hostCount net) (R.list .addresses) = some j) :
    ∃ nic', nic'.addrs = nic.addrs ++ [⟨net.address + BitVec.ofNat 32 j, .ipv4, net.prefixLength⟩] ∧
      Runs cni.node base (cni.configPodNetwork (some ⟨gw, .ipv4, p⟩) nic i c) R (.ok nic')
        (addrRecords c hi gw (hostText net j) (item_hostText net j) R) := by
  have hp := law.prefixLength_le
  have hinit : Subnet.init cni.boost net.text = .ok ⟨net, .ipv4⟩ :=
    Subnet.init_cidr _ _ (by omega)
  have haddr : Addr.ofCidr cni.boost (hostText net j) =
      ⟨net.address + BitVec.ofNat 32 j, .ipv4, net.prefixLength⟩ :=
    Addr.ofCidr_cidr cni.boost _ (by omega)
  have hcidr := Addr.getAddrCidr_ipv4 (net.address + BitVec.ofNat 32 j) net.prefixLength
  refine ⟨{ nic with
    addrs := nic.addrs ++ [⟨net.address + BitVec.ofNat 32 j, .ipv4, net.prefixLength⟩]
    routes := nic.routes ++ [⟨[], dottedQuad gw, i⟩] }, rfl, ?_⟩
  unfold Cni.configPodNetwork
  apply Runs.etcd_bind (run_allocateIp_store cni.boost (by simpa [hs] using hinit) (by omega))
  rw [takeIp_some hj]
  simp only [if_true, haddr]
  apply Runs.bind (runs_addAddr hn hcidr)
  simp only [if_true]
  apply Runs.etcd_bind (run_addAddr hc hi.slash hcidr (item_hostText net j))
  simp only [if_true, Addr.getAddr_ipv4, Program.ofExcept_ok, Program.bind_eq, Program.pure_bind]
  apply Runs.bind (runs_addRoute (by exact hn))
  simp only [if_true]
  have hr : Store.Item (getRouteValue [] (dottedQuad gw) i) := item_defaultRoute gw hi
  apply Runs.etcd_bind (run_addRoute (r := ⟨[], dottedQuad gw, i⟩) hc hi.slash hr)
  exact Runs.pure _ _

/-- No address is there. -/
theorem runs_configPodNetwork_full (law : Lawful cni net) {c i : Text}
    (hs : R.value .subnet = some net.text) (gateway : Option Addr) (nic : Nic)
    (hj : firstFree (hostText net) (hostCount net) (R.list .addresses) = none) :
    Runs cni.node base (cni.configPodNetwork gateway nic i c) R
      (.error (.cniError 7 s!"Failed to allocate IP address on node:{str cni.node}")) R := by
  have hp := law.prefixLength_le
  have hinit : Subnet.init cni.boost net.text = .ok ⟨net, .ipv4⟩ :=
    Subnet.init_cidr _ _ (by omega)
  unfold Cni.configPodNetwork
  apply Runs.etcd_bind (run_allocateIp_store cni.boost (by simpa [hs] using hinit) (by omega))
  rw [takeIp_none hj]
  exact Runs.throw _ _

/-- The namespace is another pod's. -/
theorem runs_createNic_refused {loaded : Loaded} {pod : Netns} {c i peer netns simple other : Text}
    (hname : pod.name = c) (hsimple : simpleNetns netns = .ok simple)
    (ho : R.value (.podOf simple) = some other) (hne : other ≠ []) (hother : other ≠ c) :
    Runs cni.node base (cni.createNic loaded pod i peer netns) R
      (.error (.cniError 7 (s!"CRI error: Pod:{str other} and Pod:{str c} " ++
        s!"belongs to one namespace:{str netns}"))) R := by
  subst hname
  unfold Cni.createNic
  apply Runs.etcd_bind (run_getPod hsimple)
  simp only [ho, Option.getD_some, ne_eq, hne, not_false_eq_true, hother, and_self, if_true]
  exact Runs.throw _ R

/-- The namespace is not another pod's. -/
def FreeFor (R : Registry) (simple c : Text) : Prop :=
  ∀ other, R.value (.podOf simple) = some other → other ≠ [] → other = c

section Create
variable {loaded : Loaded} {b : Netns} {c i peer netns simple : Text}

/-- Everything before the interface is plugged into the bridge. -/
theorem runs_createNic_head (cni : Cni) (base : Store) (loaded : Loaded) (peer : Text)
    (hname : b.name = c) (hc : Name c) (hi : Name i) (hline : '\n' ∉ netns)
    (hsimple : simpleNetns netns = .ok simple)
    (hfree : FreeFor R simple c) :
    ∃ nic : Nic, nic.netlink = true ∧ nic.addrs = [] ∧
      ∀ o R', Runs cni.node base (Program.bind (cni.nicPluginBridge loaded peer)
          fun _ => cni.configPodNetwork loaded.gateway nic i c)
          (podRecords hc hi hline simple R) o R' →
        Runs cni.node base (cni.createNic loaded b i peer netns) R o R' := by
  subst hname
  refine ⟨{ kind := .veth peer, netlink := true, name := i, netns := simple }, rfl, rfl, ?_⟩
  intro o R' hrest
  have hcond : ¬ ((R.value (.podOf simple)).getD [] ≠ [] ∧
      (R.value (.podOf simple)).getD [] ≠ b.name) := by
    intro ⟨hne, hother⟩
    cases hv : R.value (.podOf simple) with
    | none => exact hne (by rw [hv]; rfl)
    | some other =>
        rw [hv, Option.getD_some] at hne hother
        exact hother (hfree other hv hne)
  unfold Cni.createNic
  apply Runs.etcd_bind (run_getPod hsimple)
  simp only [if_neg hcond]
  apply Runs.etcd_bind (run_addPod hsimple hc.item)
  simp only [if_true]
  apply Runs.etcd_bind (run_addNetns hc.slash hline)
  simp only [if_true]
  apply Runs.etcd_bind (run_addNic hc.slash hi.item)
  simp only [if_true]
  apply Runs.bind (runs_setup _)
  simp only [if_true]
  apply Runs.bind (runs_setNetns rfl hsimple)
  simp only [if_true]
  apply Runs.bind (runs_rename rfl hi.item.ne_nil)
  apply Runs.bind (runs_setStatus rfl .up)
  exact hrest

theorem runs_createNic (base : Store) (peer : Text) (law : Lawful cni net)
    (ready : Ready cni loaded gw)
    (hname : b.name = c) (hc : Name c) (hi : Name i) (hline : '\n' ∉ netns)
    (hsimple : simpleNetns netns = .ok simple)
    (hfree : FreeFor R simple c)
    (hs : R.value .subnet = some net.text) {j : ℕ}
    (hj : firstFree (hostText net) (hostCount net) (R.list .addresses) = some j) :
    ∃ nic, nic.getAddr = some ⟨net.address + BitVec.ofNat 32 j, .ipv4, net.prefixLength⟩ ∧
      Runs cni.node base (cni.createNic loaded b i peer netns) R (.ok nic)
        (addrRecords c hi gw (hostText net j) (item_hostText net j)
          (podRecords hc hi hline simple R)) := by
  obtain ⟨p, hgw⟩ := ready.gateway
  obtain ⟨nic, hn, haddrs, hhead⟩ :=
    runs_createNic_head cni base loaded peer hname hc hi hline hsimple hfree
  obtain ⟨nic', haddrs', hconfig⟩ := runs_configPodNetwork base gw p law
    (R := podRecords hc hi hline simple R) hc.slash hi (by simpa [podRecords] using hs) hn
    (by simpa [podRecords] using hj)
  refine ⟨nic', by simp [Nic.getAddr, haddrs', haddrs], hhead _ _ ?_⟩
  apply Runs.bind (runs_nicPluginBridge ready peer)
  rw [hgw]
  exact hconfig

theorem runs_createNic_full (base : Store) (peer : Text) (law : Lawful cni net)
    (ready : Ready cni loaded gw)
    (hname : b.name = c) (hc : Name c) (hi : Name i) (hline : '\n' ∉ netns)
    (hsimple : simpleNetns netns = .ok simple)
    (hfree : FreeFor R simple c)
    (hs : R.value .subnet = some net.text)
    (hj : firstFree (hostText net) (hostCount net) (R.list .addresses) = none) :
    Runs cni.node base (cni.createNic loaded b i peer netns) R
      (.error (.cniError 7 s!"Failed to allocate IP address on node:{str cni.node}"))
      (podRecords hc hi hline simple R) := by
  obtain ⟨nic, hn, haddrs, hhead⟩ :=
    runs_createNic_head cni base loaded peer hname hc hi hline hsimple hfree
  apply hhead
  apply Runs.bind (runs_nicPluginBridge ready peer)
  exact runs_configPodNetwork_full law (by simpa [podRecords] using hs) _ nic
    (by simpa [podRecords] using hj)

end Create
end Container

/-! ### The operation -/

/-- A node whose records can be restored and that can take a container. -/
structure Up (cni : Cni) (net : NetworkV4) (gw : BitVec 32) (R : Registry) : Prop where
  loadable : Loadable R
  subnet : R.value .subnet = some net.text
  root : host ∈ R.list .pods
  bridge : cni.conf.bridge ∈ R.list (.nics host)
  gateway : ∃ p, gatewayObj cni R = some ⟨gw, .ipv4, p⟩

section Operation
variable {cni : Cni} {net : NetworkV4} {base : Store} {R : Registry} {gw : BitVec 32}
variable {c i netns simple : Text}

/-- The result for an interface with an address. -/
def reported (cni : Cni) (a gw : BitVec 32) (p : ℕ) (nicName netns : Text) : CniResult :=
  ⟨cni.conf.cniVersion, cidr a p, dottedQuad gw, nicName, netns⟩

theorem result_of_addr {loaded : Loaded} {nic : Nic} {a : BitVec 32} {p : ℕ}
    (hn : nic.getAddr = some ⟨a, .ipv4, p⟩) (hg : ∃ q, loaded.gateway = some ⟨gw, .ipv4, q⟩) :
    cni.result loaded nic i netns = .ok (reported cni a gw p i netns) := by
  obtain ⟨q, hq⟩ := hg
  simp [Cni.result, Cni.addrText, hn, hq, reported, bind, Except.bind, pure, Except.pure]

/-- The objects of a node with those of container `c` next to them. -/
theorem ready_loadedObj (law : Lawful cni net) (up : Up cni net gw R) {obj : Node}
    (hobj : obj.netns.lookup host = some (podObj cni R host)) :
    Ready cni ⟨[(cni.node, obj)], gatewayObj cni R⟩ gw where
  gateway := up.gateway
  bridge := by
    refine ⟨obj, podObj cni R host, nicObj cni R host cni.conf.bridge, by simp, hobj, ?_, ?_, rfl⟩
    · simp [podObj, up.bridge]
    · simp [nicObj, storageKind, law.bridge_ne_underlay]

/-- The object that `add` works on. -/
theorem getKubernetesPod_nodeObj (up : Up cni net gw R) (hch : c ≠ host) :
    ∃ pod obj, Cni.getKubernetesPod (nodeObj cni R net) c true = .pure (pod, obj) ∧
      pod.name = c ∧ obj.netns.lookup host = some (podObj cni R host) ∧
      ∀ i, pod.nics.lookup i =
        if c ∈ R.list .pods ∧ i ∈ R.list (.nics c) then some (nicObj cni R c i) else none := by
  by_cases hmem : c ∈ R.list .pods
  · refine ⟨podObj cni R c, nodeObj cni R net, ?_, rfl, ?_, ?_⟩
    · simp [Cni.getKubernetesPod, nodeObj, hmem]
    · simp [nodeObj, up.root]
    · intro i
      simp [podObj, hmem]
  · refine ⟨{ name := c }, { nodeObj cni R net with
      netns := emplace (nodeObj cni R net).netns c { name := c } }, ?_, rfl, ?_, ?_⟩
    · simp [Cni.getKubernetesPod, nodeObj, hmem]
    · simp [nodeObj, up.root, hch.symm]
    · intro i
      simp [hmem]

/-- ADD on a node that is up comes down to the interface of the pod. -/
theorem runs_add_up (base : Store) (i netns : Text) (law : Lawful cni net) (up : Up cni net gw R)
    (hch : c ≠ host) :
    ∃ loaded pod, Ready cni loaded gw ∧ pod.name = c ∧
      (∀ j, pod.nics.lookup j =
        if c ∈ R.list .pods ∧ j ∈ R.list (.nics c) then some (nicObj cni R c j) else none) ∧
      ∀ o R', Runs cni.node base (Program.bind
          (cni.getPodNic loaded pod i (prefixVeth ++ getShortHash c) netns)
          fun nic => Program.ofExcept (cni.result loaded nic i netns)) R o R' →
        Runs cni.node base (cni.add c netns i) R o R' := by
  have hp := law.prefixLength_le
  obtain ⟨pod, obj, hpod, hname, hhost, hnics⟩ := getKubernetesPod_nodeObj up hch
  refine ⟨⟨[(cni.node, obj)], gatewayObj cni R⟩, pod, ready_loadedObj law up hhost,
    hname, hnics, ?_⟩
  intro o R' hrest
  unfold Cni.add
  simp only [law.nodeInfo, if_true]
  apply Runs.bind (runs_getKubernetesCluster up.loadable up.subnet (by omega))
  have hreplace : replace (loadedObj cni R net).cluster cni.node obj = [(cni.node, obj)] := by
    simp [replace, loadedObj]
  simp only [getKubernetesNode_loadedObj, hpod, Program.bind_eq, Program.pure_bind, hreplace]
  exact hrest

/-- What `add` says of an interface that has the stored address `a/p`. -/
def reuseOutcome (cni : Cni) (a gw : BitVec 32) (p : ℕ) (nicName netns : Text) :
    Except Thrown CniResult :=
  match Subnet.isSubnetOf cni.boost ⟨⟨a, p⟩, .ipv4⟩ cni.conf.subnet with
  | .ok true => .ok (reported cni a gw p nicName netns)
  | .ok false => .error (.cniError 7 (cni.outsideSubnet (cidr a p)))
  | .error e => .error e

section Reuse
variable {nic : Nic} {a : BitVec 32} {p : ℕ}

theorem runs_reuseNic (cni : Cni) (base : Store) (hn : nic.netlink = true) (hname : nic.name = i)
    (hne : i ≠ [])
    (ha : nic.getAddr = some ⟨a, .ipv4, p⟩) (hp : p ≤ 32) :
    Runs cni.node base (cni.reuseNic nic i) R
      (match Subnet.isSubnetOf cni.boost ⟨⟨a, p⟩, .ipv4⟩ cni.conf.subnet with
        | .ok true => .ok nic
        | .ok false => .error (.cniError 7 (cni.outsideSubnet (cidr a p)))
        | .error e => .error e) R := by
  unfold Cni.reuseNic
  simp only [ha, Addr.getAddrCidr_ipv4, Program.ofExcept_ok, Program.bind_eq, Program.pure_bind,
    Subnet.init_cidr cni.boost a hp]
  cases Subnet.isSubnetOf cni.boost ⟨⟨a, p⟩, .ipv4⟩ cni.conf.subnet with
  | error e => exact Runs.throw e R
  | ok contained =>
      cases contained with
      | false => exact Runs.throw _ R
      | true =>
          simp only [Program.ofExcept_ok, Program.pure_bind, if_true, Nic.isExist, hn]
          apply Runs.query_bind
          intro b
          cases b with
          | true => exact Runs.pure nic R
          | false =>
              have hself : { nic with name := i } = nic := by rw [← hname]
              simp only [Bool.false_eq_true, if_false]
              apply Runs.bind (runs_rename hn hne)
              simp only [if_true, hself]
              exact Runs.pure nic R

theorem runs_reuseNic_none (ha : nic.getAddr = none) :
    Runs cni.node base (cni.reuseNic nic i) R
      (.error (.cniError 7 s!"Failed to get veth address:{str i}")) R := by
  unfold Cni.reuseNic
  simp only [ha]
  exact Runs.throw _ R

end Reuse

/-- The interface is found with an address: the records stay. -/
theorem runs_add_reuse (law : Lawful cni net) (up : Up cni net gw R) (hch : c ≠ host)
    (hmem : c ∈ R.list .pods) (hi : i ∈ R.list (.nics c)) (hne : i ≠ []) {a : BitVec 32} {p : ℕ}
    (hp : p ≤ 32) {rest : List Text} (ha : R.list (.addrs c i) = cidr a p :: rest) :
    Runs cni.node base (cni.add c netns i) R (reuseOutcome cni a gw p i netns) R := by
  obtain ⟨loaded, pod, ready, hname, hnics, hadd⟩ := runs_add_up base i netns law up hch
  have haddr : (nicObj cni R c i).getAddr = some ⟨a, .ipv4, p⟩ := by
    simp [Nic.getAddr, nicObj, addrObjs, ha, Addr.ofCidr_cidr cni.boost a hp]
  have hreuse := runs_reuseNic cni base (R := R) rfl rfl hne haddr hp
  apply hadd
  simp only [Cni.getPodNic, hnics, hmem, hi, and_self, if_true]
  unfold reuseOutcome
  revert hreuse
  cases Subnet.isSubnetOf cni.boost ⟨⟨a, p⟩, .ipv4⟩ cni.conf.subnet with
  | error e => exact fun h => Runs.bind_error h
  | ok contained =>
      cases contained with
      | false => exact fun h => Runs.bind_error h
      | true =>
          intro h
          apply Runs.bind h
          rw [result_of_addr haddr ready.gateway]
          exact Runs.pure _ R

/-- The interface is found without an address. -/
theorem runs_add_reuse_none (law : Lawful cni net) (up : Up cni net gw R) (hch : c ≠ host)
    (hmem : c ∈ R.list .pods) (hi : i ∈ R.list (.nics c)) (ha : R.list (.addrs c i) = []) :
    Runs cni.node base (cni.add c netns i) R
      (.error (.cniError 7 s!"Failed to get veth address:{str i}")) R := by
  obtain ⟨loaded, pod, ready, hname, hnics, hadd⟩ := runs_add_up base i netns law up hch
  have haddr : (nicObj cni R c i).getAddr = none := by
    simp [Nic.getAddr, nicObj, addrObjs, ha]
  apply hadd
  simp only [Cni.getPodNic, hnics, hmem, hi, and_self, if_true]
  exact Runs.bind_error (runs_reuseNic_none haddr)

section New
variable (base : Store) (law : Lawful cni net) (up : Up cni net gw R) (hch : c ≠ host)
  (hnew : ¬ (c ∈ R.list .pods ∧ i ∈ R.list (.nics c))) (hsimple : simpleNetns netns = .ok simple)
include law up hch hnew hsimple

theorem runs_add_refused {other : Text} (ho : R.value (.podOf simple) = some other)
    (hne : other ≠ []) (hother : other ≠ c) :
    Runs cni.node base (cni.add c netns i) R
      (.error (.cniError 7 (s!"CRI error: Pod:{str other} and Pod:{str c} " ++
        s!"belongs to one namespace:{str netns}"))) R := by
  obtain ⟨loaded, pod, ready, hname, hnics, hadd⟩ := runs_add_up base i netns law up hch
  apply hadd
  simp only [Cni.getPodNic, hnics, if_neg hnew]
  exact Runs.bind_error (runs_createNic_refused hname hsimple ho hne hother)

variable (hc : Name c) (hi : Name i) (hline : '\n' ∉ netns)
  (hfree : FreeFor R simple c)
include hfree

theorem runs_add_new {j : ℕ}
    (hj : firstFree (hostText net) (hostCount net) (R.list .addresses) = some j) :
    Runs cni.node base (cni.add c netns i) R
      (.ok (reported cni (net.address + BitVec.ofNat 32 j) gw net.prefixLength i netns))
      (addrRecords c hi gw (hostText net j) (item_hostText net j)
        (podRecords hc hi hline simple R)) := by
  obtain ⟨loaded, pod, ready, hname, hnics, hadd⟩ := runs_add_up base i netns law up hch
  obtain ⟨nic, haddr, hcreate⟩ :=
    runs_createNic base (prefixVeth ++ getShortHash c) law ready hname hc hi hline hsimple
    hfree up.subnet hj
  apply hadd
  simp only [Cni.getPodNic, hnics, if_neg hnew]
  apply Runs.bind hcreate
  rw [result_of_addr haddr ready.gateway]
  exact Runs.pure _ _

theorem runs_add_full
    (hj : firstFree (hostText net) (hostCount net) (R.list .addresses) = none) :
    Runs cni.node base (cni.add c netns i) R
      (.error (.cniError 7 s!"Failed to allocate IP address on node:{str cni.node}"))
      (podRecords hc hi hline simple R) := by
  obtain ⟨loaded, pod, ready, hname, hnics, hadd⟩ := runs_add_up base i netns law up hch
  apply hadd
  simp only [Cni.getPodNic, hnics, if_neg hnew]
  exact Runs.bind_error (runs_createNic_full base _ law ready hname hc hi hline hsimple
    hfree up.subnet hj)

end New

/-- The first ADD of a node creates the node and then an interface. -/
theorem runs_add_idle (base : Store) (i netns : Text) (law : Lawful cni net)
    (hs : R.value .subnet = none) (hch : c ≠ host) {j : ℕ}
    (hj : firstFree (hostText net) (hostCount net) (R.list .addresses) = some j) :
    ∃ loaded, Ready cni loaded (net.address + BitVec.ofNat 32 j) ∧
      ∀ o R', Runs cni.node base (Program.bind
          (cni.createNic loaded { name := c } i (prefixVeth ++ getShortHash c) netns)
          fun nic => Program.ofExcept (cni.result loaded nic i netns))
          (nodeRecords law (hostText net j) (item_hostText net j) R) o R' →
        Runs cni.node base (cni.add c netns i) R o R' := by
  obtain ⟨obj, born, hcreate⟩ := runs_createNode base law hs hj
  obtain ⟨rootObj, bridge, hroot, hbridge⟩ := born.bridge
  refine ⟨⟨[(cni.node, { obj with netns := emplace obj.netns c { name := c } })],
      some ⟨net.address + BitVec.ofNat 32 j, .ipv4, net.prefixLength⟩⟩, ?_, ?_⟩
  · exact ⟨⟨_, rfl⟩, { obj with netns := emplace obj.netns c { name := c } }, rootObj,
      bridge, by simp,
      by simp [hch.symm, hroot], hbridge⟩
  · intro o R' hrest
    have hpod : Cni.getKubernetesPod obj c true =
        .pure ({ name := c }, { obj with netns := emplace obj.netns c { name := c } }) := by
      simp [Cni.getKubernetesPod, born.fresh c hch]
    unfold Cni.add
    simp only [law.nodeInfo, if_true]
    apply Runs.bind (runs_getKubernetesCluster_none hs)
    apply Runs.bind hcreate
    simp only [hpod, Program.bind_eq, Program.pure_bind, replace, List.map_cons, List.map_nil,
      if_true, Cni.getPodNic, List.lookup_nil]
    exact hrest

/-- The first ADD of a node. -/
theorem runs_add_first (base : Store) (law : Lawful cni net) (hs : R.value .subnet = none)
    (hch : c ≠ host) (hsimple : simpleNetns netns = .ok simple) (hc : Name c) (hi : Name i)
    (hline : '\n' ∉ netns) (hfree : FreeFor R simple c) (hsh : simple ≠ host) {j k : ℕ}
    (hj : firstFree (hostText net) (hostCount net) (R.list .addresses) = some j)
    (hk : firstFree (hostText net) (hostCount net)
      (R.list .addresses ++ [hostText net j]) = some k) :
    Runs cni.node base (cni.add c netns i) R
      (.ok (reported cni (net.address + BitVec.ofNat 32 k) (net.address + BitVec.ofNat 32 j)
        net.prefixLength i netns))
      (addrRecords c hi (net.address + BitVec.ofNat 32 j) (hostText net k) (item_hostText net k)
        (podRecords hc hi hline simple
          (nodeRecords law (hostText net j) (item_hostText net j) R))) := by
  obtain ⟨loaded, ready, hadd⟩ := runs_add_idle base i netns law hs hch hj
  obtain ⟨nic, haddr, hnic⟩ :=
    runs_createNic base (prefixVeth ++ getShortHash c) law (b := { name := c })
    (R := nodeRecords law (hostText net j) (item_hostText net j) R) ready rfl hc hi hline hsimple
    (by simpa [FreeFor, nodeRecords_value, hsh] using hfree) (by simp [nodeRecords_value])
    (by simpa [nodeRecords_list] using hk)
  apply hadd
  apply Runs.bind hnic
  rw [result_of_addr haddr ready.gateway]
  exact Runs.pure _ _

end Operation
end Ohno.AddRecords
