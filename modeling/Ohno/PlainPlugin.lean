import Ohno.KeyedLists
import Ohno.PlainPrograms

/-!
# Plugins on plain arguments

`PlainCni` is a plugin whose configuration and node are plain words. What it loads
from a plain store is plain, and so is all that `add` and `del` then ask etcd and
the kernel for, whichever of these commands fail.
-/
namespace Ohno.PlainPlugin
open CommandPrograms CommandTraces CommandPools DelimitedLists AddressText EtcdClientShell Subnets
open Ipam Netlink Nics Storage CniPlugin IpCommands ShellWords CommandLines DerivedNames
open PlainPrograms

structure PlainCni (cni : Cni) : Prop where
  bridge : Word cni.conf.bridge
  node : Plain cni.node
  underlayDev : Word cni.underlayDev
  underlayAddr : Plain cni.underlayAddr
  underlayAddr_ne : cni.underlayAddr ≠ []
  podCidr : Word cni.podCidr
  vxlanMac : Plain cni.vxlanMac
  vxlanMac_comma : ',' ∉ cni.vxlanMac
  uniqueId : Plain cni.uniqueId

structure PlainNetns (pod : Netns) : Prop where
  name : Word pod.name
  nics : ∀ e ∈ pod.nics, PlainNic e.2

def PlainNode (node : Node) : Prop := ∀ e ∈ node.netns, PlainNetns e.2

def PlainLoaded (loaded : Loaded) : Prop := ∀ e ∈ loaded.cluster, PlainNode e.2

/-! ### Maps and names -/

section Maps
variable {V : Type} {P : V → Prop} {m : List (Text × V)} {k : Text} {v : V}

theorem forall_emplace (h : ∀ e ∈ m, P e.2) (hv : P v) : ∀ e ∈ emplace m k v, P e.2 := by
  unfold emplace
  split_ifs
  · exact h
  · intro e he
    rcases List.mem_append.mp he with he | he
    · exact h e he
    · exact List.mem_singleton.mp he ▸ hv

theorem forall_remove (h : ∀ e ∈ m, P e.2) : ∀ e ∈ CniPlugin.remove m k, P e.2 :=
  fun e he => h e (List.mem_of_mem_filter he)

theorem forall_replace (h : ∀ e ∈ m, P e.2) (hv : P v) : ∀ e ∈ CniPlugin.replace m k v, P e.2 := by
  intro e he
  obtain ⟨e', he', rfl⟩ := List.mem_map.mp he
  split_ifs
  · exact hv
  · exact h e' he'

theorem of_lookup (h : ∀ e ∈ m, P e.2) (hl : m.lookup k = some v) : P v := by
  induction m with
  | nil => cases hl
  | cons e m ih =>
      rw [KeyedLists.lookup_cons_eq] at hl
      split_ifs at hl
      · exact Option.some.inj hl ▸ h e List.mem_cons_self
      · exact ih (fun x hx => h x (List.mem_cons_of_mem e hx)) hl

end Maps

theorem word_host : Word host := by
  have hplain : host.all plainChar = true := by decide +kernel
  have hshown : host ≠ [] ∧ ',' ∉ host ∧ host ∉ showWords := by decide +kernel
  exact ⟨⟨List.all_eq_true.mp hplain, hshown.1, hshown.2.2⟩, hshown.2.1⟩

theorem word_nameVxlan : Word nameVxlan := by
  have hplain : nameVxlan.all plainChar = true := by decide +kernel
  have hshown : nameVxlan ≠ [] ∧ ',' ∉ nameVxlan ∧ nameVxlan ∉ showWords := by decide +kernel
  exact ⟨⟨List.all_eq_true.mp hplain, hshown.1, hshown.2.2⟩, hshown.2.1⟩

theorem plain_hexDigits : Plain hexDigits := List.all_eq_true.mp (by decide)

theorem plain_prefixes :
    Plain prefixVeth ∧ Plain prefixOhno ∧ '_' ∈ prefixVeth ∧ '_' ∈ prefixOhno := by
  have hveth : prefixVeth.all plainChar = true := by decide +kernel
  have hohno : prefixOhno.all plainChar = true := by decide +kernel
  have hmem : '_' ∈ prefixVeth ∧ '_' ∈ prefixOhno := by decide +kernel
  exact ⟨List.all_eq_true.mp hveth, List.all_eq_true.mp hohno, hmem⟩

theorem plain_getShortHash {t : Text} (h : Plain t) : Plain (getShortHash t) := by
  by_cases hlen : t.length ≤ 15
  · rw [getShortHash_short hlen]
    exact h
  · rw [getShortHash_long (by omega)]
    intro c hc
    exact plain_hexDigits c (mem_hexDigits_of_mem_hex (List.mem_of_mem_take hc))

/-- The host end of a pair. -/
theorem plain_vethHost {id : Text} (h : Plain id) :
    Plain (prefixVeth ++ getShortHash id) ∧ prefixVeth ++ getShortHash id ≠ [] := by
  have hne : prefixVeth ≠ [] := List.ne_nil_of_mem plain_prefixes.2.2.1
  exact ⟨plain_append.mpr ⟨plain_prefixes.1, plain_getShortHash h⟩, by simp [hne]⟩

/-- The other end, before it is renamed. -/
theorem name_vethPod {id : Text} (h : Plain id) : Name (prefixOhno ++ getShortHash id) where
  plain := plain_append.mpr ⟨plain_prefixes.2.1, plain_getShortHash h⟩
  ne_nil := List.ne_nil_of_mem (List.mem_append_left _ plain_prefixes.2.2.2)
  shown := by
    have hmem := List.mem_append_left (getShortHash id) plain_prefixes.2.2.2
    have hwords : ∀ w ∈ showWords, '_' ∉ w := by decide
    exact fun hs => hwords _ hs hmem

/-! ### Restoring the objects -/

section Restore
variable {cni : Cni} {pod nic netns : Text}

theorem sends_fail {A : Type} {P : A → Prop} (code : ℕ) (details : String) :
    Sends (Cni.fail code details) P := trivial

theorem sends_getStorageNic (hn : Name nic) :
    Sends (cni.getStorageNic pod nic) fun o => ∀ obj, o = some obj → PlainNic obj := by
  apply (sends_setup ⟨hn, plain_nil, ?_, by simp⟩).bind
  · intro ret hret obj hobj
    split_ifs at hobj
    exact Option.some.inj hobj ▸ hret
  · split_ifs <;> trivial

theorem sends_enterNetns (hc : PlainCni cni) (hp : Plain pod) {obj : Nic} (h : PlainNic obj) :
    Sends (cni.enterNetns pod obj) PlainNic := by
  unfold Cni.enterNetns
  split_ifs
  · exact h
  · apply (asks_getNetns hc.node hp).etcd.bind
    intro netns hnetns
    apply (sends_setNetns h hnetns).bind
    intro ret hret
    exact hret

theorem sends_restoreAddrs (cidrs : List Text) {obj : Nic} (h : PlainNic obj)
    (gateway : Option Addr) :
    Sends (cni.restoreAddrs nic cidrs obj gateway) fun ret => PlainNic ret.1 := by
  induction cidrs generalizing obj gateway with
  | nil => exact h
  | cons cidr cidrs ih =>
      apply (sends_addAddr h _).bind
      intro ret hret
      exact ih hret _

theorem sends_restoreRoutes {rs : List Route} (hr : ∀ r ∈ rs, PlainRoute r) {obj : Nic}
    (h : PlainNic obj) : Sends (Cni.restoreRoutes rs obj) PlainNic := by
  induction rs generalizing obj with
  | nil => exact h
  | cons r rs ih =>
      apply (sends_addRoute h (hr r List.mem_cons_self) .none).bind
      intro ret hret
      exact ih (fun q hq => hr q (List.mem_cons_of_mem r hq)) hret

theorem sends_restoreNic (hc : PlainCni cni) (hp : Plain pod) (hn : Name nic)
    (gateway : Option Addr) : Sends (cni.restoreNic pod nic gateway) fun ret =>
      ∀ obj, ret.1 = some obj → PlainNic obj := by
  apply (sends_getStorageNic hn).bind
  intro o ho
  cases o with
  | none =>
      intro obj hobj
      cases hobj
  | some obj =>
      apply (sends_enterNetns hc hp (ho obj rfl)).bind
      intro obj hobj
      apply (asks_getAllAddrs hc.node hp hn.plain).etcd.bind
      intro addrs haddrs
      apply (sends_restoreAddrs addrs hobj gateway).bind
      intro ret hret
      apply (asks_getAllRoutes hc.node hp hn.plain).etcd.bind
      intro routes hroutes
      apply (sends_restoreRoutes hroutes hret).bind
      intro obj hobj obj' hobj'
      exact Option.some.inj hobj' ▸ hobj

theorem PlainNetns.addNic {obj : Netns} (h : PlainNetns obj) {nic : Nic} (hn : PlainNic nic) :
    PlainNetns (obj.addNic nic) := ⟨h.name, forall_emplace h.nics hn⟩

theorem sends_restoreNics (hc : PlainCni cni) (hp : Plain pod) {nics : List Text}
    (hn : ∀ n ∈ nics, Word n) {obj : Netns} (h : PlainNetns obj) (gateway : Option Addr) :
    Sends (cni.restoreNics pod nics obj gateway) fun ret => PlainNetns ret.1 := by
  induction nics generalizing obj gateway with
  | nil => exact h
  | cons nic nics ih =>
      have hrest := fun n hm => hn n (List.mem_cons_of_mem nic hm)
      apply (sends_restoreNic hc hp (hn nic List.mem_cons_self).toName gateway).bind
      intro ret hret
      cases hobj : ret.1 with
      | none => exact ih hrest h ret.2
      | some nicObj => exact ih hrest (h.addNic (hret nicObj hobj)) ret.2

theorem sends_restorePods (hc : PlainCni cni) {pods : List Text} (hp : ∀ p ∈ pods, Word p)
    {node : Node} (h : PlainNode node) (gateway : Option Addr) :
    Sends (cni.restorePods pods node gateway) fun ret => PlainNode ret.1 := by
  induction pods generalizing node gateway with
  | nil => exact h
  | cons pod pods ih =>
      have hpod := (hp pod List.mem_cons_self).plain
      have hrest := fun p hm => hp p (List.mem_cons_of_mem pod hm)
      apply (asks_getAllNic hc.node hpod).etcd.bind
      intro nics hnics
      apply (sends_restoreNics hc hpod hnics ⟨hp pod List.mem_cons_self, by simp⟩ gateway).bind
      intro ret hret
      have hnext : PlainNode { node with netns := emplace node.netns pod ret.1 } :=
        forall_emplace h hret
      exact ih hrest hnext ret.2

theorem plainNode_initKubernetesNode {node node' : Node} {subnet : Text} (h : PlainNode node)
    (hi : cni.initKubernetesNode node subnet = .ok node') : PlainNode node' := by
  unfold Cni.initKubernetesNode at hi
  cases hs : Subnet.init cni.boost subnet with
  | error e =>
      rw [hs] at hi
      cases hi
  | ok s =>
      rw [hs] at hi
      obtain rfl := Except.ok.inj hi
      exact h

theorem sends_getKubernetesCluster (hc : PlainCni cni) :
    Sends cni.getKubernetesCluster PlainLoaded := by
  apply (asks_getSubnet hc.node).etcd.bind
  intro ret hret
  split_ifs
  · have hempty : PlainNode {} := by simp [PlainNode]
    apply (Issues.ofExcept fun n hn => plainNode_initKubernetesNode hempty hn).bind
    intro node hnode
    apply (asks_getAllPods hc.node).etcd.bind
    intro pods hpods
    apply (sends_restorePods hc hpods hnode none).bind
    intro restored hrestored
    have hnone : ∀ e ∈ ([] : List (Text × Node)), PlainNode e.2 := by simp
    exact forall_emplace hnone hrestored
  · simp [PlainLoaded]

end Restore

/-! ### Creating the node -/

section Create
variable {cni : Cni} {nic subnet : Text}

theorem sends_storeAddr (hc : PlainCni cni) (hn : Plain nic) (addr : Addr) (added : Bool) :
    Sends (cni.storeAddr nic addr added) fun _ => True := by
  unfold Cni.storeAddr
  split_ifs
  · exact (asks_addAddr hc.node word_host.plain hn addr).etcd
  · exact trivial

theorem sends_getBridge (hc : PlainCni cni) (bridgeAddr : Text) :
    Sends (cni.getBridge bridgeAddr) PlainNic := by
  have hempty : PlainNic { kind := .bridge, name := cni.conf.bridge } :=
    ⟨hc.bridge.toName, plain_nil, trivial, by simp⟩
  apply (asks_addNic hc.node word_host.plain hc.bridge).etcd.check
  apply (sends_setup hempty).bind
  intro ret hret
  split_ifs
  · apply (sends_addAddr hret _).bind
    intro added hadded
    apply (sends_storeAddr hc hc.bridge.plain _ added.1).check
    apply (sends_setStatus hadded .up).bind
    intro up hup
    exact hadded
  · exact trivial

theorem plainKind_vxlanKind (hc : PlainCni cni) : PlainKind cni.vxlanKind := by
  unfold Cni.vxlanKind
  split
  · rename_i addr haddr
    rw [getAddr_eq haddr]
    exact ⟨⟨plain_dottedQuad, dottedQuad_ne_nil _⟩, hc.underlayDev.plain, hc.underlayDev.ne_nil⟩
  · exact ⟨⟨hc.underlayAddr, hc.underlayAddr_ne⟩, hc.underlayDev.plain, hc.underlayDev.ne_nil⟩

/-- The text that comes out is that of an address. -/
theorem extractAddr_eq {s : Subnet} {t : Text} (h : s.extractAddr = .ok t) :
    t = dottedQuad s.subnetV4.address := by
  by_cases hv : s.ipVersion = .ipv6
  · simp [Subnet.extractAddr, Subnet.checkIpv6, hv, bind, Except.bind] at h
  · have heq : s.extractAddr = Subnet.extractAddr ⟨s.subnetV4, .ipv4⟩ := by
      simp [Subnet.extractAddr, Subnet.getSubnet, Subnet.checkIpv6, hv]
    rw [heq, Subnet.extractAddr_ipv4] at h
    exact (Except.ok.inj h).symm

theorem sends_getVxlan (hc : PlainCni cni) : Sends (cni.getVxlan subnet) PlainNic := by
  have hempty : PlainNic { kind := cni.vxlanKind, name := nameVxlan } :=
    ⟨word_nameVxlan.toName, plain_nil, plainKind_vxlanKind hc, by simp⟩
  apply (asks_addNic hc.node word_host.plain word_nameVxlan).etcd.check
  apply (sends_setup hempty).bind
  intro ret hret
  by_cases hok : ret.1 = true
  · rw [if_pos hok]
    apply (Issues.ofExcept fun s hs => trivial).bind (P := fun _ => True)
    intro s hs
    apply (Issues.ofExcept fun t ht => extractAddr_eq ht).bind
    intro vxlanAddr haddr
    apply (sends_addAddr hret _).bind
    intro added hadded
    apply (sends_storeAddr hc word_nameVxlan.plain _ added.1).check
    apply (sends_setStatus hadded .up).bind
    intro up hup
    split_ifs
    · exact trivial
    · rw [haddr]
      exact (asks_addVtep hc.node _ hc.vxlanMac hc.vxlanMac_comma).etcd.check hadded
  · rw [if_neg hok]
    exact trivial

theorem sends_createVxlan (hc : PlainCni cni) :
    Sends (cni.createVxlan subnet) fun o => ∀ nic, o = some nic → PlainNic nic := by
  unfold Cni.createVxlan
  split_ifs
  · apply (sends_getVxlan hc).bind
    intro nic hnic obj hobj
    exact Option.some.inj hobj ▸ hnic
  · intro nic hnic
    cases hnic

theorem plainNetns_rootPod {bridge underlay : Nic} {vxlan : Option Nic} (hb : PlainNic bridge)
    (hv : ∀ nic, vxlan = some nic → PlainNic nic) (hu : PlainNic underlay) :
    PlainNetns (cni.rootPod bridge vxlan underlay) := by
  have hnone : ∀ e ∈ ([] : List (Text × Nic)), PlainNic e.2 := by simp
  have hbridge := forall_emplace (k := bridge.name) hnone hb
  unfold Cni.rootPod
  refine ⟨word_host, ?_⟩
  split
  · rename_i nic hmode
    exact forall_emplace (forall_emplace hbridge (hv nic rfl)) hu
  · exact forall_emplace hbridge hu

theorem sends_getRootPod (hc : PlainCni cni) {node : Node} (h : PlainNode node)
    {bridge underlay : Nic} {vxlan : Option Nic} (hb : PlainNic bridge)
    (hv : ∀ nic, vxlan = some nic → PlainNic nic) (hu : PlainNic underlay) :
    Sends (cni.getRootPod node bridge vxlan underlay) PlainNode := by
  apply (asks_addNetns hc.node word_host.plain word_host).etcd.check
  apply (asks_addPod hc.node word_host.plain word_host).etcd.check
  exact forall_emplace h (plainNetns_rootPod hb hv hu)

theorem sends_createNode (hc : PlainCni cni) {loaded : Loaded} (h : PlainLoaded loaded) :
    Sends (cni.createNode loaded) fun ret => PlainNode ret.1 ∧ PlainLoaded ret.2 := by
  have hunderlay : PlainNic { kind := .underlay, name := cni.underlayDev } :=
    ⟨hc.underlayDev.toName, plain_nil, trivial, by simp⟩
  have hempty : PlainNode {} := by simp [PlainNode]
  apply (asks_allocateSubnet hc.node hc.podCidr).etcd.bind
  intro subnet hsubnet
  split_ifs
  · apply (asks_allocateIp cni.boost hc.node).etcd.bind
    intro gateway hgateway
    split_ifs
    · apply (sends_getBridge hc gateway.2).bind
      intro bridge hbridge
      apply (sends_createVxlan hc).bind
      intro vxlan hvxlan
      apply (asks_addNic hc.node word_host.plain hc.underlayDev).etcd.check
      apply (sends_getRootPod hc hempty hbridge hvxlan hunderlay).bind
      intro node hnode
      apply (Issues.ofExcept fun n hn => plainNode_initKubernetesNode hnode hn).bind
      intro node hnode
      exact ⟨hnode, forall_emplace h hnode⟩
    · exact trivial
  · exact trivial

theorem sends_getKubernetesNode (hc : PlainCni cni) {loaded : Loaded} (h : PlainLoaded loaded) :
    Sends (cni.getKubernetesNode loaded) fun ret => PlainNode ret.1 ∧ PlainLoaded ret.2 := by
  unfold Cni.getKubernetesNode
  split
  · rename_i node hnode
    exact ⟨of_lookup h hnode, h⟩
  · exact sends_createNode hc h

end Create

/-! ### Pods and their interfaces -/

section Pods
variable {cni : Cni} {pod nicName netns id : Text} {node : Node} {loaded : Loaded} {obj : Netns}

theorem sends_getKubernetesPod (h : PlainNode node) (hp : Word pod) (create : Bool) :
    Sends (Cni.getKubernetesPod node pod create) fun ret => PlainNetns ret.1 ∧ PlainNode ret.2 := by
  unfold Cni.getKubernetesPod
  split
  · rename_i found hfound
    exact ⟨of_lookup h hfound, h⟩
  · split_ifs
    · have hempty : PlainNetns { name := pod } := ⟨hp, by simp⟩
      exact ⟨hempty, forall_emplace h hempty⟩
    · exact trivial

theorem sends_delListedPod (hc : PlainCni cni) (hn : Plain netns) :
    Sends (cni.delListedPod netns) fun _ => True := by
  unfold Cni.delListedPod
  split_ifs
  · exact trivial
  · exact (asks_delPod hc.node hn).etcd

theorem sends_delKubernetesPod (hc : PlainCni cni) (h : PlainNode node) (hp : Plain pod) :
    Sends (cni.delKubernetesPod node pod) PlainNode := by
  apply (asks_getNetns hc.node hp).etcd.bind
  intro netns hnetns
  apply (asks_delNetns hc.node hp).etcd.check
  apply (sends_delListedPod hc hnetns).check
  exact forall_remove h

theorem sends_nicPluginBridge (hl : PlainLoaded loaded) (hp : Plain nicName) (hn : nicName ≠ []) :
    Sends (cni.nicPluginBridge loaded nicName) fun _ => True := by
  unfold Cni.nicPluginBridge
  split
  · exact trivial
  · rename_i node hnode
    apply (sends_getKubernetesPod (of_lookup hl hnode) word_host false).bind
    intro pod hpod
    split
    · rename_i nic hnic
      split_ifs
      · exact (sends_setMaster (of_lookup hpod.1.nics hnic) hp hn).check trivial
      · exact trivial
    · exact trivial

theorem sends_configPodNetwork (hc : PlainCni cni) {nic : Nic} (h : PlainNic nic)
    (hn : Word nicName) (hi : Plain id) (gateway : Option Addr) :
    Sends (cni.configPodNetwork gateway nic nicName id) PlainNic := by
  apply (asks_allocateIp cni.boost hc.node).etcd.bind
  intro podAddr hpodAddr
  split_ifs
  · apply (sends_addAddr h _).bind
    intro added hadded
    split_ifs
    · apply (asks_addAddr hc.node hi hn.plain _).etcd.check
      cases gateway with
      | none => exact trivial
      | some gw =>
          apply (Issues.ofExcept fun t ht => getAddr_eq ht).bind
          intro via hvia
          have hroute : PlainRoute ⟨[], via, nicName⟩ := by
            rw [hvia]
            exact ⟨plain_nil, plain_dottedQuad, dottedQuad_ne_nil _, hn.plain⟩
          apply (sends_addRoute hadded hroute .none).bind
          intro routed hrouted
          split_ifs
          · rw [hvia]
            exact (asks_addRoute hc.node hi hn _).etcd.check hrouted
          · exact trivial
    · exact trivial
  · exact trivial

theorem sends_createNic (hc : PlainCni cni) (hl : PlainLoaded loaded) (ho : Word obj.name)
    (hn : Word nicName) (hs : Word netns) {peer : Text} (hp : Plain peer) (hpn : peer ≠ []) :
    Sends (cni.createNic loaded obj nicName peer netns) PlainNic := by
  have hveth : PlainNic { kind := .veth peer, name := prefixOhno ++ getShortHash cni.uniqueId } :=
    ⟨name_vethPod hc.uniqueId, plain_nil, ⟨hp, hpn⟩, by simp⟩
  apply (asks_getPod hc.node hs.plain).etcd.bind
  intro cid hcid
  split_ifs
  · exact trivial
  · apply (asks_addPod hc.node hs.plain ho).etcd.check
    apply (asks_addNetns hc.node ho.plain hs).etcd.check
    apply (asks_addNic hc.node ho.plain hn).etcd.check
    apply (sends_setup hveth).bind
    intro ret hret
    split_ifs
    · apply (sends_setNetns hret hs.plain).bind
      intro entered hentered
      split_ifs
      · apply (sends_rename hentered hn.toName).bind
        intro renamed hrenamed
        apply (sends_setStatus hrenamed .up).bind
        intro up hup
        apply (sends_nicPluginBridge hl hp hpn).bind
        intro u hu
        exact sends_configPodNetwork hc hrenamed hn ho.plain loaded.gateway
      · exact trivial
    · exact trivial

theorem sends_releaseNicIp (hc : PlainCni cni) (iface : Nic) (podAddr : Text) :
    Sends (cni.releaseNicIp obj iface podAddr) fun _ => True := by
  unfold Cni.releaseNicIp
  split_ifs
  · exact trivial
  · exact (asks_releaseIp hc.node).etcd

theorem sends_delNicVtep (hc : PlainCni cni) : Sends cni.delNicVtep fun _ => True := by
  unfold Cni.delNicVtep
  split_ifs
  · exact (asks_delVtep hc.node).etcd
  · exact trivial

theorem sends_delKubernetesNic (hc : PlainCni cni) (h : PlainNetns obj) (hn : Plain nicName) :
    Sends (cni.delKubernetesNic obj nicName) PlainNetns := by
  unfold Cni.delKubernetesNic
  split
  · exact h
  · rename_i iface hiface
    have hplain : PlainNic iface := of_lookup h.nics hiface
    apply (Issues.ofExcept fun t ht => trivial).bind (P := fun _ => True)
    intro podAddr hpodAddr
    apply (sends_cleanup hplain).bind
    intro u hu
    apply (sends_releaseNicIp hc iface podAddr).bind
    intro released hreleased
    apply (asks_delAddr hc.node h.name.plain hn).etcd.check
    apply (asks_delRoute hc.node h.name.plain hn).etcd.check
    apply (asks_delNic hc.node h.name.plain).etcd.check
    apply (sends_delNicVtep hc).check
    exact ⟨h.name, forall_remove h.nics⟩

theorem sends_reuseNic {nic : Nic} (h : PlainNic nic) (hn : Name nicName) :
    Sends (cni.reuseNic nic nicName) PlainNic := by
  unfold Cni.reuseNic
  split
  · exact trivial
  · apply (Issues.ofExcept fun t ht => trivial).bind (P := fun _ => True)
    intro cidr hcidr
    apply (Issues.ofExcept fun s hs => trivial).bind (P := fun _ => True)
    intro subnet hsubnet
    apply Issues.check (P := fun _ => True) (Issues.ofExcept fun b hb => trivial)
    apply (sends_isExist h).bind
    intro there hthere
    split_ifs
    · exact h
    · apply (sends_rename h hn).bind
      intro ret hret
      split_ifs
      · exact hret
      · exact trivial

theorem sends_getPodNic (hc : PlainCni cni) (hl : PlainLoaded loaded) (h : PlainNetns obj)
    (hn : Word nicName) (hs : Word netns) {peer : Text} (hp : Plain peer)
    (hpn : peer ≠ []) : Sends (cni.getPodNic loaded obj nicName peer netns) PlainNic := by
  unfold Cni.getPodNic
  split
  · rename_i nic hnic
    exact sends_reuseNic (of_lookup h.nics hnic) hn.toName
  · exact sends_createNic hc hl h.name hn hs hp hpn

end Pods

/-! ### The operations -/

section Operations
variable {cni : Cni} {id netns nicName : Text}

theorem sends_add (hc : PlainCni cni) (hi : Word id) (hs : Word netns) (hn : Word nicName) :
    Sends (cni.add id netns nicName) fun _ => True := by
  have hpeer := plain_vethHost hi.plain
  unfold Cni.add
  split_ifs
  · apply (sends_getKubernetesCluster hc).bind
    intro loaded hloaded
    apply (sends_getKubernetesNode hc hloaded).bind
    intro ret hret
    apply (sends_getKubernetesPod hret.1 hi true).bind
    intro found hfound
    have hcluster : PlainLoaded { ret.2 with cluster := replace ret.2.cluster cni.node found.2 } :=
      forall_replace hret.2 hfound.2
    apply (sends_getPodNic hc hcluster hfound.1 hn hs hpeer.1 hpeer.2).bind
    intro nic hnic
    exact Issues.ofExcept fun r hr => trivial
  · exact trivial

theorem sends_tearDown (hc : PlainCni cni) {node : Node} (h : PlainNode node) :
    Sends (cni.tearDown node) fun _ => True := by
  apply (sends_getKubernetesPod h word_host false).bind
  intro found hfound
  apply (sends_delKubernetesNic hc hfound.1 hc.bridge.plain).bind
  intro pod hpod
  apply (sends_delKubernetesNic hc hpod word_nameVxlan.plain).bind
  intro pod hpod
  apply (sends_delKubernetesNic hc hpod hc.underlayDev.plain).bind
  intro pod hpod
  apply (sends_delKubernetesPod hc h word_host.plain).bind
  intro node hnode
  apply (Issues.ofExcept fun s hs => trivial).bind (P := fun _ => True)
  intro subnet hsubnet
  split_ifs
  · exact trivial
  · apply (asks_releaseSubnet hc.node).etcd.bind
    intro released hreleased
    exact trivial

theorem sends_delBody (hc : PlainCni cni) (hi : Word id) (hn : Plain nicName) :
    Sends (cni.delBody id nicName) fun _ => True := by
  unfold Cni.delBody
  split_ifs
  · apply (sends_getKubernetesCluster hc).bind
    intro loaded hloaded
    split
    · exact trivial
    · rename_i node hnode
      have hplain : PlainNode node := of_lookup hloaded hnode
      apply (sends_getKubernetesPod hplain hi false).bind
      intro found hfound
      apply (sends_delKubernetesNic hc hfound.1 hn).bind
      intro pod hpod
      apply (sends_delKubernetesPod hc hplain hi.plain).bind
      intro node hnode
      split_ifs
      · exact sends_tearDown hc hnode
      · exact trivial
  · exact trivial

theorem sends_del (hc : PlainCni cni) (hi : Word id) (hn : Plain nicName) :
    Sends (cni.del id nicName) fun _ => True := by
  apply (sends_delBody hc hi hn).catch_
  intro e
  split_ifs <;> trivial

end Operations

/-! ### Any number of plugins -/

/-- What the runtime starts on a node. -/
inductive Plugin : Text → OhnoProgram (Option CniResult) → Prop where
  | add {cni : Cni} {id netns nicName : Text} (hc : PlainCni cni) (hi : Word id) (hs : Word netns)
      (hn : Word nicName) :
      Plugin cni.node ((cni.add id netns nicName).bind fun r => .pure (some r))
  | del {cni : Cni} {id nicName : Text} (hc : PlainCni cni) (hi : Word id) (hn : Word nicName) :
      Plugin cni.node ((cni.del id nicName).bind fun _ => .pure none)

abbrev HostProgram (C : Type) := Program (Text × C) Reply Thrown (Option CniResult)

def OnHosts (q : HostProgram Cmd) : Prop := ∃ node p, Plugin node p ∧ q = tag node p

variable {T : Type} (hosts : Hosts T)

/-- The same over the shells of the hosts. -/
def OnShells (q : HostProgram Text) : Prop :=
  ∃ node p, Plugin node p ∧ q = tag node (overShell (hosts.data node) p)

/-- The lines of a program that runs on a host. -/
def overShells (p : HostProgram Cmd) : HostProgram Text :=
  relay (fun x => (x.1, lineOf (hosts.data x.1) x.2)) (fun x r => handed x.2 r) p

theorem overShells_tag (node : Text) (p : OhnoProgram (Option CniResult)) :
    overShells hosts (tag node p) = tag node (overShell (hosts.data node) p) := by
  rw [overShell_eq]
  induction p with
  | pure a => rfl
  | throw e => rfl
  | call c next ih =>
      have hnext := funext fun r => ih (handed c r)
      exact congrArg (Program.call (node, lineOf (hosts.data node) c)) hnext

theorem onShells_eq : OnShells hosts = fun q => ∃ p, OnHosts p ∧ q = overShells hosts p := by
  funext q
  apply propext
  constructor
  · intro h
    obtain ⟨node, p, hp, rfl⟩ := h
    exact ⟨tag node p, ⟨node, p, hp, rfl⟩, (overShells_tag hosts node p).symm⟩
  · intro h
    obtain ⟨_, ⟨node, p, hp, rfl⟩, rfl⟩ := h
    exact ⟨node, p, hp, overShells_tag hosts node p⟩

theorem issues_onHosts (p : HostProgram Cmd) (h : OnHosts p) :
    Issues (fun x => PlainCmd x.2) (fun x => Replies x.2) (fun _ => True) p := by
  obtain ⟨node, p, hp, rfl⟩ := h
  have hsends : Sends p fun _ => True := by
    cases hp with
    | add hc hi hs hn => exact (sends_add hc hi hs hn).bind fun _ _ => trivial
    | del hc hi hn => exact (sends_del hc hi hn.plain).bind fun _ _ => trivial
  exact Issues.embed hsends (fun _ hc => hc) fun _ _ hr => hr

theorem plainStore_set {s : Store} {k v : Text} (h : PlainStore s) (hv : Value k v) :
    PlainStore (s.set k v) := by
  intro k' v' hk'
  by_cases hk : k' = k
  · rw [hk, Store.set_same] at hk'
    exact hk ▸ Option.some.inj hk' ▸ hv
  · rw [Store.set_of_ne hk] at hk'
    exact h k' v' hk'

theorem plainStore_erase {s : Store} {k : Text} (h : PlainStore s) : PlainStore (s.erase k) := by
  intro k' v' hk'
  by_cases hk : k' = k
  · rw [hk, Store.erase_same] at hk'
    cases hk'
  · rw [Store.erase_of_ne hk] at hk'
    exact h k' v' hk'

theorem plainStore_ok {c : EtcdCmd} {s : Store} (hc : PlainEtcd c) (h : PlainStore s) :
    Shows c (Etcd.ok c s).1 ∧ PlainStore (Etcd.ok c s).2 := by
  cases c with
  | get key =>
      refine ⟨?_, h⟩
      cases hs : s key with
      | none => exact .inl (by simp [Etcd.ok, Store.shown, hs])
      | some v => exact .inr (by simpa [Etcd.ok, Store.shown, hs] using h key v hs)
  | put key v => exact ⟨trivial, plainStore_set h hc.2⟩
  | del key => exact ⟨trivial, plainStore_erase h⟩

theorem plainStore_etcdctl {c : EtcdCmd} {s t : Store} {r : Reply} (hc : PlainEtcd c)
    (h : PlainStore s) (hr : etcdctl c s r t) : Shows c r ∧ PlainStore t := by
  have hok := plainStore_ok hc h
  rcases hr with hr | ⟨rfl, rfl | rfl⟩
  · obtain ⟨rfl, rfl⟩ := Prod.mk.inj hr
    exact hok
  · exact ⟨by cases c <;> simp [Shows], h⟩
  · exact ⟨by cases c <;> simp [Shows], hok.2⟩

theorem keeps_perform : Keeps (perform hosts) (fun x => PlainCmd x.2) (fun x => Replies x.2)
    fun w => PlainStore w.1 := by
  intro x w r u hx hr hw
  obtain ⟨node, c⟩ := x
  cases c with
  | etcd c =>
      obtain ⟨⟨t, ht, rfl⟩, -⟩ := hr
      exact plainStore_etcdctl hx hw ht
  | netlink c =>
      obtain ⟨⟨t, ht, rfl⟩, -⟩ := hr
      exact ⟨trivial, hw⟩

/-! ### The two levels -/

section Levels
variable {hosts} {node : Text} {w u : Store × T}

theorem understood {d : EtcdData} {c : Line} (hd : d.Plain) (h : ∀ t ∈ arguments c, Plain t)
    (hc : Complete c) :
    lex (line d c) = some ((parts d c).filter (· ≠ [])) ∧
      readArgs (((parts d c).filter (· ≠ [])).map String.ofList) = some c :=
  ⟨lex_line hd h, read_parts d hc⟩

theorem complete_of_plainEtcd {c : EtcdCmd} (hc : PlainEtcd c) :
    (∀ t ∈ arguments (.etcd c), Plain t) ∧ Complete (.etcd c) := by
  cases c with
  | get key => exact ⟨by simpa [arguments] using hc.plain, ⟨[key], rfl, by simpa using hc.ne_nil⟩⟩
  | put key v =>
      exact ⟨by simpa [arguments] using And.intro hc.1.plain hc.2.plain,
        ⟨[key, v], rfl, by simpa using And.intro hc.1.ne_nil hc.2.ne_nil⟩⟩
  | del key => exact ⟨by simpa [arguments] using hc.plain, ⟨[key], rfl, by simpa using hc.ne_nil⟩⟩

theorem sh_etcd (hd : (hosts.data node).Plain) {c : EtcdCmd} (hc : PlainEtcd c) (r : Reply) :
    sh hosts (node, line (hosts.data node) (.etcd c)) w r u ↔ etcdctl c w.1 r u.1 ∧ u.2 = w.2 := by
  obtain ⟨hargs, hcomplete⟩ := complete_of_plainEtcd hc
  have h := understood hd hargs hcomplete
  simp only [sh, h.1, h.2]

theorem run_of_complete {c : IpCmd} (hc : Complete (.ip c)) {t t' : T} {r : Reply} :
    hosts.run node c t r t' ↔ hosts.ip node (.ip c) t r t' := by
  unfold Hosts.run
  split
  · obtain ⟨l, hl, hne⟩ := hc
    obtain rfl := Option.some.inj hl
    exact absurd rfl (hne [] (by simp))
  · exact Iff.rfl

/-- The one line that may lack an argument. -/
theorem sh_noNetns (hd : (hosts.data node).Plain) {name : Text} (hp : Plain name) (hn : name ≠ [])
    (r : Reply) :
    sh hosts (node, line (hosts.data node) (.ip (.other (.linkToNetns name [])))) w r u ↔
      r = ⟨false, []⟩ ∧ u = w := by
  have hargs : ∀ t ∈ arguments (.ip (.other (.linkToNetns name []))), Plain t := by
    simp [arguments, hp]
  have hlex := lex_line hd hargs
  have hargv : ((parts (hosts.data node) (.ip (.other (.linkToNetns name [])))).filter
      (· ≠ [])).map String.ofList = ["ip", "link", "set", "dev", String.ofList name, "netns"] := by
    simp [parts, ipParts, linkParts, hn]
  have hread : readArgs ["ip", "link", "set", "dev", String.ofList name, "netns"] = none := by
    simp [readArgs, readTool, readLink, readSet]
  have hincomplete :
      incomplete ["ip", "link", "set", "dev", String.ofList name, "netns"] = true := by
    simp [incomplete]
  simp only [sh, hlex, hargv, hread, hincomplete, forall_const]

theorem sh_ip (hd : (hosts.data node).Plain) {c : NetlinkCmd} (hc : PlainNetlink c) (r : Reply) :
    sh hosts (node, line (hosts.data node) (.ip (issued c))) w r u ↔
      hosts.run node (issued c) w.2 r u.2 ∧ u.1 = w.1 := by
  obtain ⟨hargs, hcomplete | ⟨name, hname, rfl⟩⟩ := hc
  · have h := understood hd hargs hcomplete
    simp only [sh, h.1, h.2, run_of_complete hcomplete]
  · have hp : Plain name := hargs name (by simp [arguments, issued])
    have hissued : issued (.linkToNetns name []) = .other (.linkToNetns name []) := rfl
    rw [hissued, sh_noNetns hd hp hname r, Hosts.run, Prod.ext_iff]
    constructor
    · intro h
      exact ⟨⟨h.1, h.2.2⟩, h.2.1⟩
    · intro h
      exact ⟨h.1.1, h.2, h.1.2⟩

/-- A line does what its command does. -/
theorem perform_iff (hd : ∀ n, (hosts.data n).Plain) (x : Text × Cmd) (r : Reply)
    (hx : PlainCmd x.2) :
    perform hosts x w r u ↔
      ∃ r', sh hosts (x.1, lineOf (hosts.data x.1) x.2) w r' u ∧ r = handed x.2 r' := by
  obtain ⟨node, c⟩ := x
  cases c with
  | etcd c =>
      simp only [perform, serve, lineOf, handed, sh_etcd (hd node) hx]
      constructor
      · intro h
        obtain ⟨⟨t, ht, rfl⟩, -⟩ := h
        exact ⟨r, ⟨ht, rfl⟩, rfl⟩
      · intro h
        obtain ⟨r', ⟨ht, hu⟩, rfl⟩ := h
        refine ⟨⟨u.1, ht, Prod.ext rfl hu⟩, ?_⟩
        intro c' hc'
        cases hc'
  | netlink c =>
      simp only [perform, serve, lineOf, handed, netlink_iff, sh_ip (hd node) hx]
      constructor
      · intro h
        obtain ⟨⟨t, ⟨r', hr', hb⟩, rfl⟩, hout⟩ := h
        refine ⟨r', ⟨hr', rfl⟩, ?_⟩
        obtain ⟨ok, out⟩ := r
        exact congrArg₂ Reply.mk hb (hout c rfl)
      · intro h
        obtain ⟨r', ⟨hr', hu⟩, rfl⟩ := h
        exact ⟨⟨u.2, ⟨r', hr', rfl⟩, Prod.ext hu rfl⟩, fun _ _ => rfl⟩

end Levels

/-- What a command is for the tools. -/
def meant : Cmd → Line
  | .etcd c => .etcd c
  | .netlink c => .ip (issued c)

theorem lineOf_eq (d : EtcdData) (c : Cmd) : lineOf d c = line d (meant c) := by
  cases c <;> rfl

/-- The plugins have come to where one of them is about to issue `c`, which is handed
to the shell as the line `t`. -/
def Issuing (w₀ w : Store × T) (l l' : List (HostProgram Text)) (node t : Text)
    (next : Reply → HostProgram Text) (c : Cmd) : Prop :=
  t = lineOf (hosts.data node) c ∧ ∃ k k' next', l = k.map (overShells hosts) ∧
    l' = k'.map (overShells hosts) ∧ next = (fun r => overShells hosts (next' (handed c r))) ∧
    Reached (perform hosts) OnHosts w₀ (k ++ .call (node, c) next' :: k') w

/-- The tools read a line as the command, or refuse it because the command moves an
interface to a namespace without a name. -/
def Understood (node t : Text) (c : Cmd) : Prop :=
  understand t = some (meant c) ∨
    (∃ name, Plain name ∧ name ≠ [] ∧ c = .netlink (.linkToNetns name [])) ∧
      ∀ w r u, sh hosts (node, t) w r u ↔ r = ⟨false, []⟩ ∧ u = w

theorem understood_of_plain {node : Text} {c : Cmd} (hd : (hosts.data node).Plain)
    (hc : PlainCmd c) : Understood hosts node (lineOf (hosts.data node) c) c := by
  cases c with
  | etcd c =>
      obtain ⟨hargs, hcomplete⟩ := complete_of_plainEtcd hc
      exact .inl (understand_line hd hargs hcomplete)
  | netlink c =>
      obtain ⟨hargs, hcomplete | ⟨name, hname, rfl⟩⟩ := hc
      · exact .inl (understand_line hd hargs hcomplete)
      · have hp : Plain name := hargs name (by simp [arguments, issued])
        exact .inr ⟨⟨name, hp, hname, rfl⟩, fun w r u => sh_noNetns hd hp hname r⟩

def hostsAB : Hosts Unit where
  data _ := dataA
  ip _ _ _ r _ := r.ok = true

def pluginA : Cni where
  conf := ⟨"0.3.1".toList, "ohno".toList, "ohno0".toList, "10.0.0.0/16".toList, .hostGw⟩
  ipamMode := .hostGw
  boost := Boost.reference
  node := ['a']
  underlayDev := "eth0".toList
  underlayAddr := "192.168.0.1/24".toList
  podCidr := "10.0.0.0/24".toList
  vxlanMac := []

def pluginB : Cni :=
  { pluginA with
    node := ['b'], podCidr := "10.0.1.0/24".toList, underlayAddr := "192.168.0.2/24".toList }

def isWord (t : Text) : Bool :=
  t.all plainChar && t ≠ [] && !showWords.any (· = t) && !t.any (· = ',')

theorem word_of_isWord {t : Text} (h : isWord t = true) : Word t := by
  simp only [isWord, Bool.and_eq_true, Bool.not_eq_true', List.any_eq_false, decide_eq_true_eq] at h
  exact ⟨⟨List.all_eq_true.mp h.1.1.1, h.1.1.2, fun hs => h.1.2 t hs rfl⟩, fun hc => h.2 ',' hc rfl⟩

theorem plain_pluginA : PlainCni pluginA where
  bridge := word_of_isWord (by decide)
  node := List.all_eq_true.mp (by decide)
  underlayDev := word_of_isWord (by decide)
  underlayAddr := List.all_eq_true.mp (by decide)
  underlayAddr_ne := by decide
  podCidr := word_of_isWord (by decide)
  vxlanMac := plain_nil
  vxlanMac_comma := List.not_mem_nil
  uniqueId := plain_nil

theorem plain_pluginB : PlainCni pluginB where
  bridge := plain_pluginA.bridge
  node := List.all_eq_true.mp (by decide)
  underlayDev := plain_pluginA.underlayDev
  underlayAddr := List.all_eq_true.mp (by decide)
  underlayAddr_ne := by decide
  podCidr := word_of_isWord (by decide)
  vxlanMac := plain_nil
  vxlanMac_comma := List.not_mem_nil
  uniqueId := plain_nil

/-- An ADD of `eth0` in the namespace `x1`. -/
def addOn (cni : Cni) : OhnoProgram (Option CniResult) :=
  (cni.add "c1".toList "/var/run/netns/x1".toList "eth0".toList).bind fun r => .pure (some r)

theorem onHosts_addOn {cni : Cni} (hc : PlainCni cni) : OnHosts (tag cni.node (addOn cni)) :=
  ⟨cni.node, addOn cni, .add hc (word_of_isWord (by decide)) (word_of_isWord (by decide))
    (word_of_isWord (by decide)), rfl⟩

/-- Every command succeeds, and nothing that is looked for is there. -/
def answerNetlink (c : NetlinkCmd) : Bool :=
  match c with
  | .linkToNetns _ [] => false
  | c => told c ⟨true, []⟩

def answer (x : Text × Cmd) (w : Store × Unit) : Reply × (Store × Unit) :=
  serveBy Etcd.ok (fun c t => (answerNetlink c, t)) x.2 w

theorem netlink_answer (node : Text) (c : NetlinkCmd) :
    hostsAB.netlink node c () (answerNetlink c) () := by
  rw [netlink_iff]
  cases c with
  | linkToNetns name netns =>
      cases netns with
      | nil => exact ⟨⟨false, []⟩, ⟨rfl, rfl⟩, rfl⟩
      | cons a rest => exact ⟨⟨true, []⟩, rfl, rfl⟩
  | _ => exact ⟨⟨true, []⟩, rfl, rfl⟩

theorem perform_answer (x : Text × Cmd) (w : Store × Unit) :
    perform hostsAB x w (answer x w).1 (answer x w).2 := by
  obtain ⟨node, c⟩ := x
  cases c with
  | etcd c => exact ⟨⟨_, .inl rfl, rfl⟩, fun c' hc' => by cases hc'⟩
  | netlink c => exact ⟨⟨(), netlink_answer node c, rfl⟩, fun _ _ => rfl⟩

/-- Another node has its subnet. -/
def storeC : Store := Store.set (fun _ => none) etcdKeySubnet "10.0.9.0/24".toList

theorem plainStore_storeC : PlainStore storeC := by
  have hword : Word "10.0.9.0/24".toList := word_of_isWord (by decide)
  have hroute : ¬ RouteKey etcdKeySubnet := by
    intro h
    exact absurd (List.isPrefixOf_iff_prefix.mpr h.1) (by decide +kernel)
  apply plainStore_set
  · intro k v h
    cases h
  · exact hword.value fun h => absurd h hroute

/-- Node `a` takes its subnet, -/
def begunA : HostProgram Cmd × (Store × Unit) :=
  progress answer 4 (tag pluginA.node (addOn pluginA)) (storeC, ())

/-- then node `b`, -/
def begunB : HostProgram Cmd × (Store × Unit) :=
  progress answer 5 (tag pluginB.node (addOn pluginB)) begunA.2

/-- and node `a` goes on to record its interfaces. -/
def laterA : HostProgram Cmd × (Store × Unit) := progress answer 14 begunA.1 begunB.2

theorem reached_laterA :
    Reached (perform hostsAB) OnHosts (storeC, ()) [laterA.1, begunB.1] laterA.2 := by
  have hstart : Reached (perform hostsAB) OnHosts (storeC, ())
      ([] ++ tag pluginA.node (addOn pluginA) :: [tag pluginB.node (addOn pluginB)]) (storeC, ()) :=
    .start _ (onHosts_addOn plain_pluginA) (.start _ (onHosts_addOn plain_pluginB) .init)
  have hA : Reached (perform hostsAB) OnHosts (storeC, ())
      ([begunA.1] ++ tag pluginB.node (addOn pluginB) :: []) begunA.2 :=
    hstart.progress perform_answer 4
  have hB : Reached (perform hostsAB) OnHosts (storeC, ())
      ([] ++ begunA.1 :: [begunB.1]) begunB.2 := hA.progress perform_answer 5
  exact hB.progress perform_answer 14

theorem reached_lines : Reached (sh hostsAB) (OnShells hostsAB) (storeC, ())
    [overShells hostsAB laterA.1, overShells hostsAB begunB.1] laterA.2 := by
  rw [onShells_eq]
  exact (reached_relay_iff issues_onHosts (keeps_perform hostsAB) plainStore_storeC
    (fun x _ r _ hx _ => perform_iff (fun _ => plain_dataA) x r hx) _ _).mpr
    ⟨[laterA.1, begunB.1], rfl, reached_laterA⟩

/-- The bridge and the underlay device are about to be listed. -/
def listing : Cmd := .etcd (.put "/ohno/node/a/pod/host/nic".toList "ohno0,eth0".toList)

end Ohno.PlainPlugin
