import Ohno.AddressRoundTrip
import Ohno.AlikePrograms
import Ohno.SeenNodes

/-!
# The records of one node

Each key that the plugin uses has the name of the node in it, but for the list of
the subnets of all nodes. That list is only touched when the subnet of the node is
allocated or released, and what is read from it is only written back to it. So two
processes of a node that find the same records do the same, whatever that list says.
-/
namespace Ohno.OwnRecords
open CommandPrograms CommandTraces AlikePrograms DelimitedLists AddressText EtcdClientShell Subnets
open Ipam Netlink Nics Storage CniPlugin Records CutPrograms SeenNodes

/-- The keys of a node. -/
def Own (node key : Text) : Prop :=
  key = subnetKey node ∨ key = addressKey node ∨
    ∃ rest, key = etcdKeyPrefixNode ++ '/' :: (node ++ '/' :: rest)

def keyOf : EtcdCmd → Text
  | .get key => key
  | .put key _ => key
  | .del key => key

def OwnEtcd (node : Text) (c : EtcdCmd) : Prop := Own node (keyOf c)

def SharedEtcd (c : EtcdCmd) : Prop := keyOf c = etcdKeySubnet

def OwnCmd (node : Text) : Cmd → Prop
  | .etcd c => OwnEtcd node c
  | .netlink _ => True

def SharedCmd : Cmd → Prop
  | .etcd c => SharedEtcd c
  | .netlink _ => False

/-- The replies agree on success. -/
def SameOk (r r' : Reply) : Prop := r.ok = r'.ok

/-! ### Keys -/

section Keys
variable {node key : Text}

theorem own_nodeKey (p : Text) (parts : List Text) : Own node (nodeKey node (p :: parts)) := by
  right
  right
  exact ⟨join '/' (p :: parts), by simp [nodeKey]⟩

theorem own_subnetKey : Own node (subnetKey node) := .inl rfl

theorem own_addressKey : Own node (addressKey node) := .inr (.inl rfl)

theorem own_getSinglePodKey {netns : Text} (h : getSinglePodKey node netns = .ok key) :
    Own node key := by
  unfold getSinglePodKey at h
  cases hs : simpleNetns netns with
  | error e =>
      rw [hs] at h
      cases h
  | ok simple =>
      rw [hs] at h
      obtain rfl := Except.ok.inj h
      exact own_nodeKey _ _

theorem prefixNode_take (rest : Text) :
    (etcdKeyPrefixNode ++ rest).take 7 = etcdKeyPrefixNode.take 7 := by
  rw [List.take_append_of_le_length prefix_take.2.2]

theorem subnet_take (rest : Text) :
    (etcdKeySubnet ++ rest).take 7 ≠ etcdKeyPrefixNode.take 7 := by
  rw [List.take_append_of_le_length etcdKey_take.2.1]
  exact prefix_take.1.symm

theorem address_take (rest : Text) :
    (etcdKeyAddress ++ rest).take 7 ≠ etcdKeyPrefixNode.take 7 := by
  rw [List.take_append_of_le_length etcdKey_take.2.2]
  exact prefix_take.2.1.symm

/-- The list of the subnets belongs to no node. -/
theorem Own.ne_shared (h : Own node key) : key ≠ etcdKeySubnet := by
  rintro rfl
  rcases h with h | h | ⟨rest, h⟩
  · exact AddressRoundTrip.etcdKeySubnet_ne_subnetKey node h
  · exact etcdKeySubnet_ne_addressKey node h
  · have ht := subnet_take []
    rw [List.append_nil, h, prefixNode_take] at ht
    exact ht rfl

/-- A key belongs to one node. -/
theorem own_injective {m n : Text} (hm : '/' ∉ m) (hn : '/' ∉ n) (h : Own m key) (h' : Own n key) :
    m = n := by
  rcases h with rfl | rfl | ⟨rest, rfl⟩
  · rcases h' with h' | h' | ⟨rest', h'⟩
    · exact subnetKey_injective h'
    · exact absurd h' (subnetKey_ne_addressKey m n)
    · have ht := subnet_take ('/' :: m)
      rw [← subnetKey, h', prefixNode_take] at ht
      exact absurd rfl ht
  · rcases h' with h' | h' | ⟨rest', h'⟩
    · exact absurd h'.symm (subnetKey_ne_addressKey n m)
    · exact addressKey_injective h'
    · have ht := address_take ('/' :: m)
      rw [← addressKey, h', prefixNode_take] at ht
      exact absurd rfl ht
  · rcases h' with h' | h' | ⟨rest', h'⟩
    · have ht := subnet_take ('/' :: n)
      rw [← subnetKey, ← h', prefixNode_take] at ht
      exact absurd rfl ht
    · have ht := address_take ('/' :: n)
      rw [← addressKey, ← h', prefixNode_take] at ht
      exact absurd rfl ht
    · exact cut_injective hm hn (List.cons.inj (List.append_cancel_left h')).2

end Keys

/-! ### The etcd client -/

section Client
variable {A : Type} {F : EtcdCmd → Prop} {node key v : Text}

theorem only_get (h : Own node key) : Only (OwnEtcd node) (EtcdClientShell.get key) :=
  ⟨h, fun _ => trivial⟩

theorem only_put (h : Own node key) : Only (OwnEtcd node) (put key v) := ⟨h, fun _ => trivial⟩

theorem only_del (h : Own node key) : Only (OwnEtcd node) (del key) := ⟨h, fun _ => trivial⟩

theorem only_append (h : Own node key) : Only (OwnEtcd node) (append key v) :=
  (only_get h).bind fun _ => only_put h

theorem only_list (h : Own node key) : Only (OwnEtcd node) (list key) :=
  (only_get h).bind fun _ => trivial

theorem only_delValue (h : Own node key) : Only (OwnEtcd node) (delValue key v) := by
  apply (only_list h).bind
  intro o
  cases o with
  | none => trivial
  | some items =>
      dsimp only
      split_ifs
      · exact only_del h
      · exact only_put h

theorem only_ofExcept {B : Type} {x : Except Thrown A} {P : A → Prop} {f : A → EtcdProgram B}
    (h : ∀ a, x = .ok a → P a) (hf : ∀ a, P a → Only F (f a)) :
    Only F ((Program.ofExcept x).bind f) := by
  cases x with
  | ok a => exact hf a (h a rfl)
  | error e => trivial

/-- Whatever is on the list, the commands succeed or fail alike. -/
theorem alike_append : Alike (OwnEtcd node) SharedEtcd SameOk (· = ·) (append etcdKeySubnet v)
    (append etcdKeySubnet v) :=
  .each rfl rfl fun _ _ _ => .each rfl rfl fun _ _ h => .pure h

theorem alike_delValue : Alike (OwnEtcd node) SharedEtcd SameOk (· = ·) (delValue etcdKeySubnet v)
    (delValue etcdKeySubnet v) := by
  have hwrite : ∀ t t' : Text, Alike (OwnEtcd node) SharedEtcd SameOk (· = ·)
      (if t = [] then del etcdKeySubnet else put etcdKeySubnet t)
      (if t' = [] then del etcdKeySubnet else put etcdKeySubnet t') := by
    intro t t'
    split_ifs
    · exact .each rfl rfl fun _ _ h => .pure h
    · exact .each rfl rfl fun _ _ h => .pure h
    · exact .each rfl rfl fun _ _ h => .pure h
    · exact .each rfl rfl fun _ _ h => .pure h
  refine Alike.each rfl rfl ?_
  intro r r' h
  obtain ⟨ok, out⟩ := r
  obtain ⟨ok', out'⟩ := r'
  obtain rfl : ok = ok' := h
  cases ok with
  | false => exact .pure rfl
  | true => exact hwrite _ _

end Client

/-! ### Ipam -/

section Ipam
variable {node v : Text}

theorem only_getSubnet : Only (OwnEtcd node) (getSubnet node) :=
  (only_get own_subnetKey).bind fun _ => trivial

theorem alike_allocateSubnet : Alike (OwnEtcd node) SharedEtcd SameOk (· = ·)
    (allocateSubnet node v) (allocateSubnet node v) := by
  apply (Alike.refl only_getSubnet).after
  intro ret
  split_ifs
  · exact .pure rfl
  · apply alike_append.after
    intro listed
    split_ifs
    · apply (Alike.refl (only_put own_subnetKey)).after
      intro stored
      split_ifs
      · exact .pure rfl
      · exact alike_delValue.after fun _ => .pure rfl
    · exact .pure rfl

theorem alike_releaseSubnet : Alike (OwnEtcd node) SharedEtcd SameOk (· = ·)
    (releaseSubnet node v) (releaseSubnet node v) := by
  apply (Alike.refl (only_del own_subnetKey)).after
  intro gone
  split_ifs
  · exact alike_delValue
  · exact .pure rfl

theorem only_isIpAvailable : Only (OwnEtcd node) (isIpAvailable node v) := by
  apply (only_list own_addressKey).bind
  intro o
  cases o <;> trivial

theorem only_findIp (s : Subnet) (remaining i : ℕ) :
    Only (OwnEtcd node) (findIp node s remaining i) := by
  induction remaining generalizing i with
  | zero => trivial
  | succ remaining ih =>
      apply (Only.ofExcept _).bind
      intro candidate
      apply only_isIpAvailable.bind
      intro free
      split_ifs
      · apply (only_append own_addressKey).bind
        intro taken
        split_ifs
        · trivial
        · exact ih (i + 1)
      · exact ih (i + 1)

theorem only_allocateIp (boost : Boost) : Only (OwnEtcd node) (allocateIp boost node) := by
  apply only_getSubnet.bind
  intro ret
  split_ifs
  · apply (Only.ofExcept _).bind
    intro s
    apply (Only.ofExcept _).bind
    intro maxHosts
    exact only_findIp s _ 1
  · trivial

theorem only_releaseIp : Only (OwnEtcd node) (releaseIp node v) := only_delValue own_addressKey

end Ipam

/-! ### Storage -/

section Storage
variable {node pod nic netns v : Text}

theorem only_addNetns : Only (OwnEtcd node) (addNetns node pod netns) := only_put (own_nodeKey _ _)

theorem only_delNetns : Only (OwnEtcd node) (delNetns node pod) := only_del (own_nodeKey _ _)

theorem only_getNetns : Only (OwnEtcd node) (getNetns node pod) :=
  (only_get (own_nodeKey _ _)).bind fun _ => trivial

theorem only_addPod : Only (OwnEtcd node) (addPod node netns pod) := by
  apply only_ofExcept fun _ h => own_getSinglePodKey h
  intro key hkey
  apply (only_put hkey).bind
  intro stored
  split_ifs
  · exact only_append (own_nodeKey _ _)
  · trivial

theorem only_delPod : Only (OwnEtcd node) (delPod node netns) := by
  apply only_ofExcept fun _ h => own_getSinglePodKey h
  intro key hkey
  apply (only_get hkey).bind
  intro r
  split_ifs
  · apply (only_del hkey).bind
    intro gone
    split_ifs
    · exact only_delValue (own_nodeKey _ _)
    · trivial
  · trivial

theorem only_getPod : Only (OwnEtcd node) (getPod node netns) := by
  apply only_ofExcept fun _ h => own_getSinglePodKey h
  intro key hkey
  exact (only_get hkey).bind fun _ => trivial

theorem only_listOrEmpty {key : Text} (h : Own node key) : Only (OwnEtcd node) (listOrEmpty key) :=
  (only_list h).bind fun _ => trivial

theorem only_getAllPods : Only (OwnEtcd node) (getAllPods node) :=
  only_listOrEmpty (own_nodeKey _ _)

theorem only_addNic : Only (OwnEtcd node) (addNic node pod nic) := only_append (own_nodeKey _ _)

theorem only_delNic : Only (OwnEtcd node) (delNic node pod nic) := only_delValue (own_nodeKey _ _)

theorem only_getAllNic : Only (OwnEtcd node) (getAllNic node pod) :=
  only_listOrEmpty (own_nodeKey _ _)

theorem only_addAddr (addr : Addr) : Only (OwnEtcd node) (addAddr node pod nic addr) :=
  (Only.ofExcept _).bind fun _ => only_append (own_nodeKey _ _)

theorem only_delAddr : Only (OwnEtcd node) (delAddr node pod nic) := only_del (own_nodeKey _ _)

theorem only_getAllAddrs : Only (OwnEtcd node) (getAllAddrs node pod nic) :=
  only_listOrEmpty (own_nodeKey _ _)

theorem only_addRoute (r : Route) : Only (OwnEtcd node) (addRoute node pod nic r) :=
  only_append (own_nodeKey _ _)

theorem only_delRoute : Only (OwnEtcd node) (delRoute node pod nic) := only_del (own_nodeKey _ _)

theorem only_getAllRoutes : Only (OwnEtcd node) (getAllRoutes node pod nic) :=
  (only_listOrEmpty (own_nodeKey _ _)).bind fun _ => Only.ofExcept _

theorem only_addVtep : Only (OwnEtcd node) (addVtep node v netns) := only_put (own_nodeKey _ _)

theorem only_delVtep : Only (OwnEtcd node) (delVtep node) := only_del (own_nodeKey _ _)

end Storage

/-! ### Interfaces -/

section Nics
variable {node : Text} {nic : Nic}

theorem own_etcd {A : Type} {p : EtcdProgram A} (h : Only (OwnEtcd node) p) :
    Only (OwnCmd node) (Netlink.etcd p) := h.embed fun _ hc => hc

/-- Network commands are not in the records at all. -/
theorem own_quiet {A : Type} {p : OhnoProgram A} (h : Quiet p) : Only (OwnCmd node) p := by
  apply h.mono
  intro c hc
  obtain ⟨n, rfl⟩ := hc
  trivial

theorem quiet_isExist : Quiet nic.isExist := by
  unfold Nic.isExist
  split_ifs
  · exact quiet_netlink _
  · trivial

theorem quiet_rename (name : Text) : Quiet (nic.rename name) := by
  unfold Nic.rename
  split_ifs
  · trivial
  · apply (quiet_netlink _).bind
    intro ok
    cases ok <;> trivial
  · trivial

theorem quiet_setStatus (status : LinkStatus) : Quiet (nic.setStatus status) := by
  unfold Nic.setStatus
  split_ifs
  · split
    · apply (quiet_netlink _).bind
      intro ok
      cases ok with
      | true => exact quiet_netlink _
      | false => trivial
    · exact quiet_netlink _
  · trivial

theorem quiet_setMaster (name : Text) : Quiet (nic.setMaster name) := by
  unfold Nic.setMaster
  split_ifs
  · exact quiet_netlink _
  · trivial

end Nics

/-! ### The plugin -/

section Plugin
variable {cni : Cni} {node : Node} {pod : Netns} {loaded : Loaded}

theorem own_enterNetns (name : Text) (obj : Nic) :
    Only (OwnCmd cni.node) (cni.enterNetns name obj) := by
  unfold Cni.enterNetns
  split_ifs
  · trivial
  · apply (own_etcd only_getNetns).bind
    intro netns
    exact (own_quiet (quiet_setNetns netns)).bind fun _ => trivial

theorem own_restoreNic (name nic : Text) (gateway : Option Addr) :
    Only (OwnCmd cni.node) (cni.restoreNic name nic gateway) := by
  apply (own_quiet quiet_getStorageNic).bind
  intro o
  cases o with
  | none => trivial
  | some obj =>
      apply (own_enterNetns name obj).bind
      intro obj
      apply (own_etcd only_getAllAddrs).bind
      intro addrs
      apply (own_quiet (quiet_restoreAddrs nic addrs gateway)).bind
      intro ret
      apply (own_etcd only_getAllRoutes).bind
      intro routes
      exact (own_quiet (quiet_restoreRoutes routes)).bind fun _ => trivial

theorem own_restoreNics (name : Text) (nics : List Text) (gateway : Option Addr) :
    Only (OwnCmd cni.node) (cni.restoreNics name nics pod gateway) := by
  induction nics generalizing pod gateway with
  | nil => trivial
  | cons nic nics ih =>
      apply (own_restoreNic name nic gateway).bind
      intro ret
      obtain ⟨o, gateway⟩ := ret
      cases o with
      | none => exact ih gateway
      | some obj => exact ih gateway

theorem own_restorePods (names : List Text) (gateway : Option Addr) :
    Only (OwnCmd cni.node) (cni.restorePods names node gateway) := by
  induction names generalizing node gateway with
  | nil => trivial
  | cons name names ih =>
      apply (own_etcd only_getAllNic).bind
      intro nics
      apply (own_restoreNics name nics gateway).bind
      intro ret
      exact ih ret.2

theorem own_getKubernetesCluster : Only (OwnCmd cni.node) cni.getKubernetesCluster := by
  apply (own_etcd only_getSubnet).bind
  intro ret
  split_ifs
  · apply (Only.ofExcept _).bind
    intro node
    apply (own_etcd only_getAllPods).bind
    intro names
    exact (own_restorePods names none).bind fun _ => trivial
  · trivial

theorem own_storeAddr (nic : Text) (addr : Addr) (added : Bool) :
    Only (OwnCmd cni.node) (cni.storeAddr nic addr added) := by
  unfold Cni.storeAddr
  split_ifs
  · exact own_etcd (only_addAddr addr)
  · trivial

theorem own_getBridge (bridgeAddr : Text) : Only (OwnCmd cni.node) (cni.getBridge bridgeAddr) := by
  apply (own_etcd only_addNic).check
  apply (own_quiet quiet_setup).bind
  intro ret
  split_ifs
  · apply (own_quiet (quiet_addAddr _)).bind
    intro added
    apply (own_storeAddr _ _ added.1).check
    exact (own_quiet (quiet_setStatus .up)).bind fun _ => trivial
  · trivial

theorem own_getVxlan (subnet : Text) : Only (OwnCmd cni.node) (cni.getVxlan subnet) := by
  apply (own_etcd only_addNic).check
  apply (own_quiet quiet_setup).bind
  intro ret
  by_cases hok : ret.1 = true
  · rw [if_pos hok]
    apply (Only.ofExcept _).bind
    intro s
    apply (Only.ofExcept _).bind
    intro vxlanAddr
    apply (own_quiet (quiet_addAddr _)).bind
    intro added
    apply (own_storeAddr _ _ added.1).check
    apply (own_quiet (quiet_setStatus .up)).bind
    intro up
    split_ifs
    · trivial
    · exact (own_etcd only_addVtep).check trivial
  · rw [if_neg hok]
    trivial

theorem own_createVxlan (subnet : Text) : Only (OwnCmd cni.node) (cni.createVxlan subnet) := by
  unfold Cni.createVxlan
  split_ifs
  · exact (own_getVxlan subnet).bind fun _ => trivial
  · trivial

theorem own_getRootPod (bridge underlay : Nic) (vxlan : Option Nic) :
    Only (OwnCmd cni.node) (cni.getRootPod node bridge vxlan underlay) := by
  apply (own_etcd only_addNetns).check
  exact (own_etcd only_addPod).check trivial

theorem own_getKubernetesPod (name : Text) (create : Bool) :
    Only (OwnCmd cni.node) (Cni.getKubernetesPod node name create) := by
  unfold Cni.getKubernetesPod
  split
  · trivial
  · split_ifs <;> trivial

theorem own_delListedPod (netns : Text) : Only (OwnCmd cni.node) (cni.delListedPod netns) := by
  unfold Cni.delListedPod
  split_ifs
  · trivial
  · exact own_etcd only_delPod

theorem own_delKubernetesPod (name : Text) :
    Only (OwnCmd cni.node) (cni.delKubernetesPod node name) := by
  apply (own_etcd only_getNetns).bind
  intro netns
  apply (own_etcd only_delNetns).check
  exact (own_delListedPod netns).check trivial

theorem own_nicPluginBridge (nic : Text) :
    Only (OwnCmd cni.node) (cni.nicPluginBridge loaded nic) := by
  unfold Cni.nicPluginBridge
  split
  · trivial
  · apply (own_getKubernetesPod host false).bind
    intro pod
    split
    · split_ifs
      · exact (own_quiet (quiet_setMaster nic)).check trivial
      · trivial
    · trivial

theorem own_configPodNetwork (gateway : Option Addr) (nic : Nic) (name id : Text) :
    Only (OwnCmd cni.node) (cni.configPodNetwork gateway nic name id) := by
  apply (own_etcd (only_allocateIp cni.boost)).bind
  intro podAddr
  split_ifs
  · apply (own_quiet (quiet_addAddr _)).bind
    intro added
    split_ifs
    · apply (own_etcd (only_addAddr _)).check
      cases gateway with
      | none => trivial
      | some gw =>
          apply (Only.ofExcept _).bind
          intro via
          apply (own_quiet quiet_addEntry).bind
          intro routed
          split_ifs
          · exact (own_etcd (only_addRoute _)).check trivial
          · trivial
    · trivial
  · trivial

theorem own_createNic (name peer netns : Text) :
    Only (OwnCmd cni.node) (cni.createNic loaded pod name peer netns) := by
  apply (own_etcd only_getPod).bind
  intro cid
  split_ifs
  · trivial
  · apply (own_etcd only_addPod).check
    apply (own_etcd only_addNetns).check
    apply (own_etcd only_addNic).check
    apply (own_quiet quiet_setup).bind
    intro ret
    split_ifs
    · apply (own_quiet (quiet_setNetns netns)).bind
      intro entered
      split_ifs
      · apply (own_quiet (quiet_rename name)).bind
        intro renamed
        apply (own_quiet (quiet_setStatus .up)).bind
        intro up
        apply (own_nicPluginBridge peer).bind
        intro u
        exact own_configPodNetwork _ _ _ _
      · trivial
    · trivial

theorem own_delKubernetesNic (nic : Text) :
    Only (OwnCmd cni.node) (cni.delKubernetesNic pod nic) := by
  have hrelease : ∀ (iface : Nic) (addr : Text),
      Only (OwnCmd cni.node) (cni.releaseNicIp pod iface addr) := by
    intro iface addr
    unfold Cni.releaseNicIp
    split_ifs
    · trivial
    · exact own_etcd only_releaseIp
  have hvtep : Only (OwnCmd cni.node) cni.delNicVtep := by
    unfold Cni.delNicVtep
    split_ifs
    · exact own_etcd only_delVtep
    · trivial
  unfold Cni.delKubernetesNic
  split
  · trivial
  · apply (Only.ofExcept _).bind
    intro addr
    apply (own_quiet quiet_cleanup).bind
    intro u
    apply (hrelease _ addr).bind
    intro released
    apply (own_etcd only_delAddr).check
    apply (own_etcd only_delRoute).check
    apply (own_etcd only_delNic).check
    exact hvtep.check trivial

theorem own_getPodNic (name peer netns : Text) :
    Only (OwnCmd cni.node) (cni.getPodNic loaded pod name peer netns) := by
  unfold Cni.getPodNic
  split
  · rename_i nic hnic
    unfold Cni.reuseNic
    split
    · trivial
    · apply (Only.ofExcept _).bind
      intro cidr
      apply (Only.ofExcept _).bind
      intro subnet
      apply (Only.ofExcept _).check
      apply (own_quiet quiet_isExist).bind
      intro there
      split_ifs
      · trivial
      · apply (own_quiet (quiet_rename name)).bind
        intro ret
        split_ifs <;> trivial
  · exact own_createNic name peer netns

/-! ### Whole calls -/

/-- Two runs that find the same records do the same. -/
abbrev Steady {A : Type} (node : Text) (p : OhnoProgram A) : Prop :=
  Alike (OwnCmd node) SharedCmd SameOk (· = ·) p p

theorem Steady.etcd {A : Type} {node : Text} {p : EtcdProgram A}
    (h : Alike (OwnEtcd node) SharedEtcd SameOk (· = ·) p p) : Steady node (Netlink.etcd p) :=
  h.embed (fun _ hc => hc) fun _ hc => hc

theorem steady_createNode : Steady cni.node (cni.createNode loaded) := by
  apply (Steady.etcd alike_allocateSubnet).after
  intro subnet
  split_ifs
  · apply Alike.refl
    apply (own_etcd (only_allocateIp cni.boost)).bind
    intro gateway
    split_ifs
    · apply (own_getBridge gateway.2).bind
      intro bridge
      apply (own_createVxlan subnet.2).bind
      intro vxlan
      apply (own_etcd only_addNic).check
      apply (own_getRootPod _ _ _).bind
      intro node
      exact (Only.ofExcept _).bind fun _ => trivial
    · trivial
  · exact .throw _

theorem steady_tearDown : Steady cni.node (cni.tearDown node) := by
  apply (Alike.refl (own_getKubernetesPod host false)).after
  intro found
  apply (Alike.refl (own_delKubernetesNic cni.conf.bridge)).after
  intro pod
  apply (Alike.refl (own_delKubernetesNic nameVxlan)).after
  intro pod
  apply (Alike.refl (own_delKubernetesNic cni.underlayDev)).after
  intro pod
  apply (Alike.refl (own_delKubernetesPod host)).after
  intro node
  apply (Alike.refl (Only.ofExcept _)).after
  intro subnet
  split_ifs
  · exact .pure rfl
  · exact (Steady.etcd alike_releaseSubnet).after fun _ => .pure rfl

theorem steady_add (cni : Cni) (id netns nic : Text) : Steady cni.node (cni.add id netns nic) := by
  unfold Cni.add
  split_ifs
  · apply (Alike.refl own_getKubernetesCluster).after
    intro loaded
    have hnode : Steady cni.node (cni.getKubernetesNode loaded) := by
      unfold Cni.getKubernetesNode
      split
      · exact .pure rfl
      · exact steady_createNode
    apply hnode.after
    intro ret
    apply Alike.refl
    apply (own_getKubernetesPod id true).bind
    intro found
    apply (own_getPodNic nic _ netns).bind
    intro obj
    exact Only.ofExcept _
  · exact .throw _

theorem steady_del (cni : Cni) (id nic : Text) : Steady cni.node (cni.del id nic) := by
  have hbody : Steady cni.node (cni.delBody id nic) := by
    unfold Cni.delBody
    split_ifs
    · apply (Alike.refl own_getKubernetesCluster).after
      intro loaded
      split
      · exact .throw _
      · rename_i node hnode
        apply (Alike.refl (own_getKubernetesPod id false)).after
        intro found
        apply (Alike.refl (own_delKubernetesNic nic)).after
        intro pod
        apply (Alike.refl (own_delKubernetesPod id)).after
        intro node
        split_ifs
        · exact steady_tearDown
        · exact .pure rfl
    · exact .throw _
  apply hbody.catch_
  intro e
  split_ifs
  · exact .throw _
  · exact .pure rfl

end Plugin
end Ohno.OwnRecords
