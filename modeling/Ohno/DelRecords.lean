import Ohno.IpamSequential
import Ohno.RestoredNode

/-!
# What DEL does to the records

`Cni::del` on a registry that can be restored is a function of the registry when
every command succeeds: `delRecords`. It is built from the same steps as the
program, one for an interface, one for a pod and one for the node, and each step
has its own equation.
-/
namespace Ohno.DelRecords
open CommandPrograms DelimitedLists AddressText EtcdClientShell Subnets Ipam Netlink Nics Storage
open CniPlugin Records Conducts RecordPrograms RestoredNode

/-- A text that is an item of a list and a part of a key. -/
structure Name (t : Text) : Prop where
  item : Store.Item t
  slash : '/' ∉ t

instance (t : Text) : Decidable (Name t) :=
  decidable_of_iff (Store.Item t ∧ '/' ∉ t) ⟨fun h => ⟨h.1, h.2⟩, fun h => ⟨h.item, h.slash⟩⟩

theorem name_of_check {t : Text} (h : t ≠ [] ∧ ',' ∉ t ∧ '\n' ∉ t ∧ '/' ∉ t) : Name t :=
  ⟨⟨h.1, h.2.1, h.2.2.1⟩, h.2.2.2⟩

theorem name_host : Name host := name_of_check (by decide +kernel)
theorem name_nameVxlan : Name nameVxlan := name_of_check (by decide +kernel)

/-- A configuration that the plugin accepts, on a node with an IPv4 network. -/
structure Lawful (cni : Cni) (net : NetworkV4) : Prop where
  nodeInfo : cni.nodeInfo = true
  podCidr : cni.podCidr = net.text
  le_prefixLength : 1 ≤ net.prefixLength
  prefixLength_le : net.prefixLength ≤ 30
  hostBits : IpamSequential.HostBitsZero net
  bridge : Name cni.conf.bridge
  underlay : Name cni.underlayDev
  bridge_ne_underlay : cni.conf.bridge ≠ cni.underlayDev
  bridge_ne_vxlan : cni.conf.bridge ≠ nameVxlan
  underlay_ne_vxlan : cni.underlayDev ≠ nameVxlan
  mac : cni.vxlanMac ≠ [] ∧ '\n' ∉ cni.vxlanMac

local instance : LawfulBEq Text := inferInstance

section Steps
variable (cni : Cni)

/-- The address that is released with an interface. -/
def firstAddr (R : Registry) (pod nic : Text) : Text := (R.list (.addrs pod nic)).headD []

/-- The records of one interface go. The VTEP goes with any of them. -/
def dropNic (pod nic ip : Text) (R : Registry) : Registry :=
  let released := if pod = host ∧ nic = cni.underlayDev then R else R.prune .addresses ip
  let dropped := ((released.clearList (.addrs pod nic)).clearList (.routes pod nic)).prune
    (.nics pod) nic
  if cni.ipamMode = .vxlan then dropped.clear .vtep else dropped

/-- The records of one pod go. Its place on the list is found by its namespace. -/
def dropPod (pod : Text) (R : Registry) : Registry :=
  let path := (R.value (.netns pod)).getD []
  if path = [] then R.clear (.netns pod)
  else match simpleNetns path with
    | .ok simple => ((R.clear (.netns pod)).clear (.podOf simple)).prune .pods
        ((R.value (.podOf simple)).getD [])
    | .error _ => R.clear (.netns pod)

/-- An interface of the root namespace, if it was restored from `R₀`. -/
def dropHostNic (R₀ : Registry) (nic : Text) (R : Registry) : Registry :=
  if nic ∈ R₀.list (.nics host) then dropNic cni host nic (firstAddr R₀ host nic) R else R

/-- The records of the root namespace and the subnet go last. -/
def finished (net : NetworkV4) (R : Registry) : Registry :=
  ((dropPod host R).clear .subnet).prune .subnets net.text

/-- The records of the node go. -/
def tearDownRecords (net : NetworkV4) (R₀ R : Registry) : Registry :=
  let R := dropHostNic cni R₀ cni.conf.bridge R
  let R := dropHostNic cni R₀ nameVxlan R
  let R := dropHostNic cni R₀ cni.underlayDev R
  ((dropPod host R).clear .subnet).prune .subnets net.text

/-- What goes before the node is looked at. -/
def dropContainer (containerId nicName : Text) (R : Registry) : Registry :=
  dropPod containerId
    (if nicName ∈ R.list (.nics containerId) then
      dropNic cni containerId nicName (firstAddr R containerId nicName) R
    else R)

/-- No other container is listed. -/
def Alone (R : Registry) (containerId : Text) : Prop :=
  host ∈ R.list .pods ∧ ∀ p ∈ R.list .pods, p = containerId ∨ p = host

instance (R : Registry) (containerId : Text) : Decidable (Alone R containerId) :=
  inferInstanceAs (Decidable (_ ∧ _))

/-- The container goes as it is seen in `V`. -/
def dropSeen (V : Registry) (containerId nicName : Text) (R : Registry) : Registry :=
  dropPod containerId
    (if nicName ∈ V.list (.nics containerId) then
      dropNic cni containerId nicName (firstAddr V containerId nicName) R
    else R)

/-- What DEL makes of `R` when the node looks like `V`. -/
def delSeen (net : NetworkV4) (containerId nicName : Text) (V R : Registry) : Registry :=
  if containerId ∈ V.list .pods then
    if Alone V containerId then tearDownRecords cni net V (dropSeen cni V containerId nicName R)
    else dropSeen cni V containerId nicName R
  else R

/-- The records after `del` on a node that has a subnet. -/
def delRecords (net : NetworkV4) (containerId nicName : Text) (R : Registry) : Registry :=
  if containerId ∈ R.list .pods then
    if Alone R containerId then
      tearDownRecords cni net R (dropContainer cni containerId nicName R)
    else dropContainer cni containerId nicName R
  else R

/-- The end of the teardown. -/
def finishNode (node : Node) : OhnoProgram Unit := do
  let node ← cni.delKubernetesPod node host
  let subnet ← Program.ofExcept node.getSubnet
  if subnet = [] then
    pure ()
  else
    let _ ← etcd (releaseSubnet cni.node subnet)
    pure ()

/-- The teardown without the bridge and the VXLAN device. -/
def tearUnderlay (node : Node) (pod : Netns) : OhnoProgram Unit := do
  let _ ← cni.delKubernetesNic pod cni.underlayDev
  finishNode cni node

/-- The teardown without the bridge. -/
def tearVxlan (node : Node) (pod : Netns) : OhnoProgram Unit := do
  let pod ← cni.delKubernetesNic pod nameVxlan
  tearUnderlay cni node pod

/-- The end of `del`, when the pod has gone. -/
def leaveNode (node : Node) : OhnoProgram Unit :=
  if node.netns.length = 1 then cni.tearDown node else pure ()

/-- What `del` does with the node. -/
def delNode (containerId nicName : Text) (node : Node) : OhnoProgram Unit := do
  let found ← Cni.getKubernetesPod node containerId false
  let _ ← cni.delKubernetesNic found.1 nicName
  let node ← cni.delKubernetesPod node containerId
  leaveNode cni node

end Steps

/-! ### What DEL uses of the objects -/

section Seen
variable (cni : Cni) (net : NetworkV4) (V : Registry)

/-- An interface object shows the addresses of `V`. -/
def SeesNic (pod i : Text) : Option Nic → Prop
  | none => i ∉ V.list (.nics pod)
  | some obj => i ∈ V.list (.nics pod) ∧ obj.name = i ∧ obj.addrs = addrObjs cni V pod i

structure SeesPod (pod : Text) (obj : Netns) : Prop where
  name : obj.name = pod
  nics : ∀ i, SeesNic cni V pod i (obj.nics.lookup i)

structure Sees (obj : Node) : Prop where
  subnet : obj.subnet = some ⟨net, .ipv4⟩
  netns : ∃ f, obj.netns = loadAll f (V.list .pods) ∧ ∀ p ∈ V.list .pods, SeesPod cni V p (f p)

variable {cni net V} {R : Registry} {pod : Text}

/-- An object restored from another registry with the same records. -/
theorem seesPod_podObj (hnics : V.list (.nics pod) = R.list (.nics pod))
    (haddrs : ∀ i ∈ R.list (.nics pod), V.list (.addrs pod i) = R.list (.addrs pod i)) :
    SeesPod cni V pod (podObj cni R pod) := by
  refine ⟨rfl, ?_⟩
  intro i
  simp only [podObj, lookup_loadAll]
  split_ifs with hi
  · refine ⟨hnics ▸ hi, rfl, ?_⟩
    rw [nicObj, addrObjs, addrObjs, haddrs i hi]
  · rw [SeesNic, hnics]
    exact hi

theorem sees_nodeObj : Sees cni net R (nodeObj cni R net) :=
  ⟨rfl, podObj cni R, rfl, fun _ _ => seesPod_podObj rfl fun _ _ => rfl⟩

end Seen

section Runs
variable {cni : Cni} {net : NetworkV4} {base : Store} {R R₀ : Registry} {pod nic : Text}

theorem runs_cleanupRoutes (obj : Nic) (routes : List Route) :
    Runs cni.node base (obj.cleanupRoutes routes) R (.ok ()) R := by
  induction routes with
  | nil => exact Runs.pure _ R
  | cons r routes ih =>
      simp only [Nic.cleanupRoutes]
      apply Runs.query_bind
      intro b
      cases b with
      | true => exact Runs.netlink_bind rfl ih
      | false => exact ih

theorem runs_cleanupAddrs (obj : Nic) {addrs : List Addr}
    (ha : ∀ a ∈ addrs, ∃ text, a.getAddrCidr = .ok text) :
    Runs cni.node base (obj.cleanupAddrs addrs) R (.ok ()) R := by
  induction addrs with
  | nil => exact Runs.pure _ R
  | cons a addrs ih =>
      obtain ⟨text, ht⟩ := ha a (by simp)
      simp only [Nic.cleanupAddrs, ht, Program.ofExcept_ok, Program.bind_eq, Program.pure_bind]
      apply Runs.netlink_bind rfl
      exact ih fun b hb => ha b (by simp [hb])

theorem runs_cleanup {obj : Nic} (ha : ∀ a ∈ obj.addrs, ∃ text, a.getAddrCidr = .ok text) :
    Runs cni.node base obj.cleanup R (.ok ()) R := by
  unfold Nic.cleanup
  split_ifs with hn hk
  · exact Runs.bind (runs_cleanupRoutes obj obj.routes) (Runs.pure _ R)
  · apply Runs.bind (runs_cleanupRoutes obj obj.routes)
    apply Runs.bind (runs_cleanupAddrs obj ha)
    exact Runs.netlink_bind rfl (Runs.pure _ R)
  · exact Runs.pure _ R

/-- A stored address is an address that is written as it is stored. -/
theorem addrObjs_cidr (h : Loadable R₀) : ∀ a ∈ addrObjs cni R₀ pod nic,
    ∃ text, a.getAddrCidr = .ok text := by
  intro a ha
  obtain ⟨x, hx, rfl⟩ := List.mem_map.mp ha
  obtain ⟨b, n, hn, rfl⟩ := h.addrs pod nic x hx
  exact ⟨cidr b n, by rw [Addr.ofCidr_cidr cni.boost b hn, Addr.getAddrCidr_ipv4]⟩

theorem addrText_of_addrs (h : Loadable R₀) {obj : Nic} (ha : obj.addrs = addrObjs cni R₀ pod nic) :
    Cni.addrText obj [] = .ok (firstAddr R₀ pod nic) := by
  have hc := h.addrs pod nic
  simp only [Cni.addrText, Nic.getAddr, ha, addrObjs, firstAddr, List.head?_map]
  cases hl : R₀.list (.addrs pod nic) with
  | nil => rfl
  | cons x xs =>
      obtain ⟨b, n, hn, rfl⟩ := hc x (by simp [hl])
      simp [Addr.ofCidr_cidr cni.boost b hn]

theorem runs_releaseNicIp {obj : Netns} {iface : Nic} {ip : Text} :
    Runs cni.node base (cni.releaseNicIp obj iface ip) R (.ok true)
      (if obj.name = host ∧ iface.name = cni.underlayDev then R else R.prune .addresses ip) := by
  unfold Cni.releaseNicIp
  split_ifs
  · exact Runs.pure _ R
  · exact Runs.etcd run_releaseIp_store

theorem runs_delNicVtep : Runs cni.node base cni.delNicVtep R (.ok true)
    (if cni.ipamMode = .vxlan then R.clear .vtep else R) := by
  unfold Cni.delNicVtep
  split_ifs
  · exact Runs.etcd run_delVtep
  · exact Runs.pure _ R

/-- An interface is deleted as it is seen. The other ones stay in the object. -/
theorem runs_delKubernetesNic (base : Store) (R : Registry) (h : Loadable R₀) {obj : Netns}
    (hname : obj.name = pod) (hp : '/' ∉ pod) (hi : '/' ∉ nic)
    (hs : SeesNic cni R₀ pod nic (obj.nics.lookup nic)) :
    ∃ obj' : Netns, Runs cni.node base (cni.delKubernetesNic obj nic) R (.ok obj')
        (if nic ∈ R₀.list (.nics pod) then dropNic cni pod nic (firstAddr R₀ pod nic) R else R) ∧
      obj'.name = pod ∧ ∀ j, j ≠ nic → obj'.nics.lookup j = obj.nics.lookup j := by
  subst hname
  unfold Cni.delKubernetesNic
  cases hl : obj.nics.lookup nic with
  | none =>
      rw [hl] at hs
      rw [if_neg hs]
      exact ⟨obj, Runs.pure _ R, rfl, fun _ _ => rfl⟩
  | some iface =>
      rw [hl] at hs
      obtain ⟨hmem, rfl, haddrs⟩ := hs
      have hclean : ∀ a ∈ iface.addrs, ∃ text, a.getAddrCidr = .ok text := haddrs ▸ addrObjs_cidr h
      rw [if_pos hmem]
      refine ⟨obj.delNic iface.name, ?_, rfl, ?_⟩
      · simp only [addrText_of_addrs h haddrs, Program.ofExcept_ok, Program.bind_eq,
          Program.pure_bind]
        apply Runs.bind (runs_cleanup hclean)
        apply Runs.bind runs_releaseNicIp
        apply Runs.etcd_bind (run_delAddr hp hi)
        simp only [if_true]
        apply Runs.etcd_bind (run_delRoute hp hi)
        simp only [if_true]
        apply Runs.etcd_bind (run_delNic hp)
        simp only [if_true]
        apply Runs.bind runs_delNicVtep
        exact Runs.pure _ _
      · intro j hj
        simp [Netns.delNic, hj]

theorem runs_delKubernetesPod (hp : '/' ∉ pod) {simple : Text}
    (hs : simpleNetns ((R.value (.netns pod)).getD []) = .ok simple) (obj : Node) :
    Runs cni.node base (cni.delKubernetesPod obj pod) R
      (.ok { obj with netns := remove obj.netns pod }) (dropPod pod R) := by
  unfold Cni.delKubernetesPod dropPod
  apply Runs.etcd_bind (run_getNetns hp)
  apply Runs.etcd_bind (run_delNetns hp)
  simp only [if_true, hs, Cni.delListedPod]
  split_ifs with hpath
  · exact Runs.pure _ _
  · exact Runs.etcd_bind (run_delPod hs) (Runs.pure _ _)

theorem dropNic_value (ip : Text) (j : ValueKey) : (dropNic cni pod nic ip R).value j =
    if cni.ipamMode = .vxlan ∧ j = .vtep then none else R.value j := by
  simp only [dropNic]
  split_ifs <;> simp_all

theorem dropNic_list (ip : Text) (k : ListKey) : (dropNic cni pod nic ip R).list k =
    if k = .nics pod then (R.list (.nics pod)).filter (· ≠ nic)
    else if k = .addrs pod nic ∨ k = .routes pod nic then []
    else if k = .addresses ∧ ¬(pod = host ∧ nic = cni.underlayDev) then
      (R.list .addresses).filter (· ≠ ip)
    else R.list k := by
  have hmode : (dropNic cni pod nic ip R).list k = ((((if pod = host ∧ nic = cni.underlayDev then R
      else R.prune .addresses ip).clearList (.addrs pod nic)).clearList (.routes pod nic)).prune
        (.nics pod) nic).list k := by
    simp only [dropNic]
    split_ifs <;> rfl
  rw [hmode]
  by_cases hn : k = .nics pod
  · subst hn
    rw [if_pos rfl]
    split_ifs <;> simp
  · by_cases hr : k = .routes pod nic
    · simp [hr]
    · by_cases ha : k = .addrs pod nic
      · simp [ha]
      · split_ifs <;> simp_all

theorem dropHostNic_value (j : ValueKey) (hj : j ≠ .vtep) :
    (dropHostNic cni R₀ nic R).value j = R.value j := by
  unfold dropHostNic
  split_ifs
  · simp [dropNic_value, hj]
  · rfl

theorem runs_finishNode {obj : Node} {simple : Text} (hsub : obj.subnet = some ⟨net, .ipv4⟩)
    (hs : simpleNetns ((R.value (.netns host)).getD []) = .ok simple) :
    Runs cni.node base (finishNode cni obj) R (.ok ()) (finished net R) := by
  have hne : net.text ≠ [] := cidr_ne_nil _ _
  apply Runs.bind (runs_delKubernetesPod name_host.slash hs obj)
  simp only [Node.getSubnet, hsub, Subnet.getSubnet_ipv4, Program.ofExcept_ok, Program.bind_eq,
    Program.pure_bind, if_neg hne]
  exact Runs.etcd_bind run_releaseSubnet (Runs.pure _ _)

theorem runs_tearUnderlay (law : Lawful cni net) (h : Loadable R₀) {obj : Node} {pod : Netns}
    {simple : Text} (hname : pod.name = host)
    (hsees : SeesNic cni R₀ host cni.underlayDev (pod.nics.lookup cni.underlayDev))
    (hsub : obj.subnet = some ⟨net, .ipv4⟩)
    (hs : simpleNetns ((R.value (.netns host)).getD []) = .ok simple) :
    Runs cni.node base (tearUnderlay cni obj pod) R (.ok ())
      (finished net (dropHostNic cni R₀ cni.underlayDev R)) := by
  obtain ⟨pod', hrun, -, -⟩ :=
    runs_delKubernetesNic base R h hname name_host.slash law.underlay.slash
    hsees
  have hnetns : (dropHostNic cni R₀ cni.underlayDev R).value (.netns host) =
      R.value (.netns host) :=
    dropHostNic_value _ (by simp)
  rw [← hnetns] at hs
  exact Runs.bind hrun (runs_finishNode hsub hs)

theorem runs_tearVxlan (law : Lawful cni net) (h : Loadable R₀) {obj : Node} {pod : Netns}
    {simple : Text} (hname : pod.name = host)
    (hvxlan : SeesNic cni R₀ host nameVxlan (pod.nics.lookup nameVxlan))
    (hunderlay : SeesNic cni R₀ host cni.underlayDev (pod.nics.lookup cni.underlayDev))
    (hsub : obj.subnet = some ⟨net, .ipv4⟩)
    (hs : simpleNetns ((R.value (.netns host)).getD []) = .ok simple) :
    Runs cni.node base (tearVxlan cni obj pod) R (.ok ())
      (finished net (dropHostNic cni R₀ cni.underlayDev (dropHostNic cni R₀ nameVxlan R))) := by
  obtain ⟨pod', hrun, hname', hkeep⟩ := runs_delKubernetesNic base R h hname name_host.slash
    name_nameVxlan.slash hvxlan
  rw [← hkeep _ law.underlay_ne_vxlan] at hunderlay
  have hnetns : (dropHostNic cni R₀ nameVxlan R).value (.netns host) = R.value (.netns host) :=
    dropHostNic_value _ (by simp)
  rw [← hnetns] at hs
  exact Runs.bind hrun (runs_tearUnderlay law h hname' hunderlay hsub hs)

theorem tearDown_eq {obj : Node} {pod : Netns} (hl : obj.netns.lookup host = some pod) :
    cni.tearDown obj = (cni.delKubernetesNic pod cni.conf.bridge).bind fun pod =>
      tearVxlan cni obj pod := by
  unfold Cni.tearDown
  simp only [Cni.getKubernetesPod, hl, Program.pure_eq, Program.bind_eq, Program.pure_bind]
  rfl

theorem runs_tearDown (law : Lawful cni net) (h : Loadable R₀) {obj : Node} {pod : Netns}
    {simple : Text} (hl : obj.netns.lookup host = some pod) (hsees : SeesPod cni R₀ host pod)
    (hsub : obj.subnet = some ⟨net, .ipv4⟩)
    (hs : simpleNetns ((R.value (.netns host)).getD []) = .ok simple) :
    Runs cni.node base (cni.tearDown obj) R (.ok ()) (tearDownRecords cni net R₀ R) := by
  obtain ⟨pod', hrun, hname, hkeep⟩ := runs_delKubernetesNic base R h hsees.name name_host.slash
    law.bridge.slash (hsees.nics _)
  have hvxlan := hsees.nics nameVxlan
  have hunderlay := hsees.nics cni.underlayDev
  rw [← hkeep _ law.bridge_ne_vxlan.symm] at hvxlan
  rw [← hkeep _ law.bridge_ne_underlay.symm] at hunderlay
  have hnetns : (dropHostNic cni R₀ cni.conf.bridge R).value (.netns host) =
      R.value (.netns host) :=
    dropHostNic_value _ (by simp)
  rw [← hnetns] at hs
  rw [tearDown_eq hl]
  exact Runs.bind hrun (runs_tearVxlan law h hname hvxlan hunderlay hsub hs)

theorem dropNic_netns (cni : Cni) (R₀ : Registry) (c i : Text) (p : Text) :
    (if i ∈ R₀.list (.nics c) then dropNic cni c i (firstAddr R₀ c i) R else R).value (.netns p) =
      R.value (.netns p) := by
  split_ifs
  · simp [dropNic_value]
  · rfl

theorem dropPod_netns (R : Registry) {c : Text} (hc : c ≠ host) :
    (dropPod c R).value (.netns host) = R.value (.netns host) := by
  simp only [dropPod]
  split_ifs
  · simp [hc.symm]
  · split <;> simp [hc.symm]

theorem dropSeen_netns (cni : Cni) {c : Text} (R₀ : Registry) (hc : c ≠ host) (i : Text) :
    (dropSeen cni R₀ c i R).value (.netns host) = R.value (.netns host) := by
  rw [dropSeen, dropPod_netns _ hc, dropNic_netns]

theorem alone_iff {c : Text} (hc : c ≠ host) (hhost : host ∈ R.list .pods) :
    (∃ q ∈ R.list .pods, q ≠ c ∧ ∀ p ∈ R.list .pods, p = c ∨ p = q) ↔ Alone R c := by
  constructor
  · intro ⟨q, hq, hqc, hall⟩
    have hqh : host = q := (hall host hhost).resolve_left hc.symm
    exact ⟨hhost, hqh ▸ hall⟩
  · intro ⟨_, hall⟩
    exact ⟨host, hhost, hc.symm, hall⟩

theorem runs_leaveNode (base : Store) (R : Registry) (law : Lawful cni net) (h : Loadable R₀)
    {obj : Node} (hsees : Sees cni net R₀ obj) {c simple : Text} (hhost : host ∈ R₀.list .pods)
    (hch : c ≠ host) (hs : simpleNetns ((R.value (.netns host)).getD []) = .ok simple) :
    Runs cni.node base (leaveNode cni { obj with netns := remove obj.netns c }) R (.ok ())
      (if Alone R₀ c then tearDownRecords cni net R₀ R else R) := by
  obtain ⟨hsub, f, hf, hpods⟩ := hsees
  have hone := length_remove_loadAll f (R₀.list .pods) c
  rw [alone_iff hch hhost, ← hf] at hone
  unfold leaveNode
  by_cases ha : Alone R₀ c
  · have hl : (remove obj.netns c).lookup host = some (f host) := by
      rw [lookup_remove, if_neg hch.symm, hf, lookup_loadAll, if_pos hhost]
    rw [if_pos (hone.mpr ha), if_pos ha]
    exact runs_tearDown law h hl (hpods host hhost) hsub hs
  · rw [if_neg fun he => ha (hone.mp he), if_neg ha]
    exact Runs.pure _ _

/-- On a node that looks like `R₀`, DEL goes through if the container is seen. -/
theorem runs_delNode (base : Store) (law : Lawful cni net) (h : Loadable R₀) {obj : Node}
    (hsees : Sees cni net R₀ obj)
    (hnetns : ∀ p, ∃ simple, simpleNetns ((R.value (.netns p)).getD []) = .ok simple) {c i : Text}
    (hhost : c ∈ R₀.list .pods → host ∈ R₀.list .pods) (hc : '/' ∉ c) (hch : c ≠ host)
    (hi : '/' ∉ i) :
    ∃ o, o ≠ .error .segfault ∧
      Runs cni.node base (delNode cni c i obj) R o (delSeen cni net c i R₀ R) := by
  obtain ⟨f, hf, hpods⟩ := hsees.netns
  unfold delSeen delNode
  by_cases hmem : c ∈ R₀.list .pods
  · have hl : obj.netns.lookup c = some (f c) := by rw [hf, lookup_loadAll, if_pos hmem]
    obtain ⟨pod', hnic, -, -⟩ := runs_delKubernetesNic base R h (hpods c hmem).name hc hi
      ((hpods c hmem).nics i)
    obtain ⟨simple, hs⟩ := hnetns c
    rw [← dropNic_netns cni R₀ c i] at hs
    obtain ⟨simple', hs'⟩ := hnetns host
    rw [← dropSeen_netns cni R₀ hch i] at hs'
    refine ⟨.ok (), by simp, ?_⟩
    rw [if_pos hmem]
    simp only [Cni.getKubernetesPod, hl, Program.pure_eq, Program.bind_eq, Program.pure_bind]
    apply Runs.bind hnic
    apply Runs.bind (runs_delKubernetesPod hc hs obj)
    exact runs_leaveNode base _ law h hsees (hhost hmem) hch hs'
  · have hl : obj.netns.lookup c = none := by rw [hf, lookup_loadAll, if_neg hmem]
    refine ⟨.error (.cniError 7 s!"No this pod:{str c}, but you do not to create?"), by simp, ?_⟩
    rw [if_neg hmem]
    simp only [Cni.getKubernetesPod, hl, Bool.false_eq_true, if_false, Cni.fail]
    exact Runs.throw _ R

theorem delBody_eq (law : Lawful cni net) (c i : Text) :
    cni.delBody c i = cni.getKubernetesCluster.bind fun loaded =>
      match loaded.cluster.lookup cni.node with
      | none => Cni.fail cniErrcodeOhno s!"Failed to get Kubernetes node:{str cni.node}"
      | some node => delNode cni c i node := by
  unfold Cni.delBody
  rw [law.nodeInfo]
  rfl

/-- DEL returns whatever is thrown in its body, a null pointer apart. -/
theorem runs_del_of_body {c i : Text} {R' : Registry} {o : Except Thrown Unit}
    (h : Runs cni.node base (cni.delBody c i) R o R') (ho : o ≠ .error .segfault) :
    Runs cni.node base (cni.del c i) R (.ok ()) R' := by
  cases o with
  | ok u => exact Runs.catch_ok h
  | error e =>
      have hne : e ≠ .segfault := by
        intro he
        exact ho (by rw [he])
      have hhandler : Runs cni.node base (if e = .segfault then .throw .segfault else .pure ()) R'
          (.ok ()) R' := by
        rw [if_neg hne]
        exact Runs.pure _ R'
      exact Runs.catch_error h hhandler

/-- DEL returns, and the records are those of `delRecords`. -/
theorem runs_del_seen (base : Store) (law : Lawful cni net) (h : Loadable R) {c i : Text}
    (hsub : R.value .subnet = some net.text) (hhost : c ∈ R.list .pods → host ∈ R.list .pods)
    (hc : '/' ∉ c) (hch : c ≠ host) (hi : '/' ∉ i) :
    Runs cni.node base (cni.del c i) R (.ok ()) (delRecords cni net c i R) := by
  have hp := law.prefixLength_le
  have hload : Runs cni.node base cni.getKubernetesCluster R (.ok (loadedObj cni R net)) R :=
    runs_getKubernetesCluster h hsub (by omega)
  have hlookup : (loadedObj cni R net).cluster.lookup cni.node = some (nodeObj cni R net) := by
    simp [loadedObj]
  obtain ⟨o, ho, hrun⟩ := runs_delNode base law h sees_nodeObj h.netns hhost hc hch hi
  apply runs_del_of_body _ ho
  rw [delBody_eq law]
  apply Runs.bind hload
  simp only [hlookup]
  exact hrun

theorem runs_del (base : Store) (law : Lawful cni net) (h : Loadable R) {c i : Text}
    (hsub : R.value .subnet = some net.text) (hhost : host ∈ R.list .pods)
    (hc : '/' ∉ c) (hch : c ≠ host) (hi : '/' ∉ i) :
    Runs cni.node base (cni.del c i) R (.ok ()) (delRecords cni net c i R) :=
  runs_del_seen base law h hsub (fun _ => hhost) hc hch hi

/-- DEL on a node without records. -/
theorem runs_del_none (law : Lawful cni net) {c i : Text} (hsub : R.value .subnet = none) :
    Runs cni.node base (cni.del c i) R (.ok ()) R := by
  have hbody : Runs cni.node base (cni.delBody c i) R
      (.error (.cniError cniErrcodeOhno s!"Failed to get Kubernetes node:{str cni.node}")) R := by
    rw [delBody_eq law]
    apply Runs.bind (runs_getKubernetesCluster_none hsub)
    exact Runs.throw _ R
  exact runs_del_of_body hbody (by simp)

end Runs
end Ohno.DelRecords
