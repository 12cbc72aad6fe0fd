import Ohno.NodeHistories
import Ohno.SingleFaults

/-!
# A node whose creation failed

The first ADD of a node writes its subnet before everything else, and a node
with a subnet counts as created. When one command fails while the node is
created, and the ADD throws, either nothing of the node is left, or the subnet
is and the root namespace is not. In the second case every later ADD throws.
-/
namespace Ohno.NodeRecovery
open CommandPrograms DelimitedLists AddressText EtcdClientShell Subnets FirstFit Ipam Netlink Nics
open Storage CniPlugin Records Conducts RecordPrograms RestoredNode DelRecords AddRecords NodeStates
open NodeState NodeHistories SingleFaults

/-! ### The states in which a creation stops -/

/-- The node has a subnet and no containers. -/
structure Started (net : NetworkV4) (taken : List Text) (R : Registry) : Prop where
  subnet : R.value .subnet = some net.text
  addresses : R.list .addresses = taken
  free : ∀ n, n ≠ host → R.value (.podOf n) = none

/-- It has no root namespace either. -/
structure Begun (net : NetworkV4) (taken : List Text) (R : Registry) : Prop
    extends Started net taken R where
  pods : R.list .pods = []
  loadable : Loadable R

/-- The commands that write a subnet. -/
def WritesSubnet (node : Text) (c : Cmd) : Prop :=
  ∃ v, c = .etcd (.put etcdKeySubnet v) ∨ c = .etcd (.put (subnetKey node) v)

section Begun
variable {net : NetworkV4} {taken : List Text} {R : Registry} {l : ListKey} {j : ValueKey}
variable {v : Text}

theorem Begun.push (h : Begun net taken R) (hv : Store.Item v) (hp : l ≠ .pods)
    (hn : l ≠ .addresses) (ha : Admits l v) : Begun net taken (R.push l v hv) where
  subnet := h.subnet
  addresses := by simp [hn.symm, h.addresses]
  pods := by simp [hp.symm, h.pods]
  free := h.free
  loadable := h.loadable.push hv ha

theorem Begun.clearList (h : Begun net taken R) (hn : l ≠ .addresses) :
    Begun net taken (R.clearList l) where
  subnet := h.subnet
  addresses := by simp [hn.symm, h.addresses]
  pods := by simp [h.pods]
  free := h.free
  loadable := h.loadable.clearList l

theorem Begun.assign (h : Begun net taken R) (hv : '\n' ∉ v) (hs : j ≠ .subnet)
    (hp : ∀ n, j = .podOf n → n = host)
    (hn : ∀ p, j = .netns p → ∃ simple, simpleNetns v = .ok simple) :
    Begun net taken (R.assign j v hv) where
  subnet := by simp [hs.symm, h.subnet]
  addresses := h.addresses
  pods := h.pods
  free n hne := by
    have hj : ValueKey.podOf n ≠ j := fun he => hne (hp n he.symm)
    simp [hj, h.free n hne]
  loadable := h.loadable.assign hv hn

end Begun

theorem not_writesSubnet_put {node : Text} {k : RecordKey} (hk : Sound k)
    (h₁ : k ≠ .inl .subnets) (h₂ : k ≠ .inr .subnet) (v : Text) :
    ¬ WritesSubnet node (.etcd (.put (keyText node k) v)) := by
  intro ⟨u, h⟩
  have hs : Sound (.inl .subnets) := trivial
  have hv : Sound (.inr .subnet) := trivial
  rcases h with h | h
  · injection h with h
    injection h with h
    exact h₁ (keyText_injective hk hs h)
  · injection h with h
    injection h with h
    exact h₂ (keyText_injective hk hv h)

theorem not_writesSubnet_netlink {node : Text} (n : NetlinkCmd) :
    ¬ WritesSubnet node (.netlink n) := by
  intro ⟨u, h⟩
  rcases h with h | h <;> cases h

theorem not_writesSubnet_get {node : Text} (k : Text) : ¬ WritesSubnet node (.etcd (.get k)) := by
  intro ⟨u, h⟩
  rcases h with h | h <;> cases h

section Later
variable {cni : Cni} {net : NetworkV4} {taken : List Text} {R : Registry}

/-- There is no bridge to plug an interface into. -/
theorem runs_add_begun (base : Store) (law : Lawful cni net) (h : Begun net taken R)
    (c : Container) :
    ∃ e R', Runs cni.node base (cni.add c.id (netnsPath c.netns) c.nic) R (.error e) R' := by
  have hp := law.prefixLength_le
  have hfree : FreeFor R c.netns c.id := by
    intro other ho
    rw [h.free c.netns c.netns_ne] at ho
    cases ho
  obtain ⟨nic, -, -, hhead⟩ := runs_createNic_head cni base
    ⟨[(cni.node, { nodeObj cni R net with netns := [(c.id, { name := c.id })] })], gatewayObj cni R⟩
    (prefixVeth ++ getShortHash c.id) (b := { name := c.id }) rfl c.name_id c.name_nic
    c.line_path (simpleNetns_netnsPath c.netns) hfree
  refine ⟨.cniError 7 s!"No this pod:{str host}, but you do not to create?",
    podRecords c.name_id c.name_nic c.line_path c.netns R, ?_⟩
  unfold Cni.add
  simp only [law.nodeInfo, if_true]
  apply Runs.bind (runs_getKubernetesCluster h.loadable h.subnet (by omega))
  have hpod : Cni.getKubernetesPod (nodeObj cni R net) c.id true =
      .pure ({ name := c.id }, { nodeObj cni R net with netns := [(c.id, { name := c.id })] }) := by
    simp [Cni.getKubernetesPod, nodeObj, h.pods, loadAll, emplace]
  have hreplace : ∀ obj, replace (loadedObj cni R net).cluster cni.node obj =
      [(cni.node, obj)] := by
    simp [replace, loadedObj]
  simp only [getKubernetesNode_loadedObj, hpod, Program.bind_eq, Program.pure_bind, hreplace,
    Cni.getPodNic,
    List.lookup_nil]
  apply Runs.bind_error
  apply hhead
  apply Runs.bind_error
  unfold Cni.nicPluginBridge
  have hhost : (host == c.id) = false := by simpa using c.id_ne.symm
  simp only [List.lookup_cons, beq_self_eq_true, Cni.getKubernetesPod, hhost, List.lookup_nil,
    Bool.false_eq_true, if_false, Cni.fail]
  exact Runs.throw _ _

end Later

/-! ### The creation -/

/-- Where a failure that is noticed leaves the node. -/
def Halts (net : NetworkV4) (node : Text) (c : Cmd) (R : Registry) : Prop :=
  ¬ WritesSubnet node c ∧ ∃ taken, Begun net taken R

section Create
variable {m : Conduct} {cni : Cni} {net : NetworkV4} {taken : List Text} {base : Store}
variable {R : Registry} {l : ListKey} {j : ValueKey} {v : Text}

theorem bears_append_begun (base : Store) (hm : m.Obliges) (h : Begun net taken R) (hl : l.Sound)
    (hv : Store.Item v) (hs : l ≠ .subnets) (hp : l ≠ .pods) (hn : l ≠ .addresses)
    (ha : Admits l v) :
    Bears m cni.node base (etcd (append (l.text cni.node) v)) R
      (Returns fun b R' => b = true ∧ Begun net taken R')
      (fun c => Returns fun b R' => b = false ∧ Halts net cni.node c R') := by
  apply (bears_append hm hl hv).mono
  · intro o R' ho
    obtain ⟨b, ho, hb, rfl | rfl⟩ := ho
    · exact ⟨b, ho, hb, h.push hv hp hn ha⟩
    · exact ⟨b, ho, hb, (h.clearList hn).push hv hp hn ha⟩
  · intro c o R' ho
    obtain ⟨b, ho, hb, ⟨out, rfl⟩, rfl⟩ := ho
    have hw : ¬ WritesSubnet cni.node (.etcd (.put (l.text cni.node) out)) :=
      not_writesSubnet_put (k := .inl l) hl (by simpa using hs) (by simp) out
    exact .inr ⟨b, ho, hb, hw, taken, h⟩

variable (cni) in
theorem bears_put_begun (base : Store) (hm : m.Obliges) (h : Begun net taken R) (hj : j.Sound)
    (hv : '\n' ∉ v) (hs : j ≠ .subnet) (hp : ∀ n, j = .podOf n → n = host)
    (hn : ∀ p, j = .netns p → ∃ simple, simpleNetns v = .ok simple) :
    Bears m cni.node base (etcd (put (j.text cni.node) v)) R
      (Returns fun b R' => b = true ∧ Begun net taken R')
      (fun c => Returns fun b R' => b = false ∧ Halts net cni.node c R') := by
  apply (bears_put hm hj hv).mono
  · intro o R' ho
    obtain ⟨b, ho, hb, rfl⟩ := ho
    exact ⟨b, ho, hb, h.assign hv hs hp hn⟩
  · intro c o R' ho
    obtain ⟨b, ho, hb, rfl, rfl⟩ := ho
    have hw : ¬ WritesSubnet cni.node (.etcd (.put (j.text cni.node) v)) :=
      not_writesSubnet_put (k := .inr j) hj (by simp) (by simpa using hs) v
    exact .inr ⟨b, ho, hb, hw, taken, h⟩

theorem bears_addNic_begun (base : Store) (hm : m.Obliges) (h : Begun net taken R) {nic : Text}
    (hn : Name nic) :
    Bears m cni.node base (etcd (Storage.addNic cni.node host nic)) R
      (Returns fun b R' => b = true ∧ Begun net taken R')
      (fun c => Returns fun b R' => b = false ∧ Halts net cni.node c R') :=
  bears_append_begun base hm h (l := .nics host) name_host.slash hn.item (by simp) (by simp)
    (by simp) hn.slash

theorem bears_storeAddr (base : Store) (hm : m.Obliges) (h : Begun net taken R) {nic : Text}
    (hn : '/' ∉ nic) (a : BitVec 32) {n : ℕ} (hle : n ≤ 32) :
    Bears m cni.node base (cni.storeAddr nic ⟨a, .ipv4, n⟩ true) R
      (Returns fun b R' => b = true ∧ Begun net taken R')
      (fun c => Returns fun b R' => b = false ∧ Halts net cni.node c R') := by
  simp only [Cni.storeAddr, if_true, Storage.addAddr, Addr.getAddrCidr_ipv4, Program.ofExcept_ok,
    Program.bind_eq, Program.pure_bind]
  exact bears_append_begun base hm h (l := .addrs host nic) ⟨name_host.slash, hn⟩ (item_cidr a n)
    (by simp) (by simp) (by simp) ⟨a, n, hle, rfl⟩

/-- The bridge is there, with its address or without. -/
theorem bears_getBridge (base : Store) (hm : m.Obliges) (law : Lawful cni net)
    (h : Begun net taken R) (gw : BitVec 32) {n : ℕ} (hle : n ≤ 32) :
    Bears m cni.node base (cni.getBridge (cidr gw n)) R
      (Returns fun nic R' => (nic.name = cni.conf.bridge ∧ nic.kind = .bridge ∧
        nic.netlink = true) ∧ Begun net taken R')
      (fun c => Throws (Halts net cni.node c)) := by
  unfold Cni.getBridge
  apply Bears.check hm (bears_addNic_begun base hm h law.bridge)
  · intro R₁ h₁
    apply Bears.bind_returns hm (bears_setup hm _)
    · intro r R' hr
      obtain ⟨rfl, rfl⟩ := hr
      simp only [if_true, Addr.ofCidr_cidr cni.boost gw hle]
      apply Bears.bind_returns hm (bears_addAddr hm rfl (Addr.getAddrCidr_ipv4 gw n))
      · intro r R' hr
        obtain ⟨rfl, rfl⟩ := hr
        apply Bears.check hm (bears_storeAddr base hm h₁ law.bridge.slash gw hle)
        · intro R₂ h₂
          apply Bears.bind_returns hm (bears_setStatus hm rfl .up)
          · intro b R' hr
            cases hr
            exact Bears.pure (returns_ok ⟨⟨rfl, rfl, rfl⟩, h₂⟩)
          · intro c b R' hr
            obtain ⟨-, rfl⟩ := hr
            refine ⟨_, _, Runs.pure _ _, .inl ?_⟩
            exact returns_ok ⟨⟨rfl, rfl, rfl⟩, h₂⟩
        · exact fun c R' hK => throws_error hK
      · intro c r R' hr
        obtain ⟨rfl, -, rfl⟩ := hr
        refine ⟨.ok { kind := .bridge, netlink := true, name := cni.conf.bridge }, _, ?_,
          .inl (returns_ok ⟨⟨rfl, rfl, rfl⟩, h₁⟩)⟩
        simp only [Cni.storeAddr, Bool.false_eq_true, if_false, Program.pure_eq, Program.bind_eq,
          Program.pure_bind, if_true]
        apply Runs.bind (runs_setStatus rfl .up)
        exact Runs.pure _ _
    · intro c r R' hr
      obtain ⟨hr, ⟨n, rfl, -⟩, rfl⟩ := hr
      simp only [hr, Bool.false_eq_true, if_false]
      exact ⟨_, _, Runs.throw _ _, .inr (throws_error ⟨not_writesSubnet_netlink n, taken, h₁⟩)⟩
  · exact fun c R' hK => throws_error hK

theorem bears_getVxlan (base : Store) (hm : m.Obliges) (law : Lawful cni net)
    (h : Begun net taken R) :
    Bears m cni.node base (cni.getVxlan net.text) R (Returns fun _ R' => Begun net taken R')
      (fun c => Throws (Halts net cni.node c)) := by
  have hp := law.prefixLength_le
  have hinit : Subnet.init cni.boost net.text = .ok ⟨net, .ipv4⟩ :=
    Subnet.init_cidr _ _ (by omega)
  have hline := line_vtep net law.mac.2
  have hvtep : ∀ {R₁}, Begun net taken R₁ → Bears m cni.node base
      (etcd (Storage.addVtep cni.node (dottedQuad net.address) cni.vxlanMac)) R₁
      (Returns fun b R' => b = true ∧ Begun net taken R')
      (fun c => Returns fun b R' => b = false ∧ Halts net cni.node c R') := fun h₁ =>
    bears_put_begun cni base hm h₁ (j := .vtep) trivial hline (by simp) (by simp) (by simp)
  unfold Cni.getVxlan
  apply Bears.check hm (bears_addNic_begun base hm h name_nameVxlan)
  · intro R₁ h₁
    apply Bears.bind_returns hm (bears_setup hm _)
    · intro r R' hr
      obtain ⟨rfl, rfl⟩ := hr
      simp only [if_true, hinit, Subnet.extractAddr_ipv4, Program.ofExcept_ok, Program.bind_eq,
        Program.pure_bind, Addr.ofCidr_dottedQuad, if_neg law.mac.1]
      apply Bears.bind_returns hm (bears_addAddr hm rfl (Addr.getAddrCidr_ipv4 _ _))
      · intro r R' hr
        obtain ⟨rfl, rfl⟩ := hr
        apply Bears.check hm (bears_storeAddr base hm h₁ name_nameVxlan.slash _ le_rfl)
        · intro R₂ h₂
          apply Bears.bind_returns hm (bears_setStatus hm rfl .up)
          · intro b R' hr
            cases hr
            apply Bears.check hm (hvtep h₂)
            · exact fun R₃ h₃ => Bears.pure (returns_ok h₃)
            · exact fun c R' hK => throws_error hK
          · intro c b R' hr
            obtain ⟨-, rfl⟩ := hr
            refine ⟨_, _, Runs.etcd_bind (run_addVtep hline) (Runs.pure _ _), .inl ?_⟩
            exact returns_ok (h₂.assign hline (by simp) (by simp) (by simp))
        · exact fun c R' hK => throws_error hK
      · intro c r R' hr
        obtain ⟨rfl, -, rfl⟩ := hr
        simp only [Cni.storeAddr, Bool.false_eq_true, if_false, Program.pure_eq,
          Program.pure_bind, if_true]
        refine ⟨_, _, Runs.bind (runs_setStatus rfl .up)
          (Runs.etcd_bind (run_addVtep hline) (Runs.pure _ _)), .inl ?_⟩
        exact returns_ok (h₁.assign hline (by simp) (by simp) (by simp))
    · intro c r R' hr
      obtain ⟨hr, ⟨n, rfl, -⟩, rfl⟩ := hr
      simp only [hr, Bool.false_eq_true, if_false]
      exact ⟨_, _, Runs.throw _ _, .inr (throws_error ⟨not_writesSubnet_netlink n, taken, h₁⟩)⟩
  · exact fun c R' hK => throws_error hK

theorem bears_createVxlan (base : Store) (hm : m.Obliges) (law : Lawful cni net)
    (h : Begun net taken R) :
    Bears m cni.node base (cni.createVxlan net.text) R (Returns fun _ R' => Begun net taken R')
      (fun c => Throws (Halts net cni.node c)) := by
  unfold Cni.createVxlan
  split_ifs
  · apply Bears.bind_throws hm (bears_getVxlan base hm law h)
    · exact fun nic R' h' => Bears.pure (returns_ok h')
    · exact fun c e R' hK => throws_error hK
  · exact Bears.pure (returns_ok h)

theorem bears_getRootPod (base : Store) (hm : m.Obliges) (h : Begun net taken R)
    (bridge underlay : Nic) (vxlan : Option Nic) :
    Bears m cni.node base (cni.getRootPod {} bridge vxlan underlay) R
      (Returns fun node R' => node =
        { netns := emplace [] host (cni.rootPod bridge vxlan underlay) } ∧
        Started net taken R')
      (fun c => Throws (Halts net cni.node c)) := by
  have hline : '\n' ∉ host := name_host.item.line
  have hnetns := bears_put_begun cni base hm h (j := .netns host) name_host.slash hline
    (by simp) (by simp) (fun p hp => ⟨host, simpleNetns_host⟩)
  unfold Cni.getRootPod
  apply Bears.check hm hnetns
  · intro R₁ h₁
    have h₂ : Begun net taken (R₁.assign (.podOf host) host hline) :=
      h₁.assign hline (by simp) (by simp) (by simp)
    have hstart : ∀ {R₃}, Begun net taken R₃ →
        Started net taken (R₃.push .pods host name_host.item) := fun h₃ =>
      ⟨h₃.subnet, by simp [h₃.addresses], h₃.free⟩
    have hput : ∀ (k : RecordKey) v, Sound k → k ≠ .inl .subnets → k ≠ .inr .subnet →
        ¬ WritesSubnet cni.node (.etcd (.put (keyText cni.node k) v)) := fun k v hk h₁ h₂ =>
      not_writesSubnet_put hk h₁ h₂ v
    have hpod : Bears m cni.node base (etcd (Storage.addPod cni.node host host)) R₁
        (Returns fun b R' => b = true ∧ Started net taken R')
        (fun c => Returns fun b R' => b = false ∧ Halts net cni.node c R') := by
      apply (bears_addPod hm simpleNetns_host name_host.item).mono
      · intro o R' ho
        obtain ⟨b, ho, hb, rfl⟩ := ho
        exact ⟨b, ho, hb, hstart h₂⟩
      · intro c o R' ho
        obtain ⟨b, ho, ⟨hb, rfl⟩ | ⟨hb, ⟨rfl, rfl⟩ | ⟨⟨out, rfl⟩, rfl⟩⟩⟩ := ho
        · exact .inl ⟨b, ho, hb, hstart (h₂.clearList (by simp))⟩
        · exact .inr ⟨b, ho, hb, hput (.inr (.podOf host)) host trivial (by simp) (by simp), taken,
            h₁⟩
        · exact .inr ⟨b, ho, hb, hput (.inl .pods) out trivial (by simp) (by simp), taken, h₂⟩
    apply Bears.check hm hpod
    · exact fun R₂ h₂ => Bears.pure (returns_ok ⟨rfl, h₂⟩)
    · exact fun c R' hK => throws_error hK
  · exact fun c R' hK => throws_error hK

theorem begun_subnet (net : NetworkV4) (others : List Text) (ho : ∀ x ∈ others, Store.Item x) :
    Begun net [] (((fresh others ho).push .subnets net.text (item_text net)).assign .subnet net.text
      (item_text net).line) where
  subnet := by simp
  addresses := by simp [fresh]
  pods := by simp [fresh]
  free n _ := by simp [fresh]
  loadable := by
    have hpush := (loadable_fresh others ho).push (k := .subnets) (item_text net) trivial
    exact hpush.assign (item_text net).line (by simp)

theorem clearList_fresh (others : List Text) (ho : ∀ x ∈ others, Store.Item x) :
    (fresh others ho).clearList .subnets = fresh [] (by simp) := by
  apply Registry.ext
  · funext k
    cases k <;> simp [fresh]
  · rfl

theorem prune_push_fresh (others : List Text) (ho : ∀ x ∈ others, Store.Item x) (v : Text)
    (hv : Store.Item v) : ((fresh others ho).push .subnets v hv).prune .subnets v =
      fresh (others.filter (· ≠ v)) (fun x hx => ho x (List.mem_of_mem_filter hx)) := by
  apply Registry.ext
  · funext k
    cases k <;> simp [fresh]
  · rfl

/-- The node is as it was before, but for the subnets of the other nodes. -/
def Undone (node : Text) (c : Cmd) (R : Registry) : Prop :=
  WritesSubnet node c ∧ ∃ others ho, R = fresh others ho

theorem bears_firstSubnet (base : Store) (hm : m.Obliges) (others : List Text)
    (ho : ∀ x ∈ others, Store.Item x) :
    Bears m cni.node base (etcd (allocateSubnet cni.node net.text)) (fresh others ho)
      (Returns fun r R' => r = (true, net.text) ∧ Begun net [] R')
      (fun c => Returns fun r R' => r.1 = false ∧ Undone cni.node c R') := by
  apply (bears_allocateSubnet hm rfl (item_text net)).mono
  · intro o R' h
    obtain ⟨r, hr, rfl, rfl | rfl⟩ := h
    · exact ⟨_, hr, rfl, begun_subnet net others ho⟩
    · rw [clearList_fresh]
      exact ⟨_, hr, rfl, begun_subnet net [] _⟩
  · intro c o R' h
    obtain ⟨r, hr, hf, ⟨⟨out, rfl⟩, rfl⟩ | ⟨rfl, rfl | rfl⟩⟩ := h
    · exact .inr ⟨r, hr, hf, ⟨out, .inl rfl⟩, others, ho, rfl⟩
    · exact .inr ⟨r, hr, hf, ⟨_, .inr rfl⟩, _, _, prune_push_fresh ..⟩
    · rw [clearList_fresh]
      exact .inr ⟨r, hr, hf, ⟨_, .inr rfl⟩, _, _, prune_push_fresh ..⟩

/-- Some host becomes the gateway. -/
theorem bears_firstIp (base : Store) (hm : m.Obliges) (law : Lawful cni net)
    (h : Begun net [] R) :
    Bears m cni.node base (etcd (allocateIp cni.boost cni.node)) R
      (Returns fun r R' => ∃ k, r = (true, hostText net k) ∧ Begun net [hostText net k] R')
      (fun c => Returns fun r R' => r.1 = false ∧ Halts net cni.node c R') := by
  have hp := law.prefixLength_le
  have h2 := two_le_hostCount law
  have hinit : Subnet.init cni.boost ((R.value .subnet).getD []) = .ok ⟨net, .ipv4⟩ := by
    rw [h.subnet]
    exact Subnet.init_cidr _ _ (by omega)
  have hbegun : ∀ k, Begun net [hostText net k]
      (R.push .addresses (hostText net k) (item_hostText net k)) := fun k =>
    { subnet := h.subnet
      addresses := by simp [h.addresses]
      pods := by simp [h.pods]
      free := h.free
      loadable := h.loadable.push _ trivial }
  apply (bears_allocateIp cni.boost hm hinit (by omega)).mono
  · intro o R' ho
    obtain ⟨r, hr, he⟩ := ho
    have hfit := (firstFree_gateway law).1
    rw [← h.addresses] at hfit
    rw [takeIp_some hfit] at he
    obtain ⟨rfl, rfl⟩ := Prod.mk.inj he
    exact ⟨_, hr, 1, rfl, hbegun 1⟩
  · intro c o R' ho
    obtain ⟨r, hr, ⟨-, ⟨k, rfl, rfl | rfl⟩ | ⟨-, -, k, hk⟩⟩ | ⟨rfl, rfl, rfl⟩⟩ := ho
    · exact .inl ⟨_, hr, k, rfl, hbegun k⟩
    · have hclear : R.clearList .addresses = R := by
        apply Registry.ext
        · funext l
          rw [Registry.clearList_list]
          split_ifs with hl
          · rw [hl, h.addresses]
          · rfl
        · rfl
      rw [hclear]
      exact .inl ⟨_, hr, k, rfl, hbegun k⟩
    · rw [h.addresses] at hk
      by_cases hk1 : k = 1
      · cases hk 2 (by omega) h2 (by omega)
      · cases hk 1 le_rfl (by omega) (fun he => hk1 he.symm)
    · exact .inr ⟨_, hr, rfl, not_writesSubnet_get _, [], h⟩

/-- The objects and the records of a node that was created. -/
def Made (cni : Cni) (net : NetworkV4) (ret : Node × Loaded) (R : Registry) : Prop :=
  Born cni ret.1 ∧ ∃ k, ret.2 = ⟨[(cni.node, ret.1)],
      some ⟨net.address + BitVec.ofNat 32 k, .ipv4, net.prefixLength⟩⟩ ∧
    Started net [hostText net k] R

theorem bears_createNode (base : Store) (hm : m.Obliges) (law : Lawful cni net)
    (others : List Text) (ho : ∀ x ∈ others, Store.Item x) :
    Bears m cni.node base (cni.createNode {}) (fresh others ho) (Returns (Made cni net))
      (fun c => Throws fun R' => Halts net cni.node c R' ∨ Undone cni.node c R') := by
  have hp := law.prefixLength_le
  have hinit : Subnet.init cni.boost net.text = .ok ⟨net, .ipv4⟩ :=
    Subnet.init_cidr _ _ (by omega)
  unfold Cni.createNode
  rw [law.podCidr]
  apply Bears.bind_returns hm (bears_firstSubnet base hm others ho)
  · intro r R₁ hr
    obtain ⟨rfl, h₁⟩ := hr
    simp only [if_true]
    apply Bears.bind_returns hm (bears_firstIp base hm law h₁)
    · intro r R₂ hr
      obtain ⟨k, rfl, h₂⟩ := hr
      have haddr : Addr.ofCidr cni.boost (hostText net k) =
          ⟨net.address + BitVec.ofNat 32 k, .ipv4, net.prefixLength⟩ :=
        Addr.ofCidr_cidr cni.boost _ (by omega)
      simp only [if_true]
      apply Bears.bind_throws hm (bears_getBridge base hm law h₂ _ (by omega))
      · intro bridge R₃ hr
        obtain ⟨⟨hname, hkind, hn⟩, h₃⟩ := hr
        apply Bears.bind_throws hm (bears_createVxlan base hm law h₃)
        · intro vxlan R₄ h₄
          apply Bears.check hm (bears_addNic_begun base hm h₄ law.underlay)
          · intro R₅ h₅
            apply Bears.bind_throws hm (bears_getRootPod base hm h₅ _ _ _)
            · intro node R₆ hr
              obtain ⟨rfl, h₆⟩ := hr
              have hborn := born_rootPod hname hkind hn vxlan
                { kind := .underlay, name := cni.underlayDev } (some ⟨net, .ipv4⟩)
              simp only [Cni.initKubernetesNode, hinit, bind, Except.bind, pure, Except.pure,
                Program.ofExcept_ok, Program.bind, haddr]
              exact Bears.pure (returns_ok ⟨hborn, k, rfl, h₆⟩)
            · exact fun c e R' hK => throws_error (.inl hK)
          · exact fun c R' hK => throws_error (.inl hK)
        · exact fun c e R' hK => throws_error (.inl hK)
      · exact fun c e R' hK => throws_error (.inl hK)
    · intro c r R' hr
      obtain ⟨hf, hK⟩ := hr
      simp only [hf, Bool.false_eq_true, if_false]
      exact ⟨_, _, Runs.throw _ _, .inr (throws_error (.inl hK))⟩
  · intro c r R' hr
    obtain ⟨hf, hK⟩ := hr
    simp only [hf, Bool.false_eq_true, if_false]
    exact ⟨_, _, Runs.throw _ _, .inr (throws_error (.inr hK))⟩

end Create

/-! ### The ADD that fails and the one after it -/

/-- What `add` does once there is a node. -/
def addContainer (cni : Cni) (c : Container) (ret : Node × Loaded) : OhnoProgram CniResult := do
  let found ← Cni.getKubernetesPod ret.1 c.id true
  let loaded := { ret.2 with cluster := replace ret.2.cluster cni.node found.2 }
  let vethHost := prefixVeth ++ getShortHash c.id
  let nic ← cni.getPodNic loaded found.1 c.nic vethHost (netnsPath c.netns)
  Program.ofExcept (cni.result loaded nic c.nic (netnsPath c.netns))

theorem add_eq {cni : Cni} (h : cni.nodeInfo = true) (c : Container) :
    cni.add c.id (netnsPath c.netns) c.nic = cni.getKubernetesCluster.bind fun loaded =>
      (cni.getKubernetesNode loaded).bind (addContainer cni c) := by
  unfold Cni.add
  rw [if_pos h]
  rfl

/-- An ADD of `c` on the map `s` in which `cmd` fails while the node is created.
It throws and leaves the map `u`. -/
def FailedCreation (cni : Cni) (c : Container) (s : Store) (cmd : Cmd) (u : Store) : Prop :=
  ∃ loaded w o v t, cni.getKubernetesCluster.Exec Conduct.oneFault.handle ⟨s, [], none⟩
      (.ok loaded) w ∧ w.fault = none ∧
    (cni.getKubernetesNode loaded).Exec Conduct.oneFault.handle w o v ∧ v.fault = some (cmd, t) ∧
    ((∃ e, o = .error e) ∧ u = v.store ∨
      ∃ ret e x, o = .ok ret ∧ (addContainer cni c ret).Exec Conduct.oneFault.handle v
        (.error e) x ∧
        u = x.store)

theorem FailedCreation.exec {cni : Cni} (hi : cni.nodeInfo = true) {c : Container} {s u : Store}
    {cmd : Cmd} (h : FailedCreation cni c s cmd u) :
    ∃ e w, (cni.add c.id (netnsPath c.netns) c.nic).Exec Conduct.oneFault.handle ⟨s, [], none⟩
      (.error e) w ∧ w.store = u := by
  obtain ⟨loaded, w, o, v, t, hload, -, hnode, -, hend⟩ := h
  rw [add_eq hi]
  rcases hend with ⟨⟨e, rfl⟩, rfl⟩ | ⟨ret, e, x, rfl, hx, rfl⟩
  · exact ⟨e, v, (Program.exec_bind ..).mpr (.inl ⟨loaded, w, hload,
      (Program.exec_bind ..).mpr (.inr ⟨e, hnode, rfl⟩)⟩), rfl⟩
  · exact ⟨e, x, (Program.exec_bind ..).mpr (.inl ⟨loaded, w, hload,
      (Program.exec_bind ..).mpr (.inl ⟨ret, v, hnode, hx⟩)⟩), rfl⟩

/-- The records of a node that was created. -/
structure Complete (cni : Cni) (u : Store) : Prop where
  root : host ∈ u.values (getAllPodsKey cni.node) ∧ u.value (getNetnsKey cni.node host) = host
  bridge : cni.conf.bridge ∈ u.values (getNicKey cni.node host)
  gateway : u.values (getAddrKey cni.node host cni.conf.bridge) ≠ []

/-- Every ADD in which every command succeeds returns and leaves a complete node. -/
def Recovers (cni : Cni) (u : Store) : Prop :=
  ∀ (c : Container) (mac : Mac) (uniqueId : Text) (o : Outcome) (w : World),
    (Call.program cni ⟨.add, c, mac, uniqueId⟩).Exec Conduct.obliging.handle ⟨u, [], none⟩ o w →
    (∃ r, o = .ok (some r)) ∧ Complete cni w.store

section Recovery
variable {cni : Cni} {net : NetworkV4} {base : Store} {R : Registry} {others : List Text}

theorem firstFree_one_taken (taken : Text) (h2 : 2 ≤ hostCount net) (hlt : hostCount net < 2 ^ 32) :
    ∃ k, firstFree (hostText net) (hostCount net) [taken] = some k := by
  cases hf : firstFree (hostText net) (hostCount net) [taken] with
  | some k => exact ⟨k, rfl⟩
  | none =>
      have hall := firstFree_eq_none_iff.mp hf
      have h₁ := List.mem_singleton.mp (hall 1 le_rfl (by omega))
      have h₂ := List.mem_singleton.mp (hall 2 (by omega) h2)
      have h12 : 1 = 2 := hostText_injective (by omega) (by omega) (h₁.trans h₂.symm)
      omega

/-- Nothing more can go wrong with the container. -/
theorem runs_addContainer (base : Store) (law : Lawful cni net) {ret : Node × Loaded}
    (h : Made cni net ret R) (c : Container) :
    ∃ r R', Runs cni.node base (addContainer cni c ret) R (.ok r) R' := by
  obtain ⟨obj, loaded⟩ := ret
  obtain ⟨born, k, hloaded, started⟩ := h
  obtain ⟨rootObj, bridge, hroot, hbridge⟩ := born.bridge
  obtain ⟨j, hj⟩ := firstFree_one_taken (hostText net k)
    (two_le_hostCount law) (hostCount_lt net)
  rw [← started.addresses] at hj
  have hpod : Cni.getKubernetesPod obj c.id true = .pure ({ name := c.id },
      { obj with netns := emplace obj.netns c.id { name := c.id } }) := by
    simp [Cni.getKubernetesPod, born.fresh c.id c.id_ne]
  have hfree : FreeFor R c.netns c.id := by
    intro other ho
    rw [started.free c.netns c.netns_ne] at ho
    cases ho
  have ready :
      Ready cni ⟨[(cni.node, { obj with netns := emplace obj.netns c.id { name := c.id } })],
      some ⟨net.address + BitVec.ofNat 32 k, .ipv4, net.prefixLength⟩⟩
      (net.address + BitVec.ofNat 32 k) :=
    ⟨⟨_, rfl⟩, { obj with netns := emplace obj.netns c.id { name := c.id } }, rootObj, bridge,
      by simp, by simp [c.id_ne.symm, hroot], hbridge⟩
  obtain ⟨nic, haddr, hcreate⟩ := runs_createNic base (prefixVeth ++ getShortHash c.id) law
    (b := { name := c.id }) ready rfl c.name_id c.name_nic c.line_path
    (simpleNetns_netnsPath c.netns) hfree started.subnet hj
  change loaded = ⟨[(cni.node, obj)],
    some ⟨net.address + BitVec.ofNat 32 k, .ipv4, net.prefixLength⟩⟩ at hloaded
  subst hloaded
  refine ⟨reported cni (net.address + BitVec.ofNat 32 j) (net.address + BitVec.ofNat 32 k)
      net.prefixLength c.nic (netnsPath c.netns),
    addrRecords c.id c.name_nic (net.address + BitVec.ofNat 32 k) (hostText net j)
      (item_hostText net j) (podRecords c.name_id c.name_nic c.line_path c.netns R), ?_⟩
  unfold addContainer
  simp only [hpod, Program.bind_eq, Program.pure_bind, replace, List.map_cons, List.map_nil,
    if_true, Cni.getPodNic, List.lookup_nil]
  apply Runs.bind hcreate
  rw [result_of_addr haddr ready.gateway]
  exact Runs.pure _ _

theorem bears_getKubernetesCluster_none {m : Conduct} (base : Store) (hm : m.Obliges)
    (hs : R.value .subnet = none) :
    Bears m cni.node base cni.getKubernetesCluster R
      (Returns fun loaded R' => loaded = {} ∧ R' = R) (fun _ => Returns fun _ _ => False) := by
  unfold Cni.getKubernetesCluster
  apply Bears.bind_returns hm (bears_getSubnet hm)
  · intro r R' h
    obtain ⟨rfl, rfl⟩ := h
    simp only [hs, Option.getD_none, ne_eq, not_true_eq_false, decide_false, Bool.false_eq_true,
      if_false]
    exact Bears.pure (returns_ok ⟨rfl, rfl⟩)
  · intro c r R' h
    obtain ⟨rfl, -, rfl⟩ := h
    exact ⟨_, _, Runs.pure _ _, .inl (returns_ok ⟨rfl, rfl⟩)⟩

/-- A creation that fails leaves nothing, or a subnet without a root namespace. -/
theorem FailedCreation.cases (law : Lawful cni net) {ho : ∀ x ∈ others, Store.Item x}
    {c : Container} {cmd : Cmd} {u : Store}
    (h : FailedCreation cni c ((fresh others ho).store cni.node base) cmd u) :
    ∃ R : Registry, u = R.store cni.node base ∧
      (Halts net cni.node cmd R ∨ Undone cni.node cmd R) := by
  have hm := Conduct.obliges_oneFault
  obtain ⟨loaded, w, o, v, t, hload, hnone, hnode, hfault, hend⟩ := h
  obtain ⟨R₁, hR₁, ⟨x, hx, rfl, rfl⟩ | ⟨c', s', hc', -⟩⟩ :=
    (bears_getKubernetesCluster_none base hm rfl).exec hload
  · cases hx
    obtain ⟨store, log, fault⟩ := w
    change store = _ at hR₁
    change fault = none at hnone
    subst hR₁ hnone
    obtain ⟨R₂, hR₂, ⟨ret, hret, hmade⟩ | ⟨c', s', hc', ⟨e, he⟩, hK⟩⟩ :=
      (bears_createNode base hm law others ho).exec hnode
    · rcases hend with ⟨⟨e, he⟩, -⟩ | ⟨ret', e, x, hret', hx, -⟩
      · rw [hret] at he
        cases he
      · rw [hret] at hret'
        cases hret'
        obtain ⟨r, R₃, hrun⟩ := runs_addContainer base law hmade c
        obtain ⟨store, log, fault⟩ := v
        change store = _ at hR₂
        change fault = _ at hfault
        subst hR₂ hfault
        have herror := (hrun.exec hm (Conduct.settled_some _ _) hx).1
        cases herror
    · rw [hfault] at hc'
      cases hc'
      rcases hend with ⟨-, rfl⟩ | ⟨ret', e', x, hret', -, -⟩
      · exact ⟨R₂, hR₂, hK⟩
      · rw [he] at hret'
        cases hret'
  · rw [hnone] at hc'
    cases hc'

theorem complete_records (law : Lawful cni net) (ho : ∀ x ∈ others, Store.Item x) (st : NodeState) :
    Complete cni ((records law others ho st).store cni.node base) where
  root := by
    have hpods := Registry.values_store (records law others ho st) cni.node base
      (l := .pods) trivial
    have hnetns := Registry.value_store (records law others ho st) cni.node base (j := .netns host)
      name_host.slash
    simp only [ListKey.text] at hpods
    simp only [ValueKey.text] at hnetns
    rw [hpods, hnetns]
    exact ⟨List.mem_cons_self, by simp [records]⟩
  bridge := by
    obtain ⟨rest, hrest⟩ := list_nics_host law ho st
    have hnics := Registry.values_store (records law others ho st) cni.node base (l := .nics host)
      name_host.slash
    simp only [ListKey.text] at hnics
    rw [hnics, hrest]
    exact List.mem_cons_self
  gateway := by
    have haddrs := Registry.values_store (records law others ho st) cni.node base
      (l := .addrs host cni.conf.bridge) ⟨name_host.slash, law.bridge.slash⟩
    simp only [ListKey.text] at haddrs
    rw [haddrs]
    simp [records, hostAddrs]

theorem recovers_fresh (law : Lawful cni net) (ho : ∀ x ∈ others, Store.Item x) :
    Recovers cni ((fresh others ho).store cni.node base) := by
  intro c mac uniqueId o w hx
  obtain ⟨rfl, hw, -⟩ := (runs_add_fresh base law others ho c mac uniqueId).exec
    Conduct.obliges_obliging (Conduct.settled_obliging none) hx
  refine ⟨⟨_, rfl⟩, ?_⟩
  rw [hw]
  exact complete_records law ho _

theorem not_recovers_begun (law : Lawful cni net) {taken : List Text} (h : Begun net taken R)
    (c : Container) (mac : Mac) : ¬ Recovers cni (R.store cni.node base) := by
  intro hr
  obtain ⟨e, R', hrun⟩ := runs_add_begun base (lawful_process law mac []) h c
  have hcall : Runs cni.node base (Call.program cni ⟨.add, c, mac, []⟩) R (.error e) R' :=
    Runs.bind_error hrun
  have hx := Program.exec_run (Conduct.handle_comply (m := .obliging) fun _ _ => rfl)
    (Call.program cni ⟨.add, c, mac, []⟩) ⟨R.store cni.node base, [], none⟩
  have ho := (hcall.exec Conduct.obliges_obliging (Conduct.settled_obliging none) hx).1
  obtain ⟨⟨r, hok⟩, -⟩ := hr c mac [] _ _ hx
  rw [ho] at hok
  cases hok

/-- A later ADD works exactly if what failed is the writing of the subnet. -/
theorem recovers_iff (law : Lawful cni net) {s u : Store} (hs : Unrecorded cni.node s)
    (ho : ∀ x ∈ others, Store.Item x) (hothers : s etcdKeySubnet = encode others) {c : Container}
    {mac : Mac} {uniqueId : Text} {cmd : Cmd}
    (h : FailedCreation (process cni mac uniqueId) c s cmd u) :
    Recovers cni u ↔ WritesSubnet cni.node cmd := by
  rw [hs.eq_fresh ho hothers] at h
  obtain ⟨R, rfl, ⟨hw, taken, hbegun⟩ | ⟨hw, others', ho', rfl⟩⟩ :=
    FailedCreation.cases (lawful_process law mac uniqueId) h
  · constructor
    · intro hr
      exact absurd hr (not_recovers_begun law hbegun c mac)
    · intro hr
      exact absurd hr hw
  · constructor
    · intro _
      exact hw
    · intro _
      exact recovers_fresh law ho'

end Recovery

/-- The record of the root namespace, on node `a`. -/
def rootRecord : Cmd := .etcd (.put (getNetnsKey ['a'] host) host)

/-- The first ADD of the node up to its end, that record failing. -/
def halted : World :=
  (((process cniA macA ['u']).getKubernetesNode {}).run (stumble rootRecord)
    ((process cniA macA ['u']).getKubernetesCluster.run (stumble rootRecord)
      ⟨noRecords, [], none⟩).2).2

theorem failedCreation_halted :
    FailedCreation (process cniA macA ['u']) containerA noRecords rootRecord halted.store := by
  have hc : ∀ c w, Conduct.oneFault.handle c w (stumble rootRecord c w).1
      (stumble rootRecord c w).2 := handle_stumble (fun _ _ => rfl) trivial
  have hload : ((process cniA macA ['u']).getKubernetesCluster.run (stumble rootRecord)
      ⟨noRecords, [], none⟩).1 = .ok {} := by decide +kernel
  have hnone : ((process cniA macA ['u']).getKubernetesCluster.run (stumble rootRecord)
      ⟨noRecords, [], none⟩).2.fault.isNone = true := by decide +kernel
  have hfault : halted.fault.map Prod.fst = some rootRecord := by decide +kernel
  obtain ⟨⟨cmd, t⟩, hv, rfl⟩ := Option.map_eq_some_iff.mp hfault
  have herror : (((process cniA macA ['u']).getKubernetesNode {}).run (stumble rootRecord)
      ((process cniA macA ['u']).getKubernetesCluster.run (stumble rootRecord)
        ⟨noRecords, [], none⟩).2).1.toOption.isNone = true := by decide +kernel
  refine ⟨{}, _, _, _, t, Program.exec_of_run hc hload, Option.isNone_iff_eq_none.mp hnone,
    Program.exec_run hc _ _, hv, .inl ⟨?_, rfl⟩⟩
  generalize (((process cniA macA ['u']).getKubernetesNode {}).run (stumble rootRecord)
      ((process cniA macA ['u']).getKubernetesCluster.run (stumble rootRecord)
        ⟨noRecords, [], none⟩).2).1 = o at herror ⊢
  cases o with
  | error e => exact ⟨e, rfl⟩
  | ok ret => cases herror

theorem recovers_iff_halted :
    Recovers cniA halted.store ↔ WritesSubnet ['a'] rootRecord :=
  recovers_iff lawful_cniA (unrecorded_noRecords _) items_nil rfl failedCreation_halted

/-- The root namespace cannot be recorded: the node never starts a pod again. -/
theorem halted_for_good : ∃ cmd u,
    FailedCreation (process cniA macA ['u']) containerA noRecords cmd u ∧ ¬ Recovers cniA u := by
  refine ⟨_, _, failedCreation_halted, ?_⟩
  have h := failedCreation_halted
  have hs := (unrecorded_noRecords ['a']).eq_fresh items_nil rfl
  rw [hs] at h
  have law := lawful_process lawful_cniA macA ['u']
  obtain ⟨R, hR, ⟨-, taken, hbegun⟩ | ⟨hw, -⟩⟩ := FailedCreation.cases law h
  · rw [hR]
    exact not_recovers_begun lawful_cniA hbegun containerA macA
  · have hkey : ¬ WritesSubnet ['a'] rootRecord :=
      not_writesSubnet_put (k := .inr (.netns host)) name_host.slash (by simp) (by simp) host
    exact absurd hw hkey

end Ohno.NodeRecovery
