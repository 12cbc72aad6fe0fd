import Ohno.NodeInvariants
import Ohno.SeenNodes

/-!
# Where the deletions are cut

What a failing command leaves of the deletion of an interface, of a pod and of a
node. Most failures stop the deletion where it is. Only the release of an
address, the lookup of a namespace and the release of the subnet fail without
being noticed, and the deletion goes on without them.
-/
namespace Ohno.DelCuts
open CommandPrograms CommandTraces DelimitedLists AddressText EtcdClientShell Subnets Ipam Netlink
open Nics Storage CniPlugin Records Conducts RecordPrograms RestoredNode DelRecords SingleFaults
open CutPrograms SeenNodes NodeInvariants AddRecords

/-! ### Interfaces -/

section Nics
variable (cni : Cni) (pod nic : Text) (S : Registry)

/-- The address of the interface is released. -/
def releasedNic (ip : Text) (R : Registry) : Registry :=
  if pod = host ∧ nic = cni.underlayDev then R else R.prune .addresses ip

/-- The other records of the interface go. -/
def erasedNic : Registry :=
  let dropped := ((S.clearList (.addrs pod nic)).clearList (.routes pod nic)).prune (.nics pod) nic
  if cni.ipamMode = .vxlan then dropped.clear .vtep else dropped

/-- The command at which this stops, and what it leaves. -/
inductive NicHalt : Cmd → Registry → Prop where
  | addrs : NicHalt (.etcd (.del (keyText cni.node (.inl (.addrs pod nic))))) S
  | routes : NicHalt (.etcd (.del (keyText cni.node (.inl (.routes pod nic)))))
      (S.clearList (.addrs pod nic))
  | nics (c : Cmd) (h : OnKey cni.node (.inl (.nics pod)) c) :
      NicHalt c ((S.clearList (.addrs pod nic)).clearList (.routes pod nic))
  | vtep (mode : cni.ipamMode = .vxlan) : NicHalt (.etcd (.del (keyText cni.node (.inr .vtep))))
      (((S.clearList (.addrs pod nic)).clearList (.routes pod nic)).prune (.nics pod) nic)

/-- A release that failed is not noticed. -/
inductive NicCut (ip : Text) (R : Registry) (obj : Netns) :
    Cmd → Registry → Except Thrown Netns → Registry → Prop where
  | release (c : Cmd) (h : OnKey cni.node (.inl .addresses) c)
      (own : ¬(pod = host ∧ nic = cni.underlayDev)) :
      NicCut ip R obj c R (.ok (obj.delNic nic)) (dropNic cni pod nic [] R)
  | halt (c : Cmd) (T : Registry) (e : Thrown)
      (h : NicHalt cni pod nic (releasedNic cni pod nic ip R) c T) :
      NicCut ip R obj c T (.error e) T

end Nics

section NicCuts
variable {X : Cmd → Prop} {cni : Cni} {base : Store} {R R₀ : Registry} {pod nic ip : Text}

theorem prune_nil (k : ListKey) : R.prune k [] = R := by
  apply Registry.ext
  · funext l
    rw [Registry.prune_list]
    split_ifs with hl
    · rw [hl, List.filter_eq_self]
      intro x hx
      simpa using (R.item k x hx).ne_nil
    · rfl
  · rfl

theorem cuts_releaseNicIp {obj : Netns} {iface : Nic} :
    Cuts X cni.node base (cni.releaseNicIp obj iface ip) R True
      (fun c T o R' => ¬(obj.name = host ∧ iface.name = cni.underlayDev) ∧
        OnKey cni.node (.inl .addresses) c ∧ T = R ∧ o = .ok false ∧ R' = R) := by
  unfold Cni.releaseNicIp
  split_ifs with hown
  · exact Cuts.pure _ trivial
  · apply (cuts_delValue (l := .addresses) trivial).mono
    · exact fun h => h
    · exact fun c T o R' hc => ⟨hown, hc⟩

theorem cuts_delNicVtep : Cuts X cni.node base cni.delNicVtep R True
    (fun c T o R' => cni.ipamMode = .vxlan ∧
      c = .etcd (.del (keyText cni.node (.inr .vtep))) ∧ T = R ∧
      o = .ok false ∧ R' = R) := by
  have herase := Registry.erase_store R cni.node base (j := .vtep) trivial
  unfold Cni.delNicVtep
  split_ifs with hmode
  · apply (cuts_del herase).mono
    · exact fun h => h
    · exact fun c T o R' hc => ⟨hmode, hc⟩
  · exact Cuts.pure _ trivial

/-- What is done when the address has been released. -/
def eraseNic (cni : Cni) (obj : Netns) (nic : Text) : OhnoProgram Netns := do
  if ← etcd (Storage.delAddr cni.node obj.name nic) then
    if ← etcd (Storage.delRoute cni.node obj.name nic) then
      if ← etcd (Storage.delNic cni.node obj.name nic) then
        if ← cni.delNicVtep then
          pure (obj.delNic nic)
        else
          Cni.fail cniErrcodeOhno s!"Failed to delete vtep on node:{str cni.node}"
      else
        Cni.fail cniErrcodeOhno s!"Failed to delete nic:{str nic} on node:{str cni.node}"
    else
      Cni.fail cniErrcodeOhno s!"Failed to delete route of nic:{str nic} on node:{str cni.node}"
  else
    Cni.fail cniErrcodeOhno s!"Failed to delete addr of nic:{str nic} on node:{str cni.node}"

theorem delKubernetesNic_eq {obj : Netns} {iface : Nic} (hl : obj.nics.lookup nic = some iface) :
    cni.delKubernetesNic obj nic = (Program.ofExcept (Cni.addrText iface [])).bind fun ip =>
      iface.cleanup.bind fun _ => (cni.releaseNicIp obj iface ip).bind fun _ =>
        eraseNic cni obj nic := by
  unfold Cni.delKubernetesNic
  rw [hl]
  rfl

theorem runs_eraseNic (base : Store) (S : Registry) (obj : Netns) (hp : '/' ∉ obj.name)
    (hi : '/' ∉ nic) : Runs cni.node base (eraseNic cni obj nic) S (.ok (obj.delNic nic))
      (erasedNic cni obj.name nic S) := by
  apply Runs.etcd_bind (run_delAddr hp hi)
  apply Runs.etcd_bind (run_delRoute hp hi)
  apply Runs.etcd_bind (run_delNic hp)
  apply Runs.bind runs_delNicVtep
  exact Runs.pure _ _

theorem cuts_eraseNic (S : Registry) (obj : Netns) (hp : '/' ∉ obj.name) (hi : '/' ∉ nic) :
    Cuts X cni.node base (eraseNic cni obj nic) S True
      (fun c T o R' => NicHalt cni obj.name nic S c T ∧ (∃ e, o = .error e) ∧ R' = T) := by
  have haddrs : (ListKey.addrs obj.name nic).Sound := ⟨hp, hi⟩
  have hroutes : (ListKey.routes obj.name nic).Sound := ⟨hp, hi⟩
  apply Cuts.check (Runs.etcd (run_delAddr hp hi))
    (cuts_del (Registry.erase_list_store S _ _ haddrs))
  · apply Cuts.check (Runs.etcd (run_delRoute hp hi))
      (cuts_del (Registry.erase_list_store _ _ _ hroutes))
    · apply Cuts.check (Runs.etcd (run_delNic hp)) (cuts_delValue (l := .nics obj.name) hp)
      · apply Cuts.check runs_delNicVtep cuts_delNicVtep
        · exact Cuts.pure _ trivial
        · intro c T o R' hc
          obtain ⟨hmode, rfl, rfl, rfl, rfl⟩ := hc
          exact ⟨rfl, .vtep hmode, ⟨_, rfl⟩, rfl⟩
      · intro c T o R' hc
        obtain ⟨hkey, rfl, rfl, rfl⟩ := hc
        exact ⟨rfl, .nics c hkey, ⟨_, rfl⟩, rfl⟩
    · intro c T o R' hc
      obtain ⟨rfl, rfl, rfl, rfl⟩ := hc
      exact ⟨rfl, .routes, ⟨_, rfl⟩, rfl⟩
  · intro c T o R' hc
    obtain ⟨rfl, rfl, rfl, rfl⟩ := hc
    exact ⟨rfl, .addrs, ⟨_, rfl⟩, rfl⟩

/-- An interface that the pod does not have is left alone. -/
theorem cuts_delKubernetesNic (R : Registry) (h : Loadable R₀) {obj : Netns}
    (hname : obj.name = pod) (hp : '/' ∉ pod) (hi : '/' ∉ nic)
    (hs : SeesNic cni R₀ pod nic (obj.nics.lookup nic)) :
    Cuts X cni.node base (cni.delKubernetesNic obj nic) R True
      (fun c T o R' => nic ∈ R₀.list (.nics pod) ∧
        NicCut cni pod nic (firstAddr R₀ pod nic) R obj c T o R') := by
  subst hname
  cases hl : obj.nics.lookup nic with
  | none =>
      unfold Cni.delKubernetesNic
      rw [hl]
      exact Cuts.pure _ trivial
  | some iface =>
      rw [hl] at hs
      obtain ⟨hmem, rfl, haddrs⟩ := hs
      have hclean : ∀ a ∈ iface.addrs, ∃ text, a.getAddrCidr = .ok text := haddrs ▸ addrObjs_cidr h
      rw [delKubernetesNic_eq hl, addrText_of_addrs h haddrs]
      apply Cuts.quiet_bind quiet_cleanup (runs_cleanup hclean)
      apply Cuts.bind runs_releaseNicIp cuts_releaseNicIp
      · intro _
        apply (cuts_eraseNic _ obj hp hi).mono
        · exact fun h => h
        · intro c T o R' hc
          obtain ⟨hhalt, ⟨e, rfl⟩, rfl⟩ := hc
          exact ⟨hmem, .halt c R' e hhalt⟩
      · intro c T b R' hc
        obtain ⟨hown, hkey, rfl, -, rfl⟩ := hc
        refine ⟨_, _, runs_eraseNic base R' obj hp hi, hmem, ?_⟩
        have herased : erasedNic cni obj.name iface.name R' =
            dropNic cni obj.name iface.name [] R' := by
          simp only [erasedNic, dropNic, if_neg hown, prune_nil]
        rw [herased]
        exact .release c hkey hown
      · intro c T e R' hc
        cases hc.2.2.2.1

end NicCuts

/-! ### Pods and the subnet -/

section Pods
variable (node pod simple : Text) (R : Registry)

/-- The command at which the deletion of a pod stops, and what it leaves. -/
inductive PodHalt : Cmd → Registry → Prop where
  | netns : PodHalt (.etcd (.del (keyText node (.inr (.netns pod))))) R
  | podOf (c : Cmd) (h : OnKey node (.inr (.podOf simple)) c) : PodHalt c (R.clear (.netns pod))
  | pods (c : Cmd) (h : OnKey node (.inl .pods) c) :
      PodHalt c ((R.clear (.netns pod)).clear (.podOf simple))

/-- A namespace that could not be read counts as none. -/
inductive PodCut (obj : Node) : Cmd → Registry → Except Thrown Node → Registry → Prop where
  | netns : PodCut obj (.etcd (.get (keyText node (.inr (.netns pod))))) R
      (.ok { obj with netns := remove obj.netns pod }) (R.clear (.netns pod))
  | halt (c : Cmd) (T : Registry) (e : Thrown) (h : PodHalt node pod simple R c T) :
      PodCut obj c T (.error e) T

/-- The release of a subnet. -/
inductive SubnetCut : Cmd → Registry → Prop where
  | subnet : SubnetCut (.etcd (.del (keyText node (.inr .subnet)))) R
  | subnets (c : Cmd) (h : OnKey node (.inl .subnets) c) : SubnetCut c (R.clear .subnet)

end Pods

section PodCuts
variable {X : Cmd → Prop} {cni : Cni} {base : Store} {R : Registry} {pod path simple : Text}

theorem cuts_delPod (hs : simpleNetns path = .ok simple) :
    Cuts X cni.node base (etcd (Storage.delPod cni.node path)) R True
      (fun c T o R' => (OnKey cni.node (.inr (.podOf simple)) c ∧ T = R ∨
        OnKey cni.node (.inl .pods) c ∧ T = R.clear (.podOf simple)) ∧ o = .ok false ∧ R' = T) := by
  have heq : etcd (Storage.delPod cni.node path) =
      (etcd (EtcdClientShell.get (ValueKey.text cni.node (.podOf simple)))).bind fun ret =>
        if ret.ok then
          (etcd (del (ValueKey.text cni.node (.podOf simple)))).bind fun b =>
            if b then etcd (delValue (ListKey.text cni.node .pods) ret.out) else .pure false
        else .pure false := by
    have hkey : getSinglePodKey cni.node path = .ok (ValueKey.text cni.node (.podOf simple)) := by
      simp only [getSinglePodKey, hs, bind, Except.bind]
      rfl
    unfold Storage.delPod
    rw [hkey]
    simp only [Program.ofExcept_ok, Program.bind_eq, Program.pure_bind, etcd_bind]
    congr 1
    funext ret
    obtain ⟨ok, out⟩ := ret
    cases ok with
    | false => rfl
    | true =>
        simp only [if_true, etcd_bind]
        congr 1
        funext b
        cases b <;> rfl
  have hget := run_get (ValueKey.text cni.node (.podOf simple)) (R.store cni.node base)
  have herase := Registry.erase_store R cni.node base (j := .podOf simple) trivial
  have hdel : (del (ValueKey.text cni.node (.podOf simple))).run Etcd.ok (R.store cni.node base) =
      (.ok true, (R.clear (.podOf simple)).store cni.node base) := by
    rw [run_del, herase]
  rw [heq]
  apply Cuts.bind (Runs.etcd hget) (cuts_get (.podOf simple))
  · intro _
    simp only [if_true]
    apply Cuts.bind (Runs.etcd hdel) (cuts_del herase)
    · intro _
      simp only [if_true]
      apply (cuts_delValue (l := .pods) trivial).mono
      · exact fun h => h
      · intro c T o R' hc
        obtain ⟨hkey, rfl, ho, rfl⟩ := hc
        exact ⟨.inr ⟨hkey, rfl⟩, ho, rfl⟩
    · intro c T b R' hc
      obtain ⟨rfl, rfl, hb, rfl⟩ := hc
      cases hb
      exact ⟨_, _, Runs.pure _ _, .inl ⟨.inr (.inr rfl), rfl⟩, rfl, rfl⟩
    · intro c T e R' hc
      cases hc.2.2.1
  · intro c T b R' hc
    obtain ⟨rfl, rfl, hb, rfl⟩ := hc
    cases hb
    exact ⟨_, _, Runs.pure _ _, .inl ⟨.inl rfl, rfl⟩, rfl, rfl⟩
  · intro c T e R' hc
    cases hc.2.2.1

theorem cuts_delKubernetesPod (obj : Node) (hp : '/' ∉ pod)
    (hpath : R.value (.netns pod) = some path)
    (hne : path ≠ []) (hs : simpleNetns path = .ok simple) :
    Cuts X cni.node base (cni.delKubernetesPod obj pod) R True
      (PodCut cni.node pod simple R obj) := by
  have hget : (Storage.getNetns cni.node pod).run Etcd.ok (R.store cni.node base) =
      (.ok path, R.store cni.node base) := by
    rw [run_getNetns hp, hpath, Option.getD_some]
  have herase := Registry.erase_store R cni.node base (j := .netns pod) hp
  apply Cuts.bind (Runs.etcd hget) (cuts_getNetns pod)
  · intro _
    apply Cuts.check (Runs.etcd (run_delNetns hp)) (cuts_del herase)
    · unfold Cni.delListedPod
      rw [if_neg hne]
      apply Cuts.check (Runs.etcd (run_delPod hs)) (cuts_delPod hs)
      · exact Cuts.pure _ trivial
      · intro c T o R' hc
        obtain ⟨⟨hkey, rfl⟩ | ⟨hkey, rfl⟩, rfl, rfl⟩ := hc
        · exact ⟨rfl, .halt c _ _ (.podOf c hkey)⟩
        · exact ⟨rfl, .halt c _ _ (.pods c hkey)⟩
    · intro c T o R' hc
      obtain ⟨rfl, rfl, rfl, rfl⟩ := hc
      exact ⟨rfl, .halt _ _ _ .netns⟩
  · intro c T b R' hc
    obtain ⟨rfl, rfl, hb, rfl⟩ := hc
    cases hb
    have hrest : Runs cni.node base ((etcd (Storage.delNetns cni.node pod)).bind fun b =>
        if b then (cni.delListedPod []).bind fun b =>
          if b then Program.pure { obj with netns := remove obj.netns pod }
          else Cni.fail cniErrcodeOhno s!"Failed to add container id:{str []}"
        else Cni.fail cniErrcodeOhno s!"Failed to add namespace of pod:{str pod}") R'
        (.ok { obj with netns := remove obj.netns pod }) (R'.clear (.netns pod)) := by
      apply Runs.etcd_bind (run_delNetns hp)
      exact Runs.pure _ _
    exact ⟨_, _, hrest, .netns⟩
  · intro c T e R' hc
    cases hc.2.2.1

theorem cuts_releaseSubnet {subnet : Text} :
    Cuts X cni.node base (etcd (releaseSubnet cni.node subnet)) R
    True (fun c T o R' => SubnetCut cni.node R c T ∧ o = .ok false ∧ R' = T) := by
  have heq : etcd (releaseSubnet cni.node subnet) =
      (etcd (del (ValueKey.text cni.node .subnet))).bind fun b =>
        etcd (if b then delValue (ListKey.text cni.node .subnets) subnet else .pure false) :=
    etcd_bind _ _
  have herase := Registry.erase_store R cni.node base (j := .subnet) trivial
  have hdel : (del (ValueKey.text cni.node .subnet)).run Etcd.ok (R.store cni.node base) =
      (.ok true, (R.clear .subnet).store cni.node base) := by
    rw [run_del, herase]
  rw [heq]
  apply Cuts.bind (Runs.etcd hdel) (cuts_del herase)
  · intro _
    simp only [if_true]
    apply (cuts_delValue (l := .subnets) trivial).mono
    · exact fun h => h
    · intro c T o R' hc
      obtain ⟨hkey, rfl, ho, rfl⟩ := hc
      exact ⟨.subnets c hkey, ho, rfl⟩
  · intro c T b R' hc
    obtain ⟨rfl, rfl, hb, rfl⟩ := hc
    cases hb
    exact ⟨_, _, Runs.pure _ _, .subnet, rfl, rfl⟩
  · intro c T e R' hc
    cases hc.2.2.1

end PodCuts

/-! ### The node -/

section Nodes
variable (cni : Cni) (net : NetworkV4) (R₀ S : Registry)

/-- The commands at which the teardown stops with the subnet still there. -/
inductive TearHalt (node : Text) : Cmd → Prop where
  | addrs (i : Text) (h : '/' ∉ i) : TearHalt node
      (.etcd (.del (keyText node (.inl (.addrs host i)))))
  | routes (i : Text) (h : '/' ∉ i) : TearHalt node
      (.etcd (.del (keyText node (.inl (.routes host i)))))
  | nics (c : Cmd) (h : OnKey node (.inl (.nics host)) c) : TearHalt node c
  | vtep : TearHalt node (.etcd (.del (keyText node (.inr .vtep))))
  | netns : TearHalt node (.etcd (.del (keyText node (.inr (.netns host)))))
  | podOf (c : Cmd) (h : OnKey node (.inr (.podOf host)) c) : TearHalt node c
  | pods (c : Cmd) (h : OnKey node (.inl .pods) c) : TearHalt node c
  | subnet : TearHalt node (.etcd (.del (keyText node (.inr .subnet))))

/-- The teardown of `S` has stopped at `c`. -/
structure TearStop (node : Text) (c : Cmd) (T : Registry) : Prop where
  halt : TearHalt node c
  subnet : T.value .subnet = S.value .subnet
  pods : T.list .pods ⊆ S.list .pods
  loadable : Loadable S → Loadable T

/-- `S` without the bridge of the root namespace. -/
def tornBridge : Registry := dropHostNic cni R₀ cni.conf.bridge S

def tornVxlan : Registry := dropHostNic cni R₀ nameVxlan (tornBridge cni R₀ S)

def tornNics : Registry := dropHostNic cni R₀ cni.underlayDev (tornVxlan cni R₀ S)

/-- What a failing command leaves of the teardown of `S`. -/
inductive TearCut : Cmd → Registry → Registry → Prop where
  | bridge (c : Cmd) (h : OnKey cni.node (.inl .addresses) c) : TearCut c S
      (finished net (dropHostNic cni R₀ cni.underlayDev (dropHostNic cni R₀ nameVxlan
        (dropNic cni host cni.conf.bridge [] S))))
  | vxlan (c : Cmd) (h : OnKey cni.node (.inl .addresses) c)
      (mem : nameVxlan ∈ R₀.list (.nics host)) :
      TearCut c (tornBridge cni R₀ S) (finished net (dropHostNic cni R₀ cni.underlayDev
        (dropNic cni host nameVxlan [] (tornBridge cni R₀ S))))
  | netns : TearCut (.etcd (.get (keyText cni.node (.inr (.netns host))))) (tornNics cni R₀ S)
      ((((tornNics cni R₀ S).clear (.netns host)).clear .subnet).prune .subnets net.text)
  | subnets (c : Cmd) (h : OnKey cni.node (.inl .subnets) c) :
      TearCut c ((dropPod host (tornNics cni R₀ S)).clear .subnet)
        ((dropPod host (tornNics cni R₀ S)).clear .subnet)
  | stop (c : Cmd) (T : Registry) (h : TearStop S cni.node c T) : TearCut c T T

end Nodes

section NodeCuts
variable {X : Cmd → Prop} {cni : Cni} {net : NetworkV4} {base : Store} {R₀ S T : Registry}
variable {c : Cmd} {nic ip : Text}

/-- Where the deletion of an interface stops, nothing else was touched. -/
theorem NicHalt.tear (h : NicHalt cni host nic (releasedNic cni host nic ip S) c T)
    (hi : '/' ∉ nic) : TearStop S cni.node c T := by
  have hload : Loadable S → Loadable (releasedNic cni host nic ip S) := by
    intro h
    unfold releasedNic
    split_ifs
    · exact h
    · exact h.prune _ _
  have hvalue : ∀ j, (releasedNic cni host nic ip S).value j = S.value j := by
    intro j
    unfold releasedNic
    split_ifs <;> simp
  have hpods : (releasedNic cni host nic ip S).list .pods = S.list .pods := by
    unfold releasedNic
    split_ifs <;> simp
  cases h with
  | addrs => exact ⟨.addrs nic hi, hvalue _, by simp [hpods], hload⟩
  | routes =>
      exact ⟨.routes nic hi, by simp [hvalue], by simp [hpods], fun h => (hload h).clearList _⟩
  | nics c h =>
      exact ⟨.nics c h, by simp [hvalue], by simp [hpods],
        fun h => ((hload h).clearList _).clearList _⟩
  | vtep mode =>
      exact ⟨.vtep, by simp [hvalue], by simp [hpods],
        fun h => (((hload h).clearList _).clearList _).prune _ _⟩

/-- The same for the root namespace. -/
theorem PodHalt.tear (h : PodHalt cni.node host host S c T) : TearStop S cni.node c T := by
  cases h with
  | netns => exact ⟨.netns, rfl, by simp, id⟩
  | podOf c h => exact ⟨.podOf c h, by simp, by simp, fun h => h.clear _⟩
  | pods c h => exact ⟨.pods c h, by simp, by simp, fun h => (h.clear _).clear _⟩

theorem loadable_dropHostNic (h : Loadable S) (nic : Text) :
    Loadable (dropHostNic cni R₀ nic S) := by
  unfold dropHostNic
  split_ifs
  · exact loadable_dropNic h _ _ _ _
  · exact h

/-- What stops later stops. -/
theorem TearStop.dropHostNic (h : TearStop (dropHostNic cni R₀ nic S) cni.node c T) :
    TearStop S cni.node c T where
  halt := h.halt
  subnet := h.subnet.trans (dropHostNic_value _ (by simp))
  pods := List.Subset.trans h.pods (dropHostNic_list_subset nic .pods)
  loadable hS := h.loadable (loadable_dropHostNic hS nic)

theorem dropPod_subnet : (dropPod host S).value .subnet = S.value .subnet := by
  simp only [DelRecords.dropPod]
  split_ifs
  · simp
  · split <;> simp

/-- The end of the teardown of `S`. -/
inductive FinishCut (cni : Cni) (net : NetworkV4) (S : Registry) :
    Cmd → Registry → Registry → Prop where
  | netns : FinishCut cni net S (.etcd (.get (keyText cni.node (.inr (.netns host))))) S
      (((S.clear (.netns host)).clear .subnet).prune .subnets net.text)
  | subnets (c : Cmd) (h : OnKey cni.node (.inl .subnets) c) : FinishCut cni net S c
      ((dropPod host S).clear .subnet) ((dropPod host S).clear .subnet)
  | stop (c : Cmd) (T : Registry) (h : TearStop S cni.node c T) : FinishCut cni net S c T T

theorem cuts_finishNode (S : Registry) {obj : Node} (hsub : obj.subnet = some ⟨net, .ipv4⟩)
    (hpath : S.value (.netns host) = some host) :
    Cuts X cni.node base (finishNode cni obj) S True
      (fun c T _ R' => FinishCut cni net S c T R') := by
  have hne : host ≠ [] := name_host.item.ne_nil
  have hnet : net.text ≠ [] := cidr_ne_nil _ _
  have hs : simpleNetns ((S.value (.netns host)).getD []) = .ok host := by
    rw [hpath, Option.getD_some, simpleNetns_host]
  apply Cuts.bind (runs_delKubernetesPod name_host.slash hs obj)
    (cuts_delKubernetesPod obj name_host.slash hpath hne simpleNetns_host)
  · intro _
    simp only [Node.getSubnet, hsub, Subnet.getSubnet_ipv4, Program.ofExcept_ok, Program.bind_eq,
      Program.pure_bind, if_neg hnet]
    apply Cuts.map (Runs.etcd run_releaseSubnet) cuts_releaseSubnet
    · intro c T b R' hc
      obtain ⟨hcut, -, rfl⟩ := hc
      cases hcut with
      | subnet => exact .stop _ _ ⟨.subnet, dropPod_subnet, dropPod_list_subset host S .pods,
          fun h => loadable_dropPod h host⟩
      | subnets c h => exact .subnets c h
    · intro c T e R' hc
      cases hc.2.1
  · intro c T n R' hc
    cases hc with
    | netns =>
        refine ⟨.ok (), _, ?_, .netns⟩
        simp only [Node.getSubnet, hsub, Subnet.getSubnet_ipv4, Program.ofExcept_ok,
          Program.bind_eq,
          Program.pure_bind, if_neg hnet]
        exact Runs.etcd_bind run_releaseSubnet (Runs.pure _ _)
  · intro c T e R' hc
    cases hc with
    | halt c T e h => exact .stop c _ h.tear

theorem cuts_tearUnderlay (S : Registry) (law : Lawful cni net) (h : Loadable R₀) {obj : Node}
    {pod : Netns} (hname : pod.name = host)
    (hsees : SeesNic cni R₀ host cni.underlayDev (pod.nics.lookup cni.underlayDev))
    (hsub : obj.subnet = some ⟨net, .ipv4⟩) (hpath : S.value (.netns host) = some host) :
    Cuts X cni.node base (tearUnderlay cni obj pod) S True (fun c T _ R' =>
      FinishCut cni net (dropHostNic cni R₀ cni.underlayDev S) c T R' ∨
        TearStop S cni.node c T ∧ R' = T) := by
  obtain ⟨pod', hrun, -, -⟩ :=
    runs_delKubernetesNic base S h hname name_host.slash law.underlay.slash
    hsees
  have hnetns : (dropHostNic cni R₀ cni.underlayDev S).value (.netns host) = some host := by
    rw [dropHostNic_value _ (by simp), hpath]
  apply Cuts.bind hrun (cuts_delKubernetesNic S h hname name_host.slash law.underlay.slash hsees)
  · intro _
    apply (cuts_finishNode _ hsub hnetns).mono
    · exact fun h => h
    · exact fun c T o R' hc => .inl hc
  · intro c T b R' hc
    cases hc.2 with
    | release h own => exact absurd ⟨rfl, rfl⟩ own
  · intro c T e R' hc
    cases hc.2 with
    | halt _ e h => exact .inr ⟨h.tear law.underlay.slash, rfl⟩

theorem cuts_tearVxlan (S : Registry) (law : Lawful cni net) (h : Loadable R₀) {obj : Node}
    {pod : Netns} (hname : pod.name = host)
    (hvxlan : SeesNic cni R₀ host nameVxlan (pod.nics.lookup nameVxlan))
    (hunderlay : SeesNic cni R₀ host cni.underlayDev (pod.nics.lookup cni.underlayDev))
    (hsub : obj.subnet = some ⟨net, .ipv4⟩) (hpath : S.value (.netns host) = some host) :
    Cuts X cni.node base (tearVxlan cni obj pod) S True (fun c T _ R' =>
      FinishCut cni net
          (dropHostNic cni R₀ cni.underlayDev (dropHostNic cni R₀ nameVxlan S)) c T R' ∨
        TearStop S cni.node c T ∧ R' = T ∨
          OnKey cni.node (.inl .addresses) c ∧ nameVxlan ∈ R₀.list (.nics host) ∧ T = S ∧
            R' = finished net (dropHostNic cni R₀ cni.underlayDev
              (dropNic cni host nameVxlan [] S))) := by
  obtain ⟨pod', hrun, hname', hkeep⟩ := runs_delKubernetesNic base S h hname name_host.slash
    name_nameVxlan.slash hvxlan
  have hseen : SeesNic cni R₀ host cni.underlayDev (pod'.nics.lookup cni.underlayDev) := by
    rw [hkeep _ law.underlay_ne_vxlan]
    exact hunderlay
  have hnetns : (dropHostNic cni R₀ nameVxlan S).value (.netns host) = some host := by
    rw [dropHostNic_value _ (by simp), hpath]
  apply Cuts.bind hrun (cuts_delKubernetesNic S h hname name_host.slash name_nameVxlan.slash hvxlan)
  · intro _
    apply (cuts_tearUnderlay _ law h hname' hseen hsub hnetns).mono
    · exact fun h => h
    · intro c T o R' hc
      rcases hc with hc | ⟨hstop, hR⟩
      · exact .inl hc
      · exact .inr (.inl ⟨hstop.dropHostNic, hR⟩)
  · intro c T b R' hc
    obtain ⟨hmem, hcut⟩ := hc
    cases hcut with
    | release hkey own =>
        have hlookup : (pod.delNic nameVxlan).nics.lookup cni.underlayDev =
            pod.nics.lookup cni.underlayDev := by
          simp [Netns.delNic, law.underlay_ne_vxlan]
        have hname'' : (pod.delNic nameVxlan).name = host := hname
        have hs : simpleNetns (((dropNic cni host nameVxlan [] S).value (.netns host)).getD []) =
            .ok host := by
          simp [dropNic_value, hpath, simpleNetns_host]
        rw [← hlookup] at hunderlay
        exact ⟨_, _, runs_tearUnderlay law h hname'' hunderlay hsub hs,
          .inr (.inr ⟨hkey, hmem, rfl, rfl⟩)⟩
  · intro c T e R' hc
    cases hc.2 with
    | halt _ e h => exact .inr (.inl ⟨h.tear name_nameVxlan.slash, rfl⟩)

theorem cuts_tearDown (S : Registry) (law : Lawful cni net) (h : Loadable R₀) {obj : Node}
    {pod : Netns} (hl : obj.netns.lookup host = some pod) (hsees : SeesPod cni R₀ host pod)
    (hsub : obj.subnet = some ⟨net, .ipv4⟩) (hpath : S.value (.netns host) = some host) :
    Cuts X cni.node base (cni.tearDown obj) S True
      (fun c T _ R' => TearCut cni net R₀ S c T R') := by
  obtain ⟨pod', hrun, hname, hkeep⟩ := runs_delKubernetesNic base S h hsees.name name_host.slash
    law.bridge.slash (hsees.nics _)
  have hvxlan := hsees.nics nameVxlan
  have hunderlay := hsees.nics cni.underlayDev
  have hnetns : (dropHostNic cni R₀ cni.conf.bridge S).value (.netns host) = some host := by
    rw [dropHostNic_value _ (by simp), hpath]
  rw [tearDown_eq hl]
  apply Cuts.bind hrun (cuts_delKubernetesNic S h hsees.name name_host.slash law.bridge.slash
    (hsees.nics _))
  · intro _
    rw [← hkeep _ law.bridge_ne_vxlan.symm] at hvxlan
    rw [← hkeep _ law.bridge_ne_underlay.symm] at hunderlay
    apply (cuts_tearVxlan _ law h hname hvxlan hunderlay hsub hnetns).mono
    · exact fun h => h
    · intro c T o R' hc
      rcases hc with hc | ⟨hstop, rfl⟩ | ⟨hkey, hmem, rfl, rfl⟩
      · cases hc with
        | netns => exact .netns
        | subnets c h => exact .subnets c h
        | stop c T h => exact .stop c _ h.dropHostNic.dropHostNic.dropHostNic
      · exact .stop c _ hstop.dropHostNic
      · exact .vxlan c hkey hmem
  · intro c T b R' hc
    cases hc.2 with
    | release hkey own =>
        have hlookup : ∀ j, j ≠ cni.conf.bridge →
            (pod.delNic cni.conf.bridge).nics.lookup j = pod.nics.lookup j := by
          intro j hj
          simp [Netns.delNic, hj]
        have hname' : (pod.delNic cni.conf.bridge).name = host := hsees.name
        have hs :
            simpleNetns (((dropNic cni host cni.conf.bridge [] S).value (.netns host)).getD []) =
            .ok host := by
          simp [dropNic_value, hpath, simpleNetns_host]
        rw [← hlookup _ law.bridge_ne_vxlan.symm] at hvxlan
        rw [← hlookup _ law.bridge_ne_underlay.symm] at hunderlay
        exact ⟨_, _, runs_tearVxlan law h hname' hvxlan hunderlay hsub hs, .bridge c hkey⟩
  · intro c T e R' hc
    cases hc.2 with
    | halt _ e h => exact .stop c _ (h.tear law.bridge.slash)

end NodeCuts

/-! ### The whole DEL -/

section Del
variable (X : Cmd → Prop) (cni : Cni) (net : NetworkV4) (c i : Text) (R : Registry)

/-- The node is left as `S`, or torn down from there. -/
def left (S : Registry) : Registry := if Alone R c then tearDownRecords cni net R S else S

/-- The interface is gone. -/
def unplugged : Registry := dropNic cni c i (firstAddr R c i) R

/-- What a failing command leaves while the node is read. -/
inductive ReadCut : Cmd → Registry → Prop where
  | subnet : ReadCut (.etcd (.get (keyText cni.node (.inr .subnet)))) R
  | view (cmd : Cmd) (V : Registry) (h : NodeView X cni.node R cmd V) :
      ReadCut cmd (delSeen cni net c i V R)

/-- What it leaves of the deletion of a container that has the interface. -/
inductive DelCut : Cmd → Registry → Registry → Prop where
  | release (cmd : Cmd) (h : OnKey cni.node (.inl .addresses) cmd) :
      DelCut cmd R (left cni net c R (dropPod c (dropNic cni c i [] R)))
  | nic (cmd : Cmd) (T : Registry)
      (h : NicHalt cni c i (releasedNic cni c i (firstAddr R c i) R) cmd T) :
      DelCut cmd T T
  | netns : DelCut (.etcd (.get (keyText cni.node (.inr (.netns c))))) (unplugged cni c i R)
      (left cni net c R ((unplugged cni c i R).clear (.netns c)))
  | pod (cmd : Cmd) (T : Registry) (simple : Text) (own : R.value (.podOf simple) = some c)
      (h : PodHalt cni.node c simple (unplugged cni c i R) cmd T) : DelCut cmd T T
  | tear (cmd : Cmd) (T R' : Registry) (alone : Alone R c)
      (h : TearCut cni net R (dropPod c (unplugged cni c i R)) cmd T R') : DelCut cmd T R'

end Del

section DelCuts
variable {X : Cmd → Prop} {cni : Cni} {net : NetworkV4} {base : Store} {R S : Registry} {c i : Text}

theorem cuts_leaveNode (S : Registry) (law : Lawful cni net) (h : Loadable R) {obj : Node}
    (hsees : Sees cni net R obj) (hhost : host ∈ R.list .pods) (hch : c ≠ host)
    (hpath : S.value (.netns host) = some host) :
    Cuts X cni.node base (leaveNode cni { obj with netns := remove obj.netns c }) S True
      (fun cmd T _ R' => Alone R c ∧ TearCut cni net R S cmd T R') := by
  obtain ⟨hsub, f, hf, hpods⟩ := hsees
  have hone := length_remove_loadAll f (R.list .pods) c
  rw [alone_iff hch hhost, ← hf] at hone
  unfold leaveNode
  split_ifs with hlen
  · have hl : (remove obj.netns c).lookup host = some (f host) := by
      rw [lookup_remove, if_neg hch.symm, hf, lookup_loadAll, if_pos hhost]
    have hcuts : Cuts X cni.node base (cni.tearDown { obj with netns := remove obj.netns c }) S True
        (fun cmd T _ R' => TearCut cni net R S cmd T R') :=
      cuts_tearDown S law h hl (hpods host hhost) hsub hpath
    apply hcuts.mono
    · exact fun h => h
    · exact fun cmd T o R' hc => ⟨hone.mp hlen, hc⟩
  · exact Cuts.pure _ trivial

theorem cuts_delNode {k : ℕ} (law : Lawful cni net) (intact : Intact cni net k R)
    (owned : Owned R) {obj : Node}
    (hsees : Sees cni net R obj) (hmem : c ∈ R.list .pods) (hnic : i ∈ R.list (.nics c))
    (hc : '/' ∉ c) (hch : c ≠ host) (hi : '/' ∉ i) :
    Cuts X cni.node base (delNode cni c i obj) R True
      (fun cmd T _ R' => DelCut cni net c i R cmd T R') := by
  have h := intact.loadable
  obtain ⟨f, hf, hpods⟩ := hsees.netns
  have hl : obj.netns.lookup c = some (f c) := by rw [hf, lookup_loadAll, if_pos hmem]
  have hname := (hpods c hmem).name
  obtain ⟨pod', hrun, -, -⟩ := runs_delKubernetesNic base R h hname hc hi ((hpods c hmem).nics i)
  rw [if_pos hnic] at hrun
  obtain ⟨path, simple, hpath, hne, hs, hown⟩ := owned c hmem
  have hgone : ∀ ip, (dropNic cni c i ip R).value (.netns c) = some path := by
    intro ip
    simp [dropNic_value, hpath]
  have hsimple : ∀ ip, simpleNetns (((dropNic cni c i ip R).value (.netns c)).getD []) =
      .ok simple := by
    intro ip
    rw [hgone, Option.getD_some, hs]
  have hroot : ∀ ip, (dropPod c (dropNic cni c i ip R)).value (.netns host) = some host := by
    intro ip
    rw [dropPod_netns _ hch]
    simp [dropNic_value, intact.netns]
  have hroot' : ∀ ip, simpleNetns
      (((dropPod c (dropNic cni c i ip R)).value (.netns host)).getD []) =
      .ok host := by
    intro ip
    rw [hroot, Option.getD_some, simpleNetns_host]
  unfold delNode
  simp only [Cni.getKubernetesPod, hl, Program.pure_eq, Program.bind_eq, Program.pure_bind]
  apply Cuts.bind hrun (cuts_delKubernetesNic R h hname hc hi ((hpods c hmem).nics i))
  · intro _
    apply Cuts.bind (runs_delKubernetesPod hc (hsimple _) obj)
      (cuts_delKubernetesPod obj hc (hgone _) hne hs)
    · intro _
      apply (cuts_leaveNode _ law h hsees intact.root hch (hroot _)).mono
      · exact fun h => h
      · exact fun cmd T o R' hcut => .tear cmd T R' hcut.1 hcut.2
    · intro cmd T n R' hcut
      cases hcut with
      | netns =>
          have hs' :
              simpleNetns ((((unplugged cni c i R).clear (.netns c)).value (.netns host)).getD
              []) = .ok host := by
            simp [unplugged, dropNic_value, hch.symm, intact.netns, simpleNetns_host]
          exact ⟨_, _, runs_leaveNode base _ law h hsees intact.root hch hs', .netns⟩
    · intro cmd T e R' hcut
      cases hcut with
      | halt _ _ _ hhalt => exact .pod cmd _ simple hown hhalt
  · intro cmd T b R' hcut
    cases hcut.2 with
    | release hkey own =>
        have hrest := runs_leaveNode base _ law h hsees intact.root hch (hroot' [])
        exact ⟨_, _, Runs.bind (runs_delKubernetesPod hc (hsimple _) obj) hrest, .release cmd hkey⟩
  · intro cmd T e R' hcut
    cases hcut.2 with
    | halt _ e h => exact .nic cmd _ h

/-- Every failure in a DEL, and the records it leaves. -/
theorem cuts_cniDel {k : ℕ} (law : Lawful cni net) (intact : Intact cni net k R) (owned : Owned R)
    (nodup : ∀ p, (R.list (.nics p)).Nodup) (hmem : c ∈ R.list .pods) (hnic : i ∈ R.list (.nics c))
    (hc : '/' ∉ c) (hch : c ≠ host) (hi : '/' ∉ i) :
    Cuts X cni.node base (cni.del c i) R (∀ p ∈ R.list .pods, Answered X cni.node R p)
      (fun cmd T _ R' => T = R ∧ ReadCut X cni net c i R cmd R' ∨
        (∀ p ∈ R.list .pods, Answered X cni.node R p) ∧ DelCut cni net c i R cmd T R') := by
  have h := intact.loadable
  have hp := law.prefixLength_le
  have hle : net.prefixLength ≤ 32 := by omega
  have hload : Runs cni.node base cni.getKubernetesCluster R (.ok (loadedObj cni R net)) R :=
    runs_getKubernetesCluster h intact.subnet hle
  have hlookup : (loadedObj cni R net).cluster.lookup cni.node = some (nodeObj cni R net) := by
    simp [loadedObj]
  have hbody : Cuts X cni.node base (cni.delBody c i) R
      (∀ p ∈ R.list .pods, Answered X cni.node R p)
      (fun cmd T _ R' => T = R ∧ ReadCut X cni net c i R cmd R' ∨
        (∀ p ∈ R.list .pods, Answered X cni.node R p) ∧ DelCut cni net c i R cmd T R') := by
    rw [delBody_eq law]
    apply Cuts.bind hload (cuts_getKubernetesCluster h nodup intact.subnet hle)
    · intro hanswered
      simp only [hlookup]
      apply (cuts_delNode law intact owned sees_nodeObj hmem hnic hc hch hi).mono
      · exact fun _ => hanswered
      · exact fun cmd T o R' hcut => .inr ⟨hanswered, hcut⟩
    · intro cmd T loaded R' hcut
      obtain ⟨rfl, rfl, ⟨rfl, hb⟩ | ⟨obj, gw, V, hb, hsees, hview⟩⟩ := hcut
      · cases hb
        exact ⟨_, _, Runs.throw _ _, .inl ⟨rfl, .subnet⟩⟩
      · cases hb
        obtain ⟨hV, -, hpods⟩ := hview.sound h
        have hhost : c ∈ V.list .pods → host ∈ V.list .pods := by
          intro hmem'
          rcases hpods with hpods | hpods
          · rw [hpods] at hmem'
            cases hmem'
          · rw [hpods]
            exact intact.root
        obtain ⟨o, -, hrun⟩ := runs_delNode base law hV hsees h.netns hhost hc hch hi
        refine ⟨o, _, ?_, .inl ⟨rfl, .view cmd V hview⟩⟩
        have hfound : [(cni.node, obj)].lookup cni.node = some obj := by simp
        simp only [hfound]
        exact hrun
    · intro cmd T e R' hcut
      obtain ⟨-, -, ⟨-, hb⟩ | ⟨obj, gw, V, hb, -, -⟩⟩ := hcut
      · cases hb
      · cases hb
  apply Cuts.catch_ hbody
  · intro e
    by_cases he : e = .segfault
    · exact .inr ⟨.segfault, if_pos he⟩
    · exact .inl ⟨(), if_neg he⟩
  · exact fun cmd T o R' hcut => hcut

end DelCuts
end Ohno.DelCuts
