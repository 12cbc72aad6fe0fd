import Ohno.NodeStates

/-!
# What the operations keep of any registry

A container that is called under several names, or whose DEL names another
interface, leaves records that no state of `NodeState` has. The facts here hold
of such registries too: the records can be restored, the root namespace is
intact while the node has a subnet, and every listed container is found by its
namespace. A node that was torn down can be set up again, because the address of
its gateway is free.
-/
namespace Ohno.NodeInvariants
open CommandPrograms DelimitedLists AddressText EtcdClientShell Subnets FirstFit Ipam Netlink Nics
open Storage CniPlugin Records Conducts RecordPrograms RestoredNode DelRecords AddRecords NodeStates
open NodeState

/-! ### The ends of an ADD -/

/-- The records of a container before it has an address. -/
def withPod (c : Container) (R : Registry) : Registry :=
  podRecords c.name_id c.name_nic c.line_path c.netns R

/-- The records of its address, host `k`. -/
def withAddr (net : NetworkV4) (gw : BitVec 32) (k : ℕ) (c : Container) (R : Registry) : Registry :=
  addrRecords c.id c.name_nic gw (hostText net k) (item_hostText net k) R

section Ends
variable (cni : Cni) (net : NetworkV4) (gw : BitVec 32) (c : Container) (R : Registry)

/-- The end of the branch that creates an interface. -/
inductive NewEnd : Except Thrown CniResult → Registry → Prop where
  | refused (e : Thrown) : NewEnd (.error e) R
  | exhausted (e : Thrown) (free : FreeFor R c.netns c.id)
      (full : firstFree (hostText net) (hostCount net) (R.list .addresses) = none) :
      NewEnd (.error e) (withPod c R)
  | new (k : ℕ) (free : FreeFor R c.netns c.id)
      (fit : firstFree (hostText net) (hostCount net) (R.list .addresses) = some k) :
      NewEnd (.ok (reported cni (net.address + BitVec.ofNat 32 k) gw net.prefixLength c.nic
        (netnsPath c.netns))) (withAddr net gw k c (withPod c R))

/-- The end of an ADD on a node that has its records. -/
inductive AddEnd : Except Thrown CniResult → Registry → Prop where
  | found (a : BitVec 32) (p : ℕ) (rest : List Text) (pod : c.id ∈ R.list .pods)
      (nic : c.nic ∈ R.list (.nics c.id)) (addr : R.list (.addrs c.id c.nic) = cidr a p :: rest) :
      AddEnd (reuseOutcome cni a gw p c.nic (netnsPath c.netns)) R
  | bare (e : Thrown) (pod : c.id ∈ R.list .pods) (nic : c.nic ∈ R.list (.nics c.id))
      (addr : R.list (.addrs c.id c.nic) = []) : AddEnd (.error e) R
  | new {o : Except Thrown CniResult} {R' : Registry}
      (absent : ¬ (c.id ∈ R.list .pods ∧ c.nic ∈ R.list (.nics c.id)))
      (h : NewEnd cni net gw c R o R') :
      AddEnd o R'

end Ends

section AddRuns
variable {cni : Cni} {net : NetworkV4} {gw : BitVec 32} {R : Registry}

theorem runs_createNic_end (base : Store) (law : Lawful cni net) {loaded : Loaded}
    (ready : Ready cni loaded gw) (hs : R.value .subnet = some net.text)
    (c : Container) (pod : Netns)
    (hname : pod.name = c.id) (peer : Text) :
    ∃ o R', NewEnd cni net gw c R o R' ∧
      Runs cni.node base (Program.bind (cni.createNic loaded pod c.nic peer (netnsPath c.netns))
        fun nic => Program.ofExcept (cni.result loaded nic c.nic (netnsPath c.netns))) R o R' := by
  have hsimple := simpleNetns_netnsPath c.netns
  have hline := c.line_path
  by_cases hfree : FreeFor R c.netns c.id
  · cases hfit : firstFree (hostText net) (hostCount net) (R.list .addresses) with
    | some k =>
        obtain ⟨nic, haddr, hrun⟩ := runs_createNic base peer law ready hname c.name_id
          c.name_nic hline hsimple hfree hs hfit
        refine ⟨_, _, .new k hfree hfit, ?_⟩
        apply Runs.bind hrun
        rw [result_of_addr haddr ready.gateway]
        exact Runs.pure _ _
    | none =>
        have hrun := runs_createNic_full base peer law ready hname c.name_id
          c.name_nic hline hsimple hfree hs hfit
        exact ⟨_, _, .exhausted _ hfree hfit, Runs.bind_error hrun⟩
  · unfold FreeFor at hfree
    push Not at hfree
    obtain ⟨other, ho, hne, hother⟩ := hfree
    exact ⟨_, _, .refused _, Runs.bind_error (runs_createNic_refused hname hsimple ho hne hother)⟩

/-- Every ADD on a node that is up. -/
theorem runs_add_end (base : Store) (law : Lawful cni net) (up : Up cni net gw R) (c : Container) :
    ∃ o R', AddEnd cni net gw c R o R' ∧
      Runs cni.node base (cni.add c.id (netnsPath c.netns) c.nic) R o R' := by
  by_cases hmem : c.id ∈ R.list .pods ∧ c.nic ∈ R.list (.nics c.id)
  · cases haddr : R.list (.addrs c.id c.nic) with
    | nil =>
        exact ⟨_, _, .bare _ hmem.1 hmem.2 haddr,
          runs_add_reuse_none law up c.id_ne hmem.1 hmem.2 haddr⟩
    | cons x rest =>
        obtain ⟨a, p, hp, rfl⟩ := up.loadable.addrs c.id c.nic x (by simp [haddr])
        exact ⟨_, _, .found a p rest hmem.1 hmem.2 haddr,
          runs_add_reuse law up c.id_ne hmem.1 hmem.2
          c.name_nic.item.ne_nil hp haddr⟩
  · obtain ⟨loaded, pod, ready, hname, hnics, hadd⟩ :=
      runs_add_up base c.nic (netnsPath c.netns) law up c.id_ne
    obtain ⟨o, R', hend, hrun⟩ := runs_createNic_end base law ready up.subnet c pod hname
      (prefixVeth ++ getShortHash c.id)
    refine ⟨o, R', .new hmem hend, ?_⟩
    apply hadd
    simp only [Cni.getPodNic, hnics, if_neg hmem]
    exact hrun

/-- Every ADD on a node without records. -/
theorem runs_add_end_idle (base : Store) (law : Lawful cni net) (hs : R.value .subnet = none)
    (c : Container) {k : ℕ}
    (hk : firstFree (hostText net) (hostCount net) (R.list .addresses) = some k) :
    ∃ o R', NewEnd cni net (net.address + BitVec.ofNat 32 k) c
        (nodeRecords law (hostText net k) (item_hostText net k) R) o R' ∧
      Runs cni.node base (cni.add c.id (netnsPath c.netns) c.nic) R o R' := by
  obtain ⟨loaded, ready, hadd⟩ :=
    runs_add_idle base c.nic (netnsPath c.netns) law hs c.id_ne hk
  obtain ⟨o, R', hend, hrun⟩ := runs_createNic_end base law ready
    (R := nodeRecords law (hostText net k) (item_hostText net k) R) (by simp [nodeRecords_value]) c
    { name := c.id } rfl (prefixVeth ++ getShortHash c.id)
  exact ⟨o, R', hend, hadd o R' hrun⟩

end AddRuns

/-! ### The records of a container -/

section Container
variable {cni : Cni} {net : NetworkV4} {gw : BitVec 32} {R : Registry} {c : Container}

theorem withPod_list (k : ListKey) : (withPod c R).list k =
    if k = .pods then R.list .pods ++ [c.id]
    else if k = .nics c.id then R.list (.nics c.id) ++ [c.nic] else R.list k := by
  cases k <;> simp [withPod, podRecords]

theorem withPod_value (j : ValueKey) : (withPod c R).value j =
    if j = .netns c.id then some (netnsPath c.netns)
    else if j = .podOf c.netns then some c.id else R.value j := by
  cases j <;> simp [withPod, podRecords]

theorem withAddr_list (k : ℕ) (l : ListKey) : (withAddr net gw k c R).list l =
    if l = .addresses then R.list .addresses ++ [hostText net k]
    else if l = .addrs c.id c.nic then R.list (.addrs c.id c.nic) ++ [hostText net k]
    else if l = .routes c.id c.nic then R.list (.routes c.id c.nic) ++ [defaultRoute gw c.nic]
    else R.list l := by
  cases l <;> simp [withAddr, addrRecords]

@[simp] theorem withAddr_value (k : ℕ) : (withAddr net gw k c R).value = R.value := rfl

theorem loadable_withPod (h : Loadable R) : Loadable (withPod c R) := by
  have hpods : Admits .pods c.id := c.name_id.slash
  have hnics : Admits (.nics c.id) c.nic := c.name_nic.slash
  have hpath : ∀ p, ValueKey.netns c.id = .netns p →
      ∃ simple, simpleNetns (netnsPath c.netns) = .ok simple :=
    fun _ _ => ⟨c.netns, simpleNetns_netnsPath c.netns⟩
  exact (((h.assign c.name_id.item.line (by simp)).push c.name_id.item hpods).assign
    c.line_path hpath).push c.name_nic.item hnics

theorem loadable_withAddr (h : Loadable R) (law : Lawful cni net) (gw : BitVec 32) (k : ℕ) :
    Loadable (withAddr net gw k c R) := by
  have hle := law.prefixLength_le
  have haddress : Admits .addresses (hostText net k) := trivial
  have haddr : Admits (.addrs c.id c.nic) (hostText net k) := ⟨_, net.prefixLength, by omega, rfl⟩
  have hroute : Admits (.routes c.id c.nic) (defaultRoute gw c.nic) :=
    parseRoute_defaultRoute gw c.name_nic.item.ne_nil
  exact ((h.push (item_hostText net k) haddress).push (item_hostText net k) haddr).push
    (item_defaultRoute gw c.name_nic) hroute

theorem loadable_nodeRecords (h : Loadable R) (law : Lawful cni net) (k : ℕ) :
    Loadable (nodeRecords law (hostText net k) (item_hostText net k) R) := by
  have hle := law.prefixLength_le
  rw [loadable_iff] at h ⊢
  constructor
  · intro l x hx
    rw [nodeRecords_list] at hx
    split_ifs at hx with h₁ h₂ h₃ h₄ h₅ h₆
    · subst h₁
      rcases List.mem_append.mp hx with hx | hx
      · exact h.1 .pods x hx
      · exact List.mem_singleton.mp hx ▸ name_host.slash
    · subst h₂
      rcases List.mem_append.mp hx with hx | hx
      · exact h.1 _ x hx
      · exact (item_hostNics law x hx).slash
    · subst h₃
      rcases List.mem_append.mp hx with hx | hx
      · exact h.1 _ x hx
      · exact ⟨_, net.prefixLength, by omega, List.mem_singleton.mp hx⟩
    · obtain ⟨-, rfl⟩ := h₄
      rcases List.mem_append.mp hx with hx | hx
      · exact h.1 _ x hx
      · exact ⟨_, 32, by omega, List.mem_singleton.mp hx⟩
    · subst h₅
      trivial
    · subst h₆
      trivial
    · exact h.1 l x hx
  · intro p
    rw [nodeRecords_value]
    by_cases hp : p = host
    · simp only [hp, or_true, if_true, Option.getD_some]
      exact ⟨host, simpleNetns_host⟩
    · simpa [hp] using h.2 p

theorem loadable_dropNic (h : Loadable R) (cni : Cni) (pod nic ip : Text) :
    Loadable (dropNic cni pod nic ip R) := by
  have hreleased : Loadable (if pod = host ∧ nic = cni.underlayDev then R
      else R.prune .addresses ip) := by
    split_ifs
    · exact h
    · exact h.prune _ _
  have hdropped := ((hreleased.clearList (.addrs pod nic)).clearList (.routes pod nic)).prune
    (.nics pod) nic
  by_cases hv : cni.ipamMode = .vxlan
  · simpa only [dropNic, if_pos hv] using hdropped.clear .vtep
  · simpa only [dropNic, if_neg hv] using hdropped

theorem loadable_dropPod (h : Loadable R) (pod : Text) : Loadable (dropPod pod R) := by
  unfold DelRecords.dropPod
  simp only
  split_ifs
  · exact h.clear _
  · split
    · exact ((h.clear _).clear _).prune _ _
    · exact h.clear _

theorem loadable_dropContainer (h : Loadable R) (cni : Cni) (c i : Text) :
    Loadable (dropContainer cni c i R) := by
  unfold DelRecords.dropContainer
  apply loadable_dropPod
  split_ifs
  · exact loadable_dropNic h cni c i _
  · exact h

theorem loadable_tearDownRecords (h : Loadable R) (cni : Cni) (net : NetworkV4) (R₀ : Registry) :
    Loadable (tearDownRecords cni net R₀ R) := by
  have hnic : ∀ {R : Registry} (i : Text), Loadable R → Loadable (dropHostNic cni R₀ i R) := by
    intro R i hR
    unfold DelRecords.dropHostNic
    split_ifs
    · exact loadable_dropNic hR cni host i _
    · exact hR
  exact ((loadable_dropPod (hnic _ (hnic _ (hnic _ h))) host).clear _).prune _ _

end Container

/-! ### The root namespace -/

/-- The node has its subnet and its root namespace, host `k` being the gateway. -/
structure Intact (cni : Cni) (net : NetworkV4) (k : ℕ) (R : Registry) : Prop where
  loadable : Loadable R
  subnet : R.value .subnet = some net.text
  pods : ∃ rest, R.list .pods = host :: rest
  nics : R.list (.nics host) = hostNics cni
  bridge : R.list (.addrs host cni.conf.bridge) = [hostText net k]
  netns : R.value (.netns host) = some host
  podOf : R.value (.podOf host) = some host

/-- Every listed container is found by its namespace. -/
def Owned (R : Registry) : Prop :=
  ∀ p ∈ R.list .pods, ∃ path simple, R.value (.netns p) = some path ∧ path ≠ [] ∧
    simpleNetns path = .ok simple ∧ R.value (.podOf simple) = some p

/-- The node can be set up. -/
structure Idle (cni : Cni) (net : NetworkV4) (R : Registry) : Prop where
  loadable : Loadable R
  subnet : R.value .subnet = none
  pods : R.list .pods = []
  nics : R.list (.nics host) = []
  bridge : R.list (.addrs host cni.conf.bridge) = []
  free : ∃ k, firstFree (hostText net) (hostCount net) (R.list .addresses) = some k

section Intact
variable {cni : Cni} {net : NetworkV4} {R : Registry} {c : Container} {k : ℕ}

theorem hostNics_cons (cni : Cni) : ∃ rest, hostNics cni = cni.conf.bridge :: rest := by
  by_cases hv : cni.ipamMode = .vxlan <;> simp [hostNics, hv]

theorem Intact.root (h : Intact cni net k R) : host ∈ R.list .pods := by
  obtain ⟨rest, hrest⟩ := h.pods
  simp [hrest]

theorem Intact.up (h : Intact cni net k R) (law : Lawful cni net) :
    Up cni net (net.address + BitVec.ofNat 32 k) R where
  loadable := h.loadable
  subnet := h.subnet
  root := h.root
  bridge := by
    obtain ⟨rest, hrest⟩ := hostNics_cons cni
    simp [h.nics, hrest]
  gateway := by
    have hle := law.prefixLength_le
    obtain ⟨rest, hrest⟩ := hostNics_cons cni
    obtain ⟨pods, hpods⟩ := h.pods
    have haddr : Addr.ofCidr cni.boost (hostText net k) =
        ⟨net.address + BitVec.ofNat 32 k, .ipv4, net.prefixLength⟩ :=
      Addr.ofCidr_cidr cni.boost _ (by omega)
    have hbridge : nicGateway cni R host none cni.conf.bridge =
        some ⟨net.address + BitVec.ofNat 32 k, .ipv4, net.prefixLength⟩ := by
      simp [nicGateway, addrObjs, h.bridge, haddr]
    have hroot : podGateway cni R none host =
        some ⟨net.address + BitVec.ofNat 32 k, .ipv4, net.prefixLength⟩ := by
      rw [podGateway, h.nics, hrest, List.foldl_cons, hbridge, foldl_nicGateway]
    exact ⟨net.prefixLength, by rw [gatewayObj, hpods, List.foldl_cons, hroot, foldl_podGateway]⟩

theorem Intact.withPod (h : Intact cni net k R) : Intact cni net k (withPod c R) where
  loadable := loadable_withPod h.loadable
  subnet := by simp [withPod_value, h.subnet]
  pods := by
    obtain ⟨rest, hrest⟩ := h.pods
    exact ⟨rest ++ [c.id], by simp [withPod_list, hrest]⟩
  nics := by simp [withPod_list, h.nics, c.id_ne.symm]
  bridge := by simp [withPod_list, h.bridge]
  netns := by simp [withPod_value, h.netns, c.id_ne.symm]
  podOf := by simp [withPod_value, h.podOf, c.netns_ne.symm]

theorem Intact.withAddr (h : Intact cni net k R) (law : Lawful cni net) (gw : BitVec 32) (j : ℕ) :
    Intact cni net k (withAddr net gw j c R) where
  loadable := loadable_withAddr h.loadable law gw j
  subnet := h.subnet
  pods := by
    obtain ⟨rest, hrest⟩ := h.pods
    exact ⟨rest, by simp [withAddr_list, hrest]⟩
  nics := by simp [withAddr_list, h.nics]
  bridge := by simp [withAddr_list, h.bridge, c.id_ne.symm]
  netns := h.netns
  podOf := h.podOf

theorem Idle.nodeRecords (h : Idle cni net R) (law : Lawful cni net)  (k : ℕ) :
    Intact cni net k (nodeRecords law (hostText net k) (item_hostText net k) R) where
  loadable := loadable_nodeRecords h.loadable law k
  subnet := by simp [nodeRecords_value]
  pods := ⟨[], by simp [nodeRecords_list, h.pods]⟩
  nics := by simp [nodeRecords_list, h.nics]
  bridge := by simp [nodeRecords_list, h.bridge]
  netns := by simp [nodeRecords_value]
  podOf := by simp [nodeRecords_value]

/-- A listed container other than the root namespace has a namespace of its own. -/
theorem Owned.dropPod (h : Owned R) {c : Text} (hc : c ∈ R.list .pods) (R' : Registry)
    (hv : ∀ j, j ≠ .vtep → R'.value j = R.value j) :
    ∃ simple, R.value (.podOf simple) = some c ∧
      dropPod c R' = ((R'.clear (.netns c)).clear (.podOf simple)).prune .pods c := by
  obtain ⟨path, simple, hpath, hne, hs, hp⟩ := h c hc
  refine ⟨simple, hp, ?_⟩
  have hpath' : R'.value (.netns c) = some path := (hv _ (by simp)).trans hpath
  have hp' : R'.value (.podOf simple) = some c := (hv _ (by simp)).trans hp
  simp only [DelRecords.dropPod, hpath', Option.getD_some, if_neg hne, hs, hp']

theorem Owned.withPod (h : Owned R) (hfree : FreeFor R c.netns c.id) : Owned (withPod c R) := by
  intro p hp
  by_cases hpc : p = c.id
  · refine ⟨netnsPath c.netns, c.netns, ?_, by simp [netnsPath], simpleNetns_netnsPath c.netns, ?_⟩
    · simp [withPod_value, hpc]
    · simp [withPod_value, hpc]
  · have hmem : p ∈ R.list .pods := by simpa [withPod_list, hpc] using hp
    obtain ⟨path, simple, hpath, hne, hs, hp⟩ := h p hmem
    have hsimple : simple ≠ c.netns := by
      intro he
      exact hpc (hfree p (he ▸ hp) (R.item .pods p hmem).ne_nil)
    exact ⟨path, simple, by simp [withPod_value, hpc, hpath], hne, hs,
      by simp [withPod_value, hsimple, hp]⟩

/-! ### DEL -/

theorem dropContainer_value (cni : Cni) (h : Owned R) {c : Text}
    (hc : c ∈ R.list .pods) (i : Text) :
    ∃ simple, R.value (.podOf simple) = some c ∧ ∀ j, (dropContainer cni c i R).value j =
      if j = .netns c ∨ j = .podOf simple then none
      else if cni.ipamMode = .vxlan ∧ i ∈ R.list (.nics c) ∧ j = .vtep then none
      else R.value j := by
  by_cases hi : i ∈ R.list (.nics c)
  · obtain ⟨simple, hp, hdrop⟩ := Owned.dropPod h hc
      (dropNic cni c i (firstAddr R c i) R) fun j hj => by simp [dropNic_value, hj]
    refine ⟨simple, hp, ?_⟩
    intro j
    rw [dropContainer, if_pos hi, hdrop]
    cases j <;> simp [dropNic_value, hi]
  · obtain ⟨simple, hp, hdrop⟩ := Owned.dropPod h hc R fun _ _ => rfl
    refine ⟨simple, hp, ?_⟩
    intro j
    rw [dropContainer, if_neg hi, hdrop]
    cases j <;> simp [hi]

theorem dropContainer_pods (h : Owned R) {c : Text} (hc : c ∈ R.list .pods) (i : Text) :
    (dropContainer cni c i R).list .pods = (R.list .pods).filter (· ≠ c) := by
  by_cases hi : i ∈ R.list (.nics c)
  · obtain ⟨simple, -, hdrop⟩ := Owned.dropPod h hc
      (dropNic cni c i (firstAddr R c i) R) fun j hj => by simp [dropNic_value, hj]
    rw [dropContainer, if_pos hi, hdrop]
    simp [dropNic_list]
  · obtain ⟨simple, -, hdrop⟩ := Owned.dropPod h hc R fun _ _ => rfl
    rw [dropContainer, if_neg hi, hdrop]
    simp

theorem dropPod_list (p : Text) (R : Registry) {k : ListKey} (hk : k ≠ .pods) :
    (DelRecords.dropPod p R).list k = R.list k := by
  unfold DelRecords.dropPod
  simp only
  split_ifs
  · rfl
  · split
    · simp [hk]
    · rfl

/-- The records of the other pods stay. -/
theorem dropContainer_list (c i : Text) {k : ListKey} (hp : k ≠ .pods) (ha : k ≠ .addresses)
    (hn : k ≠ .nics c) (haddrs : ∀ i, k ≠ .addrs c i) (hroutes : ∀ i, k ≠ .routes c i) :
    (dropContainer cni c i R).list k = R.list k := by
  rw [DelRecords.dropContainer, dropPod_list c _ hp]
  split_ifs
  · simp [dropNic_list, hn, haddrs i, hroutes i, ha]
  · rfl

theorem Owned.dropContainer (h : Owned R) {c : Text} (hc : c ∈ R.list .pods)
    (cni : Cni) (i : Text) :
    Owned (dropContainer cni c i R) := by
  obtain ⟨simple, hown, hval⟩ := dropContainer_value cni h hc i
  intro p hp
  rw [dropContainer_pods h hc, List.mem_filter] at hp
  have hpc : p ≠ c := of_decide_eq_true hp.2
  obtain ⟨path, s, hpath, hne, hs, hps⟩ := h p hp.1
  have hsimple : s ≠ simple := by
    rintro rfl
    exact hpc (Option.some.inj (hps.symm.trans hown))
  exact ⟨path, s, by simp [hval, hpc, hpath], hne, hs, by simp [hval, hsimple, hps]⟩

theorem Intact.dropContainer (h : Intact cni net k R) (hown : Owned R) {c : Text}
    (hc : c ∈ R.list .pods) (hch : c ≠ host) (i : Text) :
    Intact cni net k (dropContainer cni c i R) := by
  obtain ⟨simple, hsimple, hval⟩ := dropContainer_value cni hown hc i
  have hsh : simple ≠ host := by
    rintro rfl
    exact hch (Option.some.inj (hsimple.symm.trans h.podOf))
  constructor
  · exact loadable_dropContainer h.loadable cni c i
  · simp [hval, h.subnet]
  · obtain ⟨rest, hrest⟩ := h.pods
    rw [dropContainer_pods hown hc, hrest]
    exact ⟨rest.filter (· ≠ c), List.filter_cons_of_pos (by simpa using hch.symm)⟩
  · rw [dropContainer_list c i (by simp) (by simp) (by simp [hch.symm]) (by simp) (by simp), h.nics]
  · rw [dropContainer_list c i (by simp) (by simp) (by simp) (by simp [hch.symm]) (by simp),
      h.bridge]
  · simp [hval, hch.symm, h.netns]
  · simp [hval, hsh.symm, h.podOf]

end Intact

/-! ### The teardown -/

section TearDown
variable {cni : Cni} {net : NetworkV4} {R₀ R R' S : Registry} {c : Container} {k : ℕ}

theorem dropPod_list_subset (pod : Text) (R : Registry) (l : ListKey) :
    (dropPod pod R).list l ⊆ R.list l := by
  intro x hx
  unfold DelRecords.dropPod at hx
  simp only at hx
  split_ifs at hx
  · exact hx
  · split at hx
    · rw [Registry.prune_list] at hx
      split_ifs at hx with hl
      · exact hl ▸ List.mem_of_mem_filter hx
      · exact hx
    · exact hx

/-- Dropping an interface of the root namespace only takes records away. -/
theorem dropHostNic_list_subset (i : Text) (l : ListKey) :
    (dropHostNic cni R₀ i R).list l ⊆ R.list l := by
  intro x hx
  unfold dropHostNic at hx
  split_ifs at hx
  · rw [dropNic_list] at hx
    split_ifs at hx with hn ha hr
    · exact hn ▸ List.mem_of_mem_filter hx
    · cases hx
    · exact hr.1 ▸ List.mem_of_mem_filter hx
    · exact hx
  · exact hx

theorem tearDownRecords_list_subset (R₀ R : Registry) (l : ListKey) :
    (tearDownRecords cni net R₀ R).list l ⊆ R.list l := by
  intro x hx
  unfold tearDownRecords at hx
  have hpod : x ∈ (dropPod host (dropHostNic cni R₀ cni.underlayDev (dropHostNic cni R₀ nameVxlan
      (dropHostNic cni R₀ cni.conf.bridge R)))).list l := by
    rw [Registry.prune_list] at hx
    split_ifs at hx with hl
    · exact hl ▸ List.mem_of_mem_filter hx
    · exact hx
  exact dropHostNic_list_subset _ l (dropHostNic_list_subset _ l (dropHostNic_list_subset _ l
    (dropPod_list_subset host _ l hpod)))

/-- A teardown touches the lists of the root namespace and the shared ones. -/
theorem dropHostNic_list (R₀ R : Registry) (i : Text) {k : ListKey} (ha : k ≠ .addresses)
    (hn : k ≠ .nics host) (haddrs : ∀ i, k ≠ .addrs host i) (hroutes : ∀ i, k ≠ .routes host i) :
    (dropHostNic cni R₀ i R).list k = R.list k := by
  unfold dropHostNic
  split_ifs
  · simp [dropNic_list, ha, hn, haddrs i, hroutes i]
  · rfl

theorem tearDownRecords_list (R₀ R : Registry) {k : ListKey} (hp : k ≠ .pods) (hs : k ≠ .subnets)
    (ha : k ≠ .addresses) (hn : k ≠ .nics host) (haddrs : ∀ i, k ≠ .addrs host i)
    (hroutes : ∀ i, k ≠ .routes host i) : (tearDownRecords cni net R₀ R).list k = R.list k := by
  rw [tearDownRecords, Registry.prune_list, if_neg hs, Registry.clear_list, dropPod_list host _ hp,
    dropHostNic_list _ _ _ ha hn haddrs hroutes, dropHostNic_list _ _ _ ha hn haddrs hroutes,
    dropHostNic_list _ _ _ ha hn haddrs hroutes]

theorem tearDownRecords_subnet (R₀ R : Registry) :
    (tearDownRecords cni net R₀ R).value .subnet = none := by
  simp [tearDownRecords]

theorem tearDownRecords_congr (hn : R₀.list (.nics host) = R'.list (.nics host))
    (ha : ∀ i, R₀.list (.addrs host i) = R'.list (.addrs host i)) (R : Registry) :
    tearDownRecords cni net R₀ R = tearDownRecords cni net R' R := by
  have hdrop : ∀ i S, dropHostNic cni R₀ i S = dropHostNic cni R' i S := by
    intro i S
    simp only [dropHostNic, firstAddr, hn, ha]
  simp only [tearDownRecords, hdrop]

/-- Only the interfaces of the root namespace give back addresses. -/
theorem mem_dropHostNic_addresses {i x : Text} (hne : x ≠ firstAddr R₀ host i)
    (hx : x ∈ R.list .addresses) : x ∈ (dropHostNic cni R₀ i R).list .addresses := by
  unfold dropHostNic
  split_ifs
  · rw [dropNic_list]
    simp only [reduceCtorEq, if_false, true_and, or_self]
    split_ifs
    · exact hx
    · exact List.mem_filter.mpr ⟨hx, decide_eq_true hne⟩
  · exact hx

theorem mem_tearDownRecords_addresses {x : Text} (hne : ∀ i, x ≠ firstAddr R₀ host i)
    (hx : x ∈ R.list .addresses) : x ∈ (tearDownRecords cni net R₀ R).list .addresses := by
  rw [tearDownRecords, Registry.prune_list, if_neg (by simp), Registry.clear_list,
    dropPod_list host _ (by simp)]
  exact mem_dropHostNic_addresses (hne _) (mem_dropHostNic_addresses (hne _)
    (mem_dropHostNic_addresses (hne _) hx))

/-- The root namespace is forgotten under all its keys. -/
theorem dropPod_host (hn : S.value (.netns host) = some host)
    (ho : S.value (.podOf host) = some host) :
    dropPod host S = ((S.clear (.netns host)).clear (.podOf host)).prune .pods host := by
  have hne : host ≠ [] := name_host.item.ne_nil
  simp only [DelRecords.dropPod, hn, Option.getD_some, if_neg hne, simpleNetns_host, ho]

theorem mem_tearDownRecords_pods {p : Text} (hp : p ≠ host)
    (hn : S.value (.netns host) = some host) (ho : S.value (.podOf host) = some host)
    (hS : p ∈ S.list .pods) : p ∈ (tearDownRecords cni net R S).list .pods := by
  have hvalue : ∀ i (T : Registry) (j : ValueKey), j ≠ .vtep →
      (dropHostNic cni R i T).value j = T.value j := fun i T j hj => dropHostNic_value j hj
  have hlist : ∀ i (T : Registry), (dropHostNic cni R i T).list .pods = T.list .pods := by
    intro i T
    unfold dropHostNic
    split_ifs
    · simp [dropNic_list]
    · rfl
  rw [tearDownRecords, dropPod_host]
  · simp only [Registry.prune_list, Registry.clear_list, reduceCtorEq, if_false, if_true, hlist]
    exact List.mem_filter.mpr ⟨hS, decide_eq_true hp⟩
  · simp [hvalue, hn]
  · simp [hvalue, ho]

theorem not_mem_dropHostNic {R₀ : Registry} {i : Text} (hi : i ∈ R₀.list (.nics host)) :
    i ∉ (dropHostNic cni R₀ i R).list (.nics host) := by
  simp [dropHostNic, hi, dropNic_list]

theorem mem_hostNics {i : Text} (hi : i ∈ hostNics cni) :
    i = cni.conf.bridge ∨ i = nameVxlan ∨ i = cni.underlayDev := by
  unfold hostNics at hi
  split_ifs at hi
  · simpa using hi
  · rcases List.mem_cons.mp hi with h | h
    · exact .inl h
    · exact .inr (.inr (List.mem_singleton.mp h))

/-- The teardown leaves a node that can be set up again: the address of its
gateway is free. -/
theorem Intact.tearDown {R₀ : Registry} (h₀ : Intact cni net k R₀) (h : Intact cni net k R)
    (law : Lawful cni net) (hpods : ∀ p ∈ R.list .pods, p = host) (hk : 1 ≤ k ∧ k ≤ hostCount net) :
    Idle cni net (tearDownRecords cni net R₀ R) := by
  obtain ⟨nics, hnics⟩ := hostNics_cons cni
  have hbridge : cni.conf.bridge ∈ R₀.list (.nics host) := by simp [h₀.nics, hnics]
  have hunderlay : cni.underlayDev ∈ R₀.list (.nics host) := by
    rw [h₀.nics, hostNics]
    split_ifs <;> simp
  have hfirst : firstAddr R₀ host cni.conf.bridge = hostText net k := by
    simp [firstAddr, h₀.bridge]
  -- the interfaces of the root namespace, one after the other
  generalize hR₁ : dropHostNic cni R₀ cni.conf.bridge R = R₁
  generalize hR₂ : dropHostNic cni R₀ nameVxlan R₁ = R₂
  generalize hR₃ : dropHostNic cni R₀ cni.underlayDev R₂ = R₃
  have hsub₁ : ∀ l, R₁.list l ⊆ R.list l := fun l => hR₁ ▸ dropHostNic_list_subset _ l
  have hsub₂ : ∀ l, R₂.list l ⊆ R₁.list l := fun l => hR₂ ▸ dropHostNic_list_subset _ l
  have hsub₃ : ∀ l, R₃.list l ⊆ R₂.list l := fun l => hR₃ ▸ dropHostNic_list_subset _ l
  have hvalue : ∀ j, j ≠ .vtep → R₃.value j = R.value j := by
    intro j hj
    rw [← hR₃, dropHostNic_value j hj, ← hR₂, dropHostNic_value j hj, ← hR₁,
      dropHostNic_value j hj]
  have hroot : dropPod host R₃ =
      ((R₃.clear (.netns host)).clear (.podOf host)).prune .pods host :=
    dropPod_host (by rw [hvalue _ (by simp), h.netns]) (by rw [hvalue _ (by simp), h.podOf])
  have hdown : tearDownRecords cni net R₀ R = ((((R₃.clear (.netns host)).clear (.podOf host)).prune
      .pods host).clear .subnet).prune .subnets net.text := by
    rw [tearDownRecords, hR₁, hR₂, hR₃, hroot]
  constructor
  · exact loadable_tearDownRecords h.loadable cni net R₀
  · simp [hdown]
  · rw [hdown]
    simp only [Registry.prune_list, Registry.clear_list, reduceCtorEq, if_false, if_true]
    rw [List.filter_eq_nil_iff]
    intro p hp
    simpa using hpods p (hsub₁ _ (hsub₂ _ (hsub₃ _ hp)))
  · rw [hdown, List.eq_nil_iff_forall_not_mem]
    intro i hi
    have hi₃ : i ∈ R₃.list (.nics host) := by simpa using hi
    have hi₂ := hsub₃ _ hi₃
    have hi₁ := hsub₂ _ hi₂
    have hhost : i ∈ hostNics cni := h.nics ▸ hsub₁ _ hi₁
    rcases mem_hostNics hhost with rfl | rfl | rfl
    · rw [← hR₁] at hi₁
      exact not_mem_dropHostNic hbridge hi₁
    · rw [← hR₂] at hi₂
      exact not_mem_dropHostNic (h₀.nics ▸ hhost) hi₂
    · rw [← hR₃] at hi₃
      exact not_mem_dropHostNic hunderlay hi₃
  · rw [hdown, List.eq_nil_iff_forall_not_mem]
    intro x hx
    have hx₃ : x ∈ R₃.list (.addrs host cni.conf.bridge) := by simpa using hx
    have hx₁ := hsub₂ _ (hsub₃ _ hx₃)
    rw [← hR₁] at hx₁
    simp [dropHostNic, hbridge, dropNic_list] at hx₁
  · have hfree : hostText net k ∉ R₃.list .addresses := by
      intro hx
      have hx₁ := hsub₂ _ (hsub₃ _ hx)
      rw [← hR₁, dropHostNic, if_pos hbridge, hfirst] at hx₁
      simp [dropNic_list, law.bridge_ne_underlay] at hx₁
    cases hfit : firstFree (hostText net) (hostCount net)
        ((tearDownRecords cni net R₀ R).list .addresses) with
    | some j => exact ⟨j, rfl⟩
    | none =>
        have hmem := firstFree_eq_none_iff.mp hfit k hk.1 hk.2
        rw [hdown] at hmem
        exact absurd (by simpa using hmem) hfree

theorem Owned.nodeRecords (h : R.list .pods = []) (law : Lawful cni net) (k : ℕ) :
    Owned (nodeRecords law (hostText net k) (item_hostText net k) R) := by
  intro p hp
  have hph : p = host := by simpa [nodeRecords_list, h] using hp
  subst hph
  exact ⟨host, host, by simp [nodeRecords_value], name_host.item.ne_nil, simpleNetns_host,
    by simp [nodeRecords_value]⟩

theorem Owned.withAddr (h : Owned R) (net : NetworkV4) (gw : BitVec 32) (j : ℕ) :
    Owned (withAddr net gw j c R) := by
  intro p hp
  have hmem : p ∈ R.list .pods := by simpa [withAddr_list] using hp
  exact h p hmem

end TearDown
end Ohno.NodeInvariants
