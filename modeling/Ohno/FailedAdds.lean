import Ohno.AddedNodes
import Ohno.NodeRecovery
import Ohno.VtepRecord

/-!
# An ADD that failed and the DEL after it

ADD writes the records of a container one after the other and undoes nothing
when it fails. What a DEL can undo is what it finds from the records: the list of
pods leads it to the container, the recorded namespace to the entry of that
namespace and to the place on the list, the recorded address to the address that
was given out.
-/
namespace Ohno.FailedAdds
open CommandPrograms DelimitedLists AddressText EtcdClientShell Subnets FirstFit Ipam Netlink Nics
open Storage CniPlugin Records Conducts RecordPrograms RestoredNode DelRecords AddRecords NodeStates
open NodeState NodeHistories NodeInvariants SingleFaults NodeRecovery VtepRecord

/-! ### Where an ADD stops -/

/-- The commands in front of which something was done that no record tells. -/
def Leaves (node : Text) (c : Container) (cmd : Cmd) : Prop :=
  (∃ v, cmd = .etcd (.put (getAllPodsKey node) v)) ∨
  (∃ v, cmd = .etcd (.put (getNetnsKey node c.id) v)) ∨
  (∃ v, cmd = .etcd (.put (getAddrKey node c.id c.nic) v)) ∨
  ∃ name addr netns, cmd = .netlink (.addressSetEntry name addr true netns)

section Stages
variable (c : Container) (ip : Text) (hip : Store.Item ip) (R : Registry)

/-- The namespace has its entry. -/
def claimed : Registry := R.assign (.podOf c.netns) c.id c.name_id.item.line

/-- The container is on the list of pods. -/
def listed : Registry := (claimed c R).push .pods c.id c.name_id.item

/-- Its namespace is recorded. -/
def located : Registry :=
  (listed c R).assign (.netns c.id) (netnsPath c.netns) c.line_path

/-- It was given an address. -/
def given : Registry := (withPod c R).push .addresses ip hip

/-- Its address is recorded. -/
def addressed : Registry := (given c ip hip R).push (.addrs c.id c.nic) ip hip

/-- The records that an ADD leaves in which `cmd` failed. -/
def Stops (node : Text) (cmd : Cmd) (R' : Registry) : Prop :=
  ¬ Leaves node c cmd ∧
    (R' = R ∨ R' = located c R ∨ R' = withPod c R ∨ R' = addressed c ip hip R) ∨
  Leaves node c cmd ∧ (R' = claimed c R ∨ R' = listed c R ∨ R' = given c ip hip R)

end Stages

theorem not_leaves_put {node : Text} {c : Container} {k : RecordKey} (hk : Sound k)
    (hp : k ≠ .inl .pods) (hn : k ≠ .inr (.netns c.id)) (ha : k ≠ .inl (.addrs c.id c.nic))
    (v : Text) : ¬ Leaves node c (.etcd (.put (keyText node k) v)) := by
  have hpods : Sound (.inl .pods) := trivial
  have hnetns : Sound (.inr (.netns c.id)) := c.name_id.slash
  have haddrs : Sound (.inl (.addrs c.id c.nic)) := ⟨c.name_id.slash, c.name_nic.slash⟩
  have hkey : ∀ {k'} {u : Text}, Sound k' → k ≠ k' →
      Cmd.etcd (.put (keyText node k) v) ≠ .etcd (.put (keyText node k') u) := by
    intro k' u hk' hne h
    injection h with h
    injection h with h
    exact hne (keyText_injective hk hk' h)
  intro h
  rcases h with ⟨u, h⟩ | ⟨u, h⟩ | ⟨u, h⟩ | ⟨name, addr, netns, h⟩
  · exact hkey hpods hp h
  · exact hkey hnetns hn h
  · exact hkey haddrs ha h
  · cases h

theorem not_leaves_get (node : Text) (c : Container) (k : Text) :
    ¬ Leaves node c (.etcd (.get k)) := by
  intro h
  rcases h with ⟨u, h⟩ | ⟨u, h⟩ | ⟨u, h⟩ | ⟨name, addr, netns, h⟩ <;> cases h

theorem not_leaves_netlink (node : Text) (c : Container) {n : NetlinkCmd}
    (hn : ∀ name addr netns, n ≠ .addressSetEntry name addr true netns) :
    ¬ Leaves node c (.netlink n) := by
  intro h
  rcases h with ⟨u, h⟩ | ⟨u, h⟩ | ⟨u, h⟩ | ⟨name, addr, netns, h⟩
  · cases h
  · cases h
  · cases h
  · injection h with h
    exact hn name addr netns h

/-! ### The stages of `createNic` -/

/-- The interface is there and has an address. -/
def Works (o : Except Thrown Nic) : Prop :=
  ∃ nic a n, o = .ok nic ∧ nic.getAddr = some ⟨a, .ipv4, n⟩

/-- What `configPodNetwork` does with the address. -/
def useIp (cni : Cni) (gateway : Option Addr) (nic : Nic) (nicName containerId : Text)
    (podAddr : Bool × Text) : OhnoProgram Nic := do
  if podAddr.1 then
    let addr := Addr.ofCidr cni.boost podAddr.2
    let added ← nic.addAddr addr
    if added.1 then
      if ← etcd (Storage.addAddr cni.node containerId nicName addr) then
        match gateway with
        | none => .throw .segfault
        | some gw => do
            let via ← Program.ofExcept gw.getAddr
            let routed ← added.2.addRoute ⟨[], via, nicName⟩ .none
            if routed.1 then
              if ← etcd (Storage.addRoute cni.node containerId nicName ⟨[], via, nicName⟩) then
                pure routed.2
              else
                .throw .standard
            else
              .throw .standard
      else
        Cni.fail cniErrcodeOhno
          s!"Failed to store nic:{str nicName} addr:{str podAddr.2} on node:{str cni.node}"
    else
      Cni.fail 7 s!"Failed to add IP address:{str podAddr.2} to veth on node:{str cni.node}"
  else
    Cni.fail 7 s!"Failed to allocate IP address on node:{str cni.node}"

/-- What `createNic` does with the interface. -/
def plug (cni : Cni) (loaded : Loaded) (peer nicName containerId : Text) (nic : Nic) :
    OhnoProgram Nic :=
  (cni.nicPluginBridge loaded peer).bind fun _ =>
    (etcd (allocateIp cni.boost cni.node)).bind (useIp cni loaded.gateway nic nicName containerId)

/-- What it does once the records of the container are there. -/
def device (cni : Cni) (loaded : Loaded) (peer nicName containerId netns : Text) :
    OhnoProgram Nic := do
  let ret ← Nic.setup { kind := .veth peer, name := prefixOhno ++ getShortHash cni.uniqueId }
  if ret.1 then
    let entered ← ret.2.setNetns netns
    if entered.1 then
      let renamed ← entered.2.rename nicName
      let _ ← renamed.2.setStatus .up
      plug cni loaded peer nicName containerId renamed.2
    else
      Cni.fail 7 s!"Failed to set iface {str nicName} netns"
  else
    Cni.fail 7 s!"Failed to create iface pair {str nicName}--{str peer}"

/-- What it does once the container is listed. -/
def locate (cni : Cni) (loaded : Loaded) (peer nicName containerId netns : Text) :
    OhnoProgram Nic := do
  if ← etcd (Storage.addNetns cni.node containerId netns) then
    if ← etcd (Storage.addNic cni.node containerId nicName) then
      device cni loaded peer nicName containerId netns
    else
      Cni.fail cniErrcodeOhno s!"Failed to store nic:{str nicName} on node:{str cni.node}"
  else
    Cni.fail cniErrcodeOhno s!"Failed to add namespace:{str netns} to pod:{str containerId}"

/-- What it does once it knows whose the namespace is. -/
def register (cni : Cni) (loaded : Loaded) (peer nicName containerId netns cid : Text) :
    OhnoProgram Nic := do
  if cid ≠ [] ∧ cid ≠ containerId then
    Cni.fail 7 (s!"CRI error: Pod:{str cid} and Pod:{str containerId} " ++
      s!"belongs to one namespace:{str netns}")
  else if ← etcd (Storage.addPod cni.node netns containerId) then
    locate cni loaded peer nicName containerId netns
  else
    Cni.fail cniErrcodeOhno s!"Failed to add container:{str containerId} to namespace:{str netns}"

theorem createNic_eq (cni : Cni) (loaded : Loaded) (pod : Netns) (nicName peer netns : Text) :
    cni.createNic loaded pod nicName peer netns =
      (etcd (Storage.getPod cni.node netns)).bind
        (register cni loaded peer nicName pod.name netns) := rfl

section Runs
variable {cni : Cni} {net : NetworkV4} {base : Store} {R : Registry} {gw : BitVec 32}
variable {loaded : Loaded} {c : Container} {nic : Nic}

theorem runs_useIp (base : Store) (R : Registry) (gw : BitVec 32) (p : ℕ)
    (law : Lawful cni net) (c : Container) (hn : nic.netlink = true) (ha : nic.addrs = []) (k : ℕ) :
    ∃ o R', Works o ∧ Runs cni.node base
      (useIp cni (some ⟨gw, .ipv4, p⟩) nic c.nic c.id (true, hostText net k)) R o R' := by
  have hp := law.prefixLength_le
  have haddr : Addr.ofCidr cni.boost (hostText net k) =
      ⟨net.address + BitVec.ofNat 32 k, .ipv4, net.prefixLength⟩ :=
    Addr.ofCidr_cidr cni.boost _ (by omega)
  have hcidr := Addr.getAddrCidr_ipv4 (net.address + BitVec.ofNat 32 k) net.prefixLength
  have hr : Store.Item (getRouteValue [] (dottedQuad gw) c.nic) := item_defaultRoute gw c.name_nic
  refine ⟨.ok { nic with
      addrs := nic.addrs ++ [⟨net.address + BitVec.ofNat 32 k, .ipv4, net.prefixLength⟩]
      routes := nic.routes ++ [⟨[], dottedQuad gw, c.nic⟩] },
    (R.push (.addrs c.id c.nic) (hostText net k) (item_hostText net k)).push (.routes c.id c.nic)
      (defaultRoute gw c.nic) (item_defaultRoute gw c.name_nic),
    ⟨_, net.address + BitVec.ofNat 32 k, net.prefixLength, rfl, by simp [Nic.getAddr, ha]⟩, ?_⟩
  unfold useIp
  simp only [if_true, haddr]
  apply Runs.bind (runs_addAddr hn hcidr)
  simp only [if_true]
  apply Runs.etcd_bind (run_addAddr c.name_id.slash c.name_nic.slash hcidr (item_hostText net k))
  simp only [if_true, Addr.getAddr_ipv4, Program.ofExcept_ok, Program.bind_eq, Program.pure_bind]
  apply Runs.bind (runs_addRoute (by exact hn))
  simp only [if_true]
  apply Runs.etcd_bind (run_addRoute (r := ⟨[], dottedQuad gw, c.nic⟩) c.name_id.slash
    c.name_nic.slash hr)
  exact Runs.pure _ _

/-- The node can give out an address. -/
def Roomy (net : NetworkV4) (R : Registry) : Prop :=
  R.value .subnet = some net.text ∧
    ∃ k, firstFree (hostText net) (hostCount net) (R.list .addresses) = some k

theorem runs_plug (base : Store) (peer : Text) (law : Lawful cni net) (ready : Ready cni loaded gw)
    (roomy : Roomy net R) (c : Container) (nic : Nic) (hn : nic.netlink = true)
    (ha : nic.addrs = []) :
    ∃ o R', Works o ∧ Runs cni.node base (plug cni loaded peer c.nic c.id nic) R o R' := by
  have hp := law.prefixLength_le
  obtain ⟨hs, k, hk⟩ := roomy
  obtain ⟨p, hgw⟩ := ready.gateway
  have hinit : Subnet.init cni.boost ((R.value .subnet).getD []) = .ok ⟨net, .ipv4⟩ := by
    rw [hs]
    exact Subnet.init_cidr _ _ (by omega)
  obtain ⟨o, R', hw, hrun⟩ := runs_useIp base
    (R.push .addresses (hostText net k) (item_hostText net k)) gw p law c hn ha k
  refine ⟨o, R', hw, ?_⟩
  unfold plug
  apply Runs.bind (runs_nicPluginBridge ready peer)
  apply Runs.etcd_bind (run_allocateIp_store cni.boost hinit (by omega))
  rw [takeIp_some hk, hgw]
  exact hrun

theorem runs_device (base : Store) (peer : Text) (law : Lawful cni net)
    (ready : Ready cni loaded gw) (roomy : Roomy net R) (c : Container) :
    ∃ o R', Works o ∧ Runs cni.node base
      (device cni loaded peer c.nic c.id (netnsPath c.netns)) R o R' := by
  obtain ⟨o, R', hw, hrun⟩ := runs_plug base peer law ready roomy c
    { kind := .veth peer, netlink := true, name := c.nic, netns := c.netns } rfl rfl
  refine ⟨o, R', hw, ?_⟩
  unfold device
  apply Runs.bind (runs_setup _)
  simp only [if_true]
  apply Runs.bind (runs_setNetns rfl (simpleNetns_netnsPath c.netns))
  simp only [if_true]
  apply Runs.bind (runs_rename rfl c.name_nic.item.ne_nil)
  apply Runs.bind (runs_setStatus rfl .up)
  exact hrun

theorem runs_locate (base : Store) (peer : Text) (law : Lawful cni net)
    (ready : Ready cni loaded gw) (roomy : Roomy net R) (c : Container) :
    ∃ o R', Works o ∧ Runs cni.node base
      (locate cni loaded peer c.nic c.id (netnsPath c.netns)) R o R' := by
  have roomy' : Roomy net ((R.assign (.netns c.id) (netnsPath c.netns) c.line_path).push
      (.nics c.id) c.nic c.name_nic.item) := by simpa [Roomy] using roomy
  obtain ⟨o, R', hw, hrun⟩ := runs_device base peer law ready roomy' c
  refine ⟨o, R', hw, ?_⟩
  unfold locate
  apply Runs.etcd_bind (run_addNetns c.name_id.slash c.line_path)
  simp only [if_true]
  apply Runs.etcd_bind (run_addNic c.name_id.slash c.name_nic.item)
  exact hrun

theorem runs_register (base : Store) (peer : Text) (law : Lawful cni net)
    (ready : Ready cni loaded gw) (roomy : Roomy net R) (c : Container) (cid : Text)
    (hcid : ¬ (cid ≠ [] ∧ cid ≠ c.id)) :
    ∃ o R', Works o ∧ Runs cni.node base
      (register cni loaded peer c.nic c.id (netnsPath c.netns) cid) R o R' := by
  have roomy' : Roomy net ((R.assign (.podOf c.netns) c.id c.name_id.item.line).push .pods c.id
      c.name_id.item) := by simpa [Roomy] using roomy
  obtain ⟨o, R', hw, hrun⟩ := runs_locate base peer law ready roomy' c
  refine ⟨o, R', hw, ?_⟩
  unfold register
  rw [if_neg hcid]
  apply Runs.etcd_bind (run_addPod (simpleNetns_netnsPath c.netns) c.name_id.item)
  exact hrun

end Runs

/-! ### The same with a command that fails -/

section Bears
variable {m : Conduct} {cni : Cni} {net : NetworkV4} {base : Store} {R : Registry} {gw : BitVec 32}
variable {loaded : Loaded} {c : Container} {nic : Nic} {k : ℕ}

/-- The end of a stage: the interface works, or a command failed and the ADD
throws. -/
abbrev Ended (m : Conduct) (cni : Cni) (net : NetworkV4) (base : Store) (c : Container) (k : ℕ)
    (R : Registry) (p : OhnoProgram Nic) (R₁ : Registry) : Prop :=
  Bears m cni.node base p R₁ (fun o _ => Works o)
    (fun cmd => Throws (Stops c (hostText net k) (item_hostText net k) R cni.node cmd))

theorem bears_useIp (base : Store) (p : ℕ) (hm : m.Obliges) (law : Lawful cni net)
    (hn : nic.netlink = true) (hnil : nic.addrs = [])
    (haddrs : R.list (.addrs c.id c.nic) = []) (hroutes : R.list (.routes c.id c.nic) = []) :
    Ended m cni net base c k R
      (useIp cni (some ⟨gw, .ipv4, p⟩) nic c.nic c.id (true, hostText net k))
      (given c (hostText net k) (item_hostText net k) R) := by
  have hp := law.prefixLength_le
  have haddr : Addr.ofCidr cni.boost (hostText net k) =
      ⟨net.address + BitVec.ofNat 32 k, .ipv4, net.prefixLength⟩ :=
    Addr.ofCidr_cidr cni.boost _ (by omega)
  have hcidr := Addr.getAddrCidr_ipv4 (net.address + BitVec.ofNat 32 k) net.prefixLength
  have hr : Store.Item (getRouteValue [] (dottedQuad gw) c.nic) := item_defaultRoute gw c.name_nic
  have hslash := And.intro c.name_id.slash c.name_nic.slash
  have hitem := item_hostText net k
  have hstore : etcd (Storage.addAddr cni.node c.id c.nic
      ⟨net.address + BitVec.ofNat 32 k, .ipv4, net.prefixLength⟩) =
      etcd (append (ListKey.text cni.node (.addrs c.id c.nic)) (hostText net k)) := by
    simp only [Storage.addAddr, hcidr, Program.ofExcept_ok, Program.bind_eq, Program.pure_bind]
    rfl
  have haddrs' : (given c (hostText net k) hitem R).list (.addrs c.id c.nic) = [] := by
    simp [given, withPod_list, haddrs]
  have hroutes' : (addressed c (hostText net k) hitem R).list (.routes c.id c.nic) = [] := by
    simp [addressed, given, withPod_list, hroutes]
  unfold useIp
  simp only [if_true, haddr, hstore]
  apply Bears.bind_returns hm (bears_addAddr hm hn hcidr)
  · intro r R₁ h
    obtain ⟨rfl, rfl⟩ := h
    simp only [if_true]
    apply Bears.check hm (bears_append_nil hm (l := .addrs c.id c.nic) hslash hitem haddrs')
    · intro R₂ h
      cases h
      simp only [Addr.getAddr_ipv4, Program.ofExcept_ok, Program.bind_eq, Program.pure_bind]
      apply Bears.bind_returns hm (bears_addRoute hm (by exact hn))
      · intro r R₃ h
        obtain ⟨rfl, rfl⟩ := h
        simp only [if_true]
        apply Bears.check hm (bears_append_nil hm (l := .routes c.id c.nic) hslash hr hroutes')
        · intro R₄ _
          exact Bears.pure ⟨_, net.address + BitVec.ofNat 32 k, net.prefixLength, rfl,
            by simp [Nic.getAddr, hnil]⟩
        · intro cmd R₄ h
          obtain ⟨⟨out, rfl⟩, rfl⟩ := h
          exact throws_error (.inl ⟨not_leaves_put (k := .inl (.routes c.id c.nic)) hslash (by simp)
            (by simp) (by simp) out, .inr (.inr (.inr rfl))⟩)
      · intro cmd r R₃ h
        obtain ⟨rfl, rfl, rfl⟩ := h
        simp only [Bool.false_eq_true, if_false]
        exact ⟨_, _, Runs.throw _ _, .inr (throws_error (.inl
          ⟨not_leaves_netlink cni.node c (by simp), .inr (.inr (.inr rfl))⟩))⟩
    · intro cmd R₂ h
      obtain ⟨⟨out, rfl⟩, rfl⟩ := h
      exact throws_error (.inr ⟨.inr (.inr (.inl ⟨out, rfl⟩)), .inr (.inr rfl)⟩)
  · intro cmd r R₁ h
    obtain ⟨rfl, rfl, rfl⟩ := h
    simp only [Bool.false_eq_true, if_false]
    exact ⟨_, _, Runs.throw _ _, .inr (throws_error (.inr
      ⟨.inr (.inr (.inr ⟨_, _, _, rfl⟩)), .inr (.inr rfl)⟩))⟩

/-- What a stage finds: the node can give out an address, `k` being the first
free host, and nothing is recorded for the container. -/
structure Open (net : NetworkV4) (c : Container) (k : ℕ) (R : Registry) : Prop where
  subnet : R.value .subnet = some net.text
  free : firstFree (hostText net) (hostCount net) (R.list .addresses) = some k
  nics : R.list (.nics c.id) = []
  addrs : R.list (.addrs c.id c.nic) = []
  routes : R.list (.routes c.id c.nic) = []

theorem Open.roomy (h : Open net c k R) : Roomy net R := ⟨h.subnet, k, h.free⟩

theorem Open.roomy_withPod (h : Open net c k R) : Roomy net (withPod c R) :=
  ⟨by simp [withPod_value, h.subnet], k, by simp [withPod_list, h.free]⟩

theorem bears_nicPluginBridge (base : Store) (hm : m.Obliges) (ready : Ready cni loaded gw)
    (peer : Text) :
    Bears m cni.node base (cni.nicPluginBridge loaded peer) R (Returns fun _ R' => R' = R)
      (fun cmd => Throws fun R' => ¬ Leaves cni.node c cmd ∧ R' = R) := by
  obtain ⟨obj, pod, bridge, hobj, hpod, hbridge, hkind, hn⟩ := ready.bridge
  unfold Cni.nicPluginBridge
  simp only [hobj, Cni.getKubernetesPod, hpod, Program.pure_eq, Program.bind_eq, Program.pure_bind,
    hbridge, hkind, if_true]
  apply Bears.bind_returns hm (bears_setMaster hm hn peer)
  · intro b R' h
    obtain ⟨rfl, rfl⟩ := h
    exact Bears.pure (returns_ok rfl)
  · intro cmd b R' h
    obtain ⟨rfl, rfl, rfl⟩ := h
    exact ⟨_, _, Runs.throw _ _, .inr (throws_error ⟨not_leaves_netlink cni.node c (by simp), rfl⟩)⟩

theorem bears_plug (base : Store) (peer : Text) (hm : m.Obliges) (law : Lawful cni net)
    (ready : Ready cni loaded gw) (h : Open net c k R) (hn : nic.netlink = true)
    (hnil : nic.addrs = []) :
    Ended m cni net base c k R (plug cni loaded peer c.nic c.id nic) (withPod c R) := by
  have hp := law.prefixLength_le
  obtain ⟨p, hgw⟩ := ready.gateway
  have hinit : Subnet.init cni.boost (((withPod c R).value .subnet).getD []) =
      .ok ⟨net, .ipv4⟩ := by
    rw [h.roomy_withPod.1]
    exact Subnet.init_cidr _ _ (by omega)
  have hfree : firstFree (hostText net) (hostCount net)
      ((withPod c R).list .addresses) = some k := by
    simpa [withPod_list] using h.free
  have htake := takeIp_some hfree
  unfold plug
  apply Bears.bind_throws hm (bears_nicPluginBridge (c := c) base hm ready peer)
  · intro _ R₁ h₁
    cases h₁
    apply Bears.bind_returns hm (bears_allocateIp cni.boost hm hinit (by omega))
    · intro r R₂ hr
      rw [htake] at hr
      obtain ⟨rfl, rfl⟩ := Prod.mk.inj hr
      rw [hgw]
      exact bears_useIp base p hm law hn hnil h.addrs h.routes
    · intro cmd r R₂ hr
      rcases hr with ⟨hc, ⟨j, rfl, -⟩ | ⟨rfl, rfl, -⟩⟩ | ⟨rfl, rfl, rfl⟩
      · rw [hgw]
        obtain ⟨o, R₃, hw, hrun⟩ := runs_useIp base R₂ gw p law c hn hnil j
        exact ⟨o, R₃, hrun, .inl hw⟩
      · have hkeep : ¬ Leaves cni.node c cmd := by
          rcases hc with rfl | ⟨v, rfl⟩
          · exact not_leaves_get _ _ _
          · exact not_leaves_put (k := .inl .addresses) trivial (by simp) (by simp) (by simp) v
        exact ⟨_, _, Runs.throw _ _, .inr (throws_error (.inl ⟨hkeep, .inr (.inr (.inl rfl))⟩))⟩
      · exact ⟨_, _, Runs.throw _ _,
          .inr (throws_error (.inl ⟨not_leaves_get _ _ _, .inr (.inr (.inl rfl))⟩))⟩
  · intro cmd e R₁ hK
    obtain ⟨hkeep, rfl⟩ := hK
    exact throws_error (.inl ⟨hkeep, .inr (.inr (.inl rfl))⟩)

theorem bears_device (base : Store) (peer : Text) (hm : m.Obliges) (law : Lawful cni net)
    (ready : Ready cni loaded gw) (h : Open net c k R) :
    Ended m cni net base c k R (device cni loaded peer c.nic c.id (netnsPath c.netns))
      (withPod c R) := by
  have hplug : ∀ nic : Nic, nic.netlink = true → nic.addrs = [] →
      ∃ o R', Works o ∧ Runs cni.node base (plug cni loaded peer c.nic c.id nic)
        (withPod c R) o R' :=
    fun nic hn hnil => runs_plug base peer law ready h.roomy_withPod c nic hn hnil
  unfold device
  apply Bears.bind_returns hm (bears_setup hm _)
  · intro r R₁ hr
    obtain ⟨rfl, rfl⟩ := hr
    simp only [if_true]
    apply Bears.bind_returns hm (bears_setNetns hm rfl (simpleNetns_netnsPath c.netns))
    · intro r R₁ hr
      obtain ⟨rfl, rfl⟩ := hr
      simp only [if_true]
      apply Bears.bind_returns hm (bears_rename hm rfl c.name_nic.item.ne_nil)
      · intro r R₁ hr
        obtain ⟨rfl, rfl⟩ := hr
        apply Bears.bind_returns hm (bears_setStatus hm rfl .up)
        · intro b R₁ hr
          cases hr
          exact bears_plug base peer hm law ready h rfl rfl
        · intro cmd b R₁ hr
          obtain ⟨-, rfl⟩ := hr
          obtain ⟨o, R', hw, hrun⟩ := hplug
            { kind := .veth peer, netlink := true, name := c.nic, netns := c.netns } rfl rfl
          exact ⟨o, R', hrun, .inl hw⟩
      · intro cmd r R₁ hr
        obtain ⟨rfl, -, rfl⟩ := hr
        obtain ⟨o, R', hw, hrun⟩ := hplug { kind := .veth peer, netlink := true
                                            name := prefixOhno ++ getShortHash cni.uniqueId
                                            netns := c.netns } rfl rfl
        exact ⟨o, R', Runs.bind (runs_setStatus rfl .up) hrun, .inl hw⟩
    · intro cmd r R₁ hr
      obtain ⟨rfl, rfl, rfl⟩ := hr
      simp only [Bool.false_eq_true, if_false]
      exact ⟨_, _, Runs.throw _ _, .inr (throws_error (.inl
        ⟨not_leaves_netlink cni.node c (by simp), .inr (.inr (.inl rfl))⟩))⟩
  · intro cmd r R₁ hr
    obtain ⟨hr, ⟨n, rfl, hd⟩, rfl⟩ := hr
    have hkeep : ¬ Leaves cni.node c (.netlink n) := by
      apply not_leaves_netlink
      rintro name addr netns rfl
      exact hd
    simp only [hr, Bool.false_eq_true, if_false]
    exact ⟨_, _, Runs.throw _ _, .inr (throws_error (.inl ⟨hkeep, .inr (.inr (.inl rfl))⟩))⟩

theorem bears_locate (base : Store) (peer : Text) (hm : m.Obliges) (law : Lawful cni net)
    (ready : Ready cni loaded gw) (h : Open net c k R) :
    Ended m cni net base c k R (locate cni loaded peer c.nic c.id (netnsPath c.netns))
      (listed c R) := by
  have hnics : (located c R).list (.nics c.id) = [] := by simp [located, listed, claimed, h.nics]
  unfold locate
  apply Bears.check hm (bears_put hm (j := .netns c.id) c.name_id.slash c.line_path)
  · intro R₁ h₁
    cases h₁
    apply Bears.check hm (bears_append_nil hm (l := .nics c.id) c.name_id.slash
      c.name_nic.item hnics)
    · intro R₂ h₂
      cases h₂
      exact bears_device base peer hm law ready h
    · intro cmd R₂ hK
      obtain ⟨⟨out, rfl⟩, rfl⟩ := hK
      exact throws_error (.inl ⟨not_leaves_put (k := .inl (.nics c.id)) c.name_id.slash (by simp)
        (by simp) (by simp) out, .inr (.inl rfl)⟩)
  · intro cmd R₁ hK
    obtain ⟨rfl, rfl⟩ := hK
    exact throws_error (.inr ⟨.inr (.inl ⟨_, rfl⟩), .inr (.inl rfl)⟩)

theorem bears_register (base : Store) (peer : Text) (hm : m.Obliges) (law : Lawful cni net)
    (ready : Ready cni loaded gw) (h : Open net c k R) {cid : Text}
    (hcid : ¬ (cid ≠ [] ∧ cid ≠ c.id)) :
    Ended m cni net base c k R
      (register cni loaded peer c.nic c.id (netnsPath c.netns) cid) R := by
  unfold register
  rw [if_neg hcid]
  apply Bears.bind_returns hm (bears_addPod hm (simpleNetns_netnsPath c.netns) c.name_id.item)
  · intro b R₁ hb
    obtain ⟨rfl, rfl⟩ := hb
    exact bears_locate base peer hm law ready h
  · intro cmd b R₁ hb
    rcases hb with ⟨rfl, rfl⟩ | ⟨rfl, ⟨rfl, rfl⟩ | ⟨⟨out, rfl⟩, rfl⟩⟩
    · have roomy :
          Roomy net (((R.assign (.podOf c.netns) c.id c.name_id.item.line).clearList .pods).push
          .pods c.id c.name_id.item) := by simpa [Roomy] using h.roomy
      obtain ⟨o, R', hw, hrun⟩ := runs_locate base peer law ready roomy c
      exact ⟨o, R', hrun, .inl hw⟩
    · exact ⟨_, _, Runs.throw _ _, .inr (throws_error (.inl
        ⟨not_leaves_put (k := .inr (.podOf c.netns)) trivial (by simp) (by simp) (by simp) _,
          .inl rfl⟩))⟩
    · exact ⟨_, _, Runs.throw _ _, .inr (throws_error (.inr ⟨.inl ⟨out, rfl⟩, .inl rfl⟩))⟩

/-- Every failure that `createNic` reports, and the records it leaves. -/
theorem bears_createNic (base : Store) (peer : Text) (hm : m.Obliges) (law : Lawful cni net)
    (ready : Ready cni loaded gw) (h : Open net c k R) (hfree : FreeFor R c.netns c.id) {b : Netns}
    (hname : b.name = c.id) :
    Ended m cni net base c k R (cni.createNic loaded b c.nic peer (netnsPath c.netns)) R := by
  have hcid : ¬ ((R.value (.podOf c.netns)).getD [] ≠ [] ∧
      (R.value (.podOf c.netns)).getD [] ≠ c.id) := by
    intro ⟨hne, hother⟩
    cases hv : R.value (.podOf c.netns) with
    | none => exact hne (by rw [hv]; rfl)
    | some other =>
        rw [hv, Option.getD_some] at hne hother
        exact hother (hfree other hv hne)
  have hget : etcd (Storage.getPod cni.node (netnsPath c.netns)) =
      (etcd (EtcdClientShell.get (ValueKey.text cni.node (.podOf c.netns)))).bind
        fun r => .pure r.out := by
    simp only [Storage.getPod, getSinglePodKey, simpleNetns_netnsPath, bind, Except.bind, pure,
      Except.pure, Program.ofExcept_ok, Program.bind, etcd_bind]
    rfl
  rw [createNic_eq, hget, Program.bind_assoc, hname]
  apply Bears.bind_returns hm (bears_get hm (j := .podOf c.netns) trivial)
  · intro r R₁ hr
    obtain ⟨rfl, rfl⟩ := hr
    exact bears_register base peer hm law ready h hcid
  · intro cmd r R₁ hr
    obtain ⟨rfl, -, rfl⟩ := hr
    obtain ⟨o, R', hw, hrun⟩ := runs_register base peer law ready h.roomy c []
      (fun hc => hc.1 rfl)
    exact ⟨o, R', hrun, .inl hw⟩

end Bears

/-! ### The records of a pod -/

/-- The key `rest` in the directory of a pod. -/
def podPath (node pod rest : Text) : Text :=
  etcdKeyPrefixNode ++ '/' :: (node ++ '/' :: (partPod ++ '/' :: (pod ++ '/' :: rest)))

/-- The list of addresses and everything that is stored for a pod are the same. -/
structure SameRecords (node pod : Text) (s u : Store) : Prop where
  addresses : u (addressKey node) = s (addressKey node)
  pods : pod ∈ u.values (getAllPodsKey node) ↔ pod ∈ s.values (getAllPodsKey node)
  podOf : ∀ simple, u (singlePodKey node simple) = some pod ↔
    s (singlePodKey node simple) = some pod
  directory : ∀ rest, u (podPath node pod rest) = s (podPath node pod rest)

/-- Nothing is stored for a pod. -/
structure Unregistered (pod : Text) (R : Registry) : Prop where
  pods : pod ∉ R.list .pods
  podOf : ∀ simple, R.value (.podOf simple) ≠ some pod
  netns : R.value (.netns pod) = none
  nics : R.list (.nics pod) = []
  addrs : ∀ i, R.list (.addrs pod i) = []
  routes : ∀ i, R.list (.routes pod i) = []

section Same
variable {node : Text} {base : Store} {pod : Text} {R S : Registry}

theorem sameRecords_of_unregistered (node : Text) (base : Store) (hp : '/' ∉ pod)
    (h : Unregistered pod R)
    (h' : Unregistered pod S) (ha : S.list .addresses = R.list .addresses) :
    SameRecords node pod (R.store node base) (S.store node base) where
  addresses := by
    have hk : ∀ T : Registry, T.store node base (addressKey node) = encode (T.list .addresses) :=
      fun T => Registry.store_at (k := .inl .addresses) trivial
    rw [hk, hk, ha]
  pods := by
    have hv : ∀ T : Registry, (T.store node base).values (getAllPodsKey node) = T.list .pods :=
      fun T => Registry.values_store T node base (l := .pods) trivial
    rw [hv, hv]
    simp only [h.pods, h'.pods]
  podOf simple := by
    have hk : ∀ T : Registry,
        T.store node base (singlePodKey node simple) = T.value (.podOf simple) :=
      fun T => Registry.store_at (k := .inr (.podOf simple)) trivial
    rw [hk, hk]
    simp only [h.podOf, h'.podOf]
  directory rest := by
    by_cases hk : ∃ k, Records.Sound k ∧ keyText node k = podPath node pod rest
    · obtain ⟨k, hk, he⟩ := hk
      rw [← he, Registry.store_at hk, Registry.store_at hk]
      rcases key_of_pod hk hp he with rfl | ⟨i, rfl⟩ | ⟨i, rfl⟩ | rfl
      · simp [Registry.shown, h.nics, h'.nics]
      · simp [Registry.shown, h.addrs, h'.addrs]
      · simp [Registry.shown, h.routes, h'.routes]
      · simp [Registry.shown, h.netns, h'.netns]
    · have hoff : ∀ k, Records.Sound k → keyText node k ≠ podPath node pod rest :=
        fun k hs he => hk ⟨k, hs, he⟩
      rw [Registry.store_off hoff, Registry.store_off hoff]

theorem list_of_store {l : ListKey} (hl : l.Sound) (h : R.store node base = S.store node base) :
    R.list l = S.list l := by
  rw [← Registry.values_store R node base hl, h, Registry.values_store S node base hl]

theorem value_of_store {j : ValueKey} (hj : j.Sound) (h : R.store node base = S.store node base) :
    R.value j = S.value j := by
  have hr : R.store node base (keyText node (.inr j)) = R.value j := Registry.store_at hj
  have hs : S.store node base (keyText node (.inr j)) = S.value j := Registry.store_at hj
  rw [← hr, h, hs]

theorem SameRecords.list_addresses
    (h : SameRecords node pod (R.store node base) (S.store node base)) :
    S.list .addresses = R.list .addresses := by
  have ha := Store.values_congr h.addresses
  have hv : ∀ T : Registry, (T.store node base).values (addressKey node) = T.list .addresses :=
    fun T => Registry.values_store T node base (l := .addresses) trivial
  rwa [hv, hv] at ha

theorem SameRecords.mem_pods (h : SameRecords node pod (R.store node base) (S.store node base)) :
    pod ∈ S.list .pods ↔ pod ∈ R.list .pods := by
  have hv : ∀ T : Registry, (T.store node base).values (getAllPodsKey node) = T.list .pods :=
    fun T => Registry.values_store T node base (l := .pods) trivial
  have hpods := h.pods
  rwa [hv, hv] at hpods

theorem SameRecords.value_podOf (h : SameRecords node pod (R.store node base) (S.store node base))
    (simple : Text) :
    S.value (.podOf simple) = some pod ↔ R.value (.podOf simple) = some pod := by
  have hk : ∀ T : Registry,
      T.store node base (singlePodKey node simple) = T.value (.podOf simple) :=
    fun T => Registry.store_at (k := .inr (.podOf simple)) trivial
  have hpodOf := h.podOf simple
  rwa [hk, hk] at hpodOf

end Same

/-! ### What DEL makes of the stages -/

/-- The addresses that the root namespace uses are given out. -/
structure Initialised (cni : Cni) (net : NetworkV4) (k : ℕ) (R : Registry) : Prop
    extends Intact cni net k R where
  given : ∀ i, ∀ x ∈ R.list (.addrs host i), ∀ j, x = hostText net j → x ∈ R.list .addresses

section Stages
variable {cni : Cni} {net : NetworkV4} {base : Store} {R S : Registry} {c : Container} {k : ℕ}
variable {ip : Text}

/-- A stage in which the container is listed. -/
structure Lists (c : Container) (R S : Registry) : Prop where
  pods : S.list .pods = R.list .pods ++ [c.id]
  nics : S.list (.nics host) = R.list (.nics host)
  addrs : ∀ i, S.list (.addrs host i) = R.list (.addrs host i)

theorem delRecords_of_lists (h : Lists c R S) :
    delRecords cni net c.id c.nic S =
      if Alone R c.id then tearDownRecords cni net R (dropContainer cni c.id c.nic S)
      else dropContainer cni c.id c.nic S := by
  have hmem : c.id ∈ S.list .pods := by simp [h.pods]
  have halone : Alone S c.id ↔ Alone R c.id := by
    unfold Alone
    rw [h.pods]
    constructor
    · intro ⟨hhost, hall⟩
      refine ⟨?_, fun p hp => hall p (List.mem_append_left _ hp)⟩
      rcases List.mem_append.mp hhost with hhost | hhost
      · exact hhost
      · exact absurd (List.mem_singleton.mp hhost).symm c.id_ne
    · intro ⟨hhost, hall⟩
      refine ⟨List.mem_append_left _ hhost, ?_⟩
      intro p hp
      rcases List.mem_append.mp hp with hp | hp
      · exact hall p hp
      · exact .inl (List.mem_singleton.mp hp)
  rw [delRecords, if_pos hmem, tearDownRecords_congr h.nics h.addrs]
  simp only [halone]

theorem dropPod_eq (hn : S.value (.netns c.id) = some (netnsPath c.netns))
    (hp : S.value (.podOf c.netns) = some c.id) :
    dropPod c.id S = ((S.clear (.netns c.id)).clear (.podOf c.netns)).prune .pods c.id := by
  have hne : netnsPath c.netns ≠ [] := by simp [netnsPath]
  simp only [DelRecords.dropPod, hn, Option.getD_some, if_neg hne, simpleNetns_netnsPath, hp]

/-- A stage from which DEL finds everything. -/
structure Traces (c : Container) (R S : Registry) : Prop where
  value : ∀ j, S.value j = if j = .netns c.id then some (netnsPath c.netns)
    else if j = .podOf c.netns then some c.id else R.value j
  nics : S.list (.nics c.id) = [] ∨ S.list (.nics c.id) = [c.nic]
  bare : S.list (.nics c.id) = [] → S.list (.addrs c.id c.nic) = []
  addrs : ∀ i, i ≠ c.nic → S.list (.addrs c.id i) = []
  routes : ∀ i, S.list (.routes c.id i) = []
  addresses : (S.list .addresses).filter (· ≠ firstAddr S c.id c.nic) = R.list .addresses

theorem Traces.unregistered (cni : Cni) (h : Traces c R S) (absent : Unregistered c.id R) :
    Unregistered c.id (dropContainer cni c.id c.nic S) := by
  rcases h.nics with hnics | hnics
  · have hi : c.nic ∉ S.list (.nics c.id) := by simp [hnics]
    have hdrop : dropContainer cni c.id c.nic S =
        ((S.clear (.netns c.id)).clear (.podOf c.netns)).prune .pods c.id := by
      rw [dropContainer, if_neg hi]
      exact dropPod_eq (by simp [h.value]) (by simp [h.value])
    rw [hdrop]
    constructor
    · simp
    · intro simple
      by_cases hs : simple = c.netns
      · simp [hs]
      · simpa [h.value, hs] using absent.podOf simple
    · simp
    · simp [hnics]
    · intro i
      by_cases hi : i = c.nic
      · simp [hi, h.bare hnics]
      · simp [h.addrs i hi]
    · intro i
      simp [h.routes]
  · have hi : c.nic ∈ S.list (.nics c.id) := by simp [hnics]
    have hv : ∀ j, j ≠ .vtep → (dropNic cni c.id c.nic (firstAddr S c.id c.nic) S).value j =
        S.value j := by
      intro j hj
      simp [dropNic_value, hj]
    have hdrop : dropContainer cni c.id c.nic S =
        (((dropNic cni c.id c.nic (firstAddr S c.id c.nic) S).clear (.netns c.id)).clear
          (.podOf c.netns)).prune .pods c.id := by
      rw [dropContainer, if_pos hi]
      exact dropPod_eq (by rw [hv _ (by simp)]; simp [h.value])
        (by rw [hv _ (by simp)]; simp [h.value])
    rw [hdrop]
    constructor
    · simp
    · intro simple
      by_cases hs : simple = c.netns
      · simp [hs]
      · have hvalue := hv (.podOf simple) (by simp)
        simpa [hvalue, h.value, hs] using absent.podOf simple
    · simp
    · simp [dropNic_list, hnics]
    · intro i
      by_cases hi : i = c.nic
      · simp [dropNic_list, hi]
      · simp [dropNic_list, h.addrs i hi]
    · intro i
      simp [dropNic_list, h.routes]

theorem Traces.list_addresses (h : Traces c R S) :
    (dropContainer cni c.id c.nic S).list .addresses = R.list .addresses := by
  rw [dropContainer, dropPod_list _ _ (by simp)]
  rcases h.nics with hnics | hnics
  · have hfirst : firstAddr S c.id c.nic = [] := by simp [firstAddr, h.bare hnics]
    have haddresses := h.addresses
    rw [hfirst, List.filter_eq_self.mpr] at haddresses
    · simpa [hnics] using haddresses
    · intro x hx
      exact decide_eq_true (S.item .addresses x hx).ne_nil
  · have hhost : ¬ (c.id = host ∧ c.nic = cni.underlayDev) := fun hc => c.id_ne hc.1
    have haddresses := h.addresses
    simpa [hnics, dropNic_list, hhost] using haddresses

theorem lists_located : Lists c R (located c R) where
  pods := by simp [located, listed, claimed]
  nics := by simp [located, listed, claimed]
  addrs i := by simp [located, listed, claimed]

theorem lists_listed : Lists c R (listed c R) where
  pods := by simp [listed, claimed]
  nics := by simp [listed, claimed]
  addrs i := by simp [listed, claimed]

theorem lists_withPod : Lists c R (withPod c R) where
  pods := by simp [withPod_list]
  nics := by simp [withPod_list, c.id_ne.symm]
  addrs i := by simp [withPod_list]

theorem lists_given (hip : Store.Item ip) : Lists c R (given c ip hip R) where
  pods := by simp [given, withPod_list]
  nics := by simp [given, withPod_list, c.id_ne.symm]
  addrs i := by simp [given, withPod_list]

theorem lists_addressed (hip : Store.Item ip) : Lists c R (addressed c ip hip R) where
  pods := by simp [addressed, given, withPod_list]
  nics := by simp [addressed, given, withPod_list, c.id_ne.symm]
  addrs i := by simp [addressed, given, withPod_list, c.id_ne.symm]

theorem filter_nil_addresses (R : Registry) :
    (R.list .addresses).filter (· ≠ []) = R.list .addresses := by
  apply List.filter_eq_self.mpr
  intro x hx
  exact decide_eq_true (R.item .addresses x hx).ne_nil

theorem traces_located (absent : Unregistered c.id R) : Traces c R (located c R) where
  value j := by cases j <;> simp [located, listed, claimed]
  nics := .inl (by simp [located, listed, claimed, absent.nics])
  bare _ := by simp [located, listed, claimed, absent.addrs]
  addrs i _ := by simp [located, listed, claimed, absent.addrs]
  routes i := by simp [located, listed, claimed, absent.routes]
  addresses := by simpa [firstAddr, located, listed, claimed, absent.addrs] using
    filter_nil_addresses R

theorem traces_withPod (absent : Unregistered c.id R) : Traces c R (withPod c R) where
  value j := withPod_value j
  nics := .inr (by simp [withPod_list, absent.nics])
  bare _ := by simp [withPod_list, absent.addrs]
  addrs i _ := by simp [withPod_list, absent.addrs]
  routes i := by simp [withPod_list, absent.routes]
  addresses := by simpa [firstAddr, withPod_list, absent.addrs] using filter_nil_addresses R

theorem traces_addressed (absent : Unregistered c.id R) (hip : Store.Item ip)
    (hnew : ip ∉ R.list .addresses) : Traces c R (addressed c ip hip R) where
  value j := withPod_value j
  nics := .inr (by simp [addressed, given, withPod_list, absent.nics])
  bare hn := by simp [addressed, given, withPod_list, absent.nics] at hn
  addrs i hi := by simp [addressed, given, withPod_list, absent.addrs, hi]
  routes i := by simp [addressed, given, withPod_list, absent.routes]
  addresses := by
    have hkeep : (R.list .addresses).filter (· ≠ ip) = R.list .addresses := by
      apply List.filter_eq_self.mpr
      intro x hx
      exact decide_eq_true fun he => hnew (he ▸ hx)
    simpa [firstAddr, addressed, given, withPod_list, absent.addrs] using hkeep

end Stages

/-! ### The ADD that fails and the DEL after it -/

/-- Pod `pod` is as it was in the map `s`, or it was the only container, and the
node was torn down from there. -/
def Undoes (cni : Cni) (net : NetworkV4) (pod : Text) (R : Registry) (base u : Store) : Prop :=
  SameRecords cni.node pod (R.store cni.node base) u ∨
  Alone R pod ∧ ∃ R₁ : Registry,
    SameRecords cni.node pod (R.store cni.node base) (R₁.store cni.node base) ∧
    u = (tearDownRecords cni net R R₁).store cni.node base

section Undone
variable {cni : Cni} {net : NetworkV4} {base : Store} {R S : Registry} {c : Container} {k : ℕ}

theorem undoes_of_traces (hlist : Lists c R S) (h : Traces c R S) (absent : Unregistered c.id R) :
    Undoes cni net c.id R base ((delRecords cni net c.id c.nic S).store cni.node base) := by
  have hsame := sameRecords_of_unregistered cni.node base c.name_id.slash absent
    (h.unregistered cni absent) h.list_addresses
  rw [delRecords_of_lists hlist]
  split_ifs with halone
  · exact .inr ⟨halone, _, hsame, rfl⟩
  · exact .inl hsame

/-- The addresses of the root namespace were given out. -/
theorem Initialised.ne_firstAddr (h : Initialised cni net k R) {j : ℕ}
    (hj : hostText net j ∉ R.list .addresses) (i : Text) : hostText net j ≠ firstAddr R host i := by
  intro he
  unfold firstAddr at he
  cases hl : R.list (.addrs host i) with
  | nil =>
      rw [hl] at he
      exact (item_hostText net j).ne_nil he
  | cons x rest =>
      rw [hl] at he
      have hx : x ∈ R.list (.addrs host i) := by simp [hl]
      exact hj (he ▸ h.given i x hx j he.symm)

theorem not_undoes_claimed (absent : Unregistered c.id R) (h : Intact cni net k R) :
    ¬ Undoes cni net c.id R base
      ((delRecords cni net c.id c.nic (claimed c R)).store cni.node base) := by
  have hdel : delRecords cni net c.id c.nic (claimed c R) = claimed c R := by
    rw [delRecords, if_neg]
    simpa [claimed] using absent.pods
  rw [hdel]
  intro hu
  rcases hu with hsame | ⟨-, R₁, -, hstore⟩
  · exact absent.podOf c.netns ((hsame.value_podOf c.netns).mp (by simp [claimed]))
  · have hsub := value_of_store (j := .subnet) trivial hstore
    rw [tearDownRecords_subnet] at hsub
    simp [claimed, h.subnet] at hsub

/-- A teardown lists no pod that was not listed. -/
theorem not_undoes_of_pods (absent : Unregistered c.id R) {u : Store}
    (hmem : c.id ∈ u.values (getAllPodsKey cni.node)) : ¬ Undoes cni net c.id R base u := by
  have hv : ∀ T : Registry,
      (T.store cni.node base).values (getAllPodsKey cni.node) = T.list .pods :=
    fun T => Registry.values_store T cni.node base (l := .pods) trivial
  intro hu
  rcases hu with hsame | ⟨-, R₁, hsame, rfl⟩
  · have hpods := hsame.pods.mp hmem
    rw [hv] at hpods
    exact absent.pods hpods
  · rw [hv] at hmem
    exact absent.pods (hsame.mem_pods.mp (tearDownRecords_list_subset R R₁ .pods hmem))

theorem not_undoes_listed (absent : Unregistered c.id R) (h : Intact cni net k R) :
    ¬ Undoes cni net c.id R base
      ((delRecords cni net c.id c.nic (listed c R)).store cni.node base) := by
  have hdrop : dropContainer cni c.id c.nic (listed c R) = (listed c R).clear (.netns c.id) := by
    simp [dropContainer, DelRecords.dropPod, listed, claimed, absent.nics, absent.netns]
  have hmem : c.id ∈ ((listed c R).clear (.netns c.id)).list .pods := by simp [listed, claimed]
  have hmem' : c.id ∈ (delRecords cni net c.id c.nic (listed c R)).list .pods := by
    rw [delRecords_of_lists lists_listed, hdrop]
    split_ifs
    · apply mem_tearDownRecords_pods c.id_ne _ _ hmem
      · simp [listed, claimed, h.netns, c.id_ne.symm]
      · simp [listed, claimed, h.podOf, c.netns_ne.symm]
    · exact hmem
  apply not_undoes_of_pods absent
  have hvalues := Registry.values_store (delRecords cni net c.id c.nic (listed c R)) cni.node base
    (l := .pods) trivial
  simp only [ListKey.text] at hvalues
  rwa [hvalues]

theorem not_undoes_given (absent : Unregistered c.id R) (h : Initialised cni net k R) {j : ℕ}
    (hj : hostText net j ∉ R.list .addresses) :
    ¬ Undoes cni net c.id R base ((delRecords cni net c.id c.nic
      (given c (hostText net j) (item_hostText net j) R)).store cni.node base) := by
  have hne : hostText net j ≠ [] := (item_hostText net j).ne_nil
  have hmem : hostText net j ∈ (dropContainer cni c.id c.nic
      (given c (hostText net j) (item_hostText net j) R)).list .addresses := by
    rw [dropContainer, dropPod_list _ _ (by simp)]
    simp [given, withPod_list, dropNic_list, firstAddr, absent.addrs, absent.nics, hne, c.id_ne]
  have hmem' : hostText net j ∈ (delRecords cni net c.id c.nic
      (given c (hostText net j) (item_hostText net j) R)).list .addresses := by
    rw [delRecords_of_lists (lists_given _)]
    split_ifs
    · exact mem_tearDownRecords_addresses (h.ne_firstAddr hj) hmem
    · exact hmem
  intro hu
  rcases hu with hsame | ⟨-, R₁, hsame, hstore⟩
  · exact hj (hsame.list_addresses ▸ hmem')
  · rw [list_of_store (l := .addresses) trivial hstore] at hmem'
    exact hj (hsame.list_addresses ▸ tearDownRecords_list_subset R R₁ .addresses hmem')

/-- What DEL does after each end of an ADD. -/
theorem undoes_of_stops (base : Store) (h : Initialised cni net k R)
    (absent : Unregistered c.id R) {j : ℕ} (hj : hostText net j ∉ R.list .addresses) {cmd : Cmd}
    (hs : Stops c (hostText net j) (item_hostText net j) R cni.node cmd S) :
    Undoes cni net c.id R base ((delRecords cni net c.id c.nic S).store cni.node base) ↔
      ¬ Leaves cni.node c cmd := by
  rcases hs with ⟨hkeep, hS⟩ | ⟨hleave, hS⟩
  · simp only [hkeep, not_false_eq_true, iff_true]
    rcases hS with rfl | rfl | rfl | rfl
    · have hdel : delRecords cni net c.id c.nic S = S := by rw [delRecords, if_neg absent.pods]
      rw [hdel]
      exact .inl (sameRecords_of_unregistered _ _ c.name_id.slash absent absent rfl)
    · exact undoes_of_traces lists_located (traces_located absent) absent
    · exact undoes_of_traces lists_withPod (traces_withPod absent) absent
    · exact undoes_of_traces (lists_addressed _) (traces_addressed absent _ hj) absent
  · simp only [hleave, not_true_eq_false, iff_false]
    rcases hS with rfl | rfl | rfl
    · exact not_undoes_claimed absent h.toIntact
    · exact not_undoes_listed absent h.toIntact
    · exact not_undoes_given absent h hj

end Undone

/-- An ADD of `c` on the map `s` that would return, if `cmd` did not fail once
there is a node. It throws and leaves the map `u`. -/
def FailedAdd (cni : Cni) (c : Container) (s : Store) (cmd : Cmd) (u : Store) : Prop :=
  (∀ o w, (cni.add c.id (netnsPath c.netns) c.nic).Exec Conduct.obliging.handle ⟨s, [], none⟩ o w →
    ∃ r, o = .ok r) ∧
  ∃ loaded w ret v e x t,
    cni.getKubernetesCluster.Exec Conduct.oneFault.handle ⟨s, [], none⟩ (.ok loaded) w ∧
    (cni.getKubernetesNode loaded).Exec Conduct.oneFault.handle w (.ok ret) v ∧ v.fault = none ∧
    (addContainer cni c ret).Exec Conduct.oneFault.handle v (.error e) x ∧
    x.fault = some (cmd, t) ∧ u = x.store

section Claim
variable {m : Conduct} {cni : Cni} {net : NetworkV4} {base : Store} {R S : Registry} {c : Container}
variable {k j : ℕ}

theorem open_of_returns (law : Lawful cni net) (h : Intact cni net k R)
    (absent : Unregistered c.id R)
    (hret : ∀ o w, (cni.add c.id (netnsPath c.netns) c.nic).Exec Conduct.obliging.handle
      ⟨R.store cni.node base, [], none⟩ o w → ∃ r, o = .ok r) :
    FreeFor R c.netns c.id ∧ ∃ j, Open net c j R := by
  obtain ⟨o, R', hend, hrun⟩ := runs_add_end base law (h.up law) c
  have hx := Program.exec_run (Conduct.handle_comply (m := .obliging) fun _ _ => rfl)
    (cni.add c.id (netnsPath c.netns) c.nic) ⟨R.store cni.node base, [], none⟩
  obtain ⟨r, hr⟩ := hret _ _ hx
  have ho := (hrun.exec Conduct.obliges_obliging (Conduct.settled_obliging none) hx).1
  rw [hr] at ho
  cases hend with
  | found a p rest pod => exact absurd pod absent.pods
  | bare e => cases ho
  | new _ hend =>
      cases hend with
      | refused e => cases ho
      | exhausted e => cases ho
      | new j free fit =>
          exact ⟨free, j, h.subnet, fit, absent.nics, absent.addrs c.nic, absent.routes c.nic⟩

theorem bears_addContainer (base : Store) (hm : m.Obliges) (law : Lawful cni net)
    (h : Intact cni net k R) (absent : Unregistered c.id R) (free : FreeFor R c.netns c.id)
    (hopen : Open net c j R) :
    Bears m cni.node base (addContainer cni c (nodeObj cni R net, loadedObj cni R net)) R
      (fun o _ => ∃ r, o = .ok r)
      (fun cmd => Throws (Stops c (hostText net j) (item_hostText net j) R cni.node cmd)) := by
  have up := h.up law
  obtain ⟨pod, obj, hpod, hname, hhost, hnics⟩ := getKubernetesPod_nodeObj up c.id_ne
  have ready := ready_loadedObj law up hhost
  have hreplace : replace (loadedObj cni R net).cluster cni.node obj = [(cni.node, obj)] := by
    simp [replace, loadedObj]
  have hgateway : (loadedObj cni R net).gateway = gatewayObj cni R := rfl
  have hnone : pod.nics.lookup c.nic = none := by
    rw [hnics, if_neg fun hc => absent.pods hc.1]
  unfold addContainer
  simp only [hpod, Program.bind_eq, Program.pure_bind, hreplace, hgateway, Cni.getPodNic, hnone]
  apply Bears.bind hm (bears_createNic base (prefixVeth ++ getShortHash c.id) hm law
    ready hopen free
    hname)
  · intro nic R₁ hw
    obtain ⟨nic', a, n, ho, haddr⟩ := hw
    cases ho
    rw [result_of_addr haddr ready.gateway]
    exact Bears.pure ⟨_, rfl⟩
  · intro e R₁ hw
    obtain ⟨nic', a, n, ho, -⟩ := hw
    cases ho
  · intro cmd nic R₁ hK
    obtain ⟨⟨e, he⟩, -⟩ := hK
    cases he
  · exact fun cmd e R₁ hK => throws_error hK.2

/-- Everything an ADD can leave that failed on a node that is up. -/
theorem FailedAdd.stops (law : Lawful cni net) (h : Intact cni net k R)
    (absent : Unregistered c.id R) {cmd : Cmd} {u : Store}
    (hf : FailedAdd cni c (R.store cni.node base) cmd u) :
    ∃ j S, hostText net j ∉ R.list .addresses ∧
      Stops c (hostText net j) (item_hostText net j) R cni.node cmd S ∧
        u = S.store cni.node base := by
  have hm := Conduct.obliges_oneFault
  have hp := law.prefixLength_le
  obtain ⟨hret, loaded, w, ret, v, e, x, t, hload, hnode, hnone, hx, hfault, rfl⟩ := hf
  obtain ⟨free, j, hopen⟩ := open_of_returns law h absent hret
  have hwnone : w.fault = none := by
    cases hw : w.fault with
    | none => rfl
    | some f =>
        rw [exec_fault_some hnode hw] at hnone
        cases hnone
  have hcluster : Runs cni.node base cni.getKubernetesCluster R (.ok (loadedObj cni R net)) R :=
    runs_getKubernetesCluster h.loadable h.subnet (by omega)
  obtain ⟨hloaded, hstore, -⟩ := hcluster.exec Conduct.obliges_obliging
    (Conduct.settled_obliging none) (exec_fault_none hload hwnone)
  cases hloaded
  rw [getKubernetesNode_loadedObj] at hnode
  obtain ⟨ho, rfl⟩ := hnode
  cases ho
  obtain ⟨store, log, fault⟩ := v
  change store = _ at hstore
  change fault = none at hnone
  subst hstore hnone
  obtain ⟨S, hS, ⟨r, hr⟩ | ⟨c', s', hc', -, hstops⟩⟩ :=
    (bears_addContainer base hm law h absent free hopen).exec hx
  · cases hr
  · rw [hfault] at hc'
    cases hc'
    exact ⟨j, S, (firstFree_eq_some_iff.mp hopen.free).2.2.1, hstops, hS⟩

theorem Stops.intact (h : Intact cni net k R) {ip : Text} {hip : Store.Item ip} {cmd : Cmd}
    (ha : ∃ a n, n ≤ 32 ∧ ip = cidr a n) (hs : Stops c ip hip R cni.node cmd S) :
    Loadable S ∧ S.value .subnet = some net.text ∧ host ∈ S.list .pods := by
  have hpods : Admits .pods c.id := c.name_id.slash
  have hclaimed : Loadable (claimed c R) := h.loadable.assign _ (by simp)
  have hlisted : Loadable (listed c R) := hclaimed.push c.name_id.item hpods
  have hlocated : Loadable (located c R) :=
    hlisted.assign _ fun _ _ => ⟨c.netns, simpleNetns_netnsPath c.netns⟩
  have hpod : Loadable (withPod c R) := loadable_withPod h.loadable
  have hgiven : Loadable (given c ip hip R) := hpod.push (k := .addresses) hip trivial
  have haddressed : Loadable (addressed c ip hip R) :=
    hgiven.push (k := .addrs c.id c.nic) hip ha
  have hroot := h.root
  have hsub := h.subnet
  rcases hs with ⟨-, rfl | rfl | rfl | rfl⟩ | ⟨-, rfl | rfl | rfl⟩
  · exact ⟨h.loadable, hsub, hroot⟩
  · exact ⟨hlocated, by simp [located, listed, claimed, hsub],
      by simp [located, listed, claimed, hroot]⟩
  · exact ⟨hpod, by simp [withPod_value, hsub], by simp [withPod_list, hroot]⟩
  · exact ⟨haddressed, by simp [addressed, given, withPod_value, hsub],
      by simp [addressed, given, withPod_list, hroot]⟩
  · exact ⟨hclaimed, by simp [claimed, hsub], by simp [claimed, hroot]⟩
  · exact ⟨hlisted, by simp [listed, claimed, hsub], by simp [listed, claimed, hroot]⟩
  · exact ⟨hgiven, by simp [given, withPod_value, hsub], by simp [given, withPod_list, hroot]⟩

/-- A following DEL undoes the ADD exactly if nothing was left that no record
tells. -/
theorem add_undone_iff (law : Lawful cni net) (h : Initialised cni net k R)
    (absent : Unregistered c.id R) {mac : Mac} {uniqueId : Text} {cmd : Cmd} {u : Store}
    (hf : FailedAdd (process cni mac uniqueId) c (R.store cni.node base) cmd u) :
    (∀ (mac' : Mac) (uniqueId' : Text) (o : Outcome) (w : World),
      (Call.program cni ⟨.del, c, mac', uniqueId'⟩).Exec Conduct.obliging.handle ⟨u, [], none⟩ o w →
        Undoes cni net c.id R base w.store) ↔ ¬ Leaves cni.node c cmd := by
  have hle := law.prefixLength_le
  obtain ⟨j, S, hj, hstops, rfl⟩ := hf.stops (lawful_process law mac uniqueId)
    (RegistryHistories.intact_process.mpr h.toIntact) absent
  obtain ⟨hload, hsub, hhost⟩ := Stops.intact h.toIntact
    ⟨_, net.prefixLength, by omega, rfl⟩ hstops
  rw [← undoes_of_stops base h absent hj hstops]
  have hdel : ∀ (mac' : Mac) (uniqueId' : Text), Runs cni.node base
      (Call.program cni ⟨.del, c, mac', uniqueId'⟩) S (.ok none)
        (delRecords cni net c.id c.nic S) := by
    intro mac' uniqueId'
    exact Runs.bind (DelRecords.runs_del base (lawful_process law mac' uniqueId') hload hsub hhost
      c.name_id.slash c.id_ne c.name_nic.slash) (Runs.pure _ _)
  have hexec : ∀ {mac' : Mac} {uniqueId' : Text} {o : Outcome} {w : World},
      (Call.program cni ⟨.del, c, mac', uniqueId'⟩).Exec Conduct.obliging.handle
        ⟨S.store cni.node base, [], none⟩ o w →
      w.store = (delRecords cni net c.id c.nic S).store cni.node base := fun hx =>
    ((hdel _ _).exec Conduct.obliges_obliging (Conduct.settled_obliging none) hx).2.1
  constructor
  · intro hall
    have hx := Program.exec_run (Conduct.handle_comply (m := .obliging) fun _ _ => rfl)
      (Call.program cni ⟨.del, c, mac, uniqueId⟩) ⟨S.store cni.node base, [], none⟩
    have hu := hall mac uniqueId _ _ hx
    rwa [hexec hx] at hu
  · intro hu mac' uniqueId' o w hx
    rw [hexec hx]
    exact hu

end Claim

/-! ### A container that cannot be listed -/

section Records
variable {cni : Cni} {net : NetworkV4} {law : Lawful cni net} {others : List Text}
variable {ho : ∀ x ∈ others, Store.Item x} {st : NodeState}

theorem intact_records : Intact cni net 1 (records law others ho st) where
  loadable := loadable_records
  subnet := rfl
  pods := ⟨_, rfl⟩
  nics := by simp [records]
  bridge := by simp [records, hostAddrs]
  netns := by simp [records]
  podOf := by simp [records]

/-- The addresses of the root namespace are the gateway, which was given out, and
that of the VTEP, which is the address of no host. -/
theorem initialised_records : Initialised cni net 1 (records law others ho st) where
  toIntact := intact_records
  given := by
    intro i x hx j hj
    have hle := law.prefixLength_le
    simp only [records, if_true, hostAddrs] at hx
    split_ifs at hx
    · rw [List.mem_singleton.mp hx]
      exact List.mem_cons_self
    · rw [List.mem_singleton.mp hx] at hj
      have hlen : 32 = net.prefixLength := (cidr_injective hj).2
      omega
    · cases hx

theorem unregistered_records {c : Text} (hc : c ≠ host) (hp : ∀ p ∈ st.pods, p.id ≠ c) :
    Unregistered c (records law others ho st) := by
  have hid : st.ofId c = [] := by
    apply List.filter_eq_nil_iff.mpr
    intro p hmem
    simpa using hp p hmem
  have hnic : ∀ i, st.ofNic c i = [] := by
    intro i
    apply List.filter_eq_nil_iff.mpr
    intro p hmem
    simp [hp p hmem]
  constructor
  · intro hmem
    rcases List.mem_cons.mp hmem with h | h
    · exact hc h
    · obtain ⟨p, hmem, h⟩ := List.mem_map.mp h
      exact hp p hmem h
  · intro simple h
    simp only [records] at h
    split_ifs at h
    · exact hc (Option.some.inj h).symm
    · obtain ⟨p, hfind, h⟩ := Option.map_eq_some_iff.mp h
      exact hp p (List.mem_of_find?_eq_some hfind) h
  · simp [records, hc, hid]
  · simp [records, hc, hid]
  · intro i
    simp [records, hc, hnic, ips]
  · intro i
    simp [records, hc, hnic, ips]

end Records

/-- One container runs on node `a`. -/
def running : Registry := records lawful_cniA [] items_nil ⟨[⟨containerA, some 2⟩], some macA⟩

theorem store_running : (addA.finish cniA noRecords).2 = running.store ['a'] noRecords := by
  have hrun := runs_add_fresh noRecords lawful_cniA [] items_nil containerA macA ['u']
  have hx := Program.exec_run (Conduct.handle_comply (m := .obliging) fun _ _ => rfl)
    (addA.program cniA) ⟨noRecords, [], none⟩
  have hs : noRecords = (fresh [] items_nil).store ['a'] noRecords :=
    (unrecorded_noRecords ['a']).eq_fresh items_nil rfl
  have hstart : (⟨noRecords, [], none⟩ : World) =
      ⟨(fresh [] items_nil).store ['a'] noRecords, [], none⟩ := by rw [← hs]
  rw [hstart] at hx
  have hfinish : (addA.finish cniA noRecords).2 =
      ((addA.program cniA).run Conduct.comply
        ⟨(fresh [] items_nil).store ['a'] noRecords, [], none⟩).2.store := by
    rw [← hs]
    rfl
  rw [hfinish]
  exact (hrun.exec Conduct.obliges_obliging (Conduct.settled_obliging none) hx).2.1

theorem unregistered_running : Unregistered containerC.id running :=
  unregistered_records (by decide +kernel) (by decide +kernel)

theorem returns_running {o : Except Thrown CniResult} {w : World}
    (hx : ((process cniA macA ['u']).add containerC.id (netnsPath containerC.netns)
      containerC.nic).Exec Conduct.obliging.handle ⟨running.store ['a'] noRecords, [], none⟩ o w) :
    ∃ r, o = .ok r := by
  have law := lawful_process lawful_cniA macA ['u']
  have hnone : running.value (.podOf containerC.netns) = none := by decide +kernel
  have free : FreeFor running containerC.netns containerC.id := by
    intro other h
    rw [hnone] at h
    cases h
  have hj : firstFree (hostText netA) (hostCount netA) (running.list .addresses) = some 3 := by
    decide +kernel
  have up : Up (process cniA macA ['u']) netA (gateway netA) running :=
    (RegistryHistories.intact_process.mpr intact_records).up law
  have hadd := runs_add_new noRecords law up containerC.id_ne
    (fun h => unregistered_running.pods h.1) (simpleNetns_netnsPath containerC.netns)
    containerC.name_id containerC.name_nic containerC.line_path free hj
  exact ⟨_, (hadd.exec Conduct.obliges_obliging (Conduct.settled_obliging none) hx).1⟩

/-- The record of the container among the namespaces. -/
def netnsRecord : Cmd := .etcd (.put (getNetnsKey ['a'] containerC.id) (netnsPath containerC.netns))

/-- The ADD of the second container up to the point where the node is restored. -/
def load : Except Thrown Loaded × World :=
  (process cniA macA ['u']).getKubernetesCluster.run (stumble netnsRecord)
    ⟨(addA.finish cniA noRecords).2, [], none⟩

def restored : Loaded := load.1.toOption.getD {}

/-- It ends where that record fails. -/
def stopped : Except Thrown CniResult × World :=
  (addContainer (process cniA macA ['u']) containerC
    ((restored.cluster.lookup ['a']).getD {}, restored)).run (stumble netnsRecord) load.2

theorem failedAdd_stopped :
    FailedAdd (process cniA macA ['u']) containerC (running.store ['a'] noRecords) netnsRecord
      stopped.2.store := by
  have hc : ∀ c w, Conduct.oneFault.handle c w (stumble netnsRecord c w).1
      (stumble netnsRecord c w).2 := handle_stumble (fun _ _ => rfl) trivial
  refine ⟨fun o w hx => returns_running hx, ?_⟩
  rw [← store_running]
  have hload : load.1 = .ok restored := by decide +kernel
  have hlookup : restored.cluster.lookup ['a'] =
      some ((restored.cluster.lookup ['a']).getD {}) := by
    decide +kernel
  have hnone : load.2.fault.isNone = true := by decide +kernel
  have hfault : stopped.2.fault.map Prod.fst = some netnsRecord := by decide +kernel
  have herror : stopped.1.toOption.isNone = true := by decide +kernel
  obtain ⟨⟨cmd, t⟩, hw, rfl⟩ := Option.map_eq_some_iff.mp hfault
  have hnode : (process cniA macA ['u']).getKubernetesNode restored =
      .pure ((restored.cluster.lookup ['a']).getD {}, restored) :=
    Cni.getKubernetesNode_found _ hlookup
  have hx := Program.exec_run hc (addContainer (process cniA macA ['u']) containerC
    ((restored.cluster.lookup ['a']).getD {}, restored)) load.2
  change Program.Exec _ _ _ stopped.1 stopped.2 at hx
  cases he : stopped.1 with
  | error e =>
      rw [he] at hx
      refine ⟨restored, load.2, _, load.2, e, stopped.2, t, Program.exec_of_run hc hload, ?_,
        Option.isNone_iff_eq_none.mp hnone, hx, hw, rfl⟩
      rw [hnode]
      exact ⟨rfl, rfl⟩
  | ok r =>
      rw [he] at herror
      cases herror

theorem leaves_netnsRecord : Leaves ['a'] containerC netnsRecord := .inr (.inl ⟨_, rfl⟩)

theorem add_undone_iff_stopped :
    (∀ (mac' : Mac) (uniqueId' : Text) (o : Outcome) (w : World),
      (Call.program cniA ⟨.del, containerC, mac', uniqueId'⟩).Exec Conduct.obliging.handle
        ⟨stopped.2.store, [], none⟩ o w →
        Undoes cniA netA containerC.id running noRecords w.store) ↔
      ¬ Leaves ['a'] containerC netnsRecord :=
  add_undone_iff lawful_cniA initialised_records unregistered_running failedAdd_stopped

/-- The container is listed without a namespace, and DEL leaves it there. -/
theorem listed_for_good : ∃ cmd u o w,
    FailedAdd (process cniA macA ['u']) containerC (running.store ['a'] noRecords) cmd u ∧
      (Call.program cniA ⟨.del, containerC, macA, ['u']⟩).Exec Conduct.obliging.handle
        ⟨u, [], none⟩ o w ∧
      ¬ Undoes cniA netA containerC.id running noRecords w.store := by
  have hlisted : containerC.id ∈ ((Call.program cniA ⟨.del, containerC, macA, ['u']⟩).run
      Conduct.comply ⟨stopped.2.store, [], none⟩).2.store.values (getAllPodsKey ['a']) := by
    decide +kernel
  exact ⟨_, _, _, _, failedAdd_stopped,
    Program.exec_run (Conduct.handle_comply fun _ _ => rfl) _ _,
    not_undoes_of_pods unregistered_running hlisted⟩

end Ohno.FailedAdds
