import Ohno.CutPrograms
import Ohno.DelRecords

/-!
# What a process sees of a node

`getKubernetesCluster` takes a list that it cannot read for an empty one. So
when one of its commands fails the objects are those of another registry,
`unread R c`, as far as DEL uses them: the names of the containers and of their
interfaces, and the addresses of these. A container that is listed twice is
restored twice, and the second time nothing depends on what is read.
-/
namespace Ohno.SeenNodes
open CommandPrograms CommandTraces DelimitedLists AddressText EtcdClientShell Subnets Ipam Netlink
open Nics Storage CniPlugin Records Conducts RecordPrograms RestoredNode DelRecords SingleFaults
open CutPrograms

/-! ### Parts that only talk to the network -/

section Quiet
variable {nic : Nic} {cni : Cni}

theorem quiet_netlink (c : NetlinkCmd) : Quiet (Netlink.netlink c) := ⟨⟨c, rfl⟩, fun _ => trivial⟩

theorem quiet_addEntry {isExist setEntry : NetlinkCmd} {known : Nic} :
    Quiet (nic.addEntry isExist setEntry known) := by
  unfold Nic.addEntry
  split_ifs
  · apply (quiet_netlink _).bind
    intro found
    cases found with
    | true => trivial
    | false =>
        apply (quiet_netlink _).bind
        intro set
        cases set <;> trivial
  · trivial

theorem quiet_addAddr (addr : Addr) : Quiet (nic.addAddr addr) := by
  apply (Only.ofExcept addr.getAddrCidr).bind
  intro cidr
  exact quiet_addEntry

theorem quiet_setNetns (netns : Text) : Quiet (nic.setNetns netns) := by
  unfold Nic.setNetns
  split_ifs
  · apply (Only.ofExcept (simpleNetns netns)).bind
    intro simple
    apply (quiet_netlink _).bind
    intro there
    cases there with
    | true => trivial
    | false =>
        apply (quiet_netlink _).bind
        intro moved
        cases moved <;> trivial
  · trivial

theorem quiet_setup : Quiet nic.setup := by
  unfold Nic.setup
  split
  · trivial
  · trivial
  · apply (quiet_netlink _).bind
    intro found
    cases found with
    | true => trivial
    | false => exact (quiet_netlink _).bind fun _ => trivial
  · exact (quiet_netlink _).bind fun _ => trivial
  · apply (quiet_netlink _).bind
    intro found
    cases found with
    | true => trivial
    | false => exact (quiet_netlink _).bind fun _ => trivial

theorem quiet_cleanupRoutes (routes : List Route) : Quiet (nic.cleanupRoutes routes) := by
  induction routes with
  | nil => trivial
  | cons r routes ih =>
      apply (quiet_netlink _).bind
      intro found
      cases found with
      | true => exact (quiet_netlink _).bind fun _ => ih
      | false => exact ih

theorem quiet_cleanupAddrs (addrs : List Addr) : Quiet (nic.cleanupAddrs addrs) := by
  induction addrs with
  | nil => trivial
  | cons a addrs ih =>
      apply (Only.ofExcept a.getAddrCidr).bind
      intro cidr
      exact (quiet_netlink _).bind fun _ => ih

theorem quiet_cleanup : Quiet nic.cleanup := by
  unfold Nic.cleanup
  split_ifs
  · exact (quiet_cleanupRoutes _).bind fun _ => trivial
  · apply (quiet_cleanupRoutes _).bind
    intro _
    apply (quiet_cleanupAddrs _).bind
    intro _
    exact (quiet_netlink _).bind fun _ => trivial
  · trivial

theorem quiet_getStorageNic {pod i : Text} : Quiet (cni.getStorageNic pod i) :=
  quiet_setup.bind fun _ => trivial

theorem quiet_restoreAddrs (i : Text) (cidrs : List Text) (gateway : Option Addr) :
    Quiet (cni.restoreAddrs i cidrs nic gateway) := by
  induction cidrs generalizing nic gateway with
  | nil => trivial
  | cons x cidrs ih =>
      apply (quiet_addAddr _).bind
      intro ret
      exact ih _

theorem quiet_restoreRoutes (routes : List Route) : Quiet (Cni.restoreRoutes routes nic) := by
  induction routes generalizing nic with
  | nil => trivial
  | cons r routes ih =>
      apply Only.bind (quiet_addEntry : Quiet (nic.addRoute r .none))
      intro ret
      exact ih

end Quiet

/-! ### What is seen -/

/-- The list that the command reads looks empty. -/
def unread (node : Text) (R : Registry) (c : Cmd) : Registry where
  list k := if c = .etcd (.get (keyText node (.inl k))) then [] else R.list k
  value := R.value
  item := by
    intro k x hx
    split_ifs at hx
    · cases hx
    · exact R.item k x hx
  line := R.line

section Reads
variable (node pod i : Text)

/-- The reads for an interface. -/
inductive ReadsNic : Cmd → Prop where
  | netns : ReadsNic (.etcd (.get (keyText node (.inr (.netns pod)))))
  | addrs : ReadsNic (.etcd (.get (keyText node (.inl (.addrs pod i)))))
  | routes : ReadsNic (.etcd (.get (keyText node (.inl (.routes pod i)))))

/-- The reads for a container with these interfaces. -/
inductive ReadsPod (nics : List Text) : Cmd → Prop where
  | nics : ReadsPod nics (.etcd (.get (keyText node (.inl (.nics pod)))))
  | nic {c : Cmd} (i : Text) (mem : i ∈ nics) (h : ReadsNic node pod i c) : ReadsPod nics c

end Reads

section Unread
variable {node pod i : Text} {R : Registry} {c : Cmd} {k : ListKey}

@[simp] theorem unread_value (j : ValueKey) : (unread node R c).value j = R.value j := rfl

theorem loadable_unread (h : Loadable R) (node : Text) (c : Cmd) : Loadable (unread node R c) := by
  rw [loadable_iff] at h ⊢
  refine ⟨?_, h.2⟩
  intro l x hx
  change x ∈ (if c = .etcd (.get (keyText node (.inl l))) then [] else R.list l) at hx
  split_ifs at hx
  · cases hx
  · exact h.1 l x hx

theorem unread_of_ne (h : c ≠ .etcd (.get (keyText node (.inl k)))) :
    (unread node R c).list k = R.list k := if_neg h

theorem unread_get {k' : RecordKey} (hk' : Sound k') (hk : k.Sound) :
    (unread node R (.etcd (.get (keyText node k')))).list k =
      if k' = .inl k then [] else R.list k := by
  have hsound : Sound (.inl k) := hk
  by_cases h : k' = .inl k
  · rw [if_pos h, h]
    exact if_pos rfl
  · rw [if_neg h]
    apply unread_of_ne
    intro heq
    injection heq with heq
    injection heq with heq
    exact h (keyText_injective hk' hsound heq)

theorem ReadsNic.list_eq (h : ReadsNic node pod i c) (hp : '/' ∉ pod) (hi : '/' ∉ i) (hk : k.Sound)
    (hne : k ≠ .addrs pod i) (hroutes : k ≠ .routes pod i) :
    (unread node R c).list k = R.list k := by
  have hsound : '/' ∉ pod ∧ '/' ∉ i := ⟨hp, hi⟩
  cases h with
  | netns => rw [unread_get (show Sound (.inr (.netns pod)) from hp) hk, if_neg (by simp)]
  | addrs =>
      rw [unread_get (show Sound (.inl (.addrs pod i)) from hsound) hk, if_neg]
      simpa using hne.symm
  | routes =>
      rw [unread_get (show Sound (.inl (.routes pod i)) from hsound) hk, if_neg]
      simpa using hroutes.symm

end Unread

/-! ### Restoring an interface -/

section RestoreNic
variable {X : Cmd → Prop} {cni : Cni} {base : Store} {R : Registry} {pod i : Text} {obj : Nic}
variable {gateway : Option Addr}

/-- The routes are read last. -/
def readRoutes (cni : Cni) (pod i : Text) (obj : Nic) (gateway : Option Addr) :
    OhnoProgram (Option Nic × Option Addr) :=
  (etcd (Storage.getAllRoutes cni.node pod i)).bind fun routes =>
    (Cni.restoreRoutes routes obj).bind fun obj => .pure (some obj, gateway)

/-- The addresses are read, then the routes. -/
def readAddrs (cni : Cni) (pod i : Text) (obj : Nic) (gateway : Option Addr) :
    OhnoProgram (Option Nic × Option Addr) :=
  (etcd (Storage.getAllAddrs cni.node pod i)).bind fun addrs =>
    (cni.restoreAddrs i addrs obj gateway).bind fun ret => readRoutes cni pod i ret.1 ret.2

/-- An interface of this name with these addresses was restored. -/
def Restored (i : Text) (addrs : List Addr) (o : Except Thrown (Option Nic × Option Addr)) : Prop :=
  ∃ obj gateway, o = .ok (some obj, gateway) ∧ obj.name = i ∧ obj.addrs = addrs

theorem restoreNic_eq (cni : Cni) (pod i : Text) (gateway : Option Addr) :
    cni.restoreNic pod i gateway = (cni.getStorageNic pod i).bind fun ret =>
      match ret with
      | none => .pure (none, gateway)
      | some obj => (cni.enterNetns pod obj).bind fun obj => readAddrs cni pod i obj gateway := rfl

theorem runs_readRoutes (cni : Cni) (base : Store) (h : Loadable R) (hp : '/' ∉ pod) (hi : '/' ∉ i)
    (obj : Nic) (hn : obj.netlink = true) (gateway : Option Addr) : ∃ obj', Runs cni.node base
      (readRoutes cni pod i obj gateway) R (.ok (some obj', gateway)) R ∧
      obj'.name = obj.name ∧ obj'.addrs = obj.addrs := by
  obtain ⟨routes, hr⟩ := h.routes pod i
  refine ⟨{ obj with routes := obj.routes ++ routes }, ?_, rfl, rfl⟩
  apply Runs.etcd_bind (run_getAllRoutes hp hi hr)
  apply Runs.bind (runs_restoreRoutes routes obj hn)
  exact Runs.pure _ R

theorem runs_readAddrs (cni : Cni) (base : Store) (h : Loadable R) (hp : '/' ∉ pod) (hi : '/' ∉ i)
    (obj : Nic) (hn : obj.netlink = true) (ha : obj.addrs = []) (gateway : Option Addr) :
    ∃ o, Runs cni.node base (readAddrs cni pod i obj gateway) R o R ∧
      Restored obj.name (addrObjs cni R pod i) o := by
  obtain ⟨obj', hrun, hname, haddrs⟩ := runs_readRoutes cni base h hp hi
    { obj with addrs := obj.addrs ++ addrObjs cni R pod i } hn
    (if i = cni.conf.bridge then gateway.or (addrObjs cni R pod i).head? else gateway)
  have hrestored : Restored obj.name (addrObjs cni R pod i) (.ok (some obj',
      if i = cni.conf.bridge then gateway.or (addrObjs cni R pod i).head? else gateway)) :=
    ⟨obj', _, rfl, hname, by rw [haddrs, ha, List.nil_append]⟩
  refine ⟨_, ?_, hrestored⟩
  apply Runs.etcd_bind (run_getAllAddrs hp hi)
  exact Runs.bind (runs_restoreAddrs (h.addrs pod i) obj hn gateway) hrun

theorem cuts_getAllRoutes (h : Loadable R) (hk : (ListKey.routes pod i).Sound) :
    Cuts X cni.node base (etcd (Storage.getAllRoutes cni.node pod i)) R True
      (fun c T o R' => c = .etcd (.get (keyText cni.node (.inl (.routes pod i)))) ∧ T = R ∧
        o = .ok [] ∧ R' = R) := by
  obtain ⟨routes, hr⟩ := h.routes pod i
  have heq : etcd (Storage.getAllRoutes cni.node pod i) =
      (etcd (listOrEmpty (ListKey.text cni.node (.routes pod i)))).bind fun items =>
        etcd (Program.ofExcept (items.mapM parseRoute)) := etcd_bind _ _
  have hlist : Runs cni.node base (etcd (listOrEmpty (ListKey.text cni.node (.routes pod i)))) R
      (.ok (R.list (.routes pod i))) R := Runs.etcd (run_listOrEmpty hk)
  rw [heq]
  apply Cuts.bind hlist (cuts_listOrEmpty (.routes pod i))
  · intro _
    rw [hr]
    exact Cuts.pure _ trivial
  · intro c T b R' hc
    obtain ⟨rfl, rfl, hb, rfl⟩ := hc
    cases hb
    exact ⟨_, _, Runs.pure _ _, rfl, rfl, rfl, rfl⟩
  · intro c T e R' hc
    cases hc.2.2.1

theorem cuts_readRoutes (h : Loadable R) (hp : '/' ∉ pod) (hi : '/' ∉ i) (obj : Nic)
    (hn : obj.netlink = true) : Cuts X cni.node base (readRoutes cni pod i obj gateway) R True
      (fun c T o R' => c = .etcd (.get (keyText cni.node (.inl (.routes pod i)))) ∧ T = R ∧ R' = R ∧
        Restored obj.name obj.addrs o) := by
  obtain ⟨routes, hr⟩ := h.routes pod i
  apply Cuts.bind (Runs.etcd (run_getAllRoutes hp hi hr)) (cuts_getAllRoutes h ⟨hp, hi⟩)
  · intro _
    exact Cuts.quiet ((quiet_restoreRoutes _).bind fun _ => trivial) trivial
  · intro c T b R' hc
    obtain ⟨rfl, rfl, hb, rfl⟩ := hc
    cases hb
    refine ⟨_, _, Runs.bind (runs_restoreRoutes [] obj hn) (Runs.pure _ _), rfl, rfl, rfl, ?_⟩
    exact ⟨_, _, rfl, rfl, rfl⟩
  · intro c T e R' hc
    cases hc.2.2.1

theorem cuts_readAddrs (h : Loadable R) (hp : '/' ∉ pod) (hi : '/' ∉ i) (hn : obj.netlink = true)
    (ha : obj.addrs = []) : Cuts X cni.node base (readAddrs cni pod i obj gateway) R
      (¬ X (.etcd (.get (keyText cni.node (.inl (.addrs pod i))))))
      (fun c T o R' => T = R ∧ R' = R ∧
        (c = .etcd (.get (keyText cni.node (.inl (.addrs pod i)))) ∧ Restored obj.name [] o ∨
          c = .etcd (.get (keyText cni.node (.inl (.routes pod i)))) ∧
            Restored obj.name (addrObjs cni R pod i) o)) := by
  apply Cuts.bind (Runs.etcd (run_getAllAddrs hp hi)) (cuts_listOrEmpty (.addrs pod i))
  · intro hX
    apply Cuts.quiet_bind (quiet_restoreAddrs _ _ _)
      (runs_restoreAddrs (h.addrs pod i) obj hn gateway)
    apply (cuts_readRoutes h hp hi { obj with addrs := obj.addrs ++ addrObjs cni R pod i } hn).mono
    · intro _
      exact hX
    · intro c T o R' hc
      obtain ⟨hc, hT, hR, hrestored⟩ := hc
      rw [ha, List.nil_append] at hrestored
      exact ⟨hT, hR, .inr ⟨hc, hrestored⟩⟩
  · intro c T b R' hc
    obtain ⟨rfl, rfl, hb, rfl⟩ := hc
    cases hb
    obtain ⟨obj', hrun, hname, haddrs⟩ := runs_readRoutes cni base h hp hi obj hn gateway
    have hrestored : Restored obj.name [] (.ok (some obj', gateway)) :=
      ⟨obj', _, rfl, hname, haddrs.trans ha⟩
    exact ⟨_, _, hrun, rfl, rfl, .inl ⟨rfl, hrestored⟩⟩
  · intro c T e R' hc
    cases hc.2.2.1

theorem cuts_enterNetns (h : Loadable R) (hp : '/' ∉ pod) (hn : obj.netlink = true)
    (hnetns : obj.netns = []) : Cuts X cni.node base (cni.enterNetns pod obj) R True
      (fun c T o R' => c = .etcd (.get (keyText cni.node (.inr (.netns pod)))) ∧ T = R ∧ R' = R ∧
        o = .ok obj) := by
  unfold Cni.enterNetns
  split_ifs
  · exact Cuts.pure _ trivial
  · apply Cuts.bind (Runs.etcd (run_getNetns hp)) (cuts_getNetns pod)
    · intro _
      exact Cuts.quiet ((quiet_setNetns _).bind fun _ => trivial) trivial
    · intro c T b R' hc
      obtain ⟨rfl, rfl, hb, rfl⟩ := hc
      cases hb
      refine ⟨_, _, Runs.bind (runs_setNetns hn simpleNetns_nil) (Runs.pure _ _), rfl, rfl, rfl, ?_⟩
      rw [← hnetns]
    · intro c T e R' hc
      cases hc.2.2.1

theorem cuts_restoreNic (h : Loadable R) (hp : '/' ∉ pod) (hi : '/' ∉ i) :
    Cuts X cni.node base (cni.restoreNic pod i gateway) R
      (¬ X (.etcd (.get (keyText cni.node (.inl (.addrs pod i))))))
      (fun c T o R' => ReadsNic cni.node pod i c ∧ T = R ∧ R' = R ∧
        Restored i (addrObjs cni (unread cni.node R c) pod i) o) := by
  have haddrs : (ListKey.addrs pod i).Sound := ⟨hp, hi⟩
  have hkey : Sound (.inl (.addrs pod i)) := haddrs
  have hsame : ∀ k : RecordKey, Sound k → k ≠ .inl (.addrs pod i) →
      addrObjs cni (unread cni.node R (.etcd (.get (keyText cni.node k)))) pod i =
        addrObjs cni R pod i := by
    intro k hk hne
    rw [addrObjs, unread_get hk haddrs, if_neg hne, addrObjs]
  rw [restoreNic_eq]
  apply Cuts.quiet_bind quiet_getStorageNic runs_getStorageNic
  apply Cuts.bind (runs_enterNetns h hp rfl rfl) (cuts_enterNetns h hp rfl rfl)
  · intro _
    apply (cuts_readAddrs h hp hi rfl rfl).mono
    · exact fun hX => hX
    · intro c T o R' hc
      obtain ⟨hT, hR, ⟨rfl, hrestored⟩ | ⟨rfl, hrestored⟩⟩ := hc
      · have hnil : addrObjs cni (unread cni.node R
            (.etcd (.get (keyText cni.node (.inl (.addrs pod i)))))) pod i = [] := by
          rw [addrObjs, unread_get hkey haddrs, if_pos rfl, List.map_nil]
        exact ⟨.addrs, hT, hR, hnil ▸ hrestored⟩
      · refine ⟨.routes, hT, hR, ?_⟩
        rw [hsame (.inl (.routes pod i)) haddrs (by simp)]
        exact hrestored
  · intro c T b R' hc
    obtain ⟨rfl, rfl, rfl, hb⟩ := hc
    cases hb
    obtain ⟨o, hrun, hrestored⟩ := runs_readAddrs cni base h hp hi
      { kind := storageKind cni pod i, netlink := true, name := i } rfl rfl gateway
    refine ⟨o, _, hrun, .netns, rfl, rfl, ?_⟩
    rw [hsame (.inr (.netns pod)) hp (by simp)]
    exact hrestored
  · intro c T e R' hc
    cases hc.2.2.2

end RestoreNic

/-! ### Restoring the containers -/

section Maps
variable {V : Type} {f g : Text → V} {ks : List Text} {m : List (Text × V)}

/-- The object under a key that is there does not matter. -/
theorem foldl_emplace_congr (h : ∀ k ∈ ks, m.lookup k = none → f k = g k) :
    ks.foldl (fun m k => emplace m k (f k)) m = ks.foldl (fun m k => emplace m k (g k)) m := by
  induction ks generalizing m with
  | nil => rfl
  | cons k ks ih =>
      have hk : emplace m k (f k) = emplace m k (g k) := by
        unfold emplace
        split_ifs with hs
        · rfl
        · rw [h k List.mem_cons_self (Option.not_isSome_iff_eq_none.mp hs)]
      rw [List.foldl_cons, List.foldl_cons, hk]
      apply ih
      intro j hj hnone
      rw [lookup_emplace] at hnone
      split_ifs at hnone
      exact h j (List.mem_cons_of_mem k hj) hnone

/-- The first key has an object of its own. -/
theorem foldl_update (f : Text → V) (ks : List Text) (m : List (Text × V)) (k : Text) (v : V) :
    (k :: ks).foldl (fun m j => emplace m j (Function.update f k v j)) m =
      ks.foldl (fun m j => emplace m j (f j)) (emplace m k v) := by
  rw [List.foldl_cons, Function.update_self]
  apply foldl_emplace_congr
  intro j _ hnone
  rw [lookup_emplace] at hnone
  split_ifs at hnone with hj
  exact Function.update_of_ne hj v f

end Maps

section RestorePods
variable {X : Cmd → Prop} {cni : Cni} {base : Store} {R : Registry} {pod : Text}
variable {gateway : Option Addr}

/-- The interfaces of a container that were restored when the command `c` failed. -/
structure NicsRestored (cni : Cni) (R : Registry) (pod : Text) (c : Cmd)
    (nics : List Text) (obj : Netns)
    (o : Except Thrown (Netns × Option Addr)) : Prop where
  reads : ∃ i ∈ nics, ReadsNic cni.node pod i c
  obj : ∃ (g : Text → Nic) (gateway : Option Addr),
    o = .ok ({ obj with nics := nics.foldl (fun m i => emplace m i (g i)) obj.nics }, gateway) ∧
      ∀ i ∈ nics, (g i).name = i ∧ (g i).addrs = addrObjs cni (unread cni.node R c) pod i

theorem cuts_restoreNics (h : Loadable R) (hp : '/' ∉ pod) {nics : List Text} (obj : Netns)
    (hi : ∀ i ∈ nics, '/' ∉ i) (nodup : nics.Nodup) (hnew : ∀ i ∈ nics, obj.nics.lookup i = none) :
    Cuts X cni.node base (cni.restoreNics pod nics obj gateway) R
      (∀ i ∈ nics, ¬ X (.etcd (.get (keyText cni.node (.inl (.addrs pod i))))))
      (fun c T o R' => T = R ∧ R' = R ∧ NicsRestored cni R pod c nics obj o) := by
  induction nics generalizing obj gateway with
  | nil => exact Cuts.pure _ (by simp)
  | cons i nics ih =>
      obtain ⟨hfresh, hnodup⟩ := List.nodup_cons.mp nodup
      have hslash := hi i List.mem_cons_self
      have hother : ∀ j ∈ nics, j ≠ i := fun j hj he => hfresh (he ▸ hj)
      have hrest : ∀ j ∈ nics, '/' ∉ j := fun j hj => hi j (List.mem_cons_of_mem i hj)
      simp only [Cni.restoreNics]
      apply Cuts.bind (runs_restoreNic h hp hslash) (cuts_restoreNic h hp hslash)
      · intro hX
        have hnew' : ∀ j ∈ nics, (obj.addNic (nicObj cni R pod i)).nics.lookup j = none := by
          intro j hj
          have hne : j ≠ (nicObj cni R pod i).name := hother j hj
          rw [Netns.addNic, lookup_emplace, if_neg hne]
          exact hnew j (List.mem_cons_of_mem i hj)
        apply (ih (obj.addNic (nicObj cni R pod i)) hrest hnodup hnew').mono
        · intro hN j hj
          rcases List.mem_cons.mp hj with rfl | hj
          · exact hX
          · exact hN j hj
        · intro c T o R' hc
          obtain ⟨hT, hR, ⟨j, hj, hreads⟩, g, gw, ho, hg⟩ := hc
          refine ⟨hT, hR, ⟨j, List.mem_cons_of_mem i hj, hreads⟩,
            Function.update g i (nicObj cni R pod i), gw, ?_, ?_⟩
          · rw [ho, foldl_update]
            rfl
          · intro k hk
            rcases List.mem_cons.mp hk with rfl | hk
            · have hlist : (unread cni.node R c).list (.addrs pod k) = R.list (.addrs pod k) :=
                hreads.list_eq hp (hrest j hj) ⟨hp, hslash⟩ (by simp [(hother j hj).symm]) (by simp)
              rw [Function.update_self, addrObjs, hlist]
              exact ⟨rfl, rfl⟩
            · rw [Function.update_of_ne (hother k hk)]
              exact hg k hk
      · intro c T b R' hc
        obtain ⟨hreads, rfl, rfl, obj', gw, hb, hname, haddrs⟩ := hc
        cases hb
        refine ⟨_, _, runs_restoreNics h hp hrest (obj.addNic obj'), rfl, rfl,
          ⟨i, List.mem_cons_self, hreads⟩,
          Function.update (nicObj cni R' pod) i obj', nics.foldl (nicGateway cni R' pod) gw, ?_, ?_⟩
        · rw [foldl_update, Netns.addNic, hname]
        · intro k hk
          rcases List.mem_cons.mp hk with rfl | hk
          · rw [Function.update_self]
            exact ⟨hname, haddrs⟩
          · have hlist : (unread cni.node R' c).list (.addrs pod k) = R'.list (.addrs pod k) :=
              hreads.list_eq hp hslash ⟨hp, hrest k hk⟩ (by simp [hother k hk]) (by simp)
            rw [Function.update_of_ne (hother k hk), addrObjs, hlist]
            exact ⟨rfl, rfl⟩
      · intro c T e R' hc
        obtain ⟨-, -, -, obj', gw, hb, -⟩ := hc
        cases hb

/-- The reads that DEL depends on for a container do not fail. -/
def Answered (X : Cmd → Prop) (node : Text) (R : Registry) (pod : Text) : Prop :=
  ¬ X (.etcd (.get (keyText node (.inl (.nics pod))))) ∧
    ∀ i ∈ R.list (.nics pod), ¬ X (.etcd (.get (keyText node (.inl (.addrs pod i)))))

theorem seesPod_none {V : Registry} (hnics : V.list (.nics pod) = []) :
    SeesPod cni V pod { name := pod } := by
  refine ⟨rfl, ?_⟩
  intro i
  change i ∉ V.list (.nics pod)
  rw [hnics]
  exact List.not_mem_nil

/-- The reads for one container leave the others as they are. -/
theorem ReadsPod.list_eq {node q : Text} {nics : List Text} {c : Cmd} {k : ListKey}
    (h : ReadsPod node q nics c) (hq : '/' ∉ q) (hi : ∀ i ∈ nics, '/' ∉ i) (hk : k.Sound)
    (hnics : k ≠ .nics q) (haddrs : ∀ i, k ≠ .addrs q i) (hroutes : ∀ i, k ≠ .routes q i) :
    (unread node R c).list k = R.list k := by
  cases h with
  | nics =>
      rw [unread_get (show Sound (.inl (.nics q)) from hq) hk, if_neg]
      simpa using hnics.symm
  | nic i mem h => exact h.list_eq hq (hi i mem) hk (haddrs i) (hroutes i)

theorem ReadsPod.seesPod {q : Text} {c : Cmd} (h : Loadable R)
    (hc : ReadsPod cni.node q (R.list (.nics q)) c) (hq : '/' ∉ q) (hp : '/' ∉ pod)
    (hne : pod ≠ q) :
    SeesPod cni (unread cni.node R c) pod (podObj cni R pod) := by
  have hnics : (unread cni.node R c).list (.nics pod) = R.list (.nics pod) :=
    hc.list_eq hq (h.nics q) hp (by simp [hne]) (by simp) (by simp)
  have haddrs : ∀ i ∈ R.list (.nics pod),
      (unread cni.node R c).list (.addrs pod i) = R.list (.addrs pod i) := fun i hi =>
    hc.list_eq hq (h.nics q) ⟨hp, h.nics pod i hi⟩ (by simp) (by simp [hne]) (by simp)
  exact seesPod_podObj hnics haddrs

/-- One container. -/
theorem cuts_restorePod (h : Loadable R) (hp : '/' ∉ pod) (nodup : (R.list (.nics pod)).Nodup) :
    Cuts X cni.node base ((etcd (Storage.getAllNic cni.node pod)).bind fun nics =>
        cni.restoreNics pod nics { name := pod } gateway) R (Answered X cni.node R pod)
      (fun c T o R' => ReadsPod cni.node pod (R.list (.nics pod)) c ∧ T = R ∧ R' = R ∧
        ∃ obj gw, o = .ok (obj, gw) ∧ SeesPod cni (unread cni.node R c) pod obj) := by
  apply Cuts.bind (Runs.etcd (run_getAllNic hp)) (cuts_listOrEmpty (.nics pod))
  · intro hX
    apply (cuts_restoreNics h hp { name := pod } (h.nics pod) nodup (fun _ _ => rfl)).mono
    · exact fun hN => ⟨hX, hN⟩
    · intro c T o R' hc
      obtain ⟨hT, hR, ⟨i, hi, hreads⟩, g, gw, ho, hg⟩ := hc
      refine ⟨.nic i hi hreads, hT, hR, _, gw, ho, rfl, ?_⟩
      have hnics : (unread cni.node R c).list (.nics pod) = R.list (.nics pod) :=
        hreads.list_eq hp (h.nics pod i hi) hp (by simp) (by simp)
      intro j
      have hlookup : (((R.list (.nics pod)).foldl (fun m i => emplace m i (g i)) []).lookup j) =
          if j ∈ R.list (.nics pod) then some (g j) else none := lookup_loadAll
      rw [hlookup]
      split_ifs with hj
      · exact ⟨hnics ▸ hj, hg j hj⟩
      · rw [SeesNic, hnics]
        exact hj
  · intro c T b R' hc
    obtain ⟨rfl, rfl, hb, rfl⟩ := hc
    cases hb
    have hnil : (unread cni.node R' (.etcd (.get (keyText cni.node (.inl (.nics pod)))))).list
        (.nics pod) = [] := if_pos rfl
    exact ⟨_, _, Runs.pure _ _, .nics, rfl, rfl, _, _, rfl, seesPod_none hnil⟩
  · intro c T e R' hc
    cases hc.2.2.1

/-- What the command that failed took away, if its reply was used. -/
inductive View (X : Cmd → Prop) (node : Text) (R : Registry) (c : Cmd) (pods : List Text)
    (netns : List (Text × Netns)) : Registry → Prop where
  | first (q : Text) (mem : q ∈ pods) (h : ReadsPod node q (R.list (.nics q)) c)
      (new : netns.lookup q = none) : View X node R c pods netns (unread node R c)
  | again (q : Text) (mem : q ∈ pods) (h : ReadsPod node q (R.list (.nics q)) c)
      (old : netns.lookup q ≠ none ∨ 2 ≤ pods.count q) (answered : Answered X node R q) :
      View X node R c pods netns R

/-- The view is the same with one more container in front. -/
theorem View.cons {node : Text} {c : Cmd} {pods : List Text} {netns : List (Text × Netns)}
    {V : Registry} {obj : Netns} (q : Text) (h : View X node R c pods (emplace netns q obj) V) :
    View X node R c (q :: pods) netns V := by
  cases h with
  | first p mem h new =>
      rw [lookup_emplace] at new
      split_ifs at new
      exact .first p (List.mem_cons_of_mem q mem) h new
  | again p mem h old answered =>
      refine .again p (List.mem_cons_of_mem q mem) h ?_ answered
      by_cases hpq : p = q
      · right
        have hcount : 0 < pods.count p := List.count_pos_iff.mpr mem
        rw [hpq, List.count_cons_self, ← hpq]
        omega
      · rw [lookup_emplace, if_neg hpq] at old
        rcases old with old | old
        · exact .inl old
        · exact .inr (old.trans List.count_le_count_cons)

/-- The containers that were restored when the command `c` failed. -/
def PodsRestored (X : Cmd → Prop) (cni : Cni) (R : Registry) (c : Cmd)
    (pods : List Text) (obj : Node)
    (o : Except Thrown (Node × Option Addr)) : Prop :=
  ∃ (f : Text → Netns) (gateway : Option Addr) (V : Registry),
    o = .ok ({ obj with netns := pods.foldl (fun m p => emplace m p (f p)) obj.netns }, gateway) ∧
      View X cni.node R c pods obj.netns V ∧
      ∀ p ∈ pods, obj.netns.lookup p = none → SeesPod cni V p (f p)

/-- A command failed behind the container in front. -/
theorem PodsRestored.cons (h : Loadable R) {q : Text} {pods : List Text} {obj : Node} {c : Cmd}
    {o : Except Thrown (Node × Option Addr)} (hq : '/' ∉ q) (hp : ∀ p ∈ pods, '/' ∉ p)
    (hc : PodsRestored X cni R c pods
      { obj with netns := emplace obj.netns q (podObj cni R q) } o) :
    PodsRestored X cni R c (q :: pods) obj o := by
  obtain ⟨f, gw, V, ho, hview, hsees⟩ := hc
  have hlookup : ∀ p, (emplace obj.netns q (podObj cni R q)).lookup p = none →
      p ≠ q ∧ obj.netns.lookup p = none := by
    intro p hnone
    rw [lookup_emplace] at hnone
    split_ifs at hnone with hpq
    exact ⟨hpq, hnone⟩
  refine ⟨Function.update f q (podObj cni R q), gw, V, ?_, hview.cons q, ?_⟩
  · rw [ho, foldl_update]
  · intro p hm hnone
    by_cases hpq : p = q
    · rw [hpq, Function.update_self]
      cases hview with
      | first q' mem hreads new =>
          exact hreads.seesPod h (hp q' mem) hq (hlookup q' new).1.symm
      | again => exact seesPod_podObj rfl fun _ _ => rfl
    · rw [Function.update_of_ne hpq]
      apply hsees p ((List.mem_cons.mp hm).resolve_left hpq)
      rw [lookup_emplace, if_neg hpq]
      exact hnone

/-- A command of the container in front failed. An object that is there already stays. -/
theorem PodsRestored.head (h : Loadable R) {q : Text} {pods : List Text} {obj : Node} {c : Cmd}
    {pod' : Netns} (hq : '/' ∉ q) (hp : ∀ p ∈ q :: pods, '/' ∉ p)
    (hold : obj.netns.lookup q ≠ none → Answered X cni.node R q)
    (hreads : ReadsPod cni.node q (R.list (.nics q)) c)
    (hsees : SeesPod cni (unread cni.node R c) q pod') :
    PodsRestored X cni R c (q :: pods) obj
      (.ok ({ obj with
        netns := pods.foldl (fun m p => emplace m p (podObj cni R p))
          (emplace obj.netns q pod') }, gateway)) := by
  by_cases hq' : obj.netns.lookup q = none
  · refine ⟨Function.update (podObj cni R) q pod', gateway, _, ?_,
      .first q List.mem_cons_self hreads hq', ?_⟩
    · rw [foldl_update]
    · intro p hm _
      by_cases hpq : p = q
      · rw [hpq, Function.update_self]
        exact hsees
      · rw [Function.update_of_ne hpq]
        exact hreads.seesPod h hq (hp p hm) hpq
  · have hsame : emplace obj.netns q pod' = emplace obj.netns q (podObj cni R q) := by
      unfold emplace
      rw [if_pos (Option.isSome_iff_ne_none.mpr hq'), if_pos (Option.isSome_iff_ne_none.mpr hq')]
    refine ⟨podObj cni R, gateway, R, ?_,
      .again q List.mem_cons_self hreads (.inl hq') (hold hq'),
      fun p _ _ => seesPod_podObj rfl fun _ _ => rfl⟩
    rw [hsame, List.foldl_cons]

theorem cuts_restorePods (h : Loadable R) (nodup : ∀ p, (R.list (.nics p)).Nodup) {pods : List Text}
    (hp : ∀ p ∈ pods, '/' ∉ p) (obj : Node)
    (hold : ∀ p, obj.netns.lookup p ≠ none → Answered X cni.node R p) :
    Cuts X cni.node base (cni.restorePods pods obj gateway) R (∀ p ∈ pods, Answered X cni.node R p)
      (fun c T o R' => T = R ∧ R' = R ∧ PodsRestored X cni R c pods obj o) := by
  induction pods generalizing obj gateway with
  | nil => exact Cuts.pure _ (by simp)
  | cons q pods ih =>
      have hq := hp q List.mem_cons_self
      have hrest : ∀ p ∈ pods, '/' ∉ p := fun p hm => hp p (List.mem_cons_of_mem q hm)
      have hrun : Runs cni.node base ((etcd (Storage.getAllNic cni.node q)).bind fun nics =>
          cni.restoreNics q nics { name := q } gateway) R
          (.ok (podObj cni R q, podGateway cni R gateway q)) R := by
        apply Runs.etcd_bind (run_getAllNic hq)
        exact runs_restoreNics h hq (h.nics q) _
      have heq : cni.restorePods (q :: pods) obj gateway =
          ((etcd (Storage.getAllNic cni.node q)).bind fun nics =>
            cni.restoreNics q nics { name := q } gateway).bind fun ret =>
              cni.restorePods pods { obj with netns := emplace obj.netns q ret.1 } ret.2 := by
        rw [Program.bind_assoc]
        rfl
      rw [heq]
      apply Cuts.bind hrun (cuts_restorePod h hq (nodup q))
      · intro hanswered
        have hold' : ∀ p, (emplace obj.netns q (podObj cni R q)).lookup p ≠ none →
            Answered X cni.node R p := by
          intro p hne
          rw [lookup_emplace] at hne
          split_ifs at hne with hpq
          · exact hpq ▸ hanswered
          · exact hold p hne
        apply (ih hrest { obj with netns := emplace obj.netns q (podObj cni R q) } hold').mono
        · intro hN p hm
          rcases List.mem_cons.mp hm with rfl | hm
          · exact hanswered
          · exact hN p hm
        · intro c T o R' hc
          exact ⟨hc.1, hc.2.1, .cons h hq hrest hc.2.2⟩
      · intro c T b R' hc
        obtain ⟨hreads, rfl, rfl, pod', gw, hb, hsees⟩ := hc
        cases hb
        exact ⟨_, _, runs_restorePods h hrest { obj with netns := emplace obj.netns q pod' }, rfl,
          rfl, .head h hq hp (hold q) hreads hsees⟩
      · intro c T e R' hc
        obtain ⟨-, -, -, obj', gw, hb, -⟩ := hc
        cases hb

/-- What is seen of the node when the command `c` fails. -/
inductive NodeView (X : Cmd → Prop) (node : Text) (R : Registry) (c : Cmd) : Registry → Prop where
  | pods (h : c = .etcd (.get (keyText node (.inl .pods)))) : NodeView X node R c (unread node R c)
  | view {V : Registry} (h : View X node R c (R.list .pods) [] V) : NodeView X node R c V

theorem View.pods_eq {node : Text} {c : Cmd} {pods : List Text} {V : Registry} (h : Loadable R)
    (hp : ∀ p ∈ pods, '/' ∉ p) (hview : View X node R c pods [] V) :
    V.list .pods = R.list .pods := by
  cases hview with
  | first q mem hreads =>
      exact hreads.list_eq (hp q mem) (h.nics q) trivial (by simp) (by simp) (by simp)
  | again => rfl

/-- What is seen can be restored, and the root namespace is seen with the containers. -/
theorem NodeView.sound {node : Text} {c : Cmd} {V : Registry} (h : Loadable R)
    (hview : NodeView X node R c V) :
    Loadable V ∧ V.value = R.value ∧ (V.list .pods = [] ∨ V.list .pods = R.list .pods) := by
  cases hview with
  | pods hc => exact ⟨loadable_unread h _ _, rfl, .inl (if_pos hc)⟩
  | view hv =>
      refine ⟨?_, ?_, .inr (hv.pods_eq h h.pods)⟩
      · cases hv with
        | first => exact loadable_unread h _ _
        | again => exact h
      · cases hv with
        | first => rfl
        | again => rfl

theorem cuts_getSubnet : Cuts X cni.node base (etcd (getSubnet cni.node)) R True
    (fun c T o R' => c = .etcd (.get (keyText cni.node (.inr .subnet))) ∧ T = R ∧ R' = R ∧
      o = .ok (false, [])) := by
  have heq : etcd (getSubnet cni.node) = (etcd (EtcdClientShell.get (subnetKey cni.node))).bind
      fun ret => .pure (ret.ok && ret.out ≠ [], ret.out) := etcd_bind _ _
  have hrun := run_get (subnetKey cni.node) (R.store cni.node base)
  rw [heq]
  apply Cuts.map (Runs.etcd hrun) (cuts_get .subnet)
  · intro c S b R' hc
    obtain ⟨rfl, rfl, hb, rfl⟩ := hc
    cases hb
    exact ⟨rfl, rfl, rfl, rfl⟩
  · intro c S e R' hc
    cases hc.2.2.1

/-- When the subnet is not read there is no node, and otherwise a node that shows
a registry. -/
theorem cuts_getKubernetesCluster {net : NetworkV4} (h : Loadable R)
    (nodup : ∀ p, (R.list (.nics p)).Nodup) (hs : R.value .subnet = some net.text)
    (hp : net.prefixLength ≤ 32) :
    Cuts X cni.node base cni.getKubernetesCluster R (∀ p ∈ R.list .pods, Answered X cni.node R p)
      (fun c T o R' => T = R ∧ R' = R ∧
        (c = .etcd (.get (keyText cni.node (.inr .subnet))) ∧ o = .ok {} ∨
          ∃ obj gateway V, o = .ok ⟨[(cni.node, obj)], gateway⟩ ∧ Sees cni net V obj ∧
            NodeView X cni.node R c V)) := by
  have hne : net.text ≠ [] := cidr_ne_nil _ _
  have hinit : Subnet.init cni.boost net.text = .ok ⟨net, .ipv4⟩ := Subnet.init_cidr _ _ hp
  have hold : ∀ p, ({ subnet := some ⟨net, .ipv4⟩ } : Node).netns.lookup p ≠ none →
      Answered X cni.node R p := fun p hne => absurd rfl hne
  unfold Cni.getKubernetesCluster
  apply Cuts.bind (Runs.etcd run_getSubnet_store) cuts_getSubnet
  · intro _
    simp only [hs, Option.getD_some, ne_eq, hne, not_false_eq_true, decide_true, if_true,
      Cni.initKubernetesNode, hinit, bind, Except.bind, pure, Except.pure, Program.ofExcept_ok,
      Program.bind]
    apply Cuts.bind (Runs.etcd run_getAllPods) (cuts_listOrEmpty .pods)
    · intro _
      apply Cuts.map (runs_restorePods h h.pods _) (cuts_restorePods h nodup h.pods _ hold)
      · intro c T b R' hc
        obtain ⟨hT, hR, f, gw, V, hb, hview, hsees⟩ := hc
        cases hb
        have hpods := hview.pods_eq h h.pods
        refine ⟨hT, hR, .inr ⟨_, gw, V, rfl, ⟨rfl, f, ?_, ?_⟩, .view hview⟩⟩
        · rw [hpods]
          rfl
        · intro p hm
          rw [hpods] at hm
          exact hsees p hm rfl
      · intro c T e R' hc
        obtain ⟨-, -, f, gw, V, hb, -⟩ := hc
        cases hb
    · intro c T b R' hc
      obtain ⟨rfl, rfl, hb, rfl⟩ := hc
      cases hb
      have hnil : (unread cni.node R' (.etcd (.get (keyText cni.node (.inl .pods))))).list .pods =
          [] :=
        if_pos rfl
      refine ⟨_, _, Runs.pure _ _, rfl, rfl,
        .inr ⟨_, _, _, rfl, ⟨rfl, fun p => { name := p }, ?_, ?_⟩,
        .pods rfl⟩⟩
      · rw [hnil]
        rfl
      · intro p hm
        rw [hnil] at hm
        cases hm
    · intro c T e R' hc
      cases hc.2.2.1
  · intro c T b R' hc
    obtain ⟨rfl, rfl, rfl, hb⟩ := hc
    cases hb
    exact ⟨_, _, Runs.pure _ _, rfl, rfl, .inl ⟨rfl, rfl⟩⟩
  · intro c T e R' hc
    cases hc.2.2.2

end RestorePods
end Ohno.SeenNodes
