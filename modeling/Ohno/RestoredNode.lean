import Ohno.CniPlugin
import Ohno.Conducts

/-!
# The objects that a registry restores

`getKubernetesCluster` turns the records of a node into objects. When every
command succeeds the objects are a function of the records, computed here next
to the program, and `runs_getKubernetesCluster` says that the program returns
them. The names in the records must be names, the stored addresses and routes
must be such as the plugin writes.
-/
namespace Ohno.RestoredNode
open CommandPrograms DelimitedLists AddressText EtcdClientShell Subnets Ipam Netlink Nics Storage
open CniPlugin Records Conducts RecordPrograms

/-! ### Maps -/

section Maps
variable {V : Type} {m : List (Text × V)} {k k' : Text} {v : V} {f : Text → V} {ks : List Text}

@[simp] theorem lookup_emplace :
    (emplace m k v).lookup k' = if k' = k then some ((m.lookup k).getD v) else m.lookup k' := by
  unfold emplace
  split_ifs with hs hk hk
  · subst hk
    obtain ⟨w, hw⟩ := Option.isSome_iff_exists.mp hs
    simp [hw]
  · rfl
  · subst hk
    have hn : m.lookup k' = none := Option.not_isSome_iff_eq_none.mp hs
    simp [List.lookup_append, hn]
  · have hne : (k' == k) = false := by simpa using hk
    simp [List.lookup_append, List.lookup_cons, hne]

@[simp] theorem lookup_remove :
    (remove m k).lookup k' = if k' = k then none else m.lookup k' := by
  unfold remove
  induction m with
  | nil => simp
  | cons e m ih =>
      obtain ⟨j, w⟩ := e
      by_cases hj : j = k
      · subst hj
        by_cases hk : k' = j
        · subst hk
          simpa using ih
        · have hne : (k' == j) = false := by simpa using hk
          simpa [List.lookup_cons, hne, hk] using ih
      · by_cases hk : k' = j
        · subst hk
          simp [hj]
        · have hne : (k' == j) = false := by simpa using hk
          simpa [List.lookup_cons, hne, hj] using ih

/-- Objects under their own names, the first one of each name being kept. -/
def loadAll (f : Text → V) (ks : List Text) : List (Text × V) :=
  ks.foldl (fun m k => emplace m k (f k)) []

theorem lookup_foldl (f : Text → V) (ks : List Text) (m : List (Text × V)) (k : Text) :
    (ks.foldl (fun m k => emplace m k (f k)) m).lookup k =
      (m.lookup k).or (if k ∈ ks then some (f k) else none) := by
  induction ks generalizing m with
  | nil => simp
  | cons j ks ih =>
      rw [List.foldl_cons, ih, lookup_emplace]
      by_cases hk : k = j
      · subst hk
        cases m.lookup k <;> simp
      · simp [hk]

@[simp] theorem lookup_loadAll :
    (loadAll f ks).lookup k = if k ∈ ks then some (f k) else none := by
  simp [loadAll, lookup_foldl]

theorem nodup_emplace (h : (m.map Prod.fst).Nodup) (k : Text) (v : V) :
    ((emplace m k v).map Prod.fst).Nodup := by
  unfold emplace
  split_ifs with hs
  · exact h
  · have hn : m.lookup k = none := Option.not_isSome_iff_eq_none.mp hs
    rw [List.map_append, List.map_singleton]
    apply FirstFit.nodup_concat h
    intro hm
    obtain ⟨e, he, rfl⟩ := List.mem_map.mp hm
    rw [List.lookup_eq_none_iff] at hn
    simpa using hn e he

theorem nodup_loadAll (f : Text → V) (ks : List Text) : ((loadAll f ks).map Prod.fst).Nodup := by
  have h : ∀ m : List (Text × V), (m.map Prod.fst).Nodup →
      ((ks.foldl (fun m k => emplace m k (f k)) m).map Prod.fst).Nodup := by
    induction ks with
    | nil => exact fun m hm => hm
    | cons k ks ih => exact fun m hm => ih _ (nodup_emplace hm k (f k))
  exact h [] List.nodup_nil

theorem mem_keys_iff (m : List (Text × V)) (k : Text) :
    k ∈ m.map Prod.fst ↔ (m.lookup k).isSome := by
  rw [← Option.ne_none_iff_isSome, Ne, List.lookup_eq_none_iff]
  simp

/-- One object is left when all other names are one name. -/
theorem length_remove_loadAll (f : Text → V) (ks : List Text) (k : Text) :
    (remove (loadAll f ks) k).length = 1 ↔ ∃ q ∈ ks, q ≠ k ∧ ∀ p ∈ ks, p = k ∨ p = q := by
  have hnodup : ((remove (loadAll f ks) k).map Prod.fst).Nodup :=
    (nodup_loadAll f ks).sublist (List.filter_sublist.map Prod.fst)
  have hmem : ∀ p, p ∈ (remove (loadAll f ks) k).map Prod.fst ↔ p ∈ ks ∧ p ≠ k := by
    intro p
    rw [mem_keys_iff, lookup_remove, lookup_loadAll]
    by_cases hp : p = k <;> by_cases hks : p ∈ ks <;> simp [hp, hks]
  rw [← List.length_map (f := Prod.fst)]
  generalize (remove (loadAll f ks) k).map Prod.fst = keys at hnodup hmem
  constructor
  · intro h
    obtain ⟨q, rfl⟩ := List.length_eq_one_iff.mp h
    have hq := (hmem q).mp (List.mem_singleton_self q)
    refine ⟨q, hq.1, hq.2, fun p hp => ?_⟩
    by_cases hpk : p = k
    · exact .inl hpk
    · exact .inr (List.mem_singleton.mp ((hmem p).mpr ⟨hp, hpk⟩))
  · rintro ⟨q, hq, hqk, hall⟩
    have hqm := (hmem q).mpr ⟨hq, hqk⟩
    have hsub : ∀ p ∈ keys, p = q := by
      intro p hp
      obtain ⟨hks, hne⟩ := (hmem p).mp hp
      exact (hall p hks).resolve_left hne
    cases keys with
    | nil => cases hqm
    | cons x keys =>
        cases keys with
        | nil => rfl
        | cons y keys =>
            have hx := hsub x (by simp)
            have hy := hsub y (by simp)
            simp [hx, hy] at hnodup

end Maps

/-! ### Objects as a function of the records -/

section Objects
variable (cni : Cni) (R : Registry)

/-- The class under which an interface is restored. -/
def storageKind (pod nic : Text) : NicKind :=
  if pod = host ∧ nic = cni.underlayDev then .underlay
  else if nic = cni.conf.bridge then .bridge
  else .nic

/-- The namespace of a pod as the network commands name it. -/
def podNetns (pod : Text) : Text :=
  if pod = host then []
  else match simpleNetns ((R.value (.netns pod)).getD []) with
    | .ok simple => simple
    | .error _ => []

def addrObjs (pod nic : Text) : List Addr := (R.list (.addrs pod nic)).map (Addr.ofCidr cni.boost)

def routeObjs (pod nic : Text) : List Route :=
  match (R.list (.routes pod nic)).mapM parseRoute with
  | .ok routes => routes
  | .error _ => []

def nicObj (pod nic : Text) : Nic where
  kind := storageKind cni pod nic
  netlink := true
  name := nic
  netns := podNetns R pod
  addrs := addrObjs cni R pod nic
  routes := routeObjs R pod nic

def podObj (pod : Text) : Netns where
  name := pod
  nics := loadAll (nicObj cni R pod) (R.list (.nics pod))

/-- Only an interface with the name of the bridge tells the gateway. -/
def nicGateway (pod : Text) (gateway : Option Addr) (nic : Text) : Option Addr :=
  if nic = cni.conf.bridge then gateway.or (addrObjs cni R pod nic).head? else gateway

def podGateway (gateway : Option Addr) (pod : Text) : Option Addr :=
  (R.list (.nics pod)).foldl (nicGateway cni R pod) gateway

def gatewayObj : Option Addr := (R.list .pods).foldl (podGateway cni R) none

end Objects

/-- Records that can be restored. -/
structure Loadable (R : Registry) : Prop where
  pods : ∀ p ∈ R.list .pods, '/' ∉ p
  nics : ∀ p, ∀ i ∈ R.list (.nics p), '/' ∉ i
  addrs : ∀ p i, ∀ x ∈ R.list (.addrs p i), ∃ a n, n ≤ 32 ∧ x = cidr a n
  routes : ∀ p i, ∃ routes, (R.list (.routes p i)).mapM parseRoute = .ok routes
  netns : ∀ p, ∃ simple, simpleNetns ((R.value (.netns p)).getD []) = .ok simple

/-- What the plugin can read back under a key. -/
def Admits : ListKey → Text → Prop
  | .pods, v => '/' ∉ v
  | .nics _, v => '/' ∉ v
  | .addrs _ _, v => ∃ a n, n ≤ 32 ∧ v = cidr a n
  | .routes _ _, v => ∃ r, parseRoute v = .ok r
  | _, _ => True

section Loadable
variable {R : Registry} {k : ListKey} {j : ValueKey} {v : Text}

theorem mapM_parseRoute {items : List Text} (h : ∀ x ∈ items, ∃ r, parseRoute x = .ok r) :
    ∃ routes, items.mapM parseRoute = .ok routes := by
  induction items with
  | nil => exact ⟨[], rfl⟩
  | cons x items ih =>
      obtain ⟨r, hr⟩ := h x (by simp)
      obtain ⟨routes, hroutes⟩ := ih fun y hy => h y (by simp [hy])
      exact ⟨r :: routes, by simp [List.mapM_cons, hr, hroutes, bind, Except.bind,
        pure, Except.pure]⟩

theorem parseRoute_of_mapM {items : List Text} {routes : List Route}
    (h : items.mapM parseRoute = .ok routes) : ∀ x ∈ items, ∃ r, parseRoute x = .ok r := by
  induction items generalizing routes with
  | nil => simp
  | cons y items ih =>
      simp only [List.mapM_cons, bind, Except.bind, pure, Except.pure] at h
      split at h
      · cases h
      · rename_i r hr
        split at h
        · cases h
        · rename_i rest hrest
          intro x hx
          rcases List.mem_cons.mp hx with rfl | hx
          · exact ⟨r, hr⟩
          · exact ih hrest x hx

theorem loadable_iff : Loadable R ↔ (∀ k, ∀ x ∈ R.list k, Admits k x) ∧
    ∀ p, ∃ simple, simpleNetns ((R.value (.netns p)).getD []) = .ok simple := by
  constructor
  · intro h
    refine ⟨?_, h.netns⟩
    intro k x hx
    cases k with
    | subnets => trivial
    | addresses => trivial
    | pods => exact h.pods x hx
    | nics p => exact h.nics p x hx
    | addrs p i => exact h.addrs p i x hx
    | routes p i =>
        obtain ⟨routes, hr⟩ := h.routes p i
        exact parseRoute_of_mapM hr x hx
  · intro ⟨hl, hn⟩
    exact ⟨hl .pods, fun p => hl (.nics p), fun p i => hl (.addrs p i),
      fun p i => mapM_parseRoute (hl (.routes p i)), hn⟩

theorem Loadable.push (h : Loadable R) (hv : Store.Item v) (ha : Admits k v) :
    Loadable (R.push k v hv) := by
  rw [loadable_iff] at h ⊢
  refine ⟨?_, h.2⟩
  intro k' x hx
  rw [Registry.push_list] at hx
  split_ifs at hx with hk
  · rcases List.mem_append.mp hx with hx | hx
    · exact hk ▸ h.1 k x hx
    · exact hk ▸ List.mem_singleton.mp hx ▸ ha
  · exact h.1 k' x hx

theorem Loadable.prune (h : Loadable R) (k : ListKey) (v : Text) : Loadable (R.prune k v) := by
  rw [loadable_iff] at h ⊢
  refine ⟨?_, h.2⟩
  intro k' x hx
  rw [Registry.prune_list] at hx
  split_ifs at hx with hk
  · exact hk ▸ h.1 k x (List.mem_of_mem_filter hx)
  · exact h.1 k' x hx

theorem Loadable.clearList (h : Loadable R) (k : ListKey) : Loadable (R.clearList k) := by
  rw [loadable_iff] at h ⊢
  refine ⟨?_, h.2⟩
  intro k' x hx
  rw [Registry.clearList_list] at hx
  split_ifs at hx
  · cases hx
  · exact h.1 k' x hx

theorem Loadable.assign (h : Loadable R) (hv : '\n' ∉ v)
    (hs : ∀ p, j = .netns p → ∃ simple, simpleNetns v = .ok simple) :
    Loadable (R.assign j v hv) := by
  rw [loadable_iff] at h ⊢
  refine ⟨h.1, ?_⟩
  intro p
  rw [Registry.assign_value]
  split_ifs with hj
  · exact hs p hj.symm
  · exact h.2 p

theorem simpleNetns_nil : simpleNetns [] = .ok [] := by decide +kernel

theorem Loadable.clear (h : Loadable R) (j : ValueKey) : Loadable (R.clear j) := by
  rw [loadable_iff] at h ⊢
  refine ⟨h.1, ?_⟩
  intro p
  rw [Registry.clear_value]
  split_ifs
  · exact ⟨[], simpleNetns_nil⟩
  · exact h.2 p

end Loadable

/-! ### Members of an interface -/

section NicRuns
variable {node : Text} {base : Store} {R R' : Registry} {nic : Nic}

theorem runs_addEntry {isExist setEntry : NetlinkCmd} {known : Nic} (hn : nic.netlink = true)
    (hs : isQuery setEntry = false) :
    Runs node base (nic.addEntry isExist setEntry known) R (.ok (true, known)) R := by
  simp only [Nic.addEntry, hn, if_true]
  apply Runs.query_bind
  intro b
  cases b with
  | true => exact Runs.pure _ R
  | false =>
      simp only [Bool.false_eq_true, if_false]
      apply Runs.netlink_bind hs
      exact Runs.pure _ R

theorem runs_addAddr {addr : Addr} {text : Text} (hn : nic.netlink = true)
    (ha : addr.getAddrCidr = .ok text) :
    Runs node base (nic.addAddr addr) R
      (.ok (true, { nic with addrs := nic.addrs ++ [addr] })) R := by
  simp only [Nic.addAddr, ha, Program.ofExcept_ok, Program.bind_eq, Program.pure_bind]
  exact runs_addEntry hn rfl

theorem runs_addRoute {r : Route} {flags : RouteNHFlags} (hn : nic.netlink = true) :
    Runs node base (nic.addRoute r flags) R
      (.ok (true, { nic with routes := nic.routes ++ [r] })) R :=
  runs_addEntry hn rfl

theorem runs_setNetns {netns simple : Text} (hn : nic.netlink = true)
    (hs : simpleNetns netns = .ok simple) :
    Runs node base (nic.setNetns netns) R (.ok (true, { nic with netns := simple })) R := by
  simp only [Nic.setNetns, hn, if_true, hs, Program.ofExcept_ok, Program.bind_eq, Program.pure_bind]
  apply Runs.query_bind
  intro b
  cases b with
  | true => exact Runs.pure _ R
  | false =>
      simp only [Bool.false_eq_true, if_false]
      apply Runs.netlink_bind rfl
      exact Runs.pure _ R

theorem runs_setup (nic : Nic) :
    Runs node base nic.setup R (.ok (true, { nic with netlink := true })) R := by
  unfold Nic.setup
  split
  · exact Runs.pure _ R
  · exact Runs.pure _ R
  · apply Runs.query_bind
    intro b
    cases b with
    | true => exact Runs.pure _ R
    | false => exact Runs.netlink_bind rfl (Runs.pure _ R)
  · exact Runs.netlink_bind rfl (Runs.pure _ R)
  · apply Runs.query_bind
    intro b
    cases b with
    | true => exact Runs.pure _ R
    | false => exact Runs.netlink_bind rfl (Runs.pure _ R)

end NicRuns

/-! ### The restoring program -/

section Restore
variable {cni : Cni} {base : Store} {R : Registry} {pod nic : Text} {gateway : Option Addr}

theorem runs_getStorageNic :
    Runs cni.node base (cni.getStorageNic pod nic) R
      (.ok (some { kind := storageKind cni pod nic, netlink := true, name := nic })) R := by
  unfold Cni.getStorageNic
  apply Runs.bind (runs_setup _)
  exact Runs.pure _ R

theorem runs_enterNetns (h : Loadable R) (hp : '/' ∉ pod) {obj : Nic} (hn : obj.netlink = true)
    (ho : obj.netns = []) :
    Runs cni.node base (cni.enterNetns pod obj) R (.ok { obj with netns := podNetns R pod }) R := by
  unfold Cni.enterNetns podNetns
  split_ifs with hh
  · rw [← ho]
    exact Runs.pure obj R
  · obtain ⟨simple, hs⟩ := h.netns pod
    apply Runs.etcd_bind (run_getNetns hp)
    apply Runs.bind (runs_setNetns hn hs)
    simp only [hs]
    exact Runs.pure _ R

theorem runs_restoreAddrs {cidrs : List Text}
    (hc : ∀ x ∈ cidrs, ∃ a n, n ≤ 32 ∧ x = cidr a n) (obj : Nic) (hn : obj.netlink = true)
    (gateway : Option Addr) :
    Runs cni.node base (cni.restoreAddrs nic cidrs obj gateway) R
      (.ok ({ obj with addrs := obj.addrs ++ cidrs.map (Addr.ofCidr cni.boost) },
        if nic = cni.conf.bridge then gateway.or (cidrs.map (Addr.ofCidr cni.boost)).head?
        else gateway)) R := by
  induction cidrs generalizing obj gateway with
  | nil =>
      have hg : (if nic = cni.conf.bridge then gateway.or none else gateway) = gateway := by
        split_ifs <;> simp
      simp only [Cni.restoreAddrs, List.map_nil, List.append_nil, List.head?_nil, hg]
      exact Runs.pure _ R
  | cons x cidrs ih =>
      obtain ⟨a, n, hn32, rfl⟩ := hc x (by simp)
      have ha : (Addr.ofCidr cni.boost (cidr a n)).getAddrCidr = .ok (cidr a n) := by
        rw [Addr.ofCidr_cidr cni.boost a hn32, Addr.getAddrCidr_ipv4]
      simp only [Cni.restoreAddrs]
      apply Runs.bind (runs_addAddr hn ha)
      have hrest := ih (fun y hy => hc y (by simp [hy]))
        { obj with addrs := obj.addrs ++ [Addr.ofCidr cni.boost (cidr a n)] } hn
        (if gateway = none ∧ nic = cni.conf.bridge then some (Addr.ofCidr cni.boost (cidr a n))
          else gateway)
      convert hrest using 3
      simp only [List.map_cons, List.append_assoc, List.singleton_append]
      by_cases hb : nic = cni.conf.bridge
      · cases gateway <;> simp [hb]
      · simp [hb]

theorem runs_restoreRoutes (routes : List Route) (obj : Nic) (hn : obj.netlink = true) :
    Runs cni.node base (Cni.restoreRoutes routes obj) R
      (.ok { obj with routes := obj.routes ++ routes }) R := by
  induction routes generalizing obj with
  | nil =>
      simp only [Cni.restoreRoutes, List.append_nil]
      exact Runs.pure _ R
  | cons r routes ih =>
      simp only [Cni.restoreRoutes]
      apply Runs.bind (runs_addRoute hn)
      have hrest := ih { obj with routes := obj.routes ++ [r] } hn
      simpa using hrest

theorem runs_restoreNic (h : Loadable R) (hp : '/' ∉ pod) (hi : '/' ∉ nic) :
    Runs cni.node base (cni.restoreNic pod nic gateway) R
      (.ok (some (nicObj cni R pod nic), nicGateway cni R pod gateway nic)) R := by
  obtain ⟨routes, hr⟩ := h.routes pod nic
  unfold Cni.restoreNic
  apply Runs.bind runs_getStorageNic
  apply Runs.bind (runs_enterNetns h hp rfl rfl)
  apply Runs.etcd_bind (run_getAllAddrs hp hi)
  apply Runs.bind (runs_restoreAddrs (h.addrs pod nic) _ rfl gateway)
  apply Runs.etcd_bind (run_getAllRoutes hp hi hr)
  apply Runs.bind (runs_restoreRoutes routes _ rfl)
  have ho : routeObjs R pod nic = routes := by simp only [routeObjs, hr]
  simp only [nicObj, nicGateway, ho, addrObjs, List.nil_append]
  exact Runs.pure _ R

theorem runs_restoreNics (h : Loadable R) (hp : '/' ∉ pod) {nics : List Text}
    (hi : ∀ i ∈ nics, '/' ∉ i) (obj : Netns) :
    Runs cni.node base (cni.restoreNics pod nics obj gateway) R
      (.ok ({ obj with nics := nics.foldl (fun m i => emplace m i (nicObj cni R pod i)) obj.nics },
        nics.foldl (nicGateway cni R pod) gateway)) R := by
  induction nics generalizing obj gateway with
  | nil => exact Runs.pure _ R
  | cons i nics ih =>
      simp only [Cni.restoreNics]
      apply Runs.bind (runs_restoreNic h hp (hi i (by simp)))
      exact ih (fun j hj => hi j (by simp [hj])) _

theorem runs_restorePods (h : Loadable R) {pods : List Text} (hp : ∀ p ∈ pods, '/' ∉ p)
    (obj : Node) :
    Runs cni.node base (cni.restorePods pods obj gateway) R
      (.ok ({ obj with netns := pods.foldl (fun m p => emplace m p (podObj cni R p)) obj.netns },
        pods.foldl (podGateway cni R) gateway)) R := by
  induction pods generalizing obj gateway with
  | nil => exact Runs.pure _ R
  | cons p pods ih =>
      have hslash := hp p (by simp)
      simp only [Cni.restorePods]
      apply Runs.etcd_bind (run_getAllNic hslash)
      apply Runs.bind (runs_restoreNics h hslash (h.nics p) _)
      exact ih (fun q hq => hp q (by simp [hq])) _

/-- The node object of a registry. -/
def nodeObj (cni : Cni) (R : Registry) (net : NetworkV4) : Node where
  subnet := some ⟨net, .ipv4⟩
  netns := loadAll (podObj cni R) (R.list .pods)

def loadedObj (cni : Cni) (R : Registry) (net : NetworkV4) : Loaded where
  cluster := [(cni.node, nodeObj cni R net)]
  gateway := gatewayObj cni R

theorem getKubernetesNode_loadedObj (cni : Cni) (R : Registry) (net : NetworkV4) :
    cni.getKubernetesNode (loadedObj cni R net) = .pure (nodeObj cni R net, loadedObj cni R net) :=
  Cni.getKubernetesNode_found cni (by simp [loadedObj])

/-- A node with a subnet is restored. -/
theorem runs_getKubernetesCluster (h : Loadable R) {net : NetworkV4}
    (hs : R.value .subnet = some net.text) (hp : net.prefixLength ≤ 32) :
    Runs cni.node base cni.getKubernetesCluster R (.ok (loadedObj cni R net)) R := by
  have hne : net.text ≠ [] := cidr_ne_nil _ _
  have hinit : Subnet.init cni.boost net.text = .ok ⟨net, .ipv4⟩ := Subnet.init_cidr _ _ hp
  unfold Cni.getKubernetesCluster
  apply Runs.etcd_bind run_getSubnet_store
  simp only [hs, Option.getD_some, ne_eq, hne, not_false_eq_true, decide_true, if_true,
    Cni.initKubernetesNode, hinit, bind, Except.bind, pure, Except.pure, Program.ofExcept_ok,
    Program.bind]
  apply Runs.etcd_bind run_getAllPods
  apply Runs.bind (runs_restorePods h h.pods _)
  exact Runs.pure _ R

/-- A node without one is not known. -/
theorem runs_getKubernetesCluster_none (hs : R.value .subnet = none) :
    Runs cni.node base cni.getKubernetesCluster R (.ok {}) R := by
  unfold Cni.getKubernetesCluster
  apply Runs.etcd_bind run_getSubnet_store
  simp only [hs, Option.getD_none, ne_eq, not_true_eq_false, decide_false, Bool.false_eq_true,
    if_false]
  exact Runs.pure _ R

end Restore
end Ohno.RestoredNode
