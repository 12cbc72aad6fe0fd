import Mathlib.Data.List.Pairwise
import Ohno.AddressRoundTrip
import Ohno.NodeLifecycle
import Ohno.RegistryHistories

/-!
# Histories of a cluster

The nodes of a cluster keep their records in one etcd. The keys of a node have
its name in them; only the list of the subnets belongs to all of them. In a
history of the cluster any node is called next, and each node finds the records
that it left, beside another list of subnets. `Invariant` is a statement about
the registry of one node that survives both, and `stored_of_history` carries it
through every history of a cluster.
-/
namespace Ohno.ClusterHistories
open CommandPrograms DelimitedLists AddressText EtcdClientShell Subnets FirstFit Ipam Netlink Nics
open Storage CniPlugin Records Conducts RecordPrograms RestoredNode DelRecords AddRecords NodeStates
open NodeState NodeHistories NodeInvariants NodeLifecycle RegistryHistories IpamSequential

/-- A node: its plugin and its pod CIDR. -/
structure Member where
  cni : Cni
  net : NetworkV4
  law : Lawful cni net
  slash : '/' ∉ cni.node

abbrev Member.node (m : Member) : Text := m.cni.node

/-- No address is in both networks. -/
def Apart (n n' : NetworkV4) : Prop := ∀ x, ¬ (Contains n x ∧ Contains n' x)

/-- Nodes with names and pod CIDRs of their own. -/
structure Cluster where
  members : List Member
  names : (members.map Member.node).Nodup
  apart : members.Pairwise fun m n => Apart m.net n.net

/-- Calls of the nodes in any order, one after the other. Every command succeeds. -/
inductive ClusterHistory (k : Cluster) (s₀ : Store) :
    List (Member × NodeHistories.Event) → Store → Prop where
  | start : ClusterHistory k s₀ [] s₀
  | call {log : List (Member × NodeHistories.Event)} {s : Store} {m : Member} {call : Call}
      {o : Outcome} {w : World}
      (h : ClusterHistory k s₀ log s) (mem : m ∈ k.members)
      (x : (call.program m.cni).Exec Conduct.obliging.handle ⟨s, [], none⟩ o w) :
      ClusterHistory k s₀ (log ++ [(m, call, o)]) w.store

/-! ### The members -/

section Members
variable {k : Cluster} {m n : Member}

theorem Cluster.eq_of_node (hm : m ∈ k.members) (hn : n ∈ k.members) (h : m.node = n.node) :
    m = n :=
  List.inj_on_of_nodup_map k.names hm hn h

theorem Cluster.apart_of_ne (hm : m ∈ k.members) (hn : n ∈ k.members) (h : m ≠ n) :
    Apart m.net n.net := by
  have hsymm : Std.Symm fun m n : Member => Apart m.net n.net :=
    ⟨fun _ _ hmn x hx => hmn x ⟨hx.2, hx.1⟩⟩
  exact k.apart.forall hm hn h

theorem text_injective {n n' : NetworkV4} (h : n.text = n'.text) : n = n' := by
  obtain ⟨ha, hp⟩ := cidr_injective h
  cases n
  cases n'
  cases ha
  cases hp
  rfl

theorem Cluster.text_ne (hm : m ∈ k.members) (hn : n ∈ k.members) (h : m ≠ n) :
    m.net.text ≠ n.net.text := by
  intro he
  have hmn := Cluster.apart_of_ne hm hn h
  rw [text_injective he] at hmn
  exact hmn n.net.address ⟨rfl, rfl⟩

end Members

/-! ### The keys of two nodes -/

/-- Only the list of the subnets is a record of both. -/
theorem keyText_ne_of_node {m n : Text} (hm : '/' ∉ m) (hn : '/' ∉ n) (hne : m ≠ n)
    {j k : RecordKey}
    (hj : j ≠ .inl .subnets) : keyText m j ≠ keyText n k := by
  intro h
  cases hp : parts j with
  | none =>
      cases hq : parts k with
      | none =>
          rcases parts_none hp with rfl | rfl | rfl
          · exact hj rfl
          · rcases parts_none hq with rfl | rfl | rfl
            · exact etcdKeySubnet_ne_addressKey m h.symm
            · exact hne (addressKey_injective h)
            · exact subnetKey_ne_addressKey n m h.symm
          · rcases parts_none hq with rfl | rfl | rfl
            · exact AddressRoundTrip.etcdKeySubnet_ne_subnetKey m h.symm
            · exact subnetKey_ne_addressKey m n h
            · exact hne (subnetKey_injective h)
      | some qs =>
          have hk := @keyText_take m _ hp
          rw [h, keyText_parts n hq, nodeKey_take] at hk
          exact hk rfl
  | some ps =>
      cases hq : parts k with
      | none =>
          have hk := @keyText_take n _ hq
          rw [← h, keyText_parts m hp, nodeKey_take] at hk
          exact hk rfl
      | some qs =>
          rw [keyText_parts m hp, keyText_parts n hq, nodeKey, nodeKey] at h
          have hcut := (List.cons.inj (List.append_cancel_left h)).2
          exact hne (cut_injective hm hn hcut)

/-- The same records beside another list of subnets. -/
def withSubnets (l : List Text) (hl : ∀ x ∈ l, Store.Item x) (R : Registry) : Registry where
  list
    | .subnets => l
    | k => R.list k
  value := R.value
  item := by
    intro k x hx
    cases k
    case subnets => exact hl x hx
    all_goals exact R.item _ x hx
  line := R.line

/-- What a call of one node leaves of the records of another one. -/
theorem store_of_other {m n : Text} (hm : '/' ∉ m) (hn : '/' ∉ n) (hne : m ≠ n) {R T : Registry}
    {s : Store} (h : s = T.store n s) :
    R.store m s =
      (withSubnets (R.list .subnets) (R.item .subnets) T).store n (R.store m s) := by
  apply Registry.eq_store
  intro k hk
  by_cases hs : k = .inl .subnets
  · subst hs
    have hshared : R.store m s (keyText m (.inl .subnets)) = R.shown (.inl .subnets) :=
      Registry.store_at (k := .inl .subnets) trivial
    exact hshared
  · have hoff : R.store m s (keyText n k) = s (keyText n k) := by
      apply Registry.store_off
      intro j _ he
      exact keyText_ne_of_node hn hm (Ne.symm hne) hs he.symm
    rw [hoff, h, Registry.store_at hk]
    rcases k with k | k
    · cases k <;> first | exact absurd rfl hs | rfl
    · rfl

/-! ### The subnets -/

section Subnets
variable {cni : Cni} {net : NetworkV4} {R R' : Registry} {c : Container} {law : Lawful cni net}

theorem dropHostNic_subnets (R₀ : Registry) (i : Text) :
    (dropHostNic cni R₀ i R).list .subnets = R.list .subnets :=
  dropHostNic_list R₀ R i (by simp) (by simp) (by simp) (by simp)

theorem tearDownRecords_subnets (R₀ : Registry) :
    (tearDownRecords cni net R₀ R).list .subnets = (R.list .subnets).filter (· ≠ net.text) := by
  rw [tearDownRecords, Registry.prune_list, if_pos rfl, Registry.clear_list,
    dropPod_list host _ (by simp), dropHostNic_subnets, dropHostNic_subnets, dropHostNic_subnets]

theorem dropContainer_subnets (c i : Text) :
    (dropContainer cni c i R).list .subnets = R.list .subnets :=
  dropContainer_list c i (by simp) (by simp) (by simp) (by simp) (by simp)

theorem newEnd_subnets {gw : BitVec 32} {o : Except Thrown CniResult}
    (h : NewEnd cni net gw c R o R') : R'.list .subnets = R.list .subnets := by
  cases h with
  | refused e => rfl
  | exhausted e free full => simp [withPod_list]
  | new k free fit => simp [withPod_list, withAddr_list]

/-- What a call does to the list of subnets. -/
inductive Listing (net : NetworkV4) (R R' : Registry) : Prop where
  | same (value : R'.value .subnet = R.value .subnet) (list : R'.list .subnets = R.list .subnets)
  | up (before : R.value .subnet = none) (after : R'.value .subnet = some net.text)
      (list : R'.list .subnets = R.list .subnets ++ [net.text])
  | down (before : R.value .subnet = some net.text) (after : R'.value .subnet = none)
      (list : R'.list .subnets = (R.list .subnets).filter (· ≠ net.text))

theorem listing_of_ends {call : Call} {o : Outcome} (h : Ends law call o R R') :
    Listing net R R' := by
  cases h with
  | @first c mac uniqueId k o R R' idle fit hend =>
      have hup := setUp_setUpRecords idle law mac uniqueId fit
      apply Listing.up idle.subnet (hup.newEnd law hend).intact.subnet
      rw [newEnd_subnets hend, setUpRecords, nodeRecords_list]
      simp
  | @added c mac uniqueId k o R R' setUp hend =>
      have hup := setUp.addEnd law hend
      apply Listing.same
      · rw [hup.intact.subnet, setUp.intact.subnet]
      · cases hend with
        | found => rfl
        | bare => rfl
        | new absent hend => exact newEnd_subnets hend
  | unknown idle => exact .same rfl rfl
  | @deleted c mac uniqueId k R setUp =>
      rcases setUp.del law c.id_ne (i := c.nic) with h | h | h
      · obtain ⟨-, heq⟩ := h
        rw [heq]
        exact .same rfl rfl
      · obtain ⟨hmem, halone, hidle⟩ := h
        apply Listing.down setUp.intact.subnet hidle.subnet
        rw [delRecords, if_pos hmem, if_pos halone, tearDownRecords_subnets, dropContainer_subnets]
      · obtain ⟨-, -, heq, hdrop⟩ := h
        rw [heq]
        apply Listing.same
        · rw [hdrop.intact.subnet, setUp.intact.subnet]
        · exact dropContainer_subnets c.id c.nic

end Subnets

/-! ### Invariants of a node -/

/-- A statement about the registry of a node that holds before its first call,
that its calls preserve, and that does not look at the list of the subnets. -/
structure Invariant (I : Member → Registry → Prop) : Prop where
  sound : ∀ {m R}, I m R → RegistryHistories.Sound m.cni m.net R
  fresh : ∀ m {others : List Text} (ho : ∀ x ∈ others, Store.Item x), I m (fresh others ho)
  shared : ∀ {m R} {l : List Text} (hl : ∀ x ∈ l, Store.Item x), I m R → I m (withSubnets l hl R)
  ends : ∀ {m R R' call o}, I m R → Ends m.law call o R R' → I m R'

theorem sound_shared {cni : Cni} {net : NetworkV4} {R : Registry} {l : List Text}
    (hl : ∀ x ∈ l, Store.Item x) (h : RegistryHistories.Sound cni net R) :
    RegistryHistories.Sound cni net (withSubnets l hl R) := by
  have hload : Loadable R → Loadable (withSubnets l hl R) :=
    fun h => ⟨h.pods, h.nics, h.addrs, h.routes, h.netns⟩
  rcases h with h | h
  · exact .inl ⟨hload h.loadable, h.subnet, h.pods, h.nics, h.bridge, h.free⟩
  · obtain ⟨k, h⟩ := h
    have hi := h.intact
    exact .inr ⟨k, ⟨hload hi.loadable, hi.subnet, hi.pods, hi.nics, hi.bridge, hi.netns, hi.podOf⟩,
      h.owned, h.range⟩

theorem invariant_sound : Invariant fun m R => RegistryHistories.Sound m.cni m.net R where
  sound h := h
  fresh m _ ho := .inl (idle_fresh m.law ho)
  shared hl h := sound_shared hl h
  ends _ h := h.sound

/-- What the store holds when the nodes `up` have been set up, in this order. -/
structure Stored (k : Cluster) (others : List Text) (I : Member → Registry → Prop)
    (up : List Member)
    (s : Store) : Prop where
  subset : ∀ m ∈ up, m ∈ k.members
  nodup : up.Nodup
  subnets : s etcdKeySubnet = encode (others ++ up.map fun m => m.net.text)
  node : ∀ m ∈ k.members, ∃ R : Registry, s = R.store m.node s ∧
    R.list .subnets = others ++ up.map (fun m => m.net.text) ∧ I m R ∧
    (m ∈ up → R.value .subnet = some m.net.text) ∧ (m ∉ up → R.value .subnet = none)

section Histories
variable {k : Cluster} {others : List Text} {I : Member → Registry → Prop} {up : List Member}
variable {s₀ s : Store} {log : List (Member × NodeHistories.Event)}

/-- The other nodes see the new list and their own records. -/
theorem Stored.step (h : Stored k others I up s) (hI : Invariant I) {m : Member}
    (hm : m ∈ k.members)
    {up' : List Member} {R' : Registry} (subset : ∀ n ∈ up', n ∈ k.members) (nodup : up'.Nodup)
    (list : R'.list .subnets = others ++ up'.map fun m => m.net.text) (own : I m R')
    (value : (m ∈ up' → R'.value .subnet = some m.net.text) ∧ (m ∉ up' → R'.value .subnet = none))
    (rest : ∀ n ∈ k.members, n ≠ m → (n ∈ up' ↔ n ∈ up)) :
    Stored k others I up' (R'.store m.node s) where
  subset := subset
  nodup := nodup
  subnets := by
    have hshared : R'.store m.node s (keyText m.node (.inl .subnets)) = R'.shown (.inl .subnets) :=
      Registry.store_at (k := .inl .subnets) trivial
    rw [← list]
    exact hshared
  node := by
    intro n hn
    by_cases he : n = m
    · subst he
      refine ⟨R', ?_, list, own, value⟩
      apply Registry.eq_store
      intro j hj
      exact Registry.store_at hj
    · obtain ⟨T, hT, -, hIT, hvalue⟩ := h.node n hn
      have hname : m.node ≠ n.node := fun hne => he (Cluster.eq_of_node hn hm hne.symm)
      refine ⟨_, store_of_other m.slash n.slash hname hT, list,
        hI.shared (R'.item .subnets) hIT, ?_⟩
      have hvalue' : (withSubnets (R'.list .subnets) (R'.item .subnets) T).value .subnet =
          T.value .subnet := rfl
      rw [hvalue', rest n hn he]
      exact hvalue

theorem Stored.call (h : Stored k others I up s) (hI : Invariant I)
    (hfree : ∀ m ∈ k.members, m.net.text ∉ others) {m : Member} (hm : m ∈ k.members) {call : Call}
    {o : Outcome} {w : World}
    (x : (call.program m.cni).Exec Conduct.obliging.handle ⟨s, [], none⟩ o w) :
    ∃ up', Stored k others I up' w.store := by
  obtain ⟨R, hR, hlist, hIR, hvalue⟩ := h.node m hm
  have x' : (call.program m.cni).Exec Conduct.obliging.handle ⟨R.store m.node s, [], none⟩ o w := by
    rw [← hR]
    exact x
  obtain ⟨R', hend, hw⟩ := ends_of_exec m.law (hI.sound hIR) x'
  have hI' := hI.ends hIR hend
  rw [hw]
  cases listing_of_ends hend with
  | same value list =>
      exact ⟨up, h.step hI hm h.subset h.nodup (list.trans hlist) hI' (value ▸ hvalue)
        fun _ _ _ => Iff.rfl⟩
  | up before after list =>
      have hnot : m ∉ up := by
        intro hup
        rw [hvalue.1 hup] at before
        cases before
      refine ⟨up ++ [m], h.step hI hm ?_ ?_ ?_ hI' ?_ ?_⟩
      · intro n hn
        rcases List.mem_append.mp hn with hn | hn
        · exact h.subset n hn
        · exact List.mem_singleton.mp hn ▸ hm
      · exact FirstFit.nodup_concat h.nodup hnot
      · rw [list, hlist]
        simp
      · exact ⟨fun _ => after, fun hm => absurd (by simp) hm⟩
      · intro n _ hne
        simp [hne]
  | down before after list =>
      have hmem : m ∈ up := by
        by_contra hup
        rw [hvalue.2 hup] at before
        cases before
      refine ⟨up.filter (·.node ≠ m.node), h.step hI hm ?_ (h.nodup.filter _) ?_ hI' ?_ ?_⟩
      · intro n hn
        exact h.subset n (List.mem_of_mem_filter hn)
      · -- the pod CIDR of a node is that of no other one
        have hothers : others.filter (· ≠ m.net.text) = others := by
          rw [List.filter_eq_self]
          intro t ht
          exact decide_eq_true fun he => hfree m hm (he ▸ ht)
        have hups : (up.map fun m => m.net.text).filter (· ≠ m.net.text) =
            (up.filter (·.node ≠ m.node)).map fun m => m.net.text := by
          rw [List.filter_map]
          apply congrArg
          apply List.filter_congr
          intro n hn
          by_cases he : n = m
          · simp [he]
          · have hnode : n.node ≠ m.node :=
              fun hne => he (Cluster.eq_of_node (h.subset n hn) hm hne)
            have htext := Cluster.text_ne (h.subset n hn) hm he
            simp [hnode, htext]
        rw [list, hlist, List.filter_append, hothers, hups]
      · exact ⟨fun hm => absurd hm (by simp), fun _ => after⟩
      · intro n hn hne
        have hnode : n.node ≠ m.node := fun he => hne (Cluster.eq_of_node hn hm he)
        simp [hnode]

/-- In every history of a cluster. -/
theorem stored_of_history (hI : Invariant I) (unrecorded : ∀ m ∈ k.members, Unrecorded m.node s₀)
    (ho : ∀ x ∈ others, Store.Item x) (hothers : s₀ etcdKeySubnet = encode others)
    (hfree : ∀ m ∈ k.members, m.net.text ∉ others) (h : ClusterHistory k s₀ log s) :
    ∃ up, Stored k others I up s := by
  induction h with
  | start =>
      refine ⟨[], ?_, List.nodup_nil, by simpa using hothers, ?_⟩
      · intro m hm
        cases hm
      · intro m hm
        exact ⟨_, (unrecorded m hm).eq_fresh ho hothers, by simp [fresh], hI.fresh m ho,
          by simp [fresh]⟩
  | call h mem x ih =>
      obtain ⟨up, hup⟩ := ih
      exact hup.call hI hfree mem x

end Histories

/-! ### Two nodes -/

def cniB : Cni := { cniA with node := ['b'], podCidr := "10.0.1.0/24".toList }

def netB : NetworkV4 := ⟨0x0A000100, 24⟩

theorem lawful_cniB : Lawful cniB netB where
  nodeInfo := rfl
  podCidr := by decide +kernel
  le_prefixLength := by decide
  prefixLength_le := by decide
  hostBits := by
    unfold IpamSequential.HostBitsZero
    decide
  bridge := lawful_cniA.bridge
  underlay := lawful_cniA.underlay
  bridge_ne_underlay := lawful_cniA.bridge_ne_underlay
  bridge_ne_vxlan := lawful_cniA.bridge_ne_vxlan
  underlay_ne_vxlan := lawful_cniA.underlay_ne_vxlan
  mac := lawful_cniA.mac

def memberA : Member := ⟨cniA, netA, lawful_cniA, by decide +kernel⟩
def memberB : Member := ⟨cniB, netB, lawful_cniB, by decide +kernel⟩

theorem apart_netA_netB : Apart netA netB := by
  intro x hx
  have hne : netA.address.toNat / 2 ^ (32 - netA.prefixLength) ≠
      netB.address.toNat / 2 ^ (32 - netB.prefixLength) := by decide
  exact hne (hx.1.symm.trans hx.2)

def clusterAB : Cluster where
  members := [memberA, memberB]
  names := by decide +kernel
  apart := List.pairwise_pair.mpr apart_netA_netB

/-- The call of a node when every query is answered yes. -/
theorem ClusterHistory.next {k : Cluster} {s₀ s : Store} {log : List (Member × NodeHistories.Event)}
    (h : ClusterHistory k s₀ log s) {m : Member} (hm : m ∈ k.members) (call : Call) :
    ClusterHistory k s₀ (log ++ [(m, call, (call.finish m.cni s).1)]) (call.finish m.cni s).2 :=
  h.call hm (Program.exec_run (Conduct.handle_comply fun _ _ => rfl) _ _)

/-- Node a has a container and node b had one. -/
def storedAB : Store :=
  (delA.finish cniB (addA.finish cniA (addA.finish cniB noRecords).2).2).2

theorem history_AB : ∃ log, ClusterHistory clusterAB noRecords log storedAB := by
  have hA : memberA ∈ clusterAB.members := List.mem_cons_self
  have hB : memberB ∈ clusterAB.members := List.mem_cons_of_mem _ List.mem_cons_self
  exact ⟨_, ((ClusterHistory.start.next hB addA).next hA addA).next hB delA⟩

end Ohno.ClusterHistories
