import Ohno.AddressRelease
import Ohno.FailedAdds
import Ohno.HalfDeletedNodes

/-!
# A DEL that is repeated

One etcdctl command of a DEL fails, and the container is deleted again. The
claim is that this leaves what an uninterrupted DEL leaves. It does if the
command is one of those in `Spared`, and for the others it does not: the reads
that the first DEL mistakes for an empty list, and the commands after which the
second DEL does not find the container or the node.
-/
namespace Ohno.RepeatedDel
open CommandPrograms CommandTraces DelimitedLists AddressText EtcdClientShell Subnets FirstFit Ipam
open Netlink Nics Storage CniPlugin Records Conducts RecordPrograms RestoredNode DelRecords
open AddRecords
open NodeStates NodeState NodeHistories NodeInvariants RegistryHistories AddedNodes SingleFaults
open CutPrograms SeenNodes DelCuts HalfDeletedNodes FailedAdds NodeLifecycle
open AddressRelease (allAdded_addA)

/-! ### The commands that do no harm -/

section Spared
variable (cni : Cni) (c i : Text) (s S : Store)

/-- No container but `c` is on the node. -/
def Last : Prop := ∀ p ∈ s.values (getAllPodsKey cni.node), p = c ∨ p = host

/-- The bridge is not an interface of the node any more. -/
def Unbridged : Prop := cni.conf.bridge ∉ S.values (getNicKey cni.node host)

/-- A read that may fail on the map `S`, when the DEL has started on `s`. -/
def ReadSpared : RecordKey → Prop
  | .inl .pods => S = s
  | .inl (.nics p) => if p = c then S ≠ s else ¬(Last cni c s ∧ p = host)
  | .inl (.addrs p j) => ¬(p = c ∧ j = i) ∧ ¬(Last cni c s ∧ p = host ∧ j = cni.conf.bridge)
  | .inl (.routes _ _) => True
  | .inl .addresses => Unbridged cni S
  | .inl .subnets => False
  | .inr .subnet => True
  | .inr (.netns _) => S = s
  | .inr (.podOf _) => False
  | .inr .vtep => False

/-- A write or a deletion that may fail. -/
def WriteSpared : RecordKey → Prop
  | .inl (.nics p) => p = c
  | .inl (.addrs p j) => p = c ∧ j = i
  | .inl (.routes p j) => p = c ∧ j = i
  | .inl .addresses => Unbridged cni S
  | .inr (.netns p) => p = c
  | .inr .vtep => Last cni c s ∧ c ∈ S.values (getAllPodsKey cni.node)
  | _ => False

/-- The command may fail on the map `S`. -/
inductive Spared : Cmd → Prop where
  | get (k : RecordKey) (sound : Sound k) (h : ReadSpared cni c i s S k) :
      Spared (.etcd (.get (keyText cni.node k)))
  | put (k : RecordKey) (v : Text) (sound : Sound k) (h : WriteSpared cni c i s S k) :
      Spared (.etcd (.put (keyText cni.node k) v))
  | del (k : RecordKey) (sound : Sound k) (h : WriteSpared cni c i s S k) :
      Spared (.etcd (.del (keyText cni.node k)))

end Spared

section Commands
variable {cni : Cni} {c i : Text} {s S : Store} {k : RecordKey} {cmd : Cmd}

theorem spared_get (hk : Sound k) :
    Spared cni c i s S (.etcd (.get (keyText cni.node k))) ↔ ReadSpared cni c i s S k := by
  constructor
  · intro h
    generalize hcmd : Cmd.etcd (.get (keyText cni.node k)) = cmd at h
    cases h with
    | get k' sound h =>
        injection hcmd with hcmd
        injection hcmd with hcmd
        exact keyText_injective hk sound hcmd ▸ h
    | put => cases hcmd
    | del => cases hcmd
  · exact Spared.get k hk

theorem spared_put (hk : Sound k) (v : Text) :
    Spared cni c i s S (.etcd (.put (keyText cni.node k) v)) ↔ WriteSpared cni c i s S k := by
  constructor
  · intro h
    generalize hcmd : Cmd.etcd (.put (keyText cni.node k) v) = cmd at h
    cases h with
    | get => cases hcmd
    | put k' v' sound h =>
        injection hcmd with hcmd
        injection hcmd with hcmd
        exact keyText_injective hk sound hcmd ▸ h
    | del => cases hcmd
  · exact Spared.put k v hk

theorem spared_del (hk : Sound k) :
    Spared cni c i s S (.etcd (.del (keyText cni.node k))) ↔ WriteSpared cni c i s S k := by
  constructor
  · intro h
    generalize hcmd : Cmd.etcd (.del (keyText cni.node k)) = cmd at h
    cases h with
    | get => cases hcmd
    | put => cases hcmd
    | del k' sound h =>
        injection hcmd with hcmd
        injection hcmd with hcmd
        exact keyText_injective hk sound hcmd ▸ h
  · exact Spared.del k hk

/-- All commands on one key. -/
theorem spared_onKey (hk : Sound k) (h : OnKey cni.node k cmd) {P : Prop}
    (hread : ReadSpared cni c i s S k ↔ P) (hwrite : WriteSpared cni c i s S k ↔ P) :
    Spared cni c i s S cmd ↔ P := by
  rcases h with rfl | ⟨v, rfl⟩ | rfl
  · rw [spared_get hk, hread]
  · rw [spared_put hk, hwrite]
  · rw [spared_del hk, hwrite]

end Commands

/-! ### The verdict on each cut -/

/-- Either the two registries are the same, or a record tells that they are not. -/
def Verdict (spared : Prop) (R S : Registry) : Prop := spared ∧ R = S ∨ ¬ spared ∧ Differ R S

section Verdicts
variable {X : Cmd → Prop} {cni : Cni} {net : NetworkV4} {base : Store} {R R' S T : Registry}
variable {c i : Text} {cmd : Cmd} {spared : Prop}

theorem Verdict.same (hs : spared) (h : R = S) : Verdict spared R S := .inl ⟨hs, h⟩

theorem Verdict.differ (hs : ¬ spared) (h : Differ R S) : Verdict spared R S := .inr ⟨hs, h⟩

theorem store_ne (node : Text) (base : Store) (h : Differ R S) :
    R.store node base ≠ S.store node base := by
  intro he
  rcases h with ⟨l, hl, hne⟩ | ⟨j, hj, hne⟩
  · exact hne (list_of_store hl he)
  · exact hne (value_of_store hj he)

theorem values_pods (T : Registry) (node : Text) (base : Store) :
    (T.store node base).values (getAllPodsKey node) = T.list .pods :=
  Registry.values_store T node base (l := .pods) trivial

theorem unbridged_iff (T : Registry) (base : Store) :
    Unbridged cni (T.store cni.node base) ↔ cni.conf.bridge ∉ T.list (.nics host) := by
  have hv : (T.store cni.node base).values (getNicKey cni.node host) = T.list (.nics host) :=
    Registry.values_store T cni.node base (l := .nics host) name_host.slash
  rw [Unbridged, hv]

theorem spared_addresses {s : Store} (T : Registry) (base : Store)
    (hkey : OnKey cni.node (.inl .addresses) cmd) :
    Spared cni c i s (T.store cni.node base) cmd ↔ cni.conf.bridge ∉ T.list (.nics host) := by
  rw [← unbridged_iff T base]
  exact spared_onKey (k := .inl .addresses) trivial hkey Iff.rfl Iff.rfl

theorem last_iff (h : Placed cni net c i R) (base : Store) :
    Last cni c (R.store cni.node base) ↔ Alone R c := by
  rw [Last, values_pods]
  exact ⟨fun hall => ⟨h.intact.root, hall⟩, fun ha => ha.2⟩

/-- Once the interface is off the list the map has changed. -/
theorem store_ne_of_unplugged (h : Placed cni net c i R) (base : Store)
    (hT : i ∉ T.list (.nics c)) :
    T.store cni.node base ≠ R.store cni.node base :=
  (store_ne cni.node base (Differ.of_mem (l := .nics c) h.slash h.nic hT)).symm

/-- Once the container is gone the map has changed. -/
theorem store_ne_of_gone (h : Placed cni net c i R) (base : Store) (hT : c ∉ T.list .pods) :
    T.store cni.node base ≠ R.store cni.node base :=
  (store_ne cni.node base (Differ.of_mem (l := .pods) trivial h.pod hT)).symm

theorem nic_not_mem_unplugged (cni : Cni) (R : Registry) (c i : Text) :
    i ∉ (unplugged cni c i R).list (.nics c) := by simp [unplugged, dropNic_list]

/-- Only the VTEP of the node is left to be deleted. -/
theorem verdict_nicVtep (h : Placed cni net c i R) (base : Store) (mode : cni.ipamMode = .vxlan) :
    Verdict (Spared cni c i (R.store cni.node base) (((((R.prune .addresses
        (firstAddr R c i)).clearList (.addrs c i)).clearList (.routes c i)).prune
          (.nics c) i).store cni.node base) (.etcd (.del (keyText cni.node (.inr .vtep)))))
      (again cni net c i ((((R.prune .addresses (firstAddr R c i)).clearList
        (.addrs c i)).clearList (.routes c i)).prune (.nics c) i)) (delRecords cni net c i R) := by
  have hT : unplugged cni c i R = ((((R.prune .addresses (firstAddr R c i)).clearList
      (.addrs c i)).clearList (.routes c i)).prune (.nics c) i).clear .vtep := by
    simp only [unplugged, dropNic, if_neg h.ne_underlay, if_pos mode]
  obtain ⟨hsame, hdiffer⟩ := again_of_vtep h mode hT rfl
  have hpods : c ∈ (((((R.prune .addresses (firstAddr R c i)).clearList (.addrs c i)).clearList
      (.routes c i)).prune (.nics c) i).store cni.node base).values
        (getAllPodsKey cni.node) := by
    rw [values_pods]
    simpa using h.pod
  by_cases ha : Alone R c
  · apply Verdict.same _ (hsame ha)
    exact (spared_del (k := .inr .vtep) trivial).mpr ⟨(last_iff h base).mpr ha, hpods⟩
  · apply Verdict.differ _ (hdiffer ha)
    intro hs
    exact ha ((last_iff h base).mp ((spared_del (k := .inr .vtep) trivial).mp hs).1)

/-- The interface is half deleted. -/
theorem verdict_nic (h : Placed cni net c i R) (base : Store)
    (hcut : NicHalt cni c i (releasedNic cni c i (firstAddr R c i) R) cmd T) :
    Verdict (Spared cni c i (R.store cni.node base) (T.store cni.node base) cmd)
      (again cni net c i T) (delRecords cni net c i R) := by
  have hreleased := releasedNic_eq h (firstAddr R c i)
  obtain ⟨k, -, -, -, hgiven, haddr⟩ := h.addr
  have hsound : (ListKey.addrs c i).Sound := ⟨h.slash, h.slash_nic⟩
  -- without the address nothing more is given back
  have hgone : ∀ S : Registry, S.list (.addrs c i) = [] →
      S.list .addresses = (R.list .addresses).filter (· ≠ firstAddr R c i) →
      (S.list .addresses).filter (· ≠ firstAddr S c i) =
        (R.list .addresses).filter (· ≠ firstAddr R c i) := by
    intro S hS hS'
    have hnil : firstAddr S c i = [] := by simp [firstAddr, hS]
    rw [hnil, filter_ne_nil, hS']
  cases hcut with
  | addrs =>
      apply Verdict.same
      · exact (spared_del (k := .inl (.addrs c i)) hsound).mpr ⟨rfl, rfl⟩
      · rw [hreleased]
        apply again_of_half h
        · rfl
        · simp [firstAddr]
        · intro k hk _ _
          rw [Registry.prune_list, if_neg hk]
  | routes =>
      apply Verdict.same
      · exact (spared_del (k := .inl (.routes c i)) hsound).mpr ⟨rfl, rfl⟩
      · rw [hreleased]
        apply again_of_half h
        · rfl
        · apply hgone <;> simp
        · intro k hk hk' _
          simp [hk, hk']
  | nics _ hkey =>
      have hne : (((releasedNic cni c i (firstAddr R c i) R).clearList (.addrs c i)).clearList
          (.routes c i)).store cni.node base ≠ R.store cni.node base := by
        apply (store_ne cni.node base _).symm
        exact Differ.of_mem (l := .addrs c i) hsound haddr (by simp)
      apply Verdict.same
      · apply (spared_onKey (k := .inl (.nics c)) h.slash hkey (P := True) _ _).mpr trivial
        · simp [ReadSpared, hne]
        · simp [WriteSpared]
      · rw [hreleased]
        apply again_of_half h
        · rfl
        · apply hgone <;> simp
        · intro k hk hk' hk''
          simp [hk, hk', hk'']
  | vtep mode =>
      rw [hreleased]
      exact verdict_nicVtep h base mode

/-- The pod is half deleted. -/
theorem verdict_pod (h : Placed cni net c i R) (base : Store) {simple : Text}
    (hown : R.value (.podOf simple) = some c)
    (hcut : PodHalt cni.node c simple (unplugged cni c i R) cmd T) :
    Verdict (Spared cni c i (R.store cni.node base) (T.store cni.node base) cmd)
      (again cni net c i T) (delRecords cni net c i R) := by
  have hsimple : simple ≠ host := by
    rintro rfl
    exact h.ne_host (Option.some.inj (hown.symm.trans h.intact.podOf))
  have hne : ∀ S : Registry, S.list = (unplugged cni c i R).list →
      S.store cni.node base ≠ R.store cni.node base := by
    intro S hS
    exact store_ne_of_unplugged h base (hS ▸ nic_not_mem_unplugged cni R c i)
  cases hcut with
  | netns =>
      exact Verdict.same ((spared_del (k := .inr (.netns c)) h.slash).mpr rfl) (again_unplugged h)
  | podOf _ hkey =>
      apply Verdict.differ
      · rw [spared_onKey (k := .inr (.podOf simple)) trivial hkey (P := False) Iff.rfl Iff.rfl]
        exact id
      · apply differ_of_unnamed h
        · rfl
        · simp
        intro j hj
        rcases hj with rfl | rfl | rfl <;> simp [unplugged_value, h.ne_host.symm]
  | pods _ hkey =>
      apply Verdict.differ
      · rw [spared_onKey (k := .inl .pods) trivial hkey (P := False) _ Iff.rfl]
        · exact id
        · simp only [ReadSpared, iff_false]
          exact hne _ rfl
      · apply differ_of_unnamed h
        · rfl
        · simp
        intro j hj
        rcases hj with rfl | rfl | rfl <;> simp [unplugged_value, h.ne_host.symm, hsimple.symm]

/-- Where the teardown stops at the node's own records nothing is made up for. -/
theorem not_spared_tearHalt (h : Placed cni net c i R) (base : Store) (ha : Alone R c)
    (hT : c ∉ T.list .pods) (halt : TearHalt cni.node cmd) :
    ¬ Spared cni c i (R.store cni.node base) (T.store cni.node base) cmd := by
  have hlast : Last cni c (R.store cni.node base) := (last_iff h base).mpr ha
  have hhost := h.ne_host
  cases halt with
  | addrs j hj =>
      rw [spared_del (k := .inl (.addrs host j)) ⟨name_host.slash, hj⟩]
      exact fun hw => hhost hw.1.symm
  | routes j hj =>
      rw [spared_del (k := .inl (.routes host j)) ⟨name_host.slash, hj⟩]
      exact fun hw => hhost hw.1.symm
  | nics _ hkey =>
      rw [spared_onKey (k := .inl (.nics host)) name_host.slash hkey (P := False)]
      · exact id
      · simp [ReadSpared, hhost.symm, hlast]
      · simp [WriteSpared, hhost.symm]
  | vtep =>
      rw [spared_del (k := .inr .vtep) trivial]
      intro hw
      have hmem := hw.2
      rw [values_pods] at hmem
      exact hT hmem
  | netns =>
      rw [spared_del (k := .inr (.netns host)) name_host.slash]
      exact fun hw => hhost hw.symm
  | podOf _ hkey =>
      rw [spared_onKey (k := .inr (.podOf host)) trivial hkey (P := False) Iff.rfl Iff.rfl]
      exact id
  | pods _ hkey =>
      rw [spared_onKey (k := .inl .pods) trivial hkey (P := False) _ Iff.rfl]
      · exact id
      · simp only [ReadSpared, iff_false]
        exact store_ne_of_gone h base hT
  | subnet =>
      rw [spared_del (k := .inr .subnet) trivial]
      exact id

/-- The teardown is cut. -/
theorem verdict_tear (h : Placed cni net c i R) (law : Lawful cni net) (base : Store)
    (ha : Alone R c)
    (hcut : TearCut cni net R (dropPod c (unplugged cni c i R)) cmd T R') :
    Verdict (Spared cni c i (R.store cni.node base) (T.store cni.node base) cmd)
      (again cni net c i R') (delRecords cni net c i R) := by
  have hhost := h.ne_host
  have hbridge := bridge_mem h.stocked
  have hgone : c ∉ (dropPod c (unplugged cni c i R)).list .pods :=
    h.not_mem_dropPod fun j hj => unplugged_value hj
  have htorn : c ∉ (tornNics cni R (dropPod c (unplugged cni c i R))).list .pods := fun hc =>
    hgone (dropHostNic_list_subset _ _
      (dropHostNic_list_subset _ _ (dropHostNic_list_subset _ _ hc)))
  cases hcut with
  | bridge _ hkey =>
      apply Verdict.differ _ (differ_of_bridge h law ha)
      rw [spared_addresses _ base hkey, not_not,
        dropped_list c i (by simp) (by simp) (by simp [hhost.symm]) (by simp) (by simp)]
      exact hbridge
  | vxlan _ hkey mem =>
      apply Verdict.same _ (again_of_vxlan h law ha mem)
      rw [spared_addresses _ base hkey]
      exact not_mem_dropHostNic hbridge
  | netns =>
      apply Verdict.differ _ (differ_of_root h law ha)
      rw [spared_get (k := .inr (.netns host)) name_host.slash]
      exact store_ne_of_gone h base htorn
  | subnets _ hkey =>
      apply Verdict.differ _ (differ_of_subnets h ha)
      rw [spared_onKey (k := .inl .subnets) trivial hkey (P := False) Iff.rfl Iff.rfl]
      exact id
  | stop _ _ hs =>
      apply Verdict.differ _ (differ_of_stop h law ha hs)
      have hT : c ∉ R'.list .pods := fun hc => hgone (hs.pods hc)
      exact not_spared_tearHalt h base ha hT hs.halt

/-- Every failure after the node was read. -/
theorem verdict_del (h : Placed cni net c i R) (law : Lawful cni net) (base : Store)
    (hcut : DelCut cni net c i R cmd T R') :
    Verdict (Spared cni c i (R.store cni.node base) (T.store cni.node base) cmd)
      (again cni net c i R') (delRecords cni net c i R) := by
  cases hcut with
  | release _ hkey =>
      apply Verdict.differ _ (differ_of_address h law)
      rw [spared_addresses _ base hkey, not_not]
      exact bridge_mem h.stocked
  | nic _ _ hhalt => exact verdict_nic h base hhalt
  | netns =>
      apply Verdict.differ _ (differ_of_netns h)
      rw [spared_get (k := .inr (.netns c)) h.slash]
      exact store_ne_of_unplugged h base (nic_not_mem_unplugged cni R c i)
  | pod _ _ simple hown hhalt => exact verdict_pod h base hown hhalt
  | tear _ _ _ ha htear => exact verdict_tear h law base ha htear

/-- A name with a slash is that of no interface of the root namespace. -/
theorem unread_hostAddrs (h : Stocked cni net R) (law : Lawful cni net) {j : Text}
    (hj : '/' ∉ j → (unread cni.node R cmd).list (.addrs host j) = R.list (.addrs host j)) :
    (unread cni.node R cmd).list (.addrs host j) = R.list (.addrs host j) := by
  by_cases hslash : '/' ∈ j
  · have hnil : R.list (.addrs host j) = [] := by
      have hbridge : j ≠ cni.conf.bridge := fun he => law.bridge.slash (he ▸ hslash)
      have hvxlan : j ≠ nameVxlan := fun he => name_nameVxlan.slash (he ▸ hslash)
      rw [h.hostAddrs, hostAddrs, if_neg hbridge, if_neg fun he => hvxlan he.2]
    change (if _ then [] else R.list (.addrs host j)) = _
    rw [hnil, ite_self]
  · exact hj hslash

/-- The interfaces of a container are not read. -/
theorem verdict_podNics (h : Placed cni net c i R) (law : Lawful cni net) (base : Store) {p : Text}
    (mem : p ∈ R.list .pods) :
    Verdict
      (Spared cni c i (R.store cni.node base) (R.store cni.node base)
        (.etcd (.get (keyText cni.node (.inl (.nics p))))))
      (again cni net c i (delSeen cni net c i
        (unread cni.node R (.etcd (.get (keyText cni.node (.inl (.nics p)))))) R))
      (delRecords cni net c i R) := by
  have hp := h.intact.loadable.pods p mem
  have hlist : ∀ k : ListKey, k.Sound → k ≠ .nics p →
      (unread cni.node R (.etcd (.get (keyText cni.node (.inl (.nics p)))))).list k = R.list k := by
    intro k hk hne
    rw [unread_get (show Sound (.inl (.nics p)) from hp) hk, if_neg]
    simpa using hne.symm
  have hempty : (unread cni.node R (.etcd (.get (keyText cni.node (.inl (.nics p)))))).list
      (.nics p) = [] := if_pos rfl
  by_cases hpc : p = c
  · subst hpc
    apply Verdict.differ
    · rw [spared_get (k := .inl (.nics _)) hp]
      simp [ReadSpared]
    · exact differ_of_nics h (hlist .pods trivial (by simp)) hempty
  · have hnics := hlist (.nics c) h.slash (by simp [Ne.symm hpc])
    have haddrs := hlist (.addrs c i) ⟨h.slash, h.slash_nic⟩ (by simp)
    have hpods := hlist .pods trivial (by simp)
    by_cases hroot : p = host ∧ Alone R c
    · obtain ⟨rfl, ha⟩ := hroot
      apply Verdict.differ
      · rw [spared_get (k := .inl (.nics _)) hp]
        simp [ReadSpared, hpc, (last_iff h base).mpr ha]
      · exact differ_of_hostNics h law ha hpods hnics haddrs hempty
    · apply Verdict.same
      · rw [spared_get (k := .inl (.nics _)) hp, ReadSpared, if_neg hpc, last_iff h base]
        exact fun he => hroot ⟨he.2, he.1⟩
      · apply again_of_seen h hpods hnics haddrs
        intro ha
        exact absurd ⟨(ha.2 p mem).resolve_left hpc, ha⟩ hroot

/-- The lists that the DEL looks at, when a read for the interface `j` of `p` is
not answered. -/
structure NicUnread (node : Text) (R : Registry) (cmd : Cmd) (c i p j : Text) : Prop where
  pods : (unread node R cmd).list .pods = R.list .pods
  nics : (unread node R cmd).list (.nics c) = R.list (.nics c)
  root : (unread node R cmd).list (.nics host) = R.list (.nics host)
  addrs : ¬ (p = c ∧ j = i) → (unread node R cmd).list (.addrs c i) = R.list (.addrs c i)
  hostAddrs : ∀ j', ¬ (p = host ∧ j = j') →
    (unread node R cmd).list (.addrs host j') = R.list (.addrs host j')

theorem nicUnread (h : Placed cni net c i R) (law : Lawful cni net) {p j : Text} (hp : '/' ∉ p)
    (hj : '/' ∉ j) (hreads : ReadsNic cni.node p j cmd) : NicUnread cni.node R cmd c i p j := by
  have hlist : ∀ k : ListKey, k.Sound → k ≠ .addrs p j → k ≠ .routes p j →
      (unread cni.node R cmd).list k = R.list k := fun k hk => hreads.list_eq hp hj hk
  constructor
  · exact hlist .pods trivial (by simp) (by simp)
  · exact hlist (.nics c) h.slash (by simp) (by simp)
  · exact hlist (.nics host) name_host.slash (by simp) (by simp)
  · intro hne
    have hk : (ListKey.addrs c i).Sound := ⟨h.slash, h.slash_nic⟩
    apply hlist _ hk _ (by simp)
    simp only [ne_eq, ListKey.addrs.injEq]
    exact fun he => hne ⟨he.1.symm, he.2.symm⟩
  · intro j' hne
    apply unread_hostAddrs h.stocked law
    intro hj'
    have hk : (ListKey.addrs host j').Sound := ⟨name_host.slash, hj'⟩
    apply hlist _ hk _ (by simp)
    simp only [ne_eq, ListKey.addrs.injEq]
    exact fun he => hne ⟨he.1.symm, he.2.symm⟩

/-- Where the addresses of the interface are read, nothing is missed. -/
theorem NicUnread.again_of_addrs {p j : Text} (hu : NicUnread cni.node R cmd c i p j)
    (h : Placed cni net c i R)
    (hsame : (unread cni.node R cmd).list (.addrs p j) = R.list (.addrs p j)) :
    again cni net c i (delSeen cni net c i (unread cni.node R cmd) R) =
      delRecords cni net c i R := by
  have hown : (unread cni.node R cmd).list (.addrs c i) = R.list (.addrs c i) := by
    by_cases he : p = c ∧ j = i
    · rw [← he.1, ← he.2, hsame]
    · exact hu.addrs he
  apply again_of_seen h hu.pods hu.nics hown
  intro _
  refine ⟨hu.root, ?_⟩
  intro j'
  by_cases he : p = host ∧ j = j'
  · rw [← he.1, ← he.2, hsame]
  · exact hu.hostAddrs j' he

/-- The addresses of an interface are not read. It matters for that of the
container and for the bridge, which has the gateway. -/
theorem verdict_nicAddrs (h : Placed cni net c i R) (law : Lawful cni net) (base : Store)
    {p j : Text} (hp : '/' ∉ p) (hj : '/' ∉ j) :
    Verdict
      (Spared cni c i (R.store cni.node base) (R.store cni.node base)
        (.etcd (.get (keyText cni.node (.inl (.addrs p j))))))
      (again cni net c i (delSeen cni net c i
        (unread cni.node R (.etcd (.get (keyText cni.node (.inl (.addrs p j)))))) R))
      (delRecords cni net c i R) := by
  have hhost := h.ne_host
  have hlast := last_iff h base
  have hkey : (ListKey.addrs p j).Sound := ⟨hp, hj⟩
  have hu : NicUnread cni.node R _ c i p j := nicUnread h law hp hj .addrs
  have hempty : (unread cni.node R (.etcd (.get (keyText cni.node (.inl (.addrs p j)))))).list
      (.addrs p j) = [] := if_pos rfl
  by_cases hown : p = c ∧ j = i
  · obtain ⟨rfl, rfl⟩ := hown
    apply Verdict.differ
    · rw [spared_get (k := .inl (.addrs _ _)) hkey]
      simp [ReadSpared]
    · exact differ_of_addrs h law hu.pods hu.nics hempty hu.root fun j' =>
        hu.hostAddrs j' fun he => hhost he.1
  by_cases hbridge : p = host ∧ j = cni.conf.bridge ∧ Alone R c
  · obtain ⟨rfl, rfl, ha⟩ := hbridge
    apply Verdict.differ
    · rw [spared_get (k := .inl (.addrs _ _)) hkey]
      simp [ReadSpared, hlast.mpr ha]
    · exact differ_of_gateway h law ha hu.pods hu.nics (hu.addrs hown) hempty
        fun j' hj' => hu.hostAddrs j' fun he => hj' he.2.symm
  apply Verdict.same
  · rw [spared_get (k := .inl (.addrs _ _)) hkey]
    exact ⟨hown, fun he => hbridge ⟨he.2.1, he.2.2, hlast.mp he.1⟩⟩
  by_cases hother : p = host ∧ j ≠ cni.conf.bridge
  · obtain ⟨rfl, hne⟩ := hother
    exact again_of_hostAddrs h law hne hu.pods hu.nics (hu.addrs hown) hu.root hempty
      fun j' hj' => hu.hostAddrs j' fun he => hj' he.2.symm
  apply again_of_seen h hu.pods hu.nics (hu.addrs hown)
  intro ha
  refine ⟨hu.root, ?_⟩
  intro j'
  apply hu.hostAddrs
  intro he
  by_cases hj' : j = cni.conf.bridge
  · exact hbridge ⟨he.1, hj', ha⟩
  · exact hother ⟨he.1, hj'⟩

/-- One read is not answered the first time. -/
theorem verdict_first (h : Placed cni net c i R) (law : Lawful cni net) (base : Store) {p : Text}
    (mem : p ∈ R.list .pods) (hreads : ReadsPod cni.node p (R.list (.nics p)) cmd) :
    Verdict (Spared cni c i (R.store cni.node base) (R.store cni.node base) cmd)
      (again cni net c i (delSeen cni net c i (unread cni.node R cmd) R))
      (delRecords cni net c i R) := by
  cases hreads with
  | nics => exact verdict_podNics h law base mem
  | nic j hj hreads =>
      have hp := h.intact.loadable.pods p mem
      have hslash := h.intact.loadable.nics p j hj
      have hkey : (ListKey.addrs p j).Sound := ⟨hp, hslash⟩
      have hu := nicUnread h law hp hslash hreads
      cases hreads with
      | netns =>
          apply Verdict.same ((spared_get (k := .inr (.netns p)) hp).mpr rfl)
          apply hu.again_of_addrs h
          rw [unread_get (show Sound (.inr (.netns p)) from hp) hkey, if_neg (by simp)]
      | addrs => exact verdict_nicAddrs h law base hp hslash
      | routes =>
          apply Verdict.same ((spared_get (k := .inl (.routes p j)) hkey).mpr trivial)
          apply hu.again_of_addrs h
          rw [unread_get (show Sound (.inl (.routes p j)) from hkey) hkey, if_neg (by simp)]

/-- Every failure while the node is read. Of a container that is listed twice the
second reading is not used, so that the same command may fail there. -/
theorem verdict_read (h : Placed cni net c i R) (law : Lawful cni net) (base : Store)
    (hcut : ReadCut X cni net c i R cmd R') :
    Verdict (Spared cni c i (R.store cni.node base) (R.store cni.node base) cmd)
        (again cni net c i R') (delRecords cni net c i R) ∨
      again cni net c i R' = delRecords cni net c i R ∧ ¬ X cmd ∧
        ∃ p ∈ R.list .pods, ¬ Answered (· = cmd) cni.node R p := by
  have hset : R.value .subnet ≠ none := by simp [h.intact.subnet]
  have hagain : again cni net c i R = delRecords cni net c i R := if_neg hset
  cases hcut with
  | subnet =>
      left
      exact Verdict.same ((spared_get (k := .inr .subnet) trivial).mpr trivial) hagain
  | view _ V hview =>
      cases hview with
      | pods hcmd =>
          left
          subst hcmd
          have hempty : (unread cni.node R (.etcd (.get (keyText cni.node (.inl .pods))))).list
              .pods = [] := if_pos rfl
          apply Verdict.same ((spared_get (k := .inl .pods) trivial).mpr rfl)
          rw [delSeen, hempty, if_neg List.not_mem_nil, hagain]
      | view hview =>
          cases hview with
          | first p mem hreads =>
              left
              exact verdict_first h law base mem hreads
          | again p mem hreads old answered =>
              by_cases hspared : Spared cni c i (R.store cni.node base) (R.store cni.node base) cmd
              · left
                exact Verdict.same hspared (again_delRecords h)
              · right
                have hp := h.intact.loadable.pods p mem
                cases hreads with
                | nics => exact ⟨again_delRecords h, answered.1, p, mem, fun ha => ha.1 rfl⟩
                | nic j hj hreads =>
                    have hkey : (ListKey.addrs p j).Sound := ⟨hp, h.intact.loadable.nics p j hj⟩
                    cases hreads with
                    | netns =>
                        exact absurd ((spared_get (k := .inr (.netns p)) hp).mpr rfl) hspared
                    | routes =>
                        have hroutes : (ListKey.routes p j).Sound := hkey
                        exact absurd ((spared_get (k := .inl (.routes p j)) hroutes).mpr trivial)
                          hspared
                    | addrs =>
                        exact ⟨again_delRecords h, answered.2 j hj, p, mem, fun ha => ha.2 j hj rfl⟩

end Verdicts

/-! ### The second DEL -/

/-- The next DEL goes through. -/
structure Resumable (net : NetworkV4) (c : Text) (T : Registry) : Prop where
  loadable : Loadable T
  subnet : T.value .subnet = none ∨
    T.value .subnet = some net.text ∧ (c ∈ T.list .pods → host ∈ T.list .pods)

section Resumable
variable {X : Cmd → Prop} {cni : Cni} {net : NetworkV4} {base : Store} {R R' S T V : Registry}
variable {c i : Text} {cmd : Cmd}

theorem runs_again (base : Store) (law : Lawful cni net) (h : Resumable net c T) (hc : '/' ∉ c)
    (hch : c ≠ host) (hi : '/' ∉ i) :
    Runs cni.node base (cni.del c i) T (.ok ()) (again cni net c i T) := by
  rcases h.subnet with hnone | ⟨hsub, hhost⟩
  · rw [again_of_none hnone]
    exact runs_del_none law hnone
  · have hset : T.value .subnet ≠ none := by simp [hsub]
    rw [again, if_neg hset]
    exact runs_del_seen base law h.loadable hsub hhost hc hch hi

theorem resumable_left (V : Registry) (h : Loadable S) (hsub : S.value .subnet = some net.text)
    (hhost : c ∈ S.list .pods → host ∈ S.list .pods) : Resumable net c (left cni net c V S) := by
  unfold left
  split_ifs
  · exact ⟨loadable_tearDownRecords h cni net V, .inl (tearDownRecords_subnet V S)⟩
  · exact ⟨h, .inr ⟨hsub, hhost⟩⟩

theorem resumable_of_pods (h : Placed cni net c i R) (hT : Loadable T)
    (hsub : T.value .subnet = R.value .subnet) (hpods : T.list .pods = R.list .pods) :
    Resumable net c T := by
  refine ⟨hT, .inr ⟨hsub.trans h.intact.subnet, ?_⟩⟩
  intro _
  rw [hpods]
  exact h.intact.root

/-- A pod that goes leaves the subnet, and is not listed any more. -/
theorem resumable_dropPod (h : Placed cni net c i R) (V : Registry) (hS : Loadable S)
    (hv : ∀ j, j ≠ .vtep → S.value j = R.value j) :
    Resumable net c (left cni net c V (dropPod c S)) := by
  obtain ⟨simple, -, -, hdrop⟩ := h.dropPod hv
  apply resumable_left V (loadable_dropPod hS c)
  · rw [hdrop]
    simp [hv, h.intact.subnet]
  · exact fun hc => absurd hc (h.not_mem_dropPod hv)

theorem resumable_read (h : Placed cni net c i R) (hcut : ReadCut X cni net c i R cmd R') :
    Resumable net c R' := by
  have hload := h.intact.loadable
  cases hcut with
  | subnet => exact resumable_of_pods h hload rfl rfl
  | view _ V hview =>
      change Resumable net c
        (if c ∈ V.list .pods then left cni net c V (dropSeen cni V c i R) else R)
      split_ifs with hmem
      · apply resumable_dropPod h V
        · split_ifs
          · exact loadable_dropNic hload cni c i _
          · exact hload
        · intro j hj
          split_ifs
          · simp [dropNic_value, hj]
          · rfl
      · exact resumable_of_pods h hload rfl rfl

theorem resumable_nic (h : Placed cni net c i R)
    (hcut : NicHalt cni c i (releasedNic cni c i (firstAddr R c i) R) cmd T) :
    Resumable net c T := by
  have hreleased := releasedNic_eq h (firstAddr R c i)
  have hload : Loadable (releasedNic cni c i (firstAddr R c i) R) := by
    rw [hreleased]
    exact h.intact.loadable.prune _ _
  cases hcut with
  | addrs => exact resumable_of_pods h hload (by rw [hreleased]; rfl) (by simp [hreleased])
  | routes =>
      exact resumable_of_pods h (hload.clearList _) (by simp [hreleased]) (by simp [hreleased])
  | nics =>
      exact resumable_of_pods h ((hload.clearList _).clearList _) (by simp [hreleased])
        (by simp [hreleased])
  | vtep =>
      exact resumable_of_pods h (((hload.clearList _).clearList _).prune _ _) (by simp [hreleased])
        (by simp [hreleased])

theorem loadable_unplugged (h : Placed cni net c i R) : Loadable (unplugged cni c i R) :=
  loadable_dropNic h.intact.loadable cni c i _

theorem unplugged_pods (cni : Cni) (c i : Text) (R : Registry) :
    (unplugged cni c i R).list .pods = R.list .pods :=
  unplugged_list c i (by simp) (by simp) (by simp) (by simp)

theorem resumable_pod (h : Placed cni net c i R) {simple : Text}
    (hcut : PodHalt cni.node c simple (unplugged cni c i R) cmd T) : Resumable net c T := by
  have hload := loadable_unplugged h
  have hpods := unplugged_pods cni c i R
  cases hcut with
  | netns => exact resumable_of_pods h hload (unplugged_value (by simp)) hpods
  | podOf => exact resumable_of_pods h (hload.clear _) (by simp [unplugged_value]) hpods
  | pods => exact resumable_of_pods h ((hload.clear _).clear _) (by simp [unplugged_value]) hpods

theorem resumable_tear (h : Placed cni net c i R)
    (hcut : TearCut cni net R (dropPod c (unplugged cni c i R)) cmd T R') : Resumable net c R' := by
  have hload := loadable_dropPod (loadable_unplugged h) c
  have hfinished : ∀ S : Registry, Loadable S → Loadable (finished net S) :=
    fun S hS => ((loadable_dropPod hS host).clear _).prune _ _
  have htorn : Loadable (tornNics cni R (dropPod c (unplugged cni c i R))) :=
    loadable_dropHostNic (loadable_dropHostNic (loadable_dropHostNic hload _) _) _
  cases hcut with
  | bridge =>
      refine ⟨hfinished _ ?_, .inl (by simp [finished])⟩
      exact loadable_dropHostNic (loadable_dropHostNic (loadable_dropNic hload cni host _ _) _) _
  | vxlan =>
      refine ⟨hfinished _ ?_, .inl (by simp [finished])⟩
      exact loadable_dropHostNic (loadable_dropNic (loadable_dropHostNic hload _) cni host _ _) _
  | netns => exact ⟨((htorn.clear _).clear _).prune _ _, .inl (by simp)⟩
  | subnets => exact ⟨(loadable_dropPod htorn host).clear _, .inl (by simp)⟩
  | stop _ _ hs =>
      have hgone : c ∉ (dropPod c (unplugged cni c i R)).list .pods :=
        h.not_mem_dropPod fun j hj => unplugged_value hj
      obtain ⟨simple, -, -, hdrop⟩ :=
        h.dropPod (S := unplugged cni c i R) fun j hj => unplugged_value hj
      have hset : R'.value .subnet = some net.text := by
        rw [hs.subnet, hdrop]
        simp [unplugged_value, h.intact.subnet]
      exact ⟨hs.loadable hload, .inr ⟨hset, fun hc => absurd (hs.pods hc) hgone⟩⟩

theorem resumable_del (h : Placed cni net c i R) (hcut : DelCut cni net c i R cmd T R') :
    Resumable net c R' := by
  have hload := loadable_unplugged h
  cases hcut with
  | release =>
      apply resumable_dropPod h R (loadable_dropNic h.intact.loadable cni c i _)
      intro j hj
      simp [dropNic_value, hj]
  | nic _ _ hhalt => exact resumable_nic h hhalt
  | netns =>
      apply resumable_left R (hload.clear _)
      · simp [unplugged_value, h.intact.subnet]
      · intro _
        rw [Registry.clear_list, unplugged_pods]
        exact h.intact.root
  | pod _ _ simple hown hhalt => exact resumable_pod h hhalt
  | tear _ _ _ ha htear => exact resumable_tear h htear

end Resumable

/-! ### The claim -/

section Claim
variable (cni : Cni) (call : Call) (s : Store)

/-- A DEL that starts on `s`, in which `cmd` fails on the map `S`. -/
def Cut (cmd : Cmd) (S : Store) (w : World) : Prop :=
  ∃ o, (call.program cni).Exec Conduct.oneEtcdFault.handle ⟨s, [], none⟩ o w ∧
    w.fault = some (cmd, S)

/-- The same is stored under `/ohno`. -/
def SameSpace (s u : Store) : Prop := ∀ k, "/ohno".toList <+: k → s k = u k

/-- A DEL of the same container on `u` leaves what an uninterrupted DEL on `s` does. -/
def Repeats (u : Store) : Prop :=
  ∀ (next : Call) (o o' : Outcome) (v w : World), next.op = .del → next.container = call.container →
    (next.program cni).Exec Conduct.obliging.handle ⟨u, [], none⟩ o v →
      (call.program cni).Exec Conduct.obliging.handle ⟨s, [], none⟩ o' w → SameSpace v.store w.store

end Claim

section Space
variable {node : Text} {base : Store} {R S : Registry}

theorem ohno_keyText (node : Text) (k : RecordKey) : "/ohno".toList <+: keyText node k := by
  have hnode : "/ohno".toList <+: etcdKeyPrefixNode := by decide +kernel
  have hsubnet : "/ohno".toList <+: etcdKeySubnet := by decide +kernel
  have haddress : "/ohno".toList <+: etcdKeyAddress := by decide +kernel
  cases hk : parts k with
  | some ps =>
      rw [keyText_parts node hk]
      exact hnode.trans (List.prefix_append _ _)
  | none =>
      rcases parts_none hk with rfl | rfl | rfl
      · exact hsubnet
      · exact haddress.trans (List.prefix_append _ _)
      · exact hsubnet.trans (List.prefix_append _ _)

theorem not_sameSpace (node : Text) (base : Store) (h : Differ R S) :
    ¬ SameSpace (R.store node base) (S.store node base) := by
  intro hsame
  rcases h with ⟨l, hl, hne⟩ | ⟨j, hj, hne⟩
  · apply hne
    have hv := Store.values_congr (hsame _ (ohno_keyText node (.inl l)))
    exact (Registry.values_store R node base hl).symm.trans
      (hv.trans (Registry.values_store S node base hl))
  · apply hne
    have hv := hsame _ (ohno_keyText node (.inr j))
    have hR : R.store node base (keyText node (.inr j)) = R.value j := Registry.store_at hj
    have hS : S.store node base (keyText node (.inr j)) = S.value j := Registry.store_at hj
    rw [← hR, hv, hS]

end Space

section Process
variable {cni : Cni} {net : NetworkV4} {R : Registry} {c i : Text} {s S : Store} {cmd : Cmd}

theorem Placed.process (h : Placed cni net c i R) (mac : Mac) (uniqueId : Text) :
    Placed (process cni mac uniqueId) net c i R := by
  obtain ⟨hstocked, hfurnished, hne, hslash, hnic, hmem⟩ := h
  obtain ⟨hsetUp, hgateway, hhost, hlisted, hnodup, hrecorded, hbare, hapart⟩ := hstocked
  obtain ⟨haddresses, hsubnets, hvtep⟩ := hfurnished
  exact ⟨⟨setUp_process.mpr hsetUp, hgateway, hhost, hlisted, hnodup, hrecorded, hbare, hapart⟩,
    ⟨haddresses, hsubnets, hvtep⟩, hne, hslash, hnic, hmem⟩

theorem spared_process (mac : Mac) (uniqueId : Text) :
    Spared (process cni mac uniqueId) c i s S cmd ↔ Spared cni c i s S cmd := by
  constructor
  · intro h
    cases h with
    | get k hk h => exact .get k hk h
    | put k v hk h => exact .put k v hk h
    | del k hk h => exact .del k hk h
  · intro h
    cases h with
    | get k hk h => exact .get k hk h
    | put k v hk h => exact .put k v hk h
    | del k hk h => exact .del k hk h

end Process

section Stumble
variable {A : Type} {cmd : Cmd} {w : World} {S : Store}

/-- The command that is meant to fail is the one that does. -/
theorem fault_stumble (cmd : Cmd) (p : OhnoProgram A) (w : World) (hw : ∀ f ∈ w.fault, f.1 = cmd) :
    ∀ f ∈ (p.run (stumble cmd) w).2.fault, f.1 = cmd := by
  induction p generalizing w with
  | pure a => exact hw
  | throw e => exact hw
  | call c next ih =>
      apply ih
      unfold stumble
      split_ifs with hc
      · intro f hf
        cases hf
        exact hc.2
      · cases c with
        | etcd e => exact hw
        | netlink n => exact hw

/-- It fails the first time. -/
theorem insisting_stumble {e : EtcdCmd} (c : Cmd) (w : World) :
    insisting (· = .etcd e) c w (stumble (.etcd e) c w).1 (stumble (.etcd e) c w).2 := by
  have hfails : Conduct.oneEtcdFault.fails (.etcd e) := ⟨e, rfl⟩
  refine ⟨handle_stumble (fun _ _ => rfl) hfails c w, ?_⟩
  intro hc hw
  simp [stumble, hc, hw]

theorem exec_insisting_none {p : OhnoProgram A} {o : Except Thrown A} {w v : World}
    (h : p.Exec Conduct.oneEtcdFault.handle w o v) : p.Exec (insisting fun _ => False) w o v := by
  have hmono : ∀ c u r t, Conduct.oneEtcdFault.handle c u r t →
      insisting (fun _ => False) c u r t :=
    fun c u r t hc => ⟨hc, fun hf => hf.elim⟩
  exact Program.Exec.mono hmono h

/-- An unanswered read is an etcdctl command. -/
theorem etcd_of_unanswered {node p : Text} {R : Registry} (h : ¬ Answered (· = cmd) node R p) :
    ∃ e, cmd = .etcd e := by
  by_contra hne
  apply h
  exact ⟨fun he => hne ⟨_, he.symm⟩, fun i _ he => hne ⟨_, he.symm⟩⟩

end Stumble

section Claim
variable {cni : Cni} {net : NetworkV4} {base : Store} {R R' : Registry} {call : Call} {cmd : Cmd}
variable {S : Store} {w : World}

/-- The store after a DEL in which every command succeeds. -/
theorem store_of_del (law : Lawful cni net) (op : call.op = .del)
    (h : Resumable net call.container.id R) {o : Outcome}
    (x : (call.program cni).Exec Conduct.obliging.handle ⟨R.store cni.node base, [], none⟩ o w) :
    w.store = (again cni net call.container.id call.container.nic R).store cni.node base := by
  obtain ⟨op', c, mac, uniqueId⟩ := call
  cases op
  have hrun := runs_again base (lawful_process law mac uniqueId) h c.name_id.slash c.id_ne
    c.name_nic.slash
  have hcall : Runs cni.node base (Call.program cni ⟨.del, c, mac, uniqueId⟩) R (.ok none)
      (again cni net c.id c.nic R) := Runs.bind hrun (Runs.pure _ _)
  exact (hcall.exec Conduct.obliges_obliging (Conduct.settled_obliging none) x).2.1

/-- Any of the two executions can be had. -/
theorem repeats_iff (law : Lawful cni net) (op : call.op = .del)
    (h : Placed cni net call.container.id call.container.nic R)
    (h' : Resumable net call.container.id R') :
    Repeats cni call (R.store cni.node base) (R'.store cni.node base) ↔
      SameSpace ((again cni net call.container.id call.container.nic R').store cni.node base)
        ((delRecords cni net call.container.id call.container.nic R).store cni.node base) := by
  have hset : R.value .subnet ≠ none := by simp [h.intact.subnet]
  have hagain : again cni net call.container.id call.container.nic R =
      delRecords cni net call.container.id call.container.nic R := if_neg hset
  have hR : Resumable net call.container.id R := resumable_of_pods h h.intact.loadable rfl rfl
  constructor
  · intro hrep
    have hx : ∀ T : Registry, (call.program cni).Exec Conduct.obliging.handle
        ⟨T.store cni.node base, [], none⟩
        ((call.program cni).run Conduct.comply ⟨T.store cni.node base, [], none⟩).1
        ((call.program cni).run Conduct.comply ⟨T.store cni.node base, [], none⟩).2 :=
      fun T => Program.exec_run (Conduct.handle_comply fun _ _ => rfl) _ _
    have hsame := hrep call _ _ _ _ op rfl (hx R') (hx R)
    rwa [store_of_del law op h' (hx R'), store_of_del law op hR (hx R), hagain] at hsame
  · intro hsame next o o' v w hnext hc hv hw
    rw [← hc] at h'
    rw [store_of_del law hnext h' hv, store_of_del law op hR hw, hagain, hc]
    exact hsame

theorem nodup_hostNics (law : Lawful cni net) : (hostNics cni).Nodup := by
  have h₁ := law.bridge_ne_vxlan
  have h₂ := law.bridge_ne_underlay
  have h₃ := law.underlay_ne_vxlan.symm
  unfold hostNics
  split_ifs
  · simp [h₁, h₂, h₃]
  · simp [h₂]

/-- The records after a DEL that was cut. -/
theorem cut_records {X : Cmd → Prop} (law : Lawful cni net) (op : call.op = .del)
    (h : Placed cni net call.container.id call.container.nic R) {o : Outcome}
    (x : (call.program cni).Exec (insisting X) ⟨R.store cni.node base, [], none⟩ o w) :
    w.fault = none ∧ (∀ p ∈ R.list .pods, Answered X cni.node R p) ∨
      ∃ cmd T R', w.fault = some (cmd, Registry.store T cni.node base) ∧
        w.store = Registry.store R' cni.node base ∧
        (T = R ∧ ReadCut X (process cni call.mac call.uniqueId) net call.container.id
          call.container.nic
            R cmd R' ∨
          (∀ p ∈ R.list .pods, Answered X cni.node R p) ∧
            DelCut (process cni call.mac call.uniqueId) net call.container.id
              call.container.nic R cmd
              T R') := by
  obtain ⟨op', c, mac, uniqueId⟩ := call
  cases op
  have h' := Placed.process h mac uniqueId
  have hnodup : ∀ p, (R.list (.nics p)).Nodup := by
    intro p
    by_cases hp : p = host
    · rw [hp, h.intact.nics]
      exact nodup_hostNics law
    · exact h.stocked.nodup p hp
  have hcuts : Cuts X (process cni mac uniqueId).node base
      ((process cni mac uniqueId).del c.id c.nic) R
      (∀ p ∈ R.list .pods, Answered X cni.node R p) (fun cmd T _ R' => T = R ∧
        ReadCut X (process cni mac uniqueId) net c.id c.nic R cmd R' ∨
          (∀ p ∈ R.list .pods, Answered X cni.node R p) ∧
            DelCut (process cni mac uniqueId) net c.id c.nic R cmd T R') :=
    cuts_cniDel (lawful_process law mac uniqueId) h'.intact h'.stocked.setUp.owned
      hnodup h.pod h.nic
      h.slash h.ne_host h.slash_nic
  change (Program.bind ((process cni mac uniqueId).del c.id c.nic) fun _ =>
    .pure none).Exec _ _ _ _ at x
  rw [Program.exec_bind] at x
  obtain ⟨u, v, hx, -, rfl⟩ | ⟨e, hx, -⟩ := x
  · exact hcuts _ _ _ hx
  · exact hcuts _ _ _ hx

/-- What repeating the DEL is worth. -/
theorem repeats_of_verdict (law : Lawful cni net) (op : call.op = .del)
    (h : Placed cni net call.container.id call.container.nic R)
    (h' : Resumable net call.container.id R') {spared : Prop}
    (hv : Verdict spared (again cni net call.container.id call.container.nic R')
      (delRecords cni net call.container.id call.container.nic R)) :
    Repeats cni call (R.store cni.node base) (R'.store cni.node base) ↔ spared := by
  rw [repeats_iff law op h h']
  rcases hv with ⟨hs, heq⟩ | ⟨hs, hdiffer⟩
  · rw [heq]
    exact ⟨fun _ => hs, fun _ _ _ => rfl⟩
  · exact ⟨fun hsame => absurd hsame (not_sameSpace cni.node base hdiffer), fun hs' =>
      absurd hs' hs⟩

/-- Every DEL that is cut, apart from the readings that are not used. -/
theorem cut_repeats {X : Cmd → Prop} (law : Lawful cni net) (op : call.op = .del)
    (h : Placed cni net call.container.id call.container.nic R) {o : Outcome}
    (x : (call.program cni).Exec (insisting X) ⟨R.store cni.node base, [], none⟩ o w)
    (hfault : w.fault = some (cmd, S)) :
    (Repeats cni call (R.store cni.node base) w.store ↔
        Spared cni call.container.id call.container.nic (R.store cni.node base) S cmd) ∨
      S = R.store cni.node base ∧ Repeats cni call (R.store cni.node base) w.store ∧ ¬ X cmd ∧
        ∃ p ∈ R.list .pods, ¬ Answered (· = cmd) cni.node R p := by
  have law' := lawful_process law call.mac call.uniqueId
  have h' := Placed.process h call.mac call.uniqueId
  rcases cut_records law op h x with ⟨hnone, -⟩ | ⟨cmd', T, R', hf, hw, hcut⟩
  · rw [hfault] at hnone
    cases hnone
  · rw [hfault] at hf
    cases hf
    rw [hw, ← spared_process call.mac call.uniqueId]
    rcases hcut with ⟨rfl, hcut⟩ | ⟨-, hcut⟩
    · have hresume := resumable_read h' hcut
      rcases verdict_read h' law' base hcut with hv | ⟨heq, hX, hp⟩
      · exact .inl (repeats_of_verdict law op h hresume hv)
      · have hv : Verdict True (again cni net call.container.id call.container.nic R')
            (delRecords cni net call.container.id call.container.nic T) := .same trivial heq
        exact .inr ⟨rfl, (repeats_of_verdict law op h hresume hv).mpr trivial, hX, hp⟩
    · exact .inl (repeats_of_verdict law op h (resumable_del h' hcut)
        (verdict_del h' law' base hcut))

/-- A DEL in which one command failed can be repeated, whenever that command fails
on that map, exactly if the command may fail on it. -/
theorem del_repeated_iff {s₀ s : Store} {log : List Event} {may : List Event → Store → Call → Prop}
    (law : Lawful cni net) {others : List Text} (unrecorded : Unrecorded cni.node s₀)
    (ho : ∀ x ∈ others, Store.Item x) (hothers : s₀ etcdKeySubnet = encode others)
    (h : History cni may s₀ log s) (added : AllAdded log) (op : call.op = .del)
    (registered : call.container.nic ∈ ask (getAllNic cni.node call.container.id) s)
    (cut : ∃ w, Cut cni call s cmd S w) :
    (∀ w, Cut cni call s cmd S w → Repeats cni call s w.store) ↔
      Spared cni call.container.id call.container.nic s S cmd := by
  obtain ⟨R, rfl, hR⟩ := furnished_of_history law unrecorded ho hothers h added
  have hc := call.container.name_id.slash
  rw [ask_getAllNic hc] at registered
  have hplaced : Placed cni net call.container.id call.container.nic R := by
    rcases hR with rfl | ⟨hstocked, hfurnished⟩
    · cases registered
    · exact ⟨hstocked, hfurnished, call.container.id_ne, hc,
        call.container.name_nic.slash, registered⟩
  constructor
  · intro hall
    obtain ⟨w, o, hx, hf⟩ := cut
    have hw := hall w ⟨o, hx, hf⟩
    rcases cut_repeats law op hplaced (exec_insisting_none hx) hf with
      hiff | ⟨rfl, -, -, p, hp, hun⟩
    · exact hiff.mp hw
    · -- the same command fails where it is issued first
      obtain ⟨e, rfl⟩ := etcd_of_unanswered hun
      have hx' := Program.exec_run (insisting_stumble (e := e)) (call.program cni)
        ⟨R.store cni.node s₀, [], none⟩
      generalize hfinal : (call.program cni).run (stumble (.etcd e))
        ⟨R.store cni.node s₀, [], none⟩ =
        final at hx'
      have hfault : ∀ f ∈ final.2.fault, f.1 = .etcd e := by
        rw [← hfinal]
        apply fault_stumble
        intro f hf
        cases hf
      rcases cut_records law op hplaced hx' with ⟨-, hanswered⟩ | ⟨cmd', T, R', hf', -, hcut⟩
      · exact absurd (hanswered p hp) hun
      · have hcmd : cmd' = .etcd e := hfault (cmd', _) hf'
        subst hcmd
        rcases hcut with ⟨rfl, -⟩ | ⟨hanswered, -⟩
        · have hrep := hall final.2 ⟨final.1, exec_of_insisting hx', hf'⟩
          rcases cut_repeats law op hplaced hx' hf' with hiff | ⟨-, -, hX, -⟩
          · exact hiff.mp hrep
          · exact absurd rfl hX
        · exact absurd (hanswered p hp) hun
  · intro hs w hcut
    obtain ⟨o, hx, hf⟩ := hcut
    rcases cut_repeats law op hplaced (exec_insisting_none hx) hf with hiff | ⟨-, hrep, -⟩
    · exact hiff.mpr hs
    · exact hrep

end Claim

/-! ### An interface that is left behind -/

/-- The list of the interfaces is read while the node is restored. -/
def readNics : Cmd := .etcd (.get (getNicKey ['a'] containerA.id))

/-- The DEL in which this fails. -/
def cutDel : Outcome × World :=
  (delA.program cniA).run (stumble readNics) ⟨(addA.finish cniA noRecords).2, [], none⟩

theorem cut_cutDel : ∃ S, Cut cniA delA (addA.finish cniA noRecords).2 readNics S cutDel.2 := by
  have hfails : Conduct.oneEtcdFault.fails readNics := ⟨_, rfl⟩
  have hx := Program.exec_run (handle_stumble (m := .oneEtcdFault) (fun _ _ => rfl) hfails)
    (delA.program cniA) ⟨(addA.finish cniA noRecords).2, [], none⟩
  have hfault : cutDel.2.fault.map Prod.fst = some readNics := by decide +kernel
  obtain ⟨⟨cmd, S⟩, hS, rfl⟩ := Option.map_eq_some_iff.mp hfault
  exact ⟨S, cutDel.1, hx, hS⟩

theorem registered_addA : delA.container.nic ∈
    ask (getAllNic cniA.node delA.container.id) (addA.finish cniA noRecords).2 := by decide +kernel

theorem del_repeated_iff_readNics : ∃ S,
    (∀ w, Cut cniA delA (addA.finish cniA noRecords).2 readNics S w →
      Repeats cniA delA (addA.finish cniA noRecords).2 w.store) ↔
    Spared cniA delA.container.id delA.container.nic (addA.finish cniA noRecords).2 S readNics := by
  obtain ⟨S, hS⟩ := cut_cutDel
  exact ⟨S, del_repeated_iff lawful_cniA (unrecorded_noRecords _) items_nil rfl history_addA
    allAdded_addA rfl registered_addA ⟨_, hS⟩⟩

/-- The second DEL does not find the container any more, and the list of its
interfaces stays. -/
theorem interface_left_behind : ¬ ∀ log s call cmd S w,
    History cniA (fun _ _ _ => True) noRecords log s → AllAdded log → call.op = .del →
    call.container.nic ∈ ask (getAllNic cniA.node call.container.id) s →
    Cut cniA call s cmd S w → Repeats cniA call s w.store := by
  intro hall
  obtain ⟨S, hS⟩ := cut_cutDel
  have h : History cniA (fun _ _ _ => True) noRecords
      ([] ++ [(addA, (addA.finish cniA noRecords).1)])
      (addA.finish cniA noRecords).2 := History.start.next addA trivial
  have hrep := hall _ _ delA _ S _ h allAdded_addA rfl registered_addA hS
  have hsame := hrep delA _ _ _ _ rfl rfl
    (Program.exec_run (Conduct.handle_comply fun _ _ => rfl) _ _)
    (Program.exec_run (Conduct.handle_comply fun _ _ => rfl) _ _)
    (getNicKey ['a'] containerA.id) (ohno_keyText ['a'] (.inl (.nics containerA.id)))
  have hleft : (((delA.program cniA).run Conduct.comply ⟨cutDel.2.store, [], none⟩).2.store
      (getNicKey ['a'] containerA.id)).isSome = true := by decide +kernel
  have hgone : (((delA.program cniA).run Conduct.comply
      ⟨(addA.finish cniA noRecords).2, [], none⟩).2.store (getNicKey ['a'] containerA.id)).isSome =
        false := by decide +kernel
  rw [hsame, hgone] at hleft
  cases hleft

end Ohno.RepeatedDel
