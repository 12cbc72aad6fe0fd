import Ohno.AddedNodes
import Ohno.DelCuts

/-!
# Nodes that a DEL has left half deleted

`again` is what the next DEL of the same container makes of the records. Either
it makes of them what an uninterrupted DEL makes of the node as it was, or some
record tells the difference. The facts here say which, one for each place at
which a DEL can be cut.
-/
namespace Ohno.HalfDeletedNodes
open CommandPrograms DelimitedLists AddressText EtcdClientShell Subnets FirstFit Ipam Netlink Nics
open Storage CniPlugin Records Conducts RecordPrograms RestoredNode DelRecords AddRecords NodeStates
open NodeState NodeHistories NodeInvariants RegistryHistories AddedNodes SeenNodes CutPrograms
open DelCuts

/-- What the next DEL makes of the records. -/
def again (cni : Cni) (net : NetworkV4) (c i : Text) (R : Registry) : Registry :=
  if R.value .subnet = none then R else delRecords cni net c i R

/-- A record whose key is determined by its text differs. -/
def Differ (R S : Registry) : Prop :=
  (∃ l : ListKey, l.Sound ∧ R.list l ≠ S.list l) ∨ ∃ j : ValueKey, j.Sound ∧ R.value j ≠ S.value j

/-- What `Stocked` leaves out: the records that belong to the node as a whole. -/
structure Furnished (cni : Cni) (net : NetworkV4) (R : Registry) : Prop where
  addresses : ∀ x ∈ R.list .addresses, ∃ k, x = hostText net k
  subnets : net.text ∈ R.list .subnets
  vtep : cni.ipamMode = .vxlan → R.value .vtep ≠ none

/-- Container `c` has interface `i` on a node to which it was added. -/
structure Placed (cni : Cni) (net : NetworkV4) (c i : Text) (R : Registry) : Prop where
  stocked : Stocked cni net R
  furnished : Furnished cni net R
  ne_host : c ≠ host
  slash : '/' ∉ c
  slash_nic : '/' ∉ i
  nic : i ∈ R.list (.nics c)

section Differ
variable {R S : Registry} {l : ListKey} {x : Text}

theorem Differ.of_mem (hl : l.Sound) (hR : x ∈ R.list l) (hS : x ∉ S.list l) : Differ R S := by
  refine .inl ⟨l, hl, ?_⟩
  intro he
  exact hS (he ▸ hR)

end Differ

/-! ### Histories of ADDs -/

section Furnished
variable {cni : Cni} {net : NetworkV4} {law : Lawful cni net} {R R' : Registry} {c : Container}

theorem Furnished.newEnd (h : Furnished cni net R) {gw : BitVec 32} {o : Except Thrown CniResult}
    (hend : NewEnd cni net gw c R o R') : Furnished cni net R' := by
  obtain ⟨haddresses, hsubnets, hvtep⟩ := h
  cases hend with
  | refused => exact ⟨haddresses, hsubnets, hvtep⟩
  | exhausted =>
      constructor
      · simpa [withPod_list] using haddresses
      · simpa [withPod_list] using hsubnets
      · simpa [withPod_value] using hvtep
  | new k =>
      constructor
      · intro x hx
        simp only [withAddr_list, withPod_list, if_true, List.mem_append, List.mem_singleton,
          reduceCtorEq, if_false] at hx
        rcases hx with hx | hx
        · exact haddresses x hx
        · exact ⟨k, hx⟩
      · simpa [withAddr_list, withPod_list] using hsubnets
      · simpa [withPod_value] using hvtep

theorem furnished_setUpRecords (law : Lawful cni net) {others : List Text}
    (ho : ∀ x ∈ others, Store.Item x) (mac : Mac) (uniqueId : Text) (k : ℕ) :
    Furnished cni net (setUpRecords law mac uniqueId k (fresh others ho)) := by
  constructor
  · intro x hx
    exact ⟨k, by simpa [setUpRecords, nodeRecords_list, fresh] using hx⟩
  · simp [setUpRecords, nodeRecords_list]
  · intro hv
    simp [setUpRecords, nodeRecords_value, process, hv]

/-- One ADD that returns. -/
theorem Ends.furnished {call : Call} {r : CniResult} (op : call.op = .add) {o : Outcome}
    (hend : Ends law call o R R') (hr : o = .ok (some r)) {others : List Text}
    {ho : ∀ x ∈ others, Store.Item x}
    (hR : R = fresh others ho ∨ Stocked cni net R ∧ Furnished cni net R) :
    Furnished cni net R' := by
  cases hend with
  | unknown => cases op
  | deleted => cases op
  | @first c mac uniqueId k o _ _ idle fit hend =>
      have hfresh : R = fresh others ho := by
        rcases hR with hR | ⟨hR, -⟩
        · exact hR
        · exact absurd (idle.subnet.symm.trans hR.setUp.intact.subnet) (by simp)
      subst hfresh
      exact (furnished_setUpRecords law ho mac uniqueId k).newEnd hend
  | added setUp hend =>
      have hfurnished : Furnished cni net R := by
        rcases hR with hR | ⟨-, hR⟩
        · subst hR
          exact absurd setUp.intact.subnet (by simp [fresh])
        · exact hR
      cases hend with
      | found => exact hfurnished
      | bare => exact hfurnished
      | new absent hend => exact hfurnished.newEnd hend

/-- A history of ADDs that return keeps the shared records too. -/
theorem furnished_of_history {s₀ s : Store} {log : List Event}
    {may : List Event → Store → Call → Prop} (law : Lawful cni net) {others : List Text}
    (unrecorded : Unrecorded cni.node s₀) (ho : ∀ x ∈ others, Store.Item x)
    (hothers : s₀ etcdKeySubnet = encode others) (h : History cni may s₀ log s)
    (added : AllAdded log) :
    ∃ R, s = R.store cni.node s₀ ∧
      (R = fresh others ho ∨ Stocked cni net R ∧ Furnished cni net R) := by
  induction h with
  | start => exact ⟨fresh others ho, unrecorded.eq_fresh ho hothers, .inl rfl⟩
  | @call log s call o w h allowed x ih =>
      obtain ⟨R, rfl, hR⟩ := ih fun e he => added e (List.mem_append_left _ he)
      obtain ⟨hadd, r, hr⟩ := added (call, o) (List.mem_append_right _ (List.mem_singleton_self _))
      have hsound : Sound cni net R := by
        rcases hR with rfl | ⟨hstocked, -⟩
        · exact .inl (idle_fresh law ho)
        · exact .inr ⟨1, hstocked.setUp⟩
      obtain ⟨R', hend, hw⟩ := ends_of_exec law hsound x
      exact ⟨R', hw, .inr ⟨Ends.stocked hadd hend hr (hR.imp_right And.left),
        Ends.furnished hadd hend hr hR⟩⟩

end Furnished

/-! ### The container and the root namespace -/

section Placed
variable {cni : Cni} {net : NetworkV4} {R S T : Registry} {c i : Text}

theorem Placed.intact (h : Placed cni net c i R) : Intact cni net 1 R := h.stocked.setUp.intact

theorem Placed.pod (h : Placed cni net c i R) : c ∈ R.list .pods :=
  h.stocked.listed c h.ne_host i h.nic

/-- The address of the interface is a host other than the gateway, and given out. -/
theorem Placed.addr (h : Placed cni net c i R) : ∃ k, 2 ≤ k ∧ k ≤ hostCount net ∧
    firstAddr R c i = hostText net k ∧ firstAddr R c i ∈ R.list .addresses ∧
    firstAddr R c i ∈ R.list (.addrs c i) := by
  obtain ⟨k, hrange, haddrs, hgiven⟩ := h.stocked.recorded c h.ne_host i h.nic
  have hfirst : firstAddr R c i = hostText net k := by simp [firstAddr, haddrs]
  exact ⟨k, hrange.1, hrange.2, hfirst, hfirst ▸ hgiven, by simp [hfirst, haddrs]⟩

/-- What the root namespace gives back with an interface. -/
theorem firstAddr_host (h : Stocked cni net R) (j : Text) :
    firstAddr R host j = (hostAddrs cni net j).headD [] := by rw [firstAddr, h.hostAddrs]

theorem hostText_ne_vtep (law : Lawful cni net) (k : ℕ) : hostText net k ≠ cidr net.address 32 := by
  have hle := law.prefixLength_le
  intro he
  have hlen : net.prefixLength = 32 := (cidr_injective he).2
  omega

/-- No interface of the root namespace has the address of a container. -/
theorem Placed.ne_firstAddr (h : Placed cni net c i R) (law : Lawful cni net) (j : Text) :
    firstAddr R c i ≠ firstAddr R host j := by
  have hcount := hostCount_lt net
  obtain ⟨k, hk, hle, hfirst, -, -⟩ := h.addr
  rw [hfirst, firstAddr_host h.stocked, hostAddrs]
  split_ifs
  · intro he
    have hk1 : k = 1 := hostText_injective (by omega) (by omega) he
    omega
  · exact hostText_ne_vtep law k
  · exact (item_hostText net k).ne_nil

/-- Only the bridge has the address of the gateway. -/
theorem gateway_ne_firstAddr (h : Stocked cni net R) (law : Lawful cni net) {j : Text}
    (hj : j ≠ cni.conf.bridge) : hostText net 1 ≠ firstAddr R host j := by
  rw [firstAddr_host h, hostAddrs, if_neg hj]
  split_ifs
  · exact hostText_ne_vtep law 1
  · exact (item_hostText net 1).ne_nil

theorem bridge_mem (h : Stocked cni net R) : cni.conf.bridge ∈ R.list (.nics host) := by
  obtain ⟨rest, hrest⟩ := hostNics_cons cni
  simp [h.setUp.intact.nics, hrest]

/-- The pod is found by its namespace, whatever happened to its interfaces. -/
theorem Placed.dropPod (h : Placed cni net c i R) (hv : ∀ j, j ≠ .vtep → S.value j = R.value j) :
    ∃ simple, simple ≠ host ∧ R.value (.podOf simple) = some c ∧
      dropPod c S = ((S.clear (.netns c)).clear (.podOf simple)).prune .pods c := by
  obtain ⟨simple, hown, hdrop⟩ := Owned.dropPod h.stocked.setUp.owned h.pod S hv
  refine ⟨simple, ?_, hown, hdrop⟩
  rintro rfl
  exact h.ne_host (Option.some.inj (hown.symm.trans h.intact.podOf))

theorem Placed.not_mem_dropPod (h : Placed cni net c i R)
    (hv : ∀ j, j ≠ .vtep → S.value j = R.value j) : c ∉ (DelRecords.dropPod c S).list .pods := by
  obtain ⟨simple, -, -, hdrop⟩ := h.dropPod hv
  simp [hdrop]

end Placed

/-! ### The end of a DEL -/

section Left
variable {cni : Cni} {net : NetworkV4} {R S T : Registry} {c i : Text}

theorem left_list_subset (S : Registry) (l : ListKey) : (left cni net c R S).list l ⊆ S.list l := by
  unfold left
  split_ifs
  · exact tearDownRecords_list_subset R S l
  · exact List.Subset.refl _

theorem left_nics (S : Registry) (hc : c ≠ host) :
    (left cni net c R S).list (.nics c) = S.list (.nics c) := by
  unfold left
  split_ifs
  · exact tearDownRecords_list R S (by simp) (by simp) (by simp) (by simp [hc]) (by simp) (by simp)
  · rfl

theorem mem_left_addresses {x : Text} (hne : ∀ j, x ≠ firstAddr R host j)
    (hx : x ∈ S.list .addresses) :
    x ∈ (left cni net c R S).list .addresses := by
  unfold left
  split_ifs
  · exact mem_tearDownRecords_addresses hne hx
  · exact hx

theorem mem_left_pods (hc : c ≠ host) (hn : S.value (.netns host) = some host)
    (ho : S.value (.podOf host) = some host) (hS : c ∈ S.list .pods) :
    c ∈ (left cni net c R S).list .pods := by
  unfold left
  split_ifs
  · exact mem_tearDownRecords_pods hc hn ho hS
  · exact hS

theorem again_of_gone (h : c ∉ T.list .pods) : again cni net c i T = T := by
  unfold again
  split_ifs
  · rfl
  · rw [delRecords, if_neg h]

theorem again_of_none (h : T.value .subnet = none) : again cni net c i T = T := if_pos h

/-- The next DEL when the node still looks the same. -/
theorem again_of_same (h : Placed cni net c i R) (hsub : T.value .subnet = R.value .subnet)
    (hpods : T.list .pods = R.list .pods) (hn : T.list (.nics host) = R.list (.nics host))
    (ha : ∀ j, T.list (.addrs host j) = R.list (.addrs host j)) :
    again cni net c i T = left cni net c R (dropContainer cni c i T) := by
  have hset : T.value .subnet ≠ none := by simp [hsub, h.intact.subnet]
  have hmem : c ∈ T.list .pods := hpods ▸ h.pod
  have halone : Alone T c ↔ Alone R c := by
    unfold Alone
    rw [hpods]
  rw [again, if_neg hset, delRecords, if_pos hmem, tearDownRecords_congr hn ha, left]
  simp only [halone]

/-- An uninterrupted DEL. -/
theorem delRecords_eq (h : Placed cni net c i R) :
    delRecords cni net c i R = left cni net c R (dropPod c (unplugged cni c i R)) := by
  have hset : R.value .subnet ≠ none := by simp [h.intact.subnet]
  have hagain := again_of_same h rfl rfl rfl fun _ => rfl
  rw [again, if_neg hset] at hagain
  rw [hagain, dropContainer, if_pos h.nic]
  rfl

end Left

/-! ### What an uninterrupted DEL leaves -/

section Deleted
variable {cni : Cni} {net : NetworkV4} {R S T : Registry} {c i : Text}

theorem unplugged_value {j : ValueKey} (hj : j ≠ .vtep) :
    (unplugged cni c i R).value j = R.value j := by
  simp [unplugged, dropNic_value, hj]

theorem Placed.ne_underlay (h : Placed cni net c i R) : ¬(c = host ∧ i = cni.underlayDev) :=
  fun hc => h.ne_host hc.1

theorem unplugged_addresses (h : Placed cni net c i R) : (unplugged cni c i R).list .addresses =
    (R.list .addresses).filter (· ≠ firstAddr R c i) := by
  simp [unplugged, dropNic_list, h.ne_underlay]

theorem delRecords_subset (h : Placed cni net c i R) (l : ListKey) :
    (delRecords cni net c i R).list l ⊆ (unplugged cni c i R).list l := by
  rw [delRecords_eq h]
  exact List.Subset.trans (left_list_subset _ l) (dropPod_list_subset c _ l)

theorem nic_not_mem (h : Placed cni net c i R) : i ∉ (delRecords cni net c i R).list (.nics c) := by
  intro hi
  have hgone := delRecords_subset h _ hi
  simp [unplugged, dropNic_list] at hgone

theorem addr_not_mem (h : Placed cni net c i R) :
    firstAddr R c i ∉ (delRecords cni net c i R).list .addresses := by
  intro hx
  have hgone := delRecords_subset h _ hx
  rw [unplugged_addresses h] at hgone
  simp at hgone

theorem pod_not_mem (h : Placed cni net c i R) : c ∉ (delRecords cni net c i R).list .pods := by
  rw [delRecords_eq h]
  intro hc
  exact h.not_mem_dropPod (fun j hj => unplugged_value hj) (left_list_subset _ _ hc)

theorem again_delRecords (h : Placed cni net c i R) :
    again cni net c i (delRecords cni net c i R) = delRecords cni net c i R :=
  again_of_gone (pod_not_mem h)

/-- The records of a node that was torn down. -/
theorem delRecords_alone (h : Placed cni net c i R) (ha : Alone R c) :
    delRecords cni net c i R = tearDownRecords cni net R (dropPod c (unplugged cni c i R)) := by
  rw [delRecords_eq h, left, if_pos ha]

theorem idle_of_alone (h : Placed cni net c i R) (law : Lawful cni net) (ha : Alone R c) :
    Idle cni net (delRecords cni net c i R) := by
  rcases h.stocked.setUp.del law h.ne_host (i := i) with ⟨hmem, -⟩ | ⟨-, -, hidle⟩ | ⟨-, hnot, -⟩
  · exact absurd h.pod hmem
  · exact hidle
  · exact absurd ha hnot

theorem subnet_not_mem (h : Placed cni net c i R) (ha : Alone R c) :
    net.text ∉ (delRecords cni net c i R).list .subnets := by
  rw [delRecords_alone h ha]
  simp [tearDownRecords]

/-- The address of the gateway is given back with the bridge. -/
theorem gateway_not_mem (h : Placed cni net c i R) (law : Lawful cni net) (ha : Alone R c) :
    hostText net 1 ∉ (delRecords cni net c i R).list .addresses := by
  have hfirst : firstAddr R host cni.conf.bridge = hostText net 1 := by
    simp [firstAddr, h.intact.bridge]
  rw [delRecords_alone h ha, tearDownRecords, Registry.prune_list, if_neg (by simp),
    Registry.clear_list, dropPod_list host _ (by simp)]
  intro hx
  have hbridge := dropHostNic_list_subset _ _ (dropHostNic_list_subset _ _ hx)
  simp [dropHostNic, bridge_mem h.stocked, hfirst, dropNic_list, law.bridge_ne_underlay] at hbridge

/-- The VTEP goes with the interface. -/
theorem vtep_none (h : Placed cni net c i R) (hv : cni.ipamMode = .vxlan) (hn : ¬ Alone R c) :
    (delRecords cni net c i R).value .vtep = none := by
  obtain ⟨simple, -, -, hdrop⟩ :=
    h.dropPod (S := unplugged cni c i R) fun j hj => unplugged_value hj
  rw [delRecords_eq h, left, if_neg hn, hdrop]
  simp [unplugged, dropNic_value, hv]

end Deleted

/-! ### The interface is half deleted -/

section Nic
variable {cni : Cni} {net : NetworkV4} {R S T : Registry} {c i : Text}

theorem filter_ne_nil (R : Registry) (l : ListKey) : (R.list l).filter (· ≠ []) = R.list l := by
  apply List.filter_eq_self.mpr
  intro x hx
  exact decide_eq_true (R.item l x hx).ne_nil

theorem filter_again (xs : List Text) (x : Text) :
    (xs.filter (· ≠ x)).filter (· ≠ x) = xs.filter (· ≠ x) := by
  simp [List.filter_filter]

/-- Deleting the rest of the interface leaves what deleting all of it does. -/
theorem dropNic_of_half (h : Placed cni net c i R) (hv : T.value = R.value)
    (hnics : T.list (.nics c) = R.list (.nics c))
    (haddresses : (T.list .addresses).filter (· ≠ firstAddr T c i) =
      (R.list .addresses).filter (· ≠ firstAddr R c i))
    (hother : ∀ k, k ≠ .addresses → k ≠ .addrs c i → k ≠ .routes c i → T.list k = R.list k) :
    dropNic cni c i (firstAddr T c i) T = unplugged cni c i R := by
  apply Registry.ext
  · funext k
    rw [unplugged, dropNic_list, dropNic_list, hnics]
    split_ifs with hk hk' hk''
    · rfl
    · rfl
    · exact haddresses
    · apply hother
      · exact fun he => hk'' ⟨he, h.ne_underlay⟩
      · exact fun he => hk' (.inl he)
      · exact fun he => hk' (.inr he)
  · funext j
    rw [unplugged, dropNic_value, dropNic_value, hv]

/-- Where the deletion stops before the interface is off the list, the next DEL
does the rest. -/
theorem again_of_half (h : Placed cni net c i R) (hv : T.value = R.value)
    (haddresses : (T.list .addresses).filter (· ≠ firstAddr T c i) =
      (R.list .addresses).filter (· ≠ firstAddr R c i))
    (hother : ∀ k, k ≠ .addresses → k ≠ .addrs c i → k ≠ .routes c i → T.list k = R.list k) :
    again cni net c i T = delRecords cni net c i R := by
  have hhost := h.ne_host
  have hnics : T.list (.nics c) = R.list (.nics c) := hother _ (by simp) (by simp) (by simp)
  have hmem : i ∈ T.list (.nics c) := hnics ▸ h.nic
  rw [again_of_same h (by rw [hv]) (hother _ (by simp) (by simp) (by simp))
    (hother _ (by simp) (by simp) (by simp))
    (fun j => hother _ (by simp) (by simp [hhost.symm]) (by simp)), delRecords_eq h, dropContainer,
    if_pos hmem, dropNic_of_half h hv hnics haddresses hother]

theorem releasedNic_eq (h : Placed cni net c i R) (ip : Text) :
    releasedNic cni c i ip R = R.prune .addresses ip := if_neg h.ne_underlay

theorem unplugged_list (c i : Text) {k : ListKey} (ha : k ≠ .addresses) (hn : k ≠ .nics c)
    (haddrs : k ≠ .addrs c i) (hroutes : k ≠ .routes c i) :
    (unplugged cni c i R).list k = R.list k := by
  rw [unplugged, dropNic_list, if_neg hn, if_neg (by tauto), if_neg (by tauto)]

/-- The next DEL of a container without the interface. -/
theorem again_of_unplugged (h : Placed cni net c i R) (hlist : T.list = (unplugged cni c i R).list)
    (hsub : T.value .subnet = R.value .subnet) :
    again cni net c i T = left cni net c R (dropPod c T) := by
  have hhost := h.ne_host
  have hi : i ∉ T.list (.nics c) := by
    rw [hlist]
    simp [unplugged, dropNic_list]
  have hother : ∀ k, k ≠ .addresses → k ≠ .nics c → k ≠ .addrs c i → k ≠ .routes c i →
      T.list k = R.list k := by
    intro k h₁ h₂ h₃ h₄
    rw [hlist, unplugged_list c i h₁ h₂ h₃ h₄]
  rw [again_of_same h hsub (hother _ (by simp) (by simp) (by simp) (by simp))
    (hother _ (by simp) (by simp [hhost.symm]) (by simp) (by simp))
    (fun j => hother _ (by simp) (by simp) (by simp [hhost.symm]) (by simp)), dropContainer,
    if_neg hi]

/-- The VTEP goes with any interface of the root namespace. -/
theorem tearDownRecords_vtep (h : Stocked cni net R) (hv : cni.ipamMode = .vxlan) (S : Registry) :
    tearDownRecords cni net R (S.clear .vtep) = tearDownRecords cni net R S := by
  have hdrop : dropHostNic cni R cni.conf.bridge (S.clear .vtep) =
      dropHostNic cni R cni.conf.bridge S := by
    rw [dropHostNic, dropHostNic, if_pos (bridge_mem h), if_pos (bridge_mem h)]
    apply Registry.ext
    · funext k
      simp only [dropNic_list, Registry.clear_list]
    · funext j
      rw [dropNic_value, dropNic_value, Registry.clear_value]
      by_cases hj : j = .vtep
      · simp [hv, hj]
      · simp [hj]
  rw [tearDownRecords, tearDownRecords, hdrop]

theorem dropPod_vtep (p : Text) (S : Registry) :
    dropPod p (S.clear .vtep) = (dropPod p S).clear .vtep := by
  have hcomm : ∀ (S : Registry) j, (S.clear .vtep).clear j = (S.clear j).clear .vtep := by
    intro S j
    apply Registry.ext
    · rfl
    · funext j'
      simp only [Registry.clear_value]
      split_ifs <;> rfl
  simp only [DelRecords.dropPod, Registry.clear_value, reduceCtorEq, if_false]
  split_ifs
  · exact hcomm S _
  · split
    · rw [hcomm, hcomm]
      rfl
    · exact hcomm S _

/-- Where only the VTEP is still there, the next DEL removes it with the node. -/
theorem again_of_vtep (h : Placed cni net c i R) (hv : cni.ipamMode = .vxlan)
    (hT : unplugged cni c i R = T.clear .vtep) (hvalue : T.value = R.value) :
    (Alone R c → again cni net c i T = delRecords cni net c i R) ∧
      (¬ Alone R c → Differ (again cni net c i T) (delRecords cni net c i R)) := by
  have hlist : T.list = (unplugged cni c i R).list := by rw [hT, Registry.clear_list]
  have hagain := again_of_unplugged h hlist (by rw [hvalue])
  obtain ⟨simple, -, hown, hdrop⟩ := h.dropPod (S := T) fun j _ => by rw [hvalue]
  constructor
  · intro ha
    rw [hagain, delRecords_alone h ha, left, if_pos ha, hT, dropPod_vtep,
      tearDownRecords_vtep h.stocked hv]
  · intro hn
    refine .inr ⟨.vtep, trivial, ?_⟩
    rw [hagain, left, if_neg hn, vtep_none h hv hn, hdrop]
    simpa [hvalue] using h.furnished.vtep hv

end Nic

/-! ### The pod is half deleted -/

section Pod
variable {cni : Cni} {net : NetworkV4} {R S T : Registry} {c i : Text}

theorem again_unplugged (h : Placed cni net c i R) :
    again cni net c i (unplugged cni c i R) = delRecords cni net c i R := by
  rw [again_of_unplugged h rfl (unplugged_value (by simp)), delRecords_eq h]

/-- A container whose namespace is not recorded stays on the list of pods. -/
theorem differ_of_unnamed (h : Placed cni net c i R) (hlist : T.list = (unplugged cni c i R).list)
    (hnetns : T.value (.netns c) = none)
    (hv : ∀ j, j = .subnet ∨ j = .netns host ∨ j = .podOf host → T.value j = R.value j) :
    Differ (again cni net c i T) (delRecords cni net c i R) := by
  have hdrop : dropPod c T = T.clear (.netns c) := by simp [DelRecords.dropPod, hnetns]
  have hmem : c ∈ (T.clear (.netns c)).list .pods := by
    rw [Registry.clear_list, hlist, unplugged_list c i (by simp) (by simp) (by simp) (by simp)]
    exact h.pod
  rw [again_of_unplugged h hlist (hv _ (.inl rfl)), hdrop]
  apply Differ.of_mem (l := .pods) trivial _ (pod_not_mem h)
  apply mem_left_pods h.ne_host _ _ hmem
  · simp [h.ne_host.symm, hv, h.intact.netns]
  · simp [hv, h.intact.podOf]

/-- If its namespace could not be read, the DEL goes on and leaves it there. -/
theorem differ_of_netns (h : Placed cni net c i R) :
    Differ (again cni net c i (left cni net c R ((unplugged cni c i R).clear (.netns c))))
      (delRecords cni net c i R) := by
  have hvalue : ∀ j, j = .subnet ∨ j = .netns host ∨ j = .podOf host →
      ((unplugged cni c i R).clear (.netns c)).value j = R.value j := by
    intro j hj
    have hne : j ≠ .netns c ∧ j ≠ .vtep := by
      rcases hj with rfl | rfl | rfl <;> simp [h.ne_host.symm]
    rw [Registry.clear_value, if_neg hne.1, unplugged_value hne.2]
  by_cases ha : Alone R c
  · have hmem : c ∈ ((unplugged cni c i R).clear (.netns c)).list .pods := by
      rw [Registry.clear_list, unplugged_list c i (by simp) (by simp) (by simp) (by simp)]
      exact h.pod
    have hnone : (left cni net c R ((unplugged cni c i R).clear (.netns c))).value
        .subnet = none := by
      rw [left, if_pos ha, tearDownRecords_subnet]
    rw [again_of_none hnone]
    apply Differ.of_mem (l := .pods) trivial _ (pod_not_mem h)
    apply mem_left_pods h.ne_host _ _ hmem
    · rw [hvalue _ (by simp), h.intact.netns]
    · rw [hvalue _ (by simp), h.intact.podOf]
  · rw [left, if_neg ha]
    exact differ_of_unnamed h rfl (by simp) hvalue

end Pod

/-! ### The node is half torn down -/

section Node
variable {cni : Cni} {net : NetworkV4} {R S T V : Registry} {c i : Text}

/-- An address that was not given back is missing from nobody's list. -/
theorem differ_of_address (h : Placed cni net c i R) (law : Lawful cni net) :
    Differ (again cni net c i (left cni net c R (dropPod c (dropNic cni c i [] R))))
      (delRecords cni net c i R) := by
  obtain ⟨k, -, -, hfirst, hgiven, -⟩ := h.addr
  have hgone : c ∉ (dropPod c (dropNic cni c i [] R)).list .pods := by
    apply h.not_mem_dropPod
    intro j hj
    simp [dropNic_value, hj]
  have hne : firstAddr R c i ≠ [] := hfirst ▸ (item_hostText net k).ne_nil
  have hmem : firstAddr R c i ∈ (dropPod c (dropNic cni c i [] R)).list .addresses := by
    rw [dropPod_list c _ (by simp)]
    simp [dropNic_list, h.ne_underlay, hgiven, hne]
  rw [again_of_gone fun hc => hgone (left_list_subset _ _ hc)]
  exact Differ.of_mem (l := .addresses) trivial (mem_left_addresses (h.ne_firstAddr law) hmem)
    (addr_not_mem h)

/-- The records of the container have gone, and those of the root namespace are there. -/
theorem dropped_list (c i : Text) {k : ListKey} (hp : k ≠ .pods) (ha : k ≠ .addresses)
    (hn : k ≠ .nics c) (haddrs : k ≠ .addrs c i) (hroutes : k ≠ .routes c i) :
    (dropPod c (unplugged cni c i R)).list k = R.list k := by
  rw [dropPod_list c _ hp, unplugged_list c i ha hn haddrs hroutes]

theorem gateway_mem (h : Placed cni net c i R) (law : Lawful cni net) :
    hostText net 1 ∈ (dropPod c (unplugged cni c i R)).list .addresses := by
  have hfirst : firstAddr R host cni.conf.bridge = hostText net 1 := by
    simp [firstAddr, h.intact.bridge]
  rw [dropPod_list c _ (by simp), unplugged_addresses h]
  exact List.mem_filter.mpr ⟨h.stocked.gateway,
    decide_eq_true (hfirst ▸ (h.ne_firstAddr law cni.conf.bridge).symm)⟩

theorem host_mem (h : Placed cni net c i R) :
    host ∈ (dropPod c (unplugged cni c i R)).list .pods := by
  obtain ⟨simple, -, -, hdrop⟩ :=
    h.dropPod (S := unplugged cni c i R) fun j hj => unplugged_value hj
  have hmem := h.intact.root
  rw [hdrop]
  simp [unplugged, dropNic_list, hmem, h.ne_host.symm]

/-- Without the subnet the next DEL does nothing. -/
theorem differ_of_torn (hT : T.value .subnet = none) {l : ListKey} (hl : l.Sound) {x : Text}
    (hx : x ∈ T.list l) (hn : x ∉ (delRecords cni net c i R).list l) :
    Differ (again cni net c i T) (delRecords cni net c i R) := by
  rw [again_of_none hT]
  exact Differ.of_mem hl hx hn

/-- With the subnet it does not find the container. -/
theorem differ_of_stop (h : Placed cni net c i R) (law : Lawful cni net)
    (ha : Alone R c) {cmd : Cmd}
    (hs : TearStop (dropPod c (unplugged cni c i R)) cni.node cmd T) :
    Differ (again cni net c i T) (delRecords cni net c i R) := by
  obtain ⟨simple, -, -, hdrop⟩ :=
    h.dropPod (S := unplugged cni c i R) fun j hj => unplugged_value hj
  have hgone : c ∉ T.list .pods :=
    fun hc => h.not_mem_dropPod (fun j hj => unplugged_value hj) (hs.pods hc)
  have hset : T.value .subnet = some net.text := by
    rw [hs.subnet, hdrop]
    simp [unplugged_value, h.intact.subnet]
  rw [again_of_gone hgone]
  refine .inr ⟨.subnet, trivial, ?_⟩
  rw [hset, (idle_of_alone h law ha).subnet]
  simp

/-- An address that is not on the list makes no difference. -/
theorem dropNic_of_not_mem {p j ip ip' : Text} (h : ip ∉ S.list .addresses)
    (h' : ip' ∉ S.list .addresses) : dropNic cni p j ip S = dropNic cni p j ip' S := by
  have hfilter : ∀ x, x ∉ S.list .addresses →
      (S.list .addresses).filter (· ≠ x) = S.list .addresses := by
    intro x hx
    apply List.filter_eq_self.mpr
    intro y hy
    exact decide_eq_true fun he => hx (he ▸ hy)
  apply Registry.ext
  · funext k
    simp only [dropNic_list, hfilter ip h, hfilter ip' h']
  · funext j
    simp only [dropNic_value]

/-- Nothing is given back with the VXLAN device. -/
theorem vxlan_not_mem (h : Placed cni net c i R) (law : Lawful cni net)
    (hS : S.list .addresses ⊆ R.list .addresses) :
    firstAddr R host nameVxlan ∉ S.list .addresses := by
  intro hx
  obtain ⟨k, hk⟩ := h.furnished.addresses _ (hS hx)
  rw [firstAddr_host h.stocked, hostAddrs, if_neg law.bridge_ne_vxlan.symm] at hk
  split_ifs at hk
  · exact hostText_ne_vtep law k hk.symm
  · exact (item_hostText net k).ne_nil hk.symm

theorem nil_not_mem (S : Registry) (l : ListKey) : [] ∉ S.list l :=
  fun h => (S.item l [] h).ne_nil rfl

/-- The addresses that a teardown gives back of the VXLAN device do not matter. -/
theorem tearDownRecords_vxlan (hn : V.list (.nics host) = R.list (.nics host))
    (hfirst : ∀ j, j ≠ nameVxlan → firstAddr V host j = firstAddr R host j)
    (hV : firstAddr V host nameVxlan ∉ S.list .addresses)
    (hR : firstAddr R host nameVxlan ∉ S.list .addresses) :
    tearDownRecords cni net V S = tearDownRecords cni net R S := by
  have hdrop : ∀ j T, T.list .addresses ⊆ S.list .addresses →
      dropHostNic cni V j T = dropHostNic cni R j T := by
    intro j T hT
    by_cases hj : j = nameVxlan
    · subst hj
      simp only [dropHostNic, hn, dropNic_of_not_mem (fun hx => hV (hT hx)) fun hx => hR (hT hx)]
    · simp only [dropHostNic, hn, hfirst j hj]
  have hsub : ∀ j T, T.list .addresses ⊆ S.list .addresses →
      (dropHostNic cni R j T).list .addresses ⊆ S.list .addresses :=
    fun j T hT => List.Subset.trans (dropHostNic_list_subset j .addresses) hT
  have h₀ : S.list .addresses ⊆ S.list .addresses := List.Subset.refl _
  simp only [tearDownRecords, hdrop _ _ h₀, hdrop _ _ (hsub _ _ h₀),
    hdrop _ _ (hsub _ _ (hsub _ _ h₀))]

theorem dropped_addresses (h : Placed cni net c i R) :
    (dropPod c (unplugged cni c i R)).list .addresses ⊆ R.list .addresses := by
  rw [dropPod_list c _ (by simp), unplugged_addresses h]
  exact List.filter_subset_self _

/-- The bridge keeps its address. -/
theorem differ_of_bridge (h : Placed cni net c i R) (law : Lawful cni net) (ha : Alone R c) :
    Differ (again cni net c i (finished net (dropHostNic cni R cni.underlayDev (dropHostNic cni R
      nameVxlan (dropNic cni host cni.conf.bridge [] (dropPod c (unplugged cni c i R)))))))
      (delRecords cni net c i R) := by
  have hnone : (finished net (dropHostNic cni R cni.underlayDev (dropHostNic cni R nameVxlan
      (dropNic cni host cni.conf.bridge [] (dropPod c (unplugged cni c i R)))))).value .subnet =
      none := by simp [finished]
  apply differ_of_torn hnone (l := .addresses) trivial _ (gateway_not_mem h law ha)
  rw [finished, Registry.prune_list, if_neg (by simp), Registry.clear_list,
    dropPod_list host _ (by simp)]
  apply mem_dropHostNic_addresses (gateway_ne_firstAddr h.stocked law law.bridge_ne_underlay.symm)
  apply mem_dropHostNic_addresses (gateway_ne_firstAddr h.stocked law law.bridge_ne_vxlan.symm)
  have hne : hostText net 1 ≠ [] := (item_hostText net 1).ne_nil
  simp [dropNic_list, gateway_mem h law, hne, law.bridge_ne_underlay]

theorem again_of_vxlan (h : Placed cni net c i R) (law : Lawful cni net) (ha : Alone R c)
    (hmem : nameVxlan ∈ R.list (.nics host)) :
    again cni net c i (finished net
      (dropHostNic cni R cni.underlayDev (dropNic cni host nameVxlan []
      (tornBridge cni R (dropPod c (unplugged cni c i R)))))) = delRecords cni net c i R := by
  have hsub : (tornBridge cni R (dropPod c (unplugged cni c i R))).list .addresses ⊆
      R.list .addresses :=
    List.Subset.trans (dropHostNic_list_subset cni.conf.bridge .addresses) (dropped_addresses h)
  have hdrop : dropNic cni host nameVxlan [] (tornBridge cni R (dropPod c (unplugged cni c i R))) =
      dropNic cni host nameVxlan (firstAddr R host nameVxlan)
        (tornBridge cni R (dropPod c (unplugged cni c i R))) :=
    dropNic_of_not_mem (nil_not_mem _ .addresses) (vxlan_not_mem h law hsub)
  have heq : finished net (dropHostNic cni R cni.underlayDev (dropNic cni host nameVxlan []
      (tornBridge cni R (dropPod c (unplugged cni c i R))))) = delRecords cni net c i R := by
    rw [delRecords_alone h ha, hdrop]
    simp only [tearDownRecords, finished, tornBridge, dropHostNic, if_pos hmem]
  rw [heq, again_delRecords h]

/-- The root namespace stays on the list of pods. -/
theorem differ_of_root (h : Placed cni net c i R) (law : Lawful cni net) (ha : Alone R c) :
    Differ (again cni net c i ((((tornNics cni R (dropPod c (unplugged cni c i R))).clear
      (.netns host)).clear .subnet).prune .subnets net.text)) (delRecords cni net c i R) := by
  have hnone : ((((tornNics cni R (dropPod c (unplugged cni c i R))).clear (.netns host)).clear
      .subnet).prune .subnets net.text).value .subnet = none := by simp
  have hgone : host ∉ (delRecords cni net c i R).list .pods := by
    rw [(idle_of_alone h law ha).pods]
    exact List.not_mem_nil
  apply differ_of_torn hnone (l := .pods) trivial _ hgone
  simp only [Registry.prune_list, Registry.clear_list, reduceCtorEq, if_false, tornNics, tornVxlan,
    tornBridge]
  rw [dropHostNic_list _ _ _ (by simp) (by simp) (by simp) (by simp),
    dropHostNic_list _ _ _ (by simp) (by simp) (by simp) (by simp),
    dropHostNic_list _ _ _ (by simp) (by simp) (by simp) (by simp)]
  exact host_mem h

/-- The subnet stays on the list of the cluster. -/
theorem differ_of_subnets (h : Placed cni net c i R) (ha : Alone R c) :
    Differ (again cni net c i
      ((dropPod host (tornNics cni R (dropPod c (unplugged cni c i R)))).clear
      .subnet)) (delRecords cni net c i R) := by
  have hnone : ((dropPod host (tornNics cni R (dropPod c (unplugged cni c i R)))).clear
      .subnet).value .subnet = none := by simp
  apply differ_of_torn hnone (l := .subnets) trivial _ (subnet_not_mem h ha)
  rw [Registry.clear_list, dropPod_list host _ (by simp), tornNics, tornVxlan, tornBridge,
    dropHostNic_list _ _ _ (by simp) (by simp) (by simp) (by simp),
    dropHostNic_list _ _ _ (by simp) (by simp) (by simp) (by simp),
    dropHostNic_list _ _ _ (by simp) (by simp) (by simp) (by simp),
    dropped_list c i (by simp) (by simp) (by simp) (by simp) (by simp)]
  exact h.furnished.subnets

end Node

/-! ### The node is not seen as it is -/

section Views
variable {cni : Cni} {net : NetworkV4} {R S T V : Registry} {c i : Text}

theorem delSeen_eq (hpods : V.list .pods = R.list .pods) (h : Placed cni net c i R) :
    delSeen cni net c i V R = left cni net c V (dropSeen cni V c i R) :=
  if_pos (hpods ▸ h.pod)

theorem alone_congr (hpods : V.list .pods = R.list .pods) : Alone V c ↔ Alone R c := by
  unfold Alone
  rw [hpods]

/-- The records of the root namespace only matter for a teardown. -/
theorem left_congr (hpods : V.list .pods = R.list .pods)
    (hhost : Alone R c → V.list (.nics host) = R.list (.nics host) ∧
      ∀ j, V.list (.addrs host j) = R.list (.addrs host j)) (S : Registry) :
    left cni net c V S = left cni net c R S := by
  unfold left
  simp only [alone_congr hpods]
  split_ifs with ha
  · exact tearDownRecords_congr (hhost ha).1 (hhost ha).2 S
  · rfl

/-- What DEL does with the container when its records are seen. -/
theorem dropSeen_congr (h : Placed cni net c i R) (hnics : V.list (.nics c) = R.list (.nics c))
    (haddrs : V.list (.addrs c i) = R.list (.addrs c i)) :
    dropSeen cni V c i R = dropPod c (unplugged cni c i R) := by
  rw [dropSeen, hnics, if_pos h.nic, firstAddr, haddrs]
  rfl

/-- The rest of what is seen makes no difference. -/
theorem again_of_seen (h : Placed cni net c i R) (hpods : V.list .pods = R.list .pods)
    (hnics : V.list (.nics c) = R.list (.nics c))
    (haddrs : V.list (.addrs c i) = R.list (.addrs c i))
    (hhost : Alone R c → V.list (.nics host) = R.list (.nics host) ∧
      ∀ j, V.list (.addrs host j) = R.list (.addrs host j)) :
    again cni net c i (delSeen cni net c i V R) = delRecords cni net c i R := by
  rw [delSeen_eq hpods h, left_congr hpods hhost, dropSeen_congr h hnics haddrs, ← delRecords_eq h,
    again_delRecords h]

/-- The interface is not seen, and keeps its records. -/
theorem differ_of_nics (h : Placed cni net c i R) (hpods : V.list .pods = R.list .pods)
    (hnics : V.list (.nics c) = []) :
    Differ (again cni net c i (delSeen cni net c i V R)) (delRecords cni net c i R) := by
  have hdrop : dropSeen cni V c i R = dropPod c R := by simp [dropSeen, hnics]
  have hgone : c ∉ (left cni net c V (dropPod c R)).list .pods :=
    fun hc => h.not_mem_dropPod (fun _ _ => rfl) (left_list_subset _ _ hc)
  rw [delSeen_eq hpods h, hdrop, again_of_gone hgone]
  apply Differ.of_mem (l := .nics c) h.slash _ (nic_not_mem h)
  rw [left_nics _ h.ne_host, dropPod_list c _ (by simp)]
  exact h.nic

/-- Its address is not seen, and not given back. -/
theorem differ_of_addrs (h : Placed cni net c i R) (law : Lawful cni net)
    (hpods : V.list .pods = R.list .pods) (hnics : V.list (.nics c) = R.list (.nics c))
    (haddrs : V.list (.addrs c i) = []) (hn : V.list (.nics host) = R.list (.nics host))
    (ha : ∀ j, V.list (.addrs host j) = R.list (.addrs host j)) :
    Differ (again cni net c i (delSeen cni net c i V R)) (delRecords cni net c i R) := by
  have hdrop : dropSeen cni V c i R = dropPod c (dropNic cni c i [] R) := by
    rw [dropSeen, hnics, if_pos h.nic, firstAddr, haddrs]
    rfl
  rw [delSeen_eq hpods h, hdrop, left_congr hpods fun _ => ⟨hn, ha⟩]
  exact differ_of_address h law

theorem delSeen_alone (h : Placed cni net c i R) (hpods : V.list .pods = R.list .pods)
    (hnics : V.list (.nics c) = R.list (.nics c))
    (haddrs : V.list (.addrs c i) = R.list (.addrs c i))
    (ha : Alone R c) : delSeen cni net c i V R =
      tearDownRecords cni net V (dropPod c (unplugged cni c i R)) := by
  rw [delSeen_eq hpods h, dropSeen_congr h hnics haddrs, left, if_pos ((alone_congr hpods).mpr ha)]

/-- The interfaces of the root namespace are not seen, and keep their records. -/
theorem differ_of_hostNics (h : Placed cni net c i R) (law : Lawful cni net) (ha : Alone R c)
    (hpods : V.list .pods = R.list .pods) (hnics : V.list (.nics c) = R.list (.nics c))
    (haddrs : V.list (.addrs c i) = R.list (.addrs c i)) (hn : V.list (.nics host) = []) :
    Differ (again cni net c i (delSeen cni net c i V R)) (delRecords cni net c i R) := by
  have hgone : cni.conf.bridge ∉ (delRecords cni net c i R).list (.nics host) := by
    rw [(idle_of_alone h law ha).nics]
    exact List.not_mem_nil
  have hkeep : ∀ j S, dropHostNic cni V j S = S := by
    intro j S
    rw [dropHostNic, hn, if_neg List.not_mem_nil]
  rw [delSeen_alone h hpods hnics haddrs ha]
  apply differ_of_torn (tearDownRecords_subnet V _) (l := .nics host) name_host.slash _ hgone
  rw [tearDownRecords, hkeep, hkeep, hkeep, Registry.prune_list, if_neg (by simp),
    Registry.clear_list,
    dropPod_list host _ (by simp),
    dropped_list c i (by simp) (by simp) (by simp [h.ne_host.symm]) (by simp) (by simp)]
  exact bridge_mem h.stocked

/-- The address of the bridge is not seen, and not given back. -/
theorem differ_of_gateway (h : Placed cni net c i R) (law : Lawful cni net) (ha : Alone R c)
    (hpods : V.list .pods = R.list .pods) (hnics : V.list (.nics c) = R.list (.nics c))
    (haddrs : V.list (.addrs c i) = R.list (.addrs c i))
    (hbridge : V.list (.addrs host cni.conf.bridge) = [])
    (hother : ∀ j, j ≠ cni.conf.bridge → V.list (.addrs host j) = R.list (.addrs host j)) :
    Differ (again cni net c i (delSeen cni net c i V R)) (delRecords cni net c i R) := by
  have hne : ∀ j, hostText net 1 ≠ firstAddr V host j := by
    intro j
    by_cases hj : j = cni.conf.bridge
    · rw [hj, firstAddr, hbridge]
      exact (item_hostText net 1).ne_nil
    · rw [firstAddr, hother j hj]
      exact gateway_ne_firstAddr h.stocked law hj
  rw [delSeen_alone h hpods hnics haddrs ha]
  exact differ_of_torn (tearDownRecords_subnet V _) (l := .addresses) trivial
    (mem_tearDownRecords_addresses hne (gateway_mem h law)) (gateway_not_mem h law ha)

/-- The address of another interface of the root namespace was not given out. -/
theorem again_of_hostAddrs (h : Placed cni net c i R) (law : Lawful cni net) {j : Text}
    (hj : j ≠ cni.conf.bridge) (hpods : V.list .pods = R.list .pods)
    (hnics : V.list (.nics c) = R.list (.nics c))
    (haddrs : V.list (.addrs c i) = R.list (.addrs c i))
    (hn : V.list (.nics host) = R.list (.nics host)) (hempty : V.list (.addrs host j) = [])
    (hother : ∀ j', j' ≠ j → V.list (.addrs host j') = R.list (.addrs host j')) :
    again cni net c i (delSeen cni net c i V R) = delRecords cni net c i R := by
  by_cases hsame : R.list (.addrs host j) = []
  · apply again_of_seen h hpods hnics haddrs
    intro _
    refine ⟨hn, ?_⟩
    intro j'
    by_cases he : j' = j
    · rw [he, hempty, hsame]
    · exact hother j' he
  · have hvxlan : j = nameVxlan := by
      rw [h.stocked.hostAddrs, hostAddrs, if_neg hj] at hsame
      by_contra hne
      exact hsame (if_neg fun he => hne he.2)
    by_cases ha : Alone R c
    · have hV : firstAddr V host nameVxlan ∉ (dropPod c (unplugged cni c i R)).list .addresses := by
        rw [firstAddr, ← hvxlan, hempty]
        exact nil_not_mem _ _
      have hfirst : ∀ j', j' ≠ nameVxlan → firstAddr V host j' = firstAddr R host j' := by
        intro j' hj'
        rw [firstAddr, hother j' (hvxlan ▸ hj'), firstAddr]
      rw [delSeen_alone h hpods hnics haddrs ha, tearDownRecords_vxlan hn hfirst hV
        (vxlan_not_mem h law (dropped_addresses h)), ← delRecords_alone h ha, again_delRecords h]
    · exact again_of_seen h hpods hnics haddrs fun ha' => absurd ha' ha

end Views
end Ohno.HalfDeletedNodes
