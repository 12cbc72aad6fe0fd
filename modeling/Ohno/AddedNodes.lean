import Ohno.RegistryHistories

/-!
# Nodes to which containers were added

A history in which every call is an ADD that returns leaves records that are
complete: every interface of a container has one address, no two interfaces have
the same one, and the addresses are those that `Ipam` has given out. A container
may have been added under several interface names.
-/
namespace Ohno.AddedNodes
open CommandPrograms DelimitedLists AddressText EtcdClientShell Subnets FirstFit Ipam Netlink Nics
open Storage CniPlugin Records Conducts RecordPrograms RestoredNode DelRecords AddRecords NodeStates
open NodeState NodeHistories NodeInvariants RegistryHistories

/-- The records of a container's interface with host `k`. -/
structure Recorded (net : NetworkV4) (R : Registry) (p i : Text) (k : ℕ) : Prop where
  range : 2 ≤ k ∧ k ≤ hostCount net
  addrs : R.list (.addrs p i) = [hostText net k]
  given : hostText net k ∈ R.list .addresses

/-- The node is up, and the records of its containers are complete. -/
structure Stocked (cni : Cni) (net : NetworkV4) (R : Registry) : Prop where
  setUp : SetUp cni net 1 R
  gateway : hostText net 1 ∈ R.list .addresses
  hostAddrs : ∀ i, R.list (.addrs host i) = hostAddrs cni net i
  listed : ∀ p, p ≠ host → ∀ i ∈ R.list (.nics p), p ∈ R.list .pods
  nodup : ∀ p, p ≠ host → (R.list (.nics p)).Nodup
  recorded : ∀ p, p ≠ host → ∀ i ∈ R.list (.nics p), ∃ k, Recorded net R p i k
  bare : ∀ p, p ≠ host → ∀ i, i ∉ R.list (.nics p) → R.list (.addrs p i) = []
  apart : ∀ p i q j x, p ≠ host → q ≠ host → x ∈ R.list (.addrs p i) → x ∈ R.list (.addrs q j) →
    p = q ∧ i = j

section Stocked
variable {cni : Cni} {net : NetworkV4} {R : Registry} {c : Container}

theorem Stocked.recorded_of_mem (h : Stocked cni net R) {p i x : Text} (hp : p ≠ host)
    (hx : x ∈ R.list (.addrs p i)) : ∃ k, x = hostText net k ∧ Recorded net R p i k := by
  have hi : i ∈ R.list (.nics p) := by
    by_contra hi
    rw [h.bare p hp i hi] at hx
    cases hx
  obtain ⟨k, hk⟩ := h.recorded p hp i hi
  rw [hk.addrs] at hx
  exact ⟨k, List.mem_singleton.mp hx, hk⟩

theorem nics_new (gw : BitVec 32) (k : ℕ) (p : Text) :
    (withAddr net gw k c (withPod c R)).list (.nics p) =
      if p = c.id then R.list (.nics c.id) ++ [c.nic] else R.list (.nics p) := by
  simp [withAddr_list, withPod_list]

theorem addrs_new (net : NetworkV4) (gw : BitVec 32) (k : ℕ)
    (bare : R.list (.addrs c.id c.nic) = []) (p i : Text) :
    (withAddr net gw k c (withPod c R)).list (.addrs p i) =
      if p = c.id ∧ i = c.nic then [hostText net k] else R.list (.addrs p i) := by
  simp [withAddr_list, withPod_list, bare]

theorem addresses_new (gw : BitVec 32) (k : ℕ) :
    (withAddr net gw k c (withPod c R)).list .addresses =
      R.list .addresses ++ [hostText net k] := by
  simp [withAddr_list, withPod_list]

/-- The new interface has the new address, and the others have what they had. -/
theorem Stocked.recorded_new (h : Stocked cni net R) (gw : BitVec 32) {k : ℕ}
    (hrange : 2 ≤ k ∧ k ≤ hostCount net) (hnic : c.nic ∉ R.list (.nics c.id)) {p i : Text}
    (hp : p ≠ host) (hi : i ∈ (withAddr net gw k c (withPod c R)).list (.nics p)) :
    ∃ j, Recorded net (withAddr net gw k c (withPod c R)) p i j := by
  have haddrs := addrs_new net gw k (h.bare c.id c.id_ne c.nic hnic)
  by_cases hpi : p = c.id ∧ i = c.nic
  · refine ⟨k, hrange, ?_, ?_⟩
    · rw [haddrs, if_pos hpi]
    · simp [addresses_new]
  · have hmem : i ∈ R.list (.nics p) := by
      rw [nics_new] at hi
      split_ifs at hi with hpc
      · subst hpc
        rcases List.mem_append.mp hi with hi | hi
        · exact hi
        · exact absurd ⟨rfl, List.mem_singleton.mp hi⟩ hpi
      · exact hi
    obtain ⟨j, hrange, hj, hgiven⟩ := h.recorded p hp i hmem
    exact ⟨j, hrange, by rw [haddrs, if_neg hpi, hj], by simp [addresses_new, hgiven]⟩

/-- A new interface gets an address that nobody has. -/
theorem Stocked.new (h : Stocked cni net R) (law : Lawful cni net) (gw : BitVec 32) {k : ℕ}
    (absent : ¬ (c.id ∈ R.list .pods ∧ c.nic ∈ R.list (.nics c.id)))
    (free : FreeFor R c.netns c.id)
    (fit : firstFree (hostText net) (hostCount net) (R.list .addresses) = some k) :
    Stocked cni net (withAddr net gw k c (withPod c R)) := by
  have hnic : c.nic ∉ R.list (.nics c.id) := fun hi => absent ⟨h.listed c.id c.id_ne c.nic hi, hi⟩
  obtain ⟨hpos, hle, hfresh, -⟩ := firstFree_eq_some_iff.mp fit
  have hk1 : k ≠ 1 := by
    rintro rfl
    exact hfresh h.gateway
  have haddrs := addrs_new net gw k (h.bare c.id c.id_ne c.nic hnic)
  have hpods : (withAddr net gw k c (withPod c R)).list .pods = R.list .pods ++ [c.id] := by
    simp [withAddr_list, withPod_list]
  -- an address that was recorded before is not the new one
  have hold : ∀ p i, p ≠ host → hostText net k ∉ R.list (.addrs p i) := by
    intro p i hp hx
    obtain ⟨j, hj, hrec⟩ := h.recorded_of_mem hp hx
    exact hfresh (hj ▸ hrec.given)
  constructor
  · have hend : NewEnd cni net gw c R _ _ := .new k free fit
    exact h.setUp.newEnd law hend
  · rw [addresses_new]
    exact List.mem_append_left _ h.gateway
  · intro i
    rw [haddrs, if_neg fun hc => c.id_ne hc.1.symm, h.hostAddrs]
  · intro p hp i hi
    rw [hpods, List.mem_append, List.mem_singleton]
    rw [nics_new] at hi
    split_ifs at hi with hpc
    · exact .inr hpc
    · exact .inl (h.listed p hp i hi)
  · intro p hp
    rw [nics_new]
    split_ifs with hpc
    · exact nodup_concat (h.nodup c.id c.id_ne) hnic
    · exact h.nodup p hp
  · intro p hp i hi
    exact h.recorded_new gw ⟨by omega, hle⟩ hnic hp hi
  · intro p hp i hi
    rw [nics_new] at hi
    have hpi : ¬ (p = c.id ∧ i = c.nic) := by
      rintro ⟨rfl, rfl⟩
      simp at hi
    rw [haddrs, if_neg hpi]
    apply h.bare p hp
    split_ifs at hi with hpc
    · subst hpc
      exact fun hmem => hi (List.mem_append_left _ hmem)
    · exact hi
  · intro p i q j x hp hq hx hy
    rw [haddrs] at hx hy
    split_ifs at hx hy with hpi hqj hqj
    · exact ⟨hpi.1.trans hqj.1.symm, hpi.2.trans hqj.2.symm⟩
    · exact absurd (List.mem_singleton.mp hx ▸ hy) (hold q j hq)
    · exact absurd (List.mem_singleton.mp hy ▸ hx) (hold p i hp)
    · exact h.apart p i q j x hp hq hx hy

/-- A node that was just set up. -/
theorem stocked_setUpRecords (law : Lawful cni net) {others : List Text}
    (ho : ∀ x ∈ others, Store.Item x) (mac : Mac) (uniqueId : Text) :
    Stocked cni net (setUpRecords law mac uniqueId 1 (fresh others ho)) := by
  have hne := law.bridge_ne_vxlan
  constructor
  · exact setUp_setUpRecords (idle_fresh law ho) law mac uniqueId (firstFree_gateway law).1
  · simp [setUpRecords, nodeRecords_list]
  · intro i
    simp only [setUpRecords, nodeRecords_list, hostAddrs, reduceCtorEq, if_false,
      ListKey.addrs.injEq, true_and, process]
    split_ifs <;> simp_all [fresh]
  · intro p hp i hi
    simp [setUpRecords, nodeRecords_list, hp, fresh] at hi
  · intro p hp
    simp [setUpRecords, nodeRecords_list, hp, fresh]
  · intro p hp i hi
    simp [setUpRecords, nodeRecords_list, hp, fresh] at hi
  · intro p hp i _
    simp [setUpRecords, nodeRecords_list, hp, fresh]
  · intro p i q j x hp _ hx
    simp [setUpRecords, nodeRecords_list, hp, fresh] at hx

end Stocked

/-! ### Histories -/

/-- Every call is an ADD that returned a result. -/
def AllAdded (log : List Event) : Prop := ∀ e ∈ log, e.1.op = .add ∧ ∃ r, e.2 = .ok (some r)

section Histories
variable {cni : Cni} {net : NetworkV4} {law : Lawful cni net} {s₀ s : Store} {log : List Event}
variable {may : List Event → Store → Call → Prop} {R R' : Registry}

/-- An end that returns, on a node with complete records. -/
theorem Stocked.newEnd (h : Stocked cni net R) (law : Lawful cni net) {gw : BitVec 32}
    {c : Container}
    (absent : ¬ (c.id ∈ R.list .pods ∧ c.nic ∈ R.list (.nics c.id))) {r : CniResult}
    (hend : NewEnd cni net gw c R (.ok r) R') : Stocked cni net R' := by
  cases hend with
  | new k free fit => exact h.new law gw absent free fit

/-- One ADD that returns. -/
theorem Ends.stocked {call : Call} {r : CniResult} (op : call.op = .add) {o : Outcome}
    (hend : Ends law call o R R') (hr : o = .ok (some r)) {others : List Text}
    {ho : ∀ x ∈ others, Store.Item x} (hR : R = fresh others ho ∨ Stocked cni net R) :
    Stocked cni net R' := by
  cases hend with
  | unknown => cases op
  | deleted => cases op
  | @first c mac uniqueId k o _ _ idle fit hend =>
      have hfresh : R = fresh others ho := by
        rcases hR with hR | hR
        · exact hR
        · exact absurd (idle.subnet.symm.trans hR.setUp.intact.subnet) (by simp)
      subst hfresh
      have hk : k = 1 := Option.some.inj (fit.symm.trans (firstFree_gateway law).1)
      subst hk
      rw [ok_of_map hr] at hend
      apply (stocked_setUpRecords law ho mac uniqueId).newEnd law _ hend
      intro hc
      simp [setUpRecords, nodeRecords_list, c.id_ne, fresh] at hc
  | added setUp hend =>
      have hstocked : Stocked cni net R := by
        rcases hR with hR | hR
        · subst hR
          exact absurd setUp.intact.subnet (by simp [fresh])
        · exact hR
      rw [ok_of_map hr] at hend
      generalize hoc : (Except.ok r : Except Thrown CniResult) = oc at hend
      cases hend with
      | found => exact hstocked
      | bare => exact hstocked
      | new absent hend =>
          subst hoc
          exact hstocked.newEnd law absent hend

/-- A history of ADDs that return leads from a node without records to one with
complete records. -/
theorem stocked_of_history (law : Lawful cni net) {others : List Text}
    (unrecorded : Unrecorded cni.node s₀) (ho : ∀ x ∈ others, Store.Item x)
    (hothers : s₀ etcdKeySubnet = encode others) (h : History cni may s₀ log s)
    (added : AllAdded log) :
    ∃ R, s = R.store cni.node s₀ ∧ ((log = [] ∧ R = fresh others ho) ∨ Stocked cni net R) := by
  induction h with
  | start => exact ⟨fresh others ho, unrecorded.eq_fresh ho hothers, .inl ⟨rfl, rfl⟩⟩
  | @call log s call o w h allowed x ih =>
      obtain ⟨R, rfl, hR⟩ := ih fun e he => added e (List.mem_append_left _ he)
      obtain ⟨hadd, r, hr⟩ := added (call, o) (List.mem_append_right _ (List.mem_singleton_self _))
      have hsound : Sound cni net R := by
        rcases hR with ⟨-, rfl⟩ | hstocked
        · exact .inl (idle_fresh law ho)
        · exact .inr ⟨1, hstocked.setUp⟩
      obtain ⟨R', hend, hw⟩ := ends_of_exec law hsound x
      exact ⟨R', hw, .inr (Ends.stocked hadd hend hr (hR.imp_left And.right))⟩

end Histories
end Ohno.AddedNodes
