import Ohno.NodeLifecycle
import Ohno.RegistryHistories

/-!
# A second ADD

The first ADD of an interface takes an address, and a second one finds the
interface and reports the first address that is recorded for it. Two things can
make them differ: the second one alone looks at the configured subnet, and
addresses that were left behind stand in front of the new one.
-/
namespace Ohno.RepeatedAdd
open CommandPrograms DelimitedLists AddressText EtcdClientShell Subnets FirstFit Ipam Netlink Nics
open Storage CniPlugin Records Conducts RecordPrograms RestoredNode DelRecords AddRecords NodeStates
open NodeState NodeHistories NodeLifecycle NodeInvariants RegistryHistories

/-- The reported address is the first that is recorded for the interface, and it
is one of the configured subnet. -/
def Repeatable (cni : Cni) (s : Store) (c : Container) (r : CniResult) : Prop :=
  ∃ a p, r.address = cidr a p ∧ (ask (getAllAddrs cni.node c.id c.nic) s).head? = some (cidr a p) ∧
    Subnet.isSubnetOf cni.boost ⟨⟨a, p⟩, .ipv4⟩ cni.conf.subnet = .ok true

/-- No call deletes the container. -/
def NotDeleted (c : Container) (log : List Event) : Prop :=
  ∀ e ∈ log, ¬ (e.1.op = .del ∧ e.1.container.id = c.id)

/-- The interface is recorded, the addresses being `l`. -/
structure HasNic (cni : Cni) (net : NetworkV4) (k : ℕ) (c : Container) (l : List Text)
    (R : Registry) : Prop where
  setUp : SetUp cni net k R
  pod : c.id ∈ R.list .pods
  nic : c.nic ∈ R.list (.nics c.id)
  addrs : R.list (.addrs c.id c.nic) = l
  ne_nil : l ≠ []

section Steps
variable {cni : Cni} {net : NetworkV4} {law : Lawful cni net} {R R' : Registry} {c : Container}
variable {k : ℕ}
variable {l : List Text} {call : Call} {o : Outcome}

/-- The gateway of a node is one host. -/
theorem gateway_unique {j : ℕ} (hk : SetUp cni net k R) (hj : SetUp cni net j R) :
    k = j := by
  have hlt := hostCount_lt net
  have hkr := hk.range
  have hjr := hj.range
  have htext : [hostText net k] = [hostText net j] := hk.intact.bridge.symm.trans hj.intact.bridge
  exact hostText_injective (by omega) (by omega) (List.singleton_inj.mp htext)

/-- The end of an ADD that returned records the interface and reports one of its
addresses. -/
theorem hasNic_of_newEnd (hsetUp : SetUp cni net k R) (law : Lawful cni net) {r : CniResult}
    (hend : NewEnd cni net (net.address + BitVec.ofNat 32 k) c R (.ok r) R') :
    (∃ a p, r = reported cni a (net.address + BitVec.ofNat 32 k) p c.nic (netnsPath c.netns)) ∧
      ∃ l, HasNic cni net k c l R' := by
  have hsetUp' := hsetUp.newEnd law hend
  cases hend with
  | new j free fit =>
      refine ⟨⟨_, _, rfl⟩, _, hsetUp', ?_, ?_, rfl, ?_⟩
      · simp [withAddr_list, withPod_list]
      · simp [withAddr_list, withPod_list]
      · simp [withAddr_list]

theorem reported_of_reuseOutcome {a gw : BitVec 32} {p : ℕ} {i netns : Text} {r : CniResult}
    (h : reuseOutcome cni a gw p i netns = .ok r) : r = reported cni a gw p i netns := by
  unfold reuseOutcome at h
  split at h
  · exact (Except.ok.inj h).symm
  · cases h
  · cases h

theorem hasNic_of_addEnd (hsetUp : SetUp cni net k R) (law : Lawful cni net) {r : CniResult}
    (hend : AddEnd cni net (net.address + BitVec.ofNat 32 k) c R (.ok r) R') :
    (∃ a p, r = reported cni a (net.address + BitVec.ofNat 32 k) p c.nic (netnsPath c.netns)) ∧
      ∃ l, HasNic cni net k c l R' := by
  generalize ho : (Except.ok r : Except Thrown CniResult) = o at hend
  cases hend with
  | found a p rest pod nic addr =>
      exact ⟨⟨a, p, reported_of_reuseOutcome ho.symm⟩, _, hsetUp, pod, nic, addr, by simp⟩
  | bare e pod nic addr => cases ho
  | new absent hend =>
      subst ho
      exact hasNic_of_newEnd hsetUp law hend

/-- What an ADD that returned leaves. -/
theorem hasNic_of_ends (op : call.op = .add) (hend : Ends law call o R R') {r : CniResult}
    (hr : o = .ok (some r)) :
    ∃ k l, (∃ a p, r = reported cni a (net.address + BitVec.ofNat 32 k) p call.container.nic
      (netnsPath call.container.netns)) ∧ HasNic cni net k call.container l R' := by
  cases hend with
  | unknown => cases op
  | deleted => cases op
  | @first c mac uniqueId k o _ _ idle fit hend =>
      rw [ok_of_map hr] at hend
      obtain ⟨hrep, l, h⟩ := hasNic_of_newEnd
        (setUp_setUpRecords idle law mac uniqueId fit) law hend
      exact ⟨k, l, hrep, h⟩
  | @added c mac uniqueId k o _ _ setUp hend =>
      rw [ok_of_map hr] at hend
      obtain ⟨hrep, l, h⟩ := hasNic_of_addEnd setUp law hend
      exact ⟨k, l, hrep, h⟩

theorem HasNic.not_idle (h : HasNic cni net k c l R) : ¬ Idle cni net R := by
  intro hidle
  have hpod := h.pod
  rw [hidle.pods] at hpod
  cases hpod

/-- An ADD of another interface, whether of the same container or not. -/
theorem HasNic.newEnd (h : HasNic cni net k c l R) (law : Lawful cni net) {c' : Container}
    (absent : ¬ (c'.id ∈ R.list .pods ∧ c'.nic ∈ R.list (.nics c'.id))) {gw : BitVec 32}
    {o : Except Thrown CniResult} (hend : NewEnd cni net gw c' R o R') :
    HasNic cni net k c l R' := by
  have hsetUp := h.setUp.newEnd law hend
  have hother : ¬ (c.id = c'.id ∧ c.nic = c'.nic) := by
    intro he
    have hpod := h.pod
    have hnic := h.nic
    rw [he.1] at hpod hnic
    rw [he.2] at hnic
    exact absent ⟨hpod, hnic⟩
  have hpods : c.id ∈ (withPod c' R).list .pods := by simp [withPod_list, h.pod]
  have hnics : c.nic ∈ (withPod c' R).list (.nics c.id) := by
    have hnic := h.nic
    by_cases he : c.id = c'.id
    · rw [he] at hnic ⊢
      simp [withPod_list, hnic]
    · simp [withPod_list, he, hnic]
  cases hend with
  | refused e => exact h
  | exhausted e free full =>
      exact ⟨hsetUp, hpods, hnics, by simp [withPod_list, h.addrs], h.ne_nil⟩
  | new j free fit =>
      refine ⟨hsetUp, ?_, ?_, ?_, h.ne_nil⟩
      · simpa [withAddr_list] using hpods
      · simpa [withAddr_list] using hnics
      · simp [withAddr_list, withPod_list, hother, h.addrs]

/-- A DEL of another container. -/
theorem HasNic.del (h : HasNic cni net k c l R) (law : Lawful cni net) {c' : Container}
    (hne : c'.id ≠ c.id) : HasNic cni net k c l (delRecords cni net c'.id c'.nic R) := by
  rcases h.setUp.del law c'.id_ne (i := c'.nic) with
    ⟨-, heq⟩ | ⟨-, halone, -⟩ | ⟨hmem, -, heq, hsetUp⟩
  · rw [heq]
    exact h
  · rcases halone.2 c.id h.pod with he | he
    · exact absurd he.symm hne
    · exact absurd he c.id_ne
  · rw [heq]
    refine ⟨hsetUp, ?_, ?_, ?_, h.ne_nil⟩
    · rw [dropContainer_pods h.setUp.owned hmem, List.mem_filter]
      exact ⟨h.pod, decide_eq_true hne.symm⟩
    · rw [dropContainer_list c'.id c'.nic (by simp) (by simp) (by simp [hne.symm])
        (by simp) (by simp)]
      exact h.nic
    · rw [dropContainer_list c'.id c'.nic (by simp) (by simp) (by simp)
        (by simp [hne.symm]) (by simp)]
      exact h.addrs

/-- A call that does not delete the container leaves the interface as it is. -/
theorem HasNic.ends (h : HasNic cni net k c l R) (hend : Ends law call o R R')
    (kept : ¬ (call.op = .del ∧ call.container.id = c.id)) : HasNic cni net k c l R' := by
  cases hend with
  | first idle fit hend => exact absurd idle h.not_idle
  | unknown idle => exact h
  | deleted setUp => exact h.del law fun he => kept ⟨rfl, he⟩
  | added setUp hend =>
      cases hend with
      | found => exact h
      | bare => exact h
      | new absent hend => exact h.newEnd law absent hend

/-- A second ADD leaves the records as they are and reports the first address. -/
theorem HasNic.again (h : HasNic cni net k c l R) (op : call.op = .add) (hc : call.container = c)
    (hend : Ends law call o R R') :
    R' = R ∧ ∃ a p rest, l = cidr a p :: rest ∧
      o = (reuseOutcome cni a (net.address + BitVec.ofNat 32 k) p c.nic (netnsPath c.netns)).map
        some := by
  cases hend with
  | unknown => cases op
  | deleted => cases op
  | first idle fit hend => exact absurd idle h.not_idle
  | @added c mac uniqueId j o _ _ setUp hend =>
      subst hc
      have hj := gateway_unique h.setUp setUp
      subst hj
      cases hend with
      | found a p rest pod nic addr => exact ⟨rfl, a, p, rest, h.addrs.symm.trans addr, rfl⟩
      | bare e pod nic addr => exact absurd (h.addrs.symm.trans addr) h.ne_nil
      | new absent hend => exact absurd ⟨h.pod, h.nic⟩ absent

end Steps

/-! ### Histories -/

section Histories
variable {cni : Cni} {net : NetworkV4} {s₀ s : Store} {before after log : List Event}
variable {may : List Event → Store → Call → Prop}

/-- The interface that an ADD recorded is still there when the container was not
deleted since. -/
theorem hasNic_of_history (law : Lawful cni net) {others : List Text}
    (unrecorded : Unrecorded cni.node s₀) (ho : ∀ x ∈ others, Store.Item x)
    (hothers : s₀ etcdKeySubnet = encode others) {call : Call} (op : call.op = .add) {r : CniResult}
    (h : History cni may s₀ log s)
    (hlog : log = before ++ (call, .ok (some r)) :: after)
    (kept : NotDeleted call.container after) :
    ∃ R k l, s = R.store cni.node s₀ ∧ HasNic cni net k call.container l R ∧
      ∃ a p, r = reported cni a (net.address + BitVec.ofNat 32 k) p call.container.nic
        (netnsPath call.container.netns) := by
  induction h generalizing after with
  | start => simp at hlog
  | @call log s last o w h allowed x ih =>
      rcases List.eq_nil_or_concat after with rfl | ⟨after, e, rfl⟩
      · obtain ⟨hlog, he⟩ := List.append_inj' hlog rfl
        obtain ⟨R, rfl, hsound⟩ := sound_of_history law unrecorded ho hothers h
        obtain ⟨R', hend, hw⟩ := ends_of_exec law hsound x
        cases he
        obtain ⟨k, l, hrep, hnic⟩ := hasNic_of_ends op hend rfl
        exact ⟨R', k, l, hw, hnic, hrep⟩
      · have hlog' : log ++ [(last, o)] = (before ++ (call, .ok (some r)) :: after) ++ [e] := by
          simpa using hlog
        obtain ⟨rfl, he⟩ := List.append_inj' hlog' rfl
        cases he
        obtain ⟨R, k, l, rfl, hnic, hrep⟩ := ih rfl fun e he => kept e (by simp [he])
        obtain ⟨R', hend, hw⟩ := ends_of_exec law (.inr ⟨k, hnic.setUp⟩) x
        exact ⟨R', k, l, hw, hnic.ends hend (kept (last, o) (by simp)), hrep⟩

end Histories

/-! ### A configuration with another subnet -/

/-- The node as above, the configured subnet not being that of the cluster. -/
def cniW : Cni := { cniA with conf := { cniA.conf with subnet := "192.168.0.0/16".toList } }

theorem lawful_cniW : Lawful cniW netA where
  nodeInfo := rfl
  podCidr := lawful_cniA.podCidr
  le_prefixLength := lawful_cniA.le_prefixLength
  prefixLength_le := lawful_cniA.prefixLength_le
  hostBits := lawful_cniA.hostBits
  bridge := lawful_cniA.bridge
  underlay := lawful_cniA.underlay
  bridge_ne_underlay := lawful_cniA.bridge_ne_underlay
  bridge_ne_vxlan := lawful_cniA.bridge_ne_vxlan
  underlay_ne_vxlan := lawful_cniA.underlay_ne_vxlan
  mac := lawful_cniA.mac

/-- With a comma in the name of the bridge the restored root namespace has no
gateway, and the second ADD dereferences it. -/
example : (addA.finish cniC noRecords).1.toOption.isSome = true ∧
    (addA.finish cniC (addA.finish cniC noRecords).2).1 = .error .segfault := by
  decide +kernel

end Ohno.RepeatedAdd
