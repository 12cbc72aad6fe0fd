import Ohno.NodeHistories
import Ohno.NodeInvariants

/-!
# Histories under any interface names

`Ends` says once what a call can do to the records, whatever interfaces the
container was called with before: the cases of `AddEnd` and `delRecords`, on a
node that is set up or that can be set up. Between two calls the node is always
one of these.
-/
namespace Ohno.RegistryHistories
open CommandPrograms DelimitedLists AddressText EtcdClientShell Subnets FirstFit Ipam Netlink Nics
open Storage CniPlugin Records Conducts RecordPrograms RestoredNode DelRecords AddRecords NodeStates
open NodeState NodeHistories NodeInvariants

/-- The node is set up, host `k` being its gateway. -/
structure SetUp (cni : Cni) (net : NetworkV4) (k : ℕ) (R : Registry) : Prop where
  intact : Intact cni net k R
  owned : Owned R
  range : 1 ≤ k ∧ k ≤ hostCount net

/-- What holds between two calls. -/
def Sound (cni : Cni) (net : NetworkV4) (R : Registry) : Prop :=
  Idle cni net R ∨ ∃ k, SetUp cni net k R

section Process
variable {cni : Cni} {net : NetworkV4} {R : Registry} {mac : Mac} {uniqueId : Text}

theorem intact_process {k : ℕ} :
    Intact (process cni mac uniqueId) net k R ↔ Intact cni net k R := by
  constructor
  · intro h
    exact ⟨h.loadable, h.subnet, h.pods, h.nics, h.bridge, h.netns, h.podOf⟩
  · intro h
    exact ⟨h.loadable, h.subnet, h.pods, h.nics, h.bridge, h.netns, h.podOf⟩

theorem setUp_process {k : ℕ} :
    SetUp (process cni mac uniqueId) net k R ↔ SetUp cni net k R := by
  constructor
  · intro h
    exact ⟨intact_process.mp h.intact, h.owned, h.range⟩
  · intro h
    exact ⟨intact_process.mpr h.intact, h.owned, h.range⟩

theorem idle_process : Idle (process cni mac uniqueId) net R ↔ Idle cni net R := by
  constructor
  · intro h
    exact ⟨h.loadable, h.subnet, h.pods, h.nics, h.bridge, h.free⟩
  · intro h
    exact ⟨h.loadable, h.subnet, h.pods, h.nics, h.bridge, h.free⟩

theorem idle_fresh (law : Lawful cni net) {others : List Text} (ho : ∀ x ∈ others, Store.Item x) :
    Idle cni net (fresh others ho) where
  loadable := loadable_fresh others ho
  subnet := rfl
  pods := rfl
  nics := rfl
  bridge := rfl
  free := ⟨1, (firstFree_gateway law).1⟩

end Process

/-- The records of a node that a process sets up. -/
def setUpRecords {cni : Cni} {net : NetworkV4} (law : Lawful cni net) (mac : Mac) (uniqueId : Text)
    (k : ℕ) (R : Registry) : Registry :=
  nodeRecords (lawful_process law mac uniqueId) (hostText net k) (item_hostText net k) R

/-- The end of a call. -/
inductive Ends {cni : Cni} {net : NetworkV4} (law : Lawful cni net) :
    Call → Outcome → Registry → Registry → Prop where
  | first {c : Container} {mac : Mac} {uniqueId : Text} {k : ℕ} {o : Except Thrown CniResult}
      {R R' : Registry} (idle : Idle cni net R)
      (fit : firstFree (hostText net) (hostCount net) (R.list .addresses) = some k)
      (h : NewEnd cni net (net.address + BitVec.ofNat 32 k) c
        (setUpRecords law mac uniqueId k R) o R') :
      Ends law ⟨.add, c, mac, uniqueId⟩ (o.map some) R R'
  | added {c : Container} {mac : Mac} {uniqueId : Text} {k : ℕ} {o : Except Thrown CniResult}
      {R R' : Registry} (setUp : SetUp cni net k R)
      (h : AddEnd cni net (net.address + BitVec.ofNat 32 k) c R o R') :
      Ends law ⟨.add, c, mac, uniqueId⟩ (o.map some) R R'
  | unknown {c : Container} {mac : Mac} {uniqueId : Text} {R : Registry} (idle : Idle cni net R) :
      Ends law ⟨.del, c, mac, uniqueId⟩ (.ok none) R R
  | deleted {c : Container} {mac : Mac} {uniqueId : Text} {k : ℕ} {R : Registry}
      (setUp : SetUp cni net k R) :
      Ends law ⟨.del, c, mac, uniqueId⟩ (.ok none) R (delRecords cni net c.id c.nic R)

theorem ok_of_map {o : Except Thrown CniResult} {r : CniResult} (h : o.map some = .ok (some r)) :
    o = .ok r := by
  cases o with
  | error e => cases h
  | ok r' =>
      cases h
      rfl

section Steps
variable {cni : Cni} {net : NetworkV4} {law : Lawful cni net} {R R' : Registry} {c : Container}
variable {k : ℕ}

theorem newEnd_process {mac : Mac} {uniqueId : Text} {gw : BitVec 32} {o : Except Thrown CniResult}
    (h : NewEnd (process cni mac uniqueId) net gw c R o R') : NewEnd cni net gw c R o R' := by
  cases h with
  | refused e => exact .refused e
  | exhausted e free full => exact .exhausted e free full
  | new k free fit => exact .new k free fit

theorem addEnd_process {mac : Mac} {uniqueId : Text} {gw : BitVec 32} {o : Except Thrown CniResult}
    (h : AddEnd (process cni mac uniqueId) net gw c R o R') : AddEnd cni net gw c R o R' := by
  cases h with
  | found a p rest pod nic addr => exact .found a p rest pod nic addr
  | bare e pod nic addr => exact .bare e pod nic addr
  | new absent h => exact .new absent (newEnd_process h)

/-- Every execution of a call ends in one of these ways. -/
theorem ends_of_exec {base : Store} (law : Lawful cni net) (sound : Sound cni net R) {call : Call}
    {o : Outcome} {w : World}
    (x : (call.program cni).Exec Conduct.obliging.handle ⟨R.store cni.node base, [], none⟩ o w) :
    ∃ R', Ends law call o R R' ∧ w.store = R'.store cni.node base := by
  obtain ⟨op, c, mac, uniqueId⟩ := call
  have law' := lawful_process law mac uniqueId
  have settled := Conduct.settled_obliging none
  cases op with
  | add =>
      -- the call ends where ADD ends
      have hcall : ∀ {o' : Except Thrown CniResult} {R' : Registry}, Runs cni.node base
          ((process cni mac uniqueId).add c.id (netnsPath c.netns) c.nic) R o' R' →
          o = o'.map some ∧ w.store = R'.store cni.node base := by
        intro o' R' hrun
        cases o' with
        | ok r =>
            have h := (Runs.bind hrun (f := fun r => .pure (some r)) (Runs.pure _ _)).exec
              Conduct.obliges_obliging settled x
            exact ⟨h.1, h.2.1⟩
        | error e =>
            have h := (Runs.bind_error hrun (f := fun r => .pure (some r))).exec
              Conduct.obliges_obliging settled x
            exact ⟨h.1, h.2.1⟩
      rcases sound with hidle | ⟨k, hsetUp⟩
      · obtain ⟨k, hfit⟩ := hidle.free
        obtain ⟨o', R', hend, hrun⟩ := runs_add_end_idle base law' hidle.subnet c hfit
        obtain ⟨ho, hw⟩ := hcall hrun
        exact ⟨R', ho ▸ .first hidle hfit (newEnd_process hend), hw⟩
      · have hup := (intact_process.mpr hsetUp.intact).up law'
        obtain ⟨o', R', hend, hrun⟩ := runs_add_end base law' hup c
        obtain ⟨ho, hw⟩ := hcall hrun
        exact ⟨R', ho ▸ .added hsetUp (addEnd_process hend), hw⟩
  | del =>
      have hcall : ∀ {R' : Registry}, Runs cni.node base
          ((process cni mac uniqueId).del c.id c.nic) R (.ok ()) R' →
          o = .ok none ∧ w.store = R'.store cni.node base := by
        intro R' hrun
        have h := (Runs.bind hrun (f := fun _ => .pure (none : Option CniResult))
          (Runs.pure none _)).exec Conduct.obliges_obliging settled x
        exact ⟨h.1, h.2.1⟩
      rcases sound with hidle | ⟨k, hsetUp⟩
      · obtain ⟨ho, hw⟩ := hcall (runs_del_none law' hidle.subnet)
        exact ⟨R, ho ▸ .unknown hidle, hw⟩
      · have hintact := hsetUp.intact
        obtain ⟨ho, hw⟩ := hcall (runs_del base law' hintact.loadable hintact.subnet hintact.root
          c.name_id.slash c.id_ne c.name_nic.slash)
        exact ⟨_, ho ▸ .deleted hsetUp, hw⟩

theorem SetUp.newEnd (h : SetUp cni net k R) (law : Lawful cni net) {gw : BitVec 32}
    {o : Except Thrown CniResult} (hend : NewEnd cni net gw c R o R') : SetUp cni net k R' := by
  cases hend with
  | refused e => exact h
  | exhausted e free full => exact ⟨h.intact.withPod, h.owned.withPod free, h.range⟩
  | new j free fit =>
      exact ⟨h.intact.withPod.withAddr law gw j, (h.owned.withPod free).withAddr net gw j, h.range⟩

theorem SetUp.addEnd (h : SetUp cni net k R) (law : Lawful cni net) {gw : BitVec 32}
    {o : Except Thrown CniResult} (hend : AddEnd cni net gw c R o R') : SetUp cni net k R' := by
  cases hend with
  | found => exact h
  | bare => exact h
  | new absent hend => exact h.newEnd law hend

theorem setUp_setUpRecords (idle : Idle cni net R) (law : Lawful cni net) (mac : Mac)
    (uniqueId : Text)
    (fit : firstFree (hostText net) (hostCount net) (R.list .addresses) = some k) :
    SetUp cni net k (setUpRecords law mac uniqueId k R) := by
  obtain ⟨hpos, hle, -, -⟩ := firstFree_eq_some_iff.mp fit
  have law' := lawful_process law mac uniqueId
  exact ⟨intact_process.mp ((idle_process.mpr idle).nodeRecords law' k),
    Owned.nodeRecords idle.pods law' k, ⟨hpos, hle⟩⟩

/-- DEL leaves the node alone, tears it down, or takes one container away. -/
theorem SetUp.del (h : SetUp cni net k R) (law : Lawful cni net) {c i : Text} (hc : c ≠ host) :
    (c ∉ R.list .pods ∧ delRecords cni net c i R = R) ∨
    (c ∈ R.list .pods ∧ Alone R c ∧ Idle cni net (delRecords cni net c i R)) ∨
    (c ∈ R.list .pods ∧ ¬ Alone R c ∧ delRecords cni net c i R = dropContainer cni c i R ∧
      SetUp cni net k (dropContainer cni c i R)) := by
  unfold delRecords
  by_cases hmem : c ∈ R.list .pods
  · have hdrop := h.intact.dropContainer h.owned hmem hc i
    by_cases halone : Alone R c
    · rw [if_pos hmem, if_pos halone]
      refine .inr (.inl ⟨hmem, halone, ?_⟩)
      apply h.intact.tearDown hdrop law _ h.range
      intro p hp
      rw [dropContainer_pods h.owned hmem, List.mem_filter] at hp
      exact (halone.2 p hp.1).resolve_left (of_decide_eq_true hp.2)
    · rw [if_pos hmem, if_neg halone]
      exact .inr (.inr ⟨hmem, halone, rfl, hdrop, h.owned.dropContainer hmem cni i, h.range⟩)
  · rw [if_neg hmem]
    exact .inl ⟨hmem, rfl⟩

theorem Ends.sound {call : Call} {o : Outcome} (h : Ends law call o R R') : Sound cni net R' := by
  cases h with
  | first idle fit hend => exact .inr ⟨_, (setUp_setUpRecords idle law _ _ fit).newEnd law hend⟩
  | added setUp hend => exact .inr ⟨_, setUp.addEnd law hend⟩
  | unknown idle => exact .inl idle
  | @deleted c mac uniqueId k R setUp =>
      rcases setUp.del law c.id_ne (i := c.nic) with ⟨-, heq⟩ | ⟨-, -, hidle⟩ | ⟨-, -, heq, hdrop⟩
      · rw [heq]
        exact .inr ⟨k, setUp⟩
      · exact .inl hidle
      · rw [heq]
        exact .inr ⟨k, hdrop⟩

end Steps

section Histories
variable {cni : Cni} {net : NetworkV4} {s₀ s : Store} {log : List Event}
variable {may : List Event → Store → Call → Prop}

/-- The records after a history. -/
theorem sound_of_history (law : Lawful cni net) {others : List Text}
    (unrecorded : Unrecorded cni.node s₀) (ho : ∀ x ∈ others, Store.Item x)
    (hothers : s₀ etcdKeySubnet = encode others) (h : History cni may s₀ log s) :
    ∃ R, s = R.store cni.node s₀ ∧ Sound cni net R := by
  induction h with
  | start => exact ⟨fresh others ho, unrecorded.eq_fresh ho hothers, .inl (idle_fresh law ho)⟩
  | call h allowed x ih =>
      obtain ⟨R, rfl, hsound⟩ := ih
      obtain ⟨R', hend, hw⟩ := ends_of_exec law hsound x
      exact ⟨R', hw, hend.sound⟩

end Histories
end Ohno.RegistryHistories
