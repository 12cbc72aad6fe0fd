import Ohno.NodeLifecycle
import Ohno.RegistryHistories

/-!
# The VTEP record of a node

The record is written when the node is set up and taken away with any interface
that is deleted, be it a pod's. Other nodes read it to reach this one. Interface
names may vary from call to call here, so the registries are those of
`NodeInvariants`: between two calls the node is torn down, or its root namespace
is intact and the record has what the call that set the node up has written.
-/
namespace Ohno.VtepRecord
open CommandPrograms DelimitedLists AddressText EtcdClientShell Subnets FirstFit Ipam Netlink Nics
open Storage CniPlugin Records Conducts RecordPrograms RestoredNode DelRecords AddRecords NodeStates
open NodeHistories NodeLifecycle NodeInvariants RegistryHistories

/-- A DEL that finds the interface of its container does not leave another
container on the node. -/
def LastInterface (node : Text) (_ : List Event) (s : Store) (call : Call) : Prop :=
  call.op = .del → call.container.id ∈ ask (getAllPods node) s →
    call.container.nic ∈ ask (getAllNic node call.container.id) s →
      ∀ p ∈ ask (getAllPods node) s, p = host ∨ p = call.container.id

section Initialisation
variable (cni : Cni) (may : List Event → Store → Call → Prop) (s₀ : Store)

/-- The last call that found no subnet for the node was an ADD, and its process
had the MAC. -/
inductive InitialisedWith : List Event → Store → Mac → Prop where
  | initialised {log : List Event} {s : Store} {call : Call} {o : Outcome} {w : World}
      (h : History cni may s₀ log s) (unset : s (subnetKey cni.node) = none) (op : call.op = .add)
      (x : (call.program cni).Exec Conduct.obliging.handle ⟨s, [], none⟩ o w) :
      InitialisedWith (log ++ [(call, o)]) w.store call.mac
  | kept {log : List Event} {s : Store} {mac : Mac} {call : Call} {o : Outcome} {w : World}
      (h : InitialisedWith log s mac) (set : s (subnetKey cni.node) ≠ none)
      (x : (call.program cni).Exec Conduct.obliging.handle ⟨s, [], none⟩ o w) :
      InitialisedWith (log ++ [(call, o)]) w.store mac

end Initialisation

/-! ### What one call keeps -/

/-- The registry has the VTEP record of a MAC. -/
def Linked (net : NetworkV4) (mac : Mac) (R : Registry) : Prop :=
  R.value .vtep = some (getVtepValue (dottedQuad net.address) mac.text)

section Steps
variable {cni : Cni} {net : NetworkV4} {law : Lawful cni net} {R R' : Registry} {mac : Mac}

theorem Linked.newEnd {c : Container} (h : Linked net mac R) {gw : BitVec 32}
    {o : Except Thrown CniResult} (hend : NewEnd cni net gw c R o R') : Linked net mac R' := by
  cases hend with
  | refused e => exact h
  | exhausted e free full =>
      simp only [Linked, withPod_value, reduceCtorEq, if_false]
      exact h
  | new j free fit =>
      simp only [Linked, withAddr_value, withPod_value, reduceCtorEq, if_false]
      exact h

theorem linked_setUpRecords (law : Lawful cni net) (hv : cni.ipamMode = .vxlan) (uniqueId : Text)
    (k : ℕ) : Linked net mac (setUpRecords law mac uniqueId k R) := by
  simp [Linked, setUpRecords, nodeRecords_value, process, hv]

/-- A call on a node that is set up keeps the record, or it takes the last
interface away and tears the node down. -/
theorem Linked.ends {call : Call} {o : Outcome} (h : Linked net mac R) {k : ℕ}
    (hsetUp : SetUp cni net k R) (hend : Ends law call o R R')
    (hlast : call.op = .del → call.container.id ∈ R.list .pods →
      call.container.nic ∈ R.list (.nics call.container.id) →
      ∀ p ∈ R.list .pods, p = host ∨ p = call.container.id) :
    Idle cni net R' ∨ Linked net mac R' := by
  cases hend with
  | first idle fit hend => exact absurd (idle.subnet.symm.trans hsetUp.intact.subnet) (by simp)
  | unknown idle => exact absurd (idle.subnet.symm.trans hsetUp.intact.subnet) (by simp)
  | added setUp hend =>
      right
      cases hend with
      | found => exact h
      | bare => exact h
      | new absent hend => exact h.newEnd hend
  | @deleted c mac' uniqueId k' _ setUp =>
      rcases setUp.del law c.id_ne (i := c.nic) with
        ⟨-, heq⟩ | ⟨-, -, hidle⟩ | ⟨hmem, halone, heq, -⟩
      · rw [heq]
        exact .inr h
      · exact .inl hidle
      · right
        have hnic : c.nic ∉ R.list (.nics c.id) := by
          intro hi
          exact halone ⟨setUp.intact.root, fun p hp => (hlast rfl hmem hi p hp).symm⟩
        obtain ⟨simple, -, hval⟩ := dropContainer_value cni setUp.owned hmem c.nic
        have hvtep : R.value .vtep = some (getVtepValue (dottedQuad net.address) mac.text) := h
        rw [Linked, heq, hval]
        simpa [hnic] using hvtep

end Steps

/-! ### Histories -/

section Histories
variable {cni : Cni} {net : NetworkV4} {s₀ s : Store} {log : List Event}

/-- What holds of the map after every operation. -/
theorem reached (law : Lawful cni net) (hv : cni.ipamMode = .vxlan) {others : List Text}
    (unrecorded : Unrecorded cni.node s₀) (ho : ∀ x ∈ others, Store.Item x)
    (hothers : s₀ etcdKeySubnet = encode others)
    (h : History cni (LastInterface cni.node) s₀ log s) :
    ∃ R, s = R.store cni.node s₀ ∧ (Idle cni net R ∨ (∃ k, SetUp cni net k R) ∧
      ∃ mac, Linked net mac R ∧ InitialisedWith cni (LastInterface cni.node) s₀ log s mac) := by
  induction h with
  | start => exact ⟨fresh others ho, unrecorded.eq_fresh ho hothers, .inl (idle_fresh law ho)⟩
  | @call log s call o w h allowed x ih =>
      obtain ⟨R, rfl, hR⟩ := ih
      have hsub : R.store cni.node s₀ (subnetKey cni.node) = R.value .subnet :=
        Registry.store_at (k := .inr .subnet) trivial
      have hsound : Sound cni net R := hR.imp_right fun hR => hR.1
      obtain ⟨R', hend, hw⟩ := ends_of_exec law hsound x
      refine ⟨R', hw, ?_⟩
      rcases hR with hidle | ⟨⟨k, hsetUp⟩, mac, hlinked, hinit⟩
      · cases hend with
        | @first c mac uniqueId k o _ _ idle fit hend =>
            have hlinked : Linked net mac (setUpRecords law mac uniqueId k R) :=
              linked_setUpRecords law hv uniqueId k
            exact .inr ⟨⟨k, (setUp_setUpRecords hidle law mac uniqueId fit).newEnd law hend⟩, mac,
              hlinked.newEnd hend, .initialised h (hsub.trans hidle.subnet) rfl x⟩
        | added setUp hend => exact absurd (hidle.subnet.symm.trans setUp.intact.subnet) (by simp)
        | unknown => exact .inl hidle
        | deleted setUp => exact absurd (hidle.subnet.symm.trans setUp.intact.subnet) (by simp)
      · have hset : R.store cni.node s₀ (subnetKey cni.node) ≠ none := by
          rw [hsub, hsetUp.intact.subnet]
          simp
        have hlast : call.op = .del → call.container.id ∈ R.list .pods →
            call.container.nic ∈ R.list (.nics call.container.id) →
            ∀ p ∈ R.list .pods, p = host ∨ p = call.container.id := by
          have hallowed := allowed
          rwa [LastInterface, ask_getAllPods,
            ask_getAllNic call.container.name_id.slash] at hallowed
        rcases hend.sound with hidle | hsetUp'
        · exact .inl hidle
        · rcases hlinked.ends hsetUp hend hlast with hidle | hlinked'
          · exact .inl hidle
          · exact .inr ⟨hsetUp', mac, hlinked', .kept hinit hset x⟩

theorem parseVtep_value (net : NetworkV4) (mac : Mac) :
    parseVtep (getVtepValue (dottedQuad net.address) mac.text) =
      .ok (dottedQuad net.address, mac.text) := by
  have haddr : separator ∉ dottedQuad net.address := notMem_dottedQuad (by decide) (by decide)
  have hmac : split separator mac.text = [mac.text] := split_eq_singleton mac.dash mac.ne_nil
  rw [getVtepValue, parseVtep, split_append separator haddr, hmac]

/-- As long as no DEL takes an interface from a node that keeps another
container, the record is that of the initialisation. -/
theorem vtep_kept (law : Lawful cni net) (hv : cni.ipamMode = .vxlan) {others : List Text}
    (unrecorded : Unrecorded cni.node s₀) (ho : ∀ x ∈ others, Store.Item x)
    (hothers : s₀ etcdKeySubnet = encode others)
    (h : History cni (LastInterface cni.node) s₀ log s)
    (registered : ∃ p ∈ ask (getAllPods cni.node) s, p ≠ host) :
    ∃ mac, InitialisedWith cni (LastInterface cni.node) s₀ log s mac ∧
      ((getVtep cni.node).run Etcd.ok s).1 = .ok (dottedQuad net.address, mac.text) := by
  obtain ⟨R, rfl, hR⟩ := reached law hv unrecorded ho hothers h
  rcases hR with hidle | ⟨-, mac, hlinked, hinit⟩
  · obtain ⟨p, hp, -⟩ := registered
    rw [ask_getAllPods, hidle.pods] at hp
    cases hp
  · refine ⟨mac, hinit, ?_⟩
    rw [run_getVtep, hlinked, Option.getD_some, parseVtep_value]

end Histories

/-! ### One of two containers goes -/

/-- Another container, in a namespace of its own. -/
def containerC : Container := { containerA with
  id := "c2".toList
  netns := "x2".toList
  name_id := name_of_check (by decide +kernel)
  line := by decide +kernel
  id_ne := by decide +kernel
  netns_ne := by decide +kernel }

def addC : Call := ⟨.add, containerC, macA, ['u']⟩

/-- After the ADD and the DEL of the only container. -/
def emptied : Store := (delA.finish cniA (addA.finish cniA noRecords).2).2

/-- The other container sets the node up again. -/
theorem vtep_kept_one : ∃ log mac, InitialisedWith cniA (LastInterface ['a']) noRecords log
      (addC.finish cniA emptied).2 mac ∧
    ((getVtep ['a']).run Etcd.ok (addC.finish cniA emptied).2).1 =
      .ok (dottedQuad netA.address, mac.text) := by
  have hstart : History cniA (LastInterface ['a']) noRecords [] noRecords := .start
  have hfirst := hstart.next addA fun hop => Op.noConfusion hop
  have honly : ∀ p ∈ ask (getAllPods ['a']) (addA.finish cniA noRecords).2,
      p = host ∨ p = containerA.id := by decide +kernel
  have hthird := (hfirst.next delA fun _ _ _ => honly).next addC fun hop => Op.noConfusion hop
  have hlisted : ∃ p ∈ ask (getAllPods ['a']) (addC.finish cniA emptied).2, p ≠ host := by
    decide +kernel
  exact ⟨_, vtep_kept lawful_cniA rfl (unrecorded_noRecords _) items_nil rfl hthird hlisted⟩

/-- The other container stays, and the record is gone. -/
theorem vtep_lost : ¬ ∀ log s, History cniA (fun _ _ _ => True) noRecords log s →
    (∃ p ∈ ask (getAllPods ['a']) s, p ≠ host) →
      ∃ mac : Mac, InitialisedWith cniA (fun _ _ _ => True) noRecords log s mac ∧
        ((getVtep ['a']).run Etcd.ok s).1 = .ok (dottedQuad netA.address, mac.text) := by
  intro hall
  have hstart : History cniA (fun _ _ _ => True) noRecords [] noRecords := .start
  have hfirst := hstart.next addA trivial
  have hthird := (hfirst.next addC trivial).next delA trivial
  obtain ⟨mac, -, hvtep⟩ := hall _ _ hthird (by decide +kernel)
  have hnone : ((getVtep ['a']).run Etcd.ok (delA.finish cniA (addC.finish cniA
      (addA.finish cniA noRecords).2).2).2).1 = .ok ([], []) := by decide +kernel
  rw [hnone] at hvtep
  exact mac.ne_nil (Prod.mk.inj (Except.ok.inj hvtep)).2.symm

end Ohno.VtepRecord
