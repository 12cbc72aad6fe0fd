import Ohno.NodeTransitions

/-!
# Sequential histories of a node

The runtime starts the plugin again and again for the containers of one node,
each time as a process of its own. As long as a container keeps its interface,
a history is a walk of the state of the node: `Moves` says what one call returns
and where it leads, and every execution of the plugin is such a move.
-/
namespace Ohno.NodeHistories
open CommandPrograms DelimitedLists AddressText EtcdClientShell Subnets FirstFit Ipam Netlink Nics
open Storage CniPlugin Records Conducts RecordPrograms RestoredNode DelRecords AddRecords NodeStates
open NodeState NodeTransitions

/-! ### Calls -/

inductive Op where
  | add
  | del
deriving Repr, DecidableEq

/-- An invocation of the plugin. The MAC of ohnov and the random text are those
of the process. -/
structure Call where
  op : Op
  container : Container
  mac : Mac
  uniqueId : Text

def process (cni : Cni) (mac : Mac) (uniqueId : Text) : Cni :=
  { cni with vxlanMac := mac.text, uniqueId }

abbrev Outcome := Except Thrown (Option CniResult)

def Call.program (cni : Cni) (call : Call) : OhnoProgram (Option CniResult) :=
  let proc := process cni call.mac call.uniqueId
  match call.op with
  | .add => (proc.add call.container.id (netnsPath call.container.netns) call.container.nic).bind
      fun r => .pure (some r)
  | .del => (proc.del call.container.id call.container.nic).bind fun _ => .pure none

/-! ### What a call can do -/

/-- The subnets of the other nodes, and the state of this one if it has records. -/
structure Site where
  others : List Text
  item : ∀ x ∈ others, Store.Item x
  node : Option NodeState

namespace Site
variable {cni : Cni} {net : NetworkV4}

def registry (law : Lawful cni net) (s : Site) : Registry :=
  match s.node with
  | none => fresh s.others s.item
  | some st => records law s.others s.item st

theorem loadable (law : Lawful cni net) (s : Site) : Loadable (s.registry law) := by
  obtain ⟨others, ho, node⟩ := s
  cases node with
  | none => exact loadable_fresh others ho
  | some st =>
      have h : Loadable (records law others ho st) := loadable_records
      exact h

def pods (s : Site) : List Pod :=
  match s.node with
  | none => []
  | some st => st.pods

/-- The node has gone, and its subnet has been given back. -/
def tornDown (net : NetworkV4) (s : Site) : Site where
  others := s.others.filter (· ≠ net.text)
  item x hx := s.item x (List.mem_of_mem_filter hx)
  node := none

def Valid (cni : Cni) (net : NetworkV4) (s : Site) : Prop :=
  ∀ st, s.node = some st → NodeState.Valid cni net st

/-- The container has the interface that it is registered with, if it is. -/
def Keeps (s : Site) (c : Container) : Prop := ∀ q ∈ s.pods, q.id = c.id → q.nic = c.nic

end Site

/-- What `add` reports of host `k`. -/
def answer (cni : Cni) (net : NetworkV4) (k : ℕ) (c : Container) : CniResult :=
  reported cni (net.address + BitVec.ofNat 32 k) (NodeState.gateway net) net.prefixLength c.nic
    (netnsPath c.netns)

section Moves
variable (cni : Cni) (net : NetworkV4)

/-- The end of an ADD. -/
inductive Adds (c : Container) (mac : Mac) : Outcome → Site → Site → Prop where
  | first (others : List Text) (ho : ∀ x ∈ others, Store.Item x) :
      Adds c mac (.ok (some (answer cni net 2 c))) ⟨others, ho, none⟩
        ⟨others, ho, some ⟨[⟨c, some 2⟩], if cni.ipamMode = .vxlan then some mac else none⟩⟩
  | found (s : Site) (p : Pod) (k : ℕ) (mem : p ∈ s.pods) (id : p.id = c.id) (nic : p.nic = c.nic)
      (ip : p.ip = some k) :
      Adds c mac ((reuseOutcome cni (net.address + BitVec.ofNat 32 k) (NodeState.gateway net)
        net.prefixLength c.nic (netnsPath c.netns)).map some) s s
  | refused (s : Site) (e : Thrown) : Adds c mac (.error e) s s
  | new (others : List Text) (ho : ∀ x ∈ others, Store.Item x) (st : NodeState) (k : ℕ)
      (id : ∀ q ∈ st.pods, q.id ≠ c.id) (free : ∀ q ∈ st.pods, q.netns ≠ c.netns)
      (fit : firstFree (hostText net) (hostCount net) (st.addresses net) = some k) :
      Adds c mac (.ok (some (answer cni net k c))) ⟨others, ho, some st⟩
        ⟨others, ho, some (add st ⟨c, some k⟩)⟩
  | exhausted (others : List Text) (ho : ∀ x ∈ others, Store.Item x) (st : NodeState) (e : Thrown)
      (id : ∀ q ∈ st.pods, q.id ≠ c.id) (free : ∀ q ∈ st.pods, q.netns ≠ c.netns)
      (full : firstFree (hostText net) (hostCount net) (st.addresses net) = none) :
      Adds c mac (.error e) ⟨others, ho, some st⟩ ⟨others, ho, some (add st ⟨c, none⟩)⟩

/-- The end of a DEL. It always returns. -/
inductive Dels (c : Container) : Site → Site → Prop where
  | unknown (s : Site) (id : ∀ q ∈ s.pods, q.id ≠ c.id) : Dels c s s
  | one (others : List Text) (ho : ∀ x ∈ others, Store.Item x) (st : NodeState) (q : Pod)
      (mem : q ∈ st.pods) (other : q.id ≠ c.id) :
      Dels c ⟨others, ho, some st⟩ ⟨others, ho, some (remove cni st c.id)⟩
  | last (s : Site) (all : ∀ q ∈ s.pods, q.id = c.id) : Dels c s (s.tornDown net)

def Moves (call : Call) (o : Outcome) (s t : Site) : Prop :=
  match call.op with
  | .add => Adds cni net call.container call.mac o s t
  | .del => o = .ok none ∧ Dels cni net call.container s t

end Moves

section Runs
variable {cni : Cni} {net : NetworkV4} {base : Store} {others : List Text}
variable {ho : ∀ x ∈ others, Store.Item x} {st : NodeState}

theorem lawful_process (law : Lawful cni net) (mac : Mac) (uniqueId : Text) :
    Lawful (process cni mac uniqueId) net :=
  { law with mac := ⟨mac.ne_nil, mac.line⟩ }

theorem valid_process (mac : Mac) (uniqueId : Text) (valid : NodeState.Valid cni net st) :
    NodeState.Valid (process cni mac uniqueId) net st :=
  { valid with }

theorem Adds.of_process {c : Container} {mac mac' : Mac} {uniqueId : Text}
    {o : Outcome} {s t : Site}
    (h : Adds (process cni mac' uniqueId) net c mac o s t) : Adds cni net c mac o s t := by
  cases h with
  | first others ho => exact .first others ho
  | found s p k mem id nic ip => exact .found s p k mem id nic ip
  | refused s e => exact .refused s e
  | new others ho st k id free fit => exact .new others ho st k id free fit
  | exhausted others ho st e id free full => exact .exhausted others ho st e id free full

/-- The first host is the gateway's and the second the first container's. -/
theorem firstFree_gateway (law : Lawful cni net) :
    firstFree (hostText net) (hostCount net) [] = some 1 ∧
      firstFree (hostText net) (hostCount net) [hostText net 1] = some 2 := by
  have h2 := two_le_hostCount law
  have hlt := hostCount_lt net
  rw [firstFree_eq_some_iff, firstFree_eq_some_iff]
  refine ⟨⟨le_rfl, by omega, by simp, by omega⟩, by omega, h2, ?_, ?_⟩
  · intro hm
    have h12 : 2 = 1 := hostText_injective (by omega) (by omega) (List.mem_singleton.mp hm)
    omega
  · intro j h1 hj
    have hj1 : j = 1 := by omega
    rw [hj1]
    exact List.mem_singleton_self _

theorem podOf_records {c : Container} :
    (records law others ho st).value (.podOf c.netns) =
      (st.pods.find? (·.netns = c.netns)).map fun q => q.id := by
  simp [records, c.netns_ne]

/-- An ADD on a node that has records. -/
theorem runs_add_some (others : List Text) (ho : ∀ x ∈ others, Store.Item x) (base : Store)
    (law : Lawful cni net) (valid : NodeState.Valid cni net st)
    {c : Container} (keeps : ∀ q ∈ st.pods, q.id = c.id → q.nic = c.nic) (mac : Mac) :
    ∃ o t, Adds cni net c mac (o.map some) ⟨others, ho, some st⟩ ⟨others, ho, some t⟩ ∧
      Runs cni.node base (cni.add c.id (netnsPath c.netns) c.nic) (records law others ho st) o
        (records law others ho t) := by
  have up : Up cni net (gateway net) (records law others ho st) := up_records
  have hsimple := simpleNetns_netnsPath c.netns
  by_cases hmem : ∃ p ∈ st.pods, p.id = c.id
  · obtain ⟨p, hp, hid⟩ := hmem
    have hnic := keeps p hp hid
    have hc : c.id ∈ (records law others ho st).list .pods :=
      (mem_pods_iff c.id_ne).mpr ⟨p, hp, hid⟩
    have hi : c.nic ∈ (records law others ho st).list (.nics c.id) := by
      simp [records, ← hid, p.id_ne, ofId_of_mem valid hp, hnic]
    have haddrs : (records law others ho st).list (.addrs c.id c.nic) = ips net [p] := by
      simp [records, ← hid, ← hnic, p.id_ne, ofNic_of_mem valid hp]
    cases hip : p.ip with
    | some k =>
        have hle := law.prefixLength_le
        have ha : ips net [p] = [hostText net k] := by simp [ips, hip]
        exact ⟨_, st, .found _ p k hp hid hnic hip, runs_add_reuse law up c.id_ne hc hi
          c.name_nic.item.ne_nil (by omega) (haddrs.trans ha)⟩
    | none =>
        have ha : ips net [p] = [] := by simp [ips, hip]
        exact ⟨_, st, .refused _ _, runs_add_reuse_none law up c.id_ne hc hi (haddrs.trans ha)⟩
  · have hid : ∀ q ∈ st.pods, q.id ≠ c.id := fun q hq he => hmem ⟨q, hq, he⟩
    have hnew : ¬ (c.id ∈ (records law others ho st).list .pods ∧
        c.nic ∈ (records law others ho st).list (.nics c.id)) := by
      intro h
      exact hmem ((mem_pods_iff c.id_ne).mp h.1)
    cases hfind : st.pods.find? (·.netns = c.netns) with
    | some q =>
        have hq : q ∈ st.pods := List.mem_of_find?_eq_some hfind
        have ho' : (records law others ho st).value (.podOf c.netns) = some q.id := by
          rw [podOf_records, hfind, Option.map_some]
        exact ⟨_, st, .refused _ _, runs_add_refused base law up c.id_ne hnew hsimple ho'
          q.name_id.item.ne_nil (hid q hq)⟩
    | none =>
        have hfree : ∀ q ∈ st.pods, q.netns ≠ c.netns := by
          intro q hq he
          simpa [he] using List.find?_eq_none.mp hfind q hq
        have hnone : FreeFor (records law others ho st) c.netns c.id := by
          intro other hother
          rw [podOf_records, hfind] at hother
          cases hother
        have hpods := podRecords_records law ho c fun q hq he =>
          absurd he (hfree q hq)
        cases hfit : firstFree (hostText net) (hostCount net) (st.addresses net) with
        | some k =>
            have hrun := runs_add_new base law up c.id_ne hnew hsimple c.name_id c.name_nic
              c.line_path hnone hfit
            rw [hpods, addrRecords_records] at hrun
            exact ⟨_, _, .new others ho st k hid hfree hfit, hrun⟩
        | none =>
            have hrun := runs_add_full base law up c.id_ne hnew hsimple c.name_id c.name_nic
              c.line_path hnone hfit
            rw [hpods] at hrun
            exact ⟨_, _, .exhausted others ho st _ hid hfree hfit, hrun⟩

/-- The first ADD takes the second host. -/
theorem runs_add_fresh (base : Store) (law : Lawful cni net) (others : List Text)
    (ho : ∀ x ∈ others, Store.Item x) (c : Container) (mac : Mac) (uniqueId : Text) :
    Runs cni.node base (Call.program cni ⟨.add, c, mac, uniqueId⟩) (fresh others ho)
      (.ok (some (answer cni net 2 c)))
      (records law others ho ⟨[⟨c, some 2⟩],
        if cni.ipamMode = .vxlan then some mac else none⟩) := by
  have law' := lawful_process law mac uniqueId
  obtain ⟨hj, hk⟩ := firstFree_gateway law
  apply Runs.bind (a := answer cni net 2 c)
  · have hfirst := runs_add_first base law' (R := fresh others ho) rfl c.id_ne
      (simpleNetns_netnsPath c.netns) c.name_id c.name_nic c.line_path (by simp [FreeFor, fresh])
      c.netns_ne hj hk
    have hgw : net.address + BitVec.ofNat 32 1 = gateway net := rfl
    rw [nodeRecords_fresh mac rfl, podRecords_records law' ho c (by simp), hgw,
      addrRecords_records c 2]
      at hfirst
    exact hfirst
  · exact Runs.pure _ _

theorem runs_add (base : Store) (law : Lawful cni net) (s : Site) (valid : s.Valid cni net)
    {c : Container} (keeps : s.Keeps c) (mac : Mac) (uniqueId : Text) :
    ∃ o t, Adds cni net c mac o s t ∧
      Runs cni.node base (Call.program cni ⟨.add, c, mac, uniqueId⟩) (s.registry law) o
        (t.registry law) := by
  have law' := lawful_process law mac uniqueId
  obtain ⟨others, ho, node⟩ := s
  cases node with
  | none => exact ⟨_, _, .first others ho, runs_add_fresh base law others ho c mac uniqueId⟩
  | some st =>
      obtain ⟨o, t, hmove, hrun⟩ := runs_add_some others ho base law'
        (valid_process mac uniqueId (valid st rfl)) keeps mac
      refine ⟨o.map some, ⟨others, ho, some t⟩, ?_, ?_⟩
      · exact hmove.of_process
      · cases o with
        | ok r => exact Runs.bind hrun (Runs.pure _ _)
        | error e => exact Runs.bind_error hrun

theorem runs_del (base : Store) (law : Lawful cni net) (s : Site) (valid : s.Valid cni net)
    {c : Container} (keeps : s.Keeps c) (mac : Mac) (uniqueId : Text) :
    ∃ t, Dels cni net c s t ∧
      Runs cni.node base (Call.program cni ⟨.del, c, mac, uniqueId⟩) (s.registry law) (.ok none)
        (t.registry law) := by
  have law' := lawful_process law mac uniqueId
  obtain ⟨others, ho, node⟩ := s
  cases node with
  | none =>
      refine ⟨⟨others, ho, none⟩, .unknown _ (by simp [Site.pods]), ?_⟩
      exact Runs.bind (runs_del_none law' rfl) (Runs.pure _ _)
  | some st =>
      have valid' := valid_process mac uniqueId (valid st rfl)
      have hdel := DelRecords.runs_del (R := records law' others ho st) (c := c.id) (i := c.nic)
        base law' loadable_records rfl List.mem_cons_self c.name_id.slash c.id_ne
        c.name_nic.slash
      have hrun : ∀ R, delRecords (process cni mac uniqueId) net c.id c.nic
          (records law' others ho st) = R →
          Runs cni.node base (Call.program cni ⟨.del, c, mac, uniqueId⟩) (records law others ho st)
            (.ok none) R := by
        intro R hR
        rw [← hR]
        exact Runs.bind hdel (Runs.pure none _)
      by_cases hmem : ∃ p ∈ st.pods, p.id = c.id
      · obtain ⟨p, hp, hid⟩ := hmem
        have hnic := keeps p hp hid
        by_cases hother : ∃ q ∈ st.pods, q.id ≠ c.id
        · obtain ⟨q, hq, hne⟩ := hother
          refine ⟨_, .one others ho st q hq hne, ?_⟩
          apply hrun
          rw [← hid, ← hnic]
          exact delRecords_one_of_several valid' hp hq (hid ▸ hne)
        · have hall : ∀ q ∈ st.pods, q.id = c.id := fun q hq => by_contra fun h => hother ⟨q, hq, h⟩
          refine ⟨_, .last ⟨others, ho, some st⟩ hall, ?_⟩
          apply hrun
          rw [← hid, ← hnic]
          exact delRecords_last valid' hp (hid ▸ hall)
      · have hid : ∀ q ∈ st.pods, q.id ≠ c.id := fun q hq he => hmem ⟨q, hq, he⟩
        refine ⟨_, .unknown ⟨others, ho, some st⟩ hid, ?_⟩
        apply hrun
        exact delRecords_unknown c.id_ne hid

/-- Every execution of a call is a move. -/
theorem moves_of_exec {base : Store} (law : Lawful cni net) {s : Site} (valid : s.Valid cni net)
    {call : Call} (keeps : s.Keeps call.container) {o : Outcome} {w : World}
    (h : (call.program cni).Exec Conduct.obliging.handle
      ⟨(s.registry law).store cni.node base, [], none⟩ o w) :
    ∃ t, Moves cni net call o s t ∧ w.store = (t.registry law).store cni.node base := by
  obtain ⟨op, c, mac, uniqueId⟩ := call
  have hs := Conduct.settled_obliging none
  cases op with
  | add =>
      obtain ⟨o', t, hmove, hrun⟩ := runs_add base law s valid keeps mac uniqueId
      obtain ⟨rfl, hw, -⟩ := hrun.exec Conduct.obliges_obliging hs h
      exact ⟨t, hmove, hw⟩
  | del =>
      obtain ⟨t, hmove, hrun⟩ := runs_del base law s valid keeps mac uniqueId
      obtain ⟨rfl, hw, -⟩ := hrun.exec Conduct.obliges_obliging hs h
      exact ⟨t, ⟨rfl, hmove⟩, hw⟩

theorem Moves.valid {call : Call} {o : Outcome} {s t : Site} (law : Lawful cni net)
    (h : Moves cni net call o s t) (valid : s.Valid cni net) : t.Valid cni net := by
  obtain ⟨op, c, mac, uniqueId⟩ := call
  cases op with
  | add =>
      have hadd : Adds cni net c mac o s t := h
      intro u hu
      cases hadd with
      | first others ho =>
          cases hu
          exact Valid.first law fun hv => if_neg hv
      | found s p k mem id nic ip => exact valid u hu
      | refused s e => exact valid u hu
      | new others ho st k id free fit =>
          cases hu
          apply Valid.add (valid st rfl) id free
          intro k' hk'
          cases hk'
          exact host_of_firstFree fit
      | exhausted others ho st e id free full =>
          cases hu
          apply Valid.add (valid st rfl) id free
          intro k' hk'
          cases hk'
  | del =>
      obtain ⟨-, hdel⟩ := h
      intro u hu
      cases hdel with
      | unknown s id => exact valid u hu
      | one others ho st q mem other =>
          cases hu
          exact Valid.remove (valid st rfl) mem other
      | last s all => cases hu

end Runs

/-! ### Histories -/

/-- A call and how it ended. -/
abbrev Event := Call × Outcome

/-- Calls one after the other from the map `s₀`, each of them one that `may`
allows after the events so far. Every command succeeds. -/
inductive History (cni : Cni) (may : List Event → Store → Call → Prop) (s₀ : Store) :
    List Event → Store → Prop where
  | start : History cni may s₀ [] s₀
  | call {log : List Event} {s : Store} {call : Call} {o : Outcome} {w : World}
      (h : History cni may s₀ log s) (allowed : may log s call)
      (x : (call.program cni).Exec Conduct.obliging.handle ⟨s, [], none⟩ o w) :
      History cni may s₀ (log ++ [(call, o)]) w.store

/-- The moves of a history. -/
inductive Walk (cni : Cni) (net : NetworkV4) (start : Site) : List Event → Site → Prop where
  | start : Walk cni net start [] start
  | move {log : List Event} {s t : Site} {call : Call} {o : Outcome} (h : Walk cni net start log s)
      (m : Moves cni net call o s t) : Walk cni net start (log ++ [(call, o)]) t

/-- No record of the node. -/
structure Unrecorded (node : Text) (s : Store) : Prop where
  subnet : s (subnetKey node) = none
  addresses : s (addressKey node) = none
  storage : ∀ rest, s (etcdKeyPrefixNode ++ '/' :: (node ++ '/' :: rest)) = none

theorem Unrecorded.eq_fresh {node : Text} {s : Store} (h : Unrecorded node s) {others : List Text}
    (ho : ∀ x ∈ others, Store.Item x) (hs : s etcdKeySubnet = encode others) :
    s = (fresh others ho).store node s := by
  apply Registry.eq_store
  intro k _
  cases hp : parts k with
  | none =>
      rcases parts_none hp with rfl | rfl | rfl
      · exact hs
      · exact h.addresses
      · exact h.subnet
  | some ps =>
      have hnone : s (keyText node k) = none := by
        rw [keyText_parts node hp]
        exact h.storage _
      rw [hnone]
      unfold parts at hp
      split at hp <;> cases hp <;> rfl

/-- A container is always used with one name for its interface. -/
def OneName (log : List Event) (_ : Store) (call : Call) : Prop :=
  ∀ e ∈ log, e.1.container.id = call.container.id → e.1.container.nic = call.container.nic

section Histories
variable {cni : Cni} {net : NetworkV4} {start s t : Site} {log : List Event}

theorem Walk.valid (law : Lawful cni net) (h : Walk cni net start log s)
    (hstart : start.Valid cni net) : s.Valid cni net := by
  induction h with
  | start => exact hstart
  | move h m ih => exact Moves.valid law m ih

theorem Walk.last {call : Call} {o : Outcome} (h : Walk cni net start (log ++ [(call, o)]) t) :
    ∃ s, Moves cni net call o s t := by
  generalize hl : log ++ [(call, o)] = l at h
  cases h with
  | start => simp at hl
  | move h m =>
      obtain ⟨-, he⟩ := List.append_inj' hl rfl
      cases he
      exact ⟨_, m⟩

/-- A pod was there before and is not deleted, or is that of an ADD. -/
theorem Moves.pods {call : Call} {o : Outcome} (h : Moves cni net call o s t) {p : Pod}
    (hp : p ∈ t.pods) :
    (p ∈ s.pods ∧ ¬ (call.op = .del ∧ call.container.id = p.id)) ∨
      call.op = .add ∧ call.container = p.toContainer := by
  obtain ⟨op, c, mac, uniqueId⟩ := call
  cases op with
  | add =>
      have hadd : Adds cni net c mac o s t := h
      have hkeep : p ∈ s.pods → p ∈ s.pods ∧ ¬ (Op.add = Op.del ∧ c.id = p.id) :=
        fun hs => ⟨hs, fun hd => Op.noConfusion hd.1⟩
      cases hadd with
      | first others ho =>
          rw [List.mem_singleton.mp hp]
          exact .inr ⟨rfl, rfl⟩
      | found s p k mem id nic ip => exact .inl (hkeep hp)
      | refused s e => exact .inl (hkeep hp)
      | new others ho st k id free fit =>
          rcases List.mem_append.mp hp with hp | hp
          · exact .inl (hkeep hp)
          · rw [List.mem_singleton.mp hp]
            exact .inr ⟨rfl, rfl⟩
      | exhausted others ho st e id free full =>
          rcases List.mem_append.mp hp with hp | hp
          · exact .inl (hkeep hp)
          · rw [List.mem_singleton.mp hp]
            exact .inr ⟨rfl, rfl⟩
  | del =>
      obtain ⟨-, hdel⟩ := h
      cases hdel with
      | unknown s id => exact .inl ⟨hp, fun hd => id p hp hd.2.symm⟩
      | one others ho st q mem other =>
          have hmem := List.mem_filter.mp hp
          exact .inl ⟨hmem.1, fun hd => of_decide_eq_true hmem.2 hd.2.symm⟩
      | last s all => cases hp

/-- A container that is registered was added. -/
theorem Walk.added (h : Walk cni net start log s) (hstart : start.node = none) {p : Pod}
    (hp : p ∈ s.pods) : ∃ e ∈ log, e.1.container = p.toContainer := by
  induction h with
  | start => simp [Site.pods, hstart] at hp
  | move h m ih =>
      rcases Moves.pods m hp with ⟨hs, -⟩ | ⟨-, hc⟩
      · obtain ⟨e, he, hec⟩ := ih hs
        exact ⟨e, List.mem_append_left _ he, hec⟩
      · exact ⟨_, List.mem_append_right _ (List.mem_singleton_self _), hc⟩

/-- In a history in which a call keeps the interface of its container, the map
is that of a walk. -/
theorem walk_of_history {base : Store} (law : Lawful cni net) (hstart : start.Valid cni net)
    {may : List Event → Store → Call → Prop}
    (keeps : ∀ log s call, Walk cni net start log s →
      may log ((s.registry law).store cni.node base) call → s.Keeps call.container) {u : Store}
    (h : History cni may ((start.registry law).store cni.node base) log u) :
    ∃ s, Walk cni net start log s ∧ u = (s.registry law).store cni.node base := by
  induction h with
  | start => exact ⟨start, .start, rfl⟩
  | call h allowed x ih =>
      obtain ⟨s, hwalk, rfl⟩ := ih
      obtain ⟨t, hmove, hw⟩ := moves_of_exec law (hwalk.valid law hstart)
        (keeps _ s _ hwalk allowed) x
      exact ⟨t, hwalk.move hmove, hw⟩

/-- The sites before any container. -/
def unused (others : List Text) (ho : ∀ x ∈ others, Store.Item x) : Site := ⟨others, ho, none⟩

theorem valid_unused (others : List Text) (ho : ∀ x ∈ others, Store.Item x) :
    (unused others ho).Valid cni net := by
  intro st hst
  cases hst

theorem walk_of_oneName (law : Lawful cni net) {s₀ u : Store} (hs : Unrecorded cni.node s₀)
    {others : List Text} (ho : ∀ x ∈ others, Store.Item x)
    (hothers : s₀ etcdKeySubnet = encode others)
    (h : History cni OneName s₀ log u) :
    ∃ s, Walk cni net (unused others ho) log s ∧ u = (s.registry law).store cni.node s₀ := by
  have heq : s₀ = ((unused others ho).registry law).store cni.node s₀ := hs.eq_fresh ho hothers
  rw [heq] at h
  refine walk_of_history law (valid_unused others ho) ?_ h
  intro log s call hwalk hname q hq hid
  obtain ⟨e, he, hc⟩ := hwalk.added rfl hq
  have hnic := hname e he (by rw [hc, hid])
  rw [← hnic, hc]

end Histories

/-- A configuration that `parseConfig` accepts, on a node with a canonical pod CIDR. The
names of the devices differ, and nothing else is asked of them: `Lawful` says more. -/
structure Accepted (cni : Cni) (net : NetworkV4) : Prop where
  config : parseConfig cni.conf .reserved = .ok cni.ipamMode
  nodeInfo : cni.nodeInfo = true
  podCidr : cni.podCidr = net.text
  prefixLength_le : net.prefixLength ≤ 30
  hostBits : IpamSequential.HostBitsZero net
  bridge_ne_underlay : cni.conf.bridge ≠ cni.underlayDev
  bridge_ne_vxlan : cni.conf.bridge ≠ nameVxlan
  underlay_ne_vxlan : cni.underlayDev ≠ nameVxlan

/-- A container is always used with one interface name, which is that of no device of
the node, and with one namespace of its own. Its names have no `-` and no blank. -/
structure OwnName (cni : Cni) (log : List Event) (s : Store) (call : Call) : Prop where
  oneName : OneName log s call
  netns : ∀ e ∈ log,
    e.1.container.id = call.container.id ↔ e.1.container.netns = call.container.netns
  device : call.container.nic ∉ [cni.conf.bridge, cni.underlayDev, nameVxlan]
  plain : ∀ x ∈ call.container.id ++ call.container.nic, x ≠ '-' ∧ x.isWhitespace = false

/-! ### Runs on fixed inputs -/

/-- The call when every query is answered yes. -/
def Call.finish (cni : Cni) (call : Call) (s : Store) : Outcome × Store :=
  let r := (call.program cni).run Conduct.comply ⟨s, [], none⟩
  (r.1, r.2.store)

theorem History.next {cni : Cni} {may : List Event → Store → Call → Prop} {s₀ s : Store}
    {log : List Event} (h : History cni may s₀ log s) (call : Call) (allowed : may log s call) :
    History cni may s₀ (log ++ [(call, (call.finish cni s).1)]) (call.finish cni s).2 :=
  h.call allowed (Program.exec_run (Conduct.handle_comply fun _ _ => rfl) _ _)

/-- The result of a call that returns one. -/
theorem result_of_finish {cni : Cni} {call : Call} {s : Store}
    (h : (call.finish cni s).1.toOption.join.isSome = true) :
    ∃ r, (call.finish cni s).1 = .ok (some r) := by
  cases hr : (call.finish cni s).1 with
  | error t => simp [hr, Except.toOption] at h
  | ok r =>
      cases r with
      | none => simp [hr, Except.toOption] at h
      | some r => exact ⟨r, rfl⟩

/-- A node with a /24 in vxlan mode. -/
def cniA : Cni where
  conf := ⟨"0.3.1".toList, "ohno".toList, "ohno0".toList, "10.0.0.0/16".toList, .vxlan⟩
  ipamMode := .vxlan
  boost := Boost.reference
  node := ['a']
  underlayDev := "eth0".toList
  underlayAddr := "192.168.0.1/24".toList
  podCidr := "10.0.0.0/24".toList
  vxlanMac := "02:00:00:00:00:0a".toList

def netA : NetworkV4 := ⟨0x0A000000, 24⟩

theorem lawful_cniA : Lawful cniA netA where
  nodeInfo := rfl
  podCidr := by decide +kernel
  le_prefixLength := by decide
  prefixLength_le := by decide
  hostBits := by
    unfold IpamSequential.HostBitsZero
    decide
  bridge := name_of_check (by decide +kernel)
  underlay := name_of_check (by decide +kernel)
  bridge_ne_underlay := by decide +kernel
  bridge_ne_vxlan := by decide +kernel
  underlay_ne_vxlan := by decide +kernel
  mac := by decide +kernel

/-- The node with a bridge whose name is two items of a list. -/
def cniC : Cni :=
  { cniA with
    conf := { cniA.conf with bridge := "br,0".toList }, underlayDev := "ens3".toList }

theorem accepted_cniC : Accepted cniC netA where
  config := by decide +kernel
  nodeInfo := rfl
  podCidr := lawful_cniA.podCidr
  prefixLength_le := lawful_cniA.prefixLength_le
  hostBits := lawful_cniA.hostBits
  bridge_ne_underlay := by decide +kernel
  bridge_ne_vxlan := by decide +kernel
  underlay_ne_vxlan := by decide +kernel

/-- The node with all addresses there are. -/
def cniZ : Cni := { cniA with podCidr := "0.0.0.0/0".toList, underlayDev := "ens3".toList }

def netZ : NetworkV4 := ⟨0, 0⟩

theorem accepted_cniZ : Accepted cniZ netZ where
  config := by decide +kernel
  nodeInfo := rfl
  podCidr := by decide +kernel
  prefixLength_le := by decide
  hostBits := by
    unfold IpamSequential.HostBitsZero
    decide
  bridge_ne_underlay := by decide +kernel
  bridge_ne_vxlan := lawful_cniA.bridge_ne_vxlan
  underlay_ne_vxlan := by decide +kernel

def containerA : Container where
  id := "c1".toList
  nic := "eth0".toList
  netns := "x1".toList
  name_id := name_of_check (by decide +kernel)
  name_nic := name_of_check (by decide +kernel)
  line := by decide +kernel
  id_ne := by decide +kernel
  netns_ne := by decide +kernel

def macA : Mac :=
  ⟨"02:00:00:00:00:0a".toList, by decide +kernel, by decide +kernel, by decide +kernel⟩

def addA : Call := ⟨.add, containerA, macA, ['u']⟩
def delA : Call := ⟨.del, containerA, macA, ['u']⟩

def noRecords : Store := fun _ => none

theorem unrecorded_noRecords (node : Text) : Unrecorded node noRecords := ⟨rfl, rfl, fun _ => rfl⟩

theorem items_nil : ∀ x ∈ ([] : List Text), Store.Item x := by simp

section First
variable {may : List Event → Store → Call → Prop}

/-- The first ADD of a node. -/
theorem history_first (cni : Cni) (allowed : may [] noRecords addA) : History cni may noRecords
    ([] ++ [(addA, (addA.finish cni noRecords).1)]) (addA.finish cni noRecords).2 :=
  History.start.next addA allowed

/-- The container is deleted again. -/
theorem history_del (cni : Cni) (allowed : may [] noRecords addA)
    (again : ∀ o s, may [(addA, o)] s delA) : History cni may noRecords
      ([] ++ [(addA, (addA.finish cni noRecords).1)] ++
        [(delA, (delA.finish cni (addA.finish cni noRecords).2).1)])
      (delA.finish cni (addA.finish cni noRecords).2).2 :=
  (history_first cni allowed).next delA (again _ _)

end First

theorem oneName_containerA {log : List Event} (h : ∀ e ∈ log, e.1.container = containerA)
    (s : Store) {call : Call} (hc : call.container = containerA) : OneName log s call := by
  intro e he _
  rw [h e he, hc]

theorem plain_containerA :
    ∀ x ∈ containerA.id ++ containerA.nic, x ≠ '-' ∧ x.isWhitespace = false := by
  have h : (containerA.id ++ containerA.nic).all (fun x => x != '-' && !x.isWhitespace) = true := by
    decide +kernel
  simpa only [List.all_eq_true, Bool.and_eq_true, bne_iff_ne, Bool.not_eq_true'] using h

theorem ownName_containerA {cni : Cni}
    (device : containerA.nic ∉ [cni.conf.bridge, cni.underlayDev, nameVxlan]) {log : List Event}
    (h : ∀ e ∈ log, e.1.container = containerA) (s : Store) {call : Call}
    (hc : call.container = containerA) : OwnName cni log s call where
  oneName := oneName_containerA h s hc
  netns e he := by rw [h e he, hc]; exact iff_of_true rfl rfl
  device := hc ▸ device
  plain := hc ▸ plain_containerA

theorem history_addA : History cniA OneName noRecords
    ([] ++ [(addA, (addA.finish cniA noRecords).1)]) (addA.finish cniA noRecords).2 :=
  history_first cniA (oneName_containerA (by simp) _ rfl)

end Ohno.NodeHistories
