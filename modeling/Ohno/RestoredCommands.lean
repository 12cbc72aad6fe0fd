import Ohno.CommandTraces
import Ohno.NodeHistories

/-!
# The commands on restored interfaces

The interfaces of the other pods are restored before ADD and DEL do anything
else: each is moved into the namespace of its pod, and its addresses and routes
are added again. Whether it could be moved is not looked at, and an interface
that was not stays with the empty namespace, which is the root namespace.

`addNoted` and `delNoted` are the two operations with the commands tagged that
are issued on such an interface. Without the tags they are `Cni.add` and
`Cni.del`. The rest is about the commands of one interface: what changes
something, what is looked for, and whether the interface was let in.
-/
namespace Ohno.RestoredCommands
open CommandPrograms DelimitedLists AddressText EtcdClientShell Subnets Ipam Netlink Nics Storage
open CniPlugin Conducts RestoredNode NodeHistories CommandTraces

/-- What is done to an interface: it is restored, or used again or deleted. -/
inductive Stage
  | restoring
  | handling
  deriving DecidableEq

/-- The stage, the pod and the interface, unless it is one of the root namespace. -/
abbrev Tag := Option (Stage × Text × Text)

abbrev NotedProgram (A : Type) := Program (Tag × Cmd) Reply Thrown A

def nicTag (stage : Stage) (pod nic : Text) : Tag :=
  if pod = host then none else some (stage, pod, nic)

/-! ### The operations with tags -/

section Noted
variable (cni : Cni)

def restoreNicsNoted (pod : Text) : List Text → Netns → Option Addr →
    NotedProgram (Netns × Option Addr)
  | [], obj, gateway => pure (obj, gateway)
  | nic :: rest, obj, gateway => do
      let ret ← tag (nicTag .restoring pod nic) (cni.restoreNic pod nic gateway)
      match ret.1 with
      | none => restoreNicsNoted pod rest obj ret.2
      | some nicObj => restoreNicsNoted pod rest (obj.addNic nicObj) ret.2

def restorePodsNoted : List Text → Node → Option Addr → NotedProgram (Node × Option Addr)
  | [], node, gateway => pure (node, gateway)
  | pod :: rest, node, gateway => do
      let nics ← tag none (etcd (getAllNic cni.node pod))
      let ret ← restoreNicsNoted cni pod nics { name := pod } gateway
      restorePodsNoted rest { node with netns := emplace node.netns pod ret.1 } ret.2

def getKubernetesClusterNoted : NotedProgram Loaded := do
  let ret ← tag none (etcd (getSubnet cni.node))
  if ret.1 then
    let node ← Program.ofExcept (cni.initKubernetesNode {} ret.2)
    let pods ← tag none (etcd (getAllPods cni.node))
    let restored ← restorePodsNoted cni pods node none
    pure { cluster := emplace [] cni.node restored.1, gateway := restored.2 }
  else
    pure {}

/-- A new interface is not a restored one. -/
def getPodNicNoted (loaded : Loaded) (pod : Netns) (containerId nicName vethHost netns : Text) :
    NotedProgram Nic :=
  match pod.nics.lookup nicName with
  | some nic => tag (nicTag .handling containerId nicName) (cni.reuseNic nic nicName)
  | none => tag none (cni.createNic loaded pod nicName vethHost netns)

def addNoted (containerId netns nicName : Text) : NotedProgram CniResult := do
  if cni.nodeInfo then
    let loaded ← getKubernetesClusterNoted cni
    let ret ← tag none (cni.getKubernetesNode loaded)
    let found ← tag none (Cni.getKubernetesPod ret.1 containerId true)
    let loaded := { ret.2 with cluster := replace ret.2.cluster cni.node found.2 }
    let vethHost := prefixVeth ++ getShortHash containerId
    let nic ← getPodNicNoted cni loaded found.1 containerId nicName vethHost netns
    Program.ofExcept (cni.result loaded nic nicName netns)
  else
    tag none (Cni.fail cniErrcodeOhno "Failed to get current node info")

def delBodyNoted (containerId nicName : Text) : NotedProgram Unit := do
  if cni.nodeInfo then
    let loaded ← getKubernetesClusterNoted cni
    match loaded.cluster.lookup cni.node with
    | none => tag none (Cni.fail cniErrcodeOhno s!"Failed to get Kubernetes node:{str cni.node}")
    | some node => do
        let found ← tag none (Cni.getKubernetesPod node containerId false)
        let _ ← tag (nicTag .handling containerId nicName)
          (cni.delKubernetesNic found.1 nicName)
        let node ← tag none (cni.delKubernetesPod node containerId)
        if node.netns.length = 1 then tag none (cni.tearDown node) else pure ()
  else
    tag none (Cni.fail cniErrcodeOhno "Failed to get current node info")

def delNoted (containerId nicName : Text) : NotedProgram Unit :=
  (delBodyNoted cni containerId nicName).catch_ fun e =>
    if e = .segfault then .throw .segfault else .pure ()

/-- A call, with the commands tagged. -/
def callNoted (op : Op) (containerId netns nicName : Text) :
    NotedProgram (Option CniResult) :=
  match op with
  | .add => (addNoted cni containerId netns nicName).bind fun r => pure (some r)
  | .del => (delNoted cni containerId nicName).bind fun _ => pure none

end Noted

section Erase
variable (cni : Cni)

theorem erase_restoreNicsNoted (pod : Text) (nics : List Text) (obj : Netns)
    (gateway : Option Addr) :
    erase (restoreNicsNoted cni pod nics obj gateway) = cni.restoreNics pod nics obj gateway := by
  induction nics generalizing obj gateway with
  | nil => rfl
  | cons nic rest ih =>
      simp only [restoreNicsNoted, Cni.restoreNics, Program.bind_eq, erase_bind, erase_tag]
      congr 1
      funext ret
      cases ret.1 with
      | none => exact ih obj ret.2
      | some nicObj => exact ih _ ret.2

theorem erase_restorePodsNoted (pods : List Text) (node : Node) (gateway : Option Addr) :
    erase (restorePodsNoted cni pods node gateway) = cni.restorePods pods node gateway := by
  induction pods generalizing node gateway with
  | nil => rfl
  | cons pod rest ih =>
      simp only [restorePodsNoted, Cni.restorePods, Program.bind_eq, erase_bind, erase_tag,
        erase_restoreNicsNoted, ih]

theorem erase_getKubernetesClusterNoted :
    erase (getKubernetesClusterNoted cni) = cni.getKubernetesCluster := by
  simp only [getKubernetesClusterNoted, Cni.getKubernetesCluster, Program.bind_eq, erase_bind,
    erase_tag]
  congr 1
  funext ret
  cases ret.1 with
  | false => rfl
  | true =>
      simp only [if_true, erase_bind, erase_tag, erase_ofExcept, erase_restorePodsNoted,
        Program.pure_eq, erase_pure]

theorem erase_getPodNicNoted (loaded : Loaded) (pod : Netns) (c i vethHost netns : Text) :
    erase (getPodNicNoted cni loaded pod c i vethHost netns) =
      cni.getPodNic loaded pod i vethHost netns := by
  unfold getPodNicNoted Cni.getPodNic
  cases pod.nics.lookup i <;> simp

/-- The tags change nothing. -/
theorem erase_addNoted (c netns i : Text) : erase (addNoted cni c netns i) = cni.add c netns i := by
  unfold addNoted Cni.add
  cases cni.nodeInfo with
  | false => rfl
  | true =>
      simp only [if_true, Program.bind_eq, erase_bind, erase_tag, erase_ofExcept,
        erase_getKubernetesClusterNoted, erase_getPodNicNoted]

theorem erase_delNoted (c i : Text) : erase (delNoted cni c i) = cni.del c i := by
  have hbody : erase (delBodyNoted cni c i) = cni.delBody c i := by
    unfold delBodyNoted Cni.delBody
    cases cni.nodeInfo with
    | false => rfl
    | true =>
        simp only [if_true, Program.bind_eq, erase_bind, erase_getKubernetesClusterNoted]
        congr 1
        funext loaded
        cases loaded.cluster.lookup cni.node with
        | none => rfl
        | some node =>
            simp only [erase_bind, erase_tag]
            congr 1
            funext found
            congr 1
            funext _
            congr 1
            funext node
            split_ifs
            · exact erase_tag _ _
            · rfl
  unfold delNoted Cni.del
  rw [erase_catch, hbody]
  congr 1
  funext e
  split_ifs <;> rfl

/-- What a process does: `Cni.add` or `Cni.del`. -/
def call (op : Op) (containerId netns nicName : Text) : OhnoProgram (Option CniResult) :=
  match op with
  | .add => (cni.add containerId netns nicName).bind fun r => pure (some r)
  | .del => (cni.del containerId nicName).bind fun _ => pure none

/-- The executions of a call are the traces of the tagged one. -/
theorem exec_iff_noted (m : Conduct) (op : Op) (c netns i : Text) (w w' : World)
    (o : Except Thrown (Option CniResult)) :
    (call cni op c netns i).Exec m.handle w o w' ↔
      ∃ L, Traces (fun k => m.handle k.2) (callNoted cni op c netns i) w o w' L := by
  have herase : erase (callNoted cni op c netns i) = call cni op c netns i := by
    cases op with
    | add =>
        simp only [callNoted, call, erase_bind, erase_addNoted]
        rfl
    | del =>
        simp only [callNoted, call, erase_bind, erase_delNoted]
        rfl
  rw [← herase, exec_erase, exec_iff_traces]

end Erase

/-! ### The commands of one interface -/

abbrev Entry := Cmd × Reply

/-- The namespace in which a command sets or deletes an address, a route or a link. -/
def changes : NetlinkCmd → Option Text
  | .addressSetEntry _ _ _ netns => some netns
  | .routeSetEntry _ _ _ _ netns _ => some netns
  | .linkDestory _ netns => some netns
  | _ => none

/-- An address or a route is looked for. -/
def LooksFor : NetlinkCmd → Prop
  | .addressIsExist .. => True
  | .routeIsExist .. => True
  | _ => False

/-- How often and with what success the interface was moved. -/
def moves : List Entry → List (NetlinkCmd × Bool) :=
  List.filterMap fun
    | (.netlink (.linkIsInNetns name netns), r) => some (.linkIsInNetns name netns, r.ok)
    | (.netlink (.linkToNetns name netns), r) => some (.linkToNetns name netns, r.ok)
    | _ => none

/-- It was moved into a namespace with a name, or was there, the first time. -/
def Entered : List (NetlinkCmd × Bool) → Prop
  | (.linkIsInNetns _ netns, true) :: _ => netns ≠ []
  | (.linkIsInNetns _ _, false) :: (.linkToNetns _ netns, true) :: _ => netns ≠ []
  | _ => False

/-- Nothing was changed in the root namespace. -/
def Clean (l : List Entry) : Prop := ∀ n r, (.netlink n, r) ∈ l → changes n ≠ some []

def Deletes (l : List Entry) : Prop := ∃ k r, (Cmd.etcd (.del k), r) ∈ l

/-- Whether the interface is let in, after a command: the last attempt to move
it counts, and a namespace without a name is the root namespace. -/
def letIn (inside : Bool) : Entry → Bool
  | (.netlink (.linkIsInNetns _ netns), r) => r.ok && !netns.isEmpty
  | (.netlink (.linkToNetns _ netns), r) => r.ok && !netns.isEmpty
  | _ => inside

/-- Each entry that is asked for is there, unless the interface was let in before. -/
def Sheltered (asked : NetlinkCmd → Prop) : Bool → List Entry → Prop
  | _, [] => True
  | inside, (.netlink n, r) :: l =>
      (asked n → inside = true ∨ r.ok = true) ∧ Sheltered asked (letIn inside (.netlink n, r)) l
  | inside, (.etcd _, _) :: l => Sheltered asked inside l

section Entries
variable {l l' : List Entry} {m : List (NetlinkCmd × Bool)}

theorem clean_append : Clean (l ++ l') ↔ Clean l ∧ Clean l' := by
  constructor
  · intro h
    exact ⟨fun n r hm => h n r (List.mem_append_left _ hm),
      fun n r hm => h n r (List.mem_append_right _ hm)⟩
  · intro h n r hm
    rcases List.mem_append.mp hm with hm | hm
    · exact h.1 n r hm
    · exact h.2 n r hm

def after (inside : Bool) (l : List Entry) : Bool := l.foldl letIn inside

theorem sheltered_append (asked : NetlinkCmd → Prop) (inside : Bool) :
    Sheltered asked inside (l ++ l') ↔
      Sheltered asked inside l ∧ Sheltered asked (after inside l) l' := by
  induction l generalizing inside with
  | nil => exact (and_iff_right trivial).symm
  | cons x rest ih =>
      obtain ⟨c, r⟩ := x
      cases c with
      | etcd e => exact ih inside
      | netlink n =>
          have hrest := ih (letIn inside (.netlink n, r))
          simp only [List.cons_append, Sheltered, hrest, and_assoc]
          rfl

theorem sheltered_congr {asked asked' : NetlinkCmd → Prop}
    (h : ∀ n r, (.netlink n, r) ∈ l → (asked n ↔ asked' n)) (inside : Bool) :
    Sheltered asked inside l ↔ Sheltered asked' inside l := by
  induction l generalizing inside with
  | nil => exact Iff.rfl
  | cons x rest ih =>
      have hrest := ih fun n r hm => h n r (List.mem_cons_of_mem _ hm)
      obtain ⟨c, r⟩ := x
      cases c with
      | etcd e => exact hrest inside
      | netlink n => simp only [Sheltered, h n r List.mem_cons_self, hrest]

/-- Only the attempts to move it matter. -/
theorem after_of_moves_nil (h : moves l = []) (inside : Bool) : after inside l = inside := by
  induction l with
  | nil => rfl
  | cons x rest ih =>
      have hx : letIn inside x = inside := by
        unfold letIn
        split
        · cases h
        · cases h
        · rfl
      have hrest : moves rest = [] := by
        unfold moves at h ⊢
        rw [List.filterMap_cons] at h
        split at h
        · exact h
        · cases h
      change after (letIn inside x) rest = inside
      rw [hx]
      exact ih hrest

theorem after_append (inside : Bool) : after inside (l ++ l') = after (after inside l) l' :=
  List.foldl_append

theorem deletes_append : Deletes (l ++ l') ↔ Deletes l ∨ Deletes l' := by
  constructor
  · intro h
    obtain ⟨k, r, hm⟩ := h
    rcases List.mem_append.mp hm with hm | hm
    · exact .inl ⟨k, r, hm⟩
    · exact .inr ⟨k, r, hm⟩
  · intro h
    rcases h with ⟨k, r, hm⟩ | ⟨k, r, hm⟩
    · exact ⟨k, r, List.mem_append_left _ hm⟩
    · exact ⟨k, r, List.mem_append_right _ hm⟩

theorem moves_append : moves (l ++ l') = moves l ++ moves l' := List.filterMap_append

section Cons
variable {n : NetlinkCmd} {r : Reply}

theorem clean_cons : Clean ((.netlink n, r) :: l) ↔ changes n ≠ some [] ∧ Clean l := by
  constructor
  · intro h
    exact ⟨h n r List.mem_cons_self, fun n' r' hm => h n' r' (List.mem_cons_of_mem _ hm)⟩
  · intro h n' r' hm
    rcases List.mem_cons.mp hm with he | hm
    · cases he
      exact h.1
    · exact h.2 n' r' hm

theorem deletes_cons : Deletes ((.netlink n, r) :: l) ↔ Deletes l := by
  simp [Deletes]

theorem moves_cons_of_looksFor (h : LooksFor n) : moves ((.netlink n, r) :: l) = moves l := by
  cases n <;> first | rfl | exact h.elim

theorem moves_cons_of_changes {x : Text} (h : changes n = some x) :
    moves ((.netlink n, r) :: l) = moves l := by
  cases n <;> first | rfl | cases h

theorem changes_of_looksFor (h : LooksFor n) : changes n = none := by
  cases n <;> first | rfl | exact h.elim

theorem not_looksFor_of_changes {x : Text} (h : changes n = some x) : ¬ LooksFor n := by
  intro hl
  rw [changes_of_looksFor hl] at h
  cases h

end Cons

/-- The list begins with a whole attempt. -/
def Whole : List (NetlinkCmd × Bool) → Prop
  | (.linkIsInNetns _ _, true) :: _ => True
  | (.linkIsInNetns _ _, false) :: (.linkToNetns _ _, _) :: _ => True
  | _ => False

theorem entered_append (h : Whole m) (m' : List (NetlinkCmd × Bool)) :
    Whole (m ++ m') ∧ (Entered (m ++ m') ↔ Entered m) := by
  unfold Whole at h
  split at h
  · exact ⟨trivial, Iff.rfl⟩
  · rename_i name netns name' netns' b rest
    cases b <;> exact ⟨trivial, Iff.rfl⟩
  · exact h.elim

/-- Changes stand against answers, and no record is deleted. -/
structure Fair (inside : Bool) (l : List Entry) : Prop where
  clean : Clean l ↔ Sheltered LooksFor inside l
  keeps : ¬ Deletes l

theorem clean_nil : Clean [] := fun _ _ hm => by cases hm

theorem not_deletes_nil : ¬ Deletes [] := by simp [Deletes]

theorem fair_nil {inside : Bool} : Fair inside [] :=
  ⟨iff_of_true clean_nil trivial, not_deletes_nil⟩

theorem Fair.append {inside : Bool} (h : Fair inside l) (h' : Fair (after inside l) l') :
    Fair inside (l ++ l') := by
  constructor
  · rw [clean_append, sheltered_append, h.clean, h'.clean]
  · rw [deletes_append]
    intro hd
    exact hd.elim h.keeps h'.keeps

/-- A command that neither changes nor looks for anything. -/
def Idle : Cmd → Prop
  | .etcd (.del _) => False
  | .etcd _ => True
  | .netlink n => changes n = none ∧ ¬ LooksFor n

theorem clean_of_idle (h : ∀ x ∈ l, Idle x.1) : Clean l ∧ ¬ Deletes l := by
  constructor
  · intro n r hm
    rw [(h _ hm).1]
    exact (Option.some_ne_none _).symm
  · intro hd
    obtain ⟨k, r, hm⟩ := hd
    exact h _ hm

theorem fair_of_idle (h : ∀ x ∈ l, Idle x.1) (inside : Bool) : Fair inside l := by
  obtain ⟨hclean, hkeeps⟩ := clean_of_idle h
  have hsheltered : Sheltered LooksFor inside l := by
    clear hclean hkeeps
    induction l generalizing inside with
    | nil => trivial
    | cons x rest ih =>
        have hrest : ∀ y ∈ rest, Idle y.1 := fun y hy => h y (List.mem_cons_of_mem _ hy)
        obtain ⟨c, r⟩ := x
        cases c with
        | etcd e => exact ih hrest inside
        | netlink n =>
            have hn : Idle (.netlink n) := h _ List.mem_cons_self
            exact ⟨fun hl => absurd hl hn.2, ih hrest _⟩
  exact ⟨iff_of_true hclean hsheltered, hkeeps⟩

/-- An idle command that moves nothing. -/
def Neutral : Cmd → Prop
  | .netlink (.linkIsInNetns ..) => False
  | .netlink (.linkToNetns ..) => False
  | c => Idle c

theorem Neutral.idle {c : Cmd} (h : Neutral c) : Idle c := by
  unfold Neutral at h
  split at h
  · exact h.elim
  · exact h.elim
  · exact h

theorem moves_of_neutral (h : ∀ x ∈ l, Neutral x.1) : moves l = [] := by
  apply List.filterMap_eq_nil_iff.mpr
  intro x hx
  have hn := h x hx
  obtain ⟨c, r⟩ := x
  cases c with
  | etcd e => rfl
  | netlink n => cases n <;> first | rfl | exact hn.elim

end Entries

/-! ### Restoring an interface -/

/-- Every path of `p` is fair, and `P` holds of the result and the commands. -/
structure Settles {A : Type} (inside : Bool) (p : OhnoProgram A) (P : A → List Entry → Prop) :
    Prop where
  marks : Marks p fun o l => Fair inside l ∧ ∀ a, o = .ok a → P a l

namespace Settles
variable {A B : Type} {inside : Bool} {p : OhnoProgram A} {f : A → OhnoProgram B}
variable {P : A → List Entry → Prop} {Q : B → List Entry → Prop}

theorem pure {a : A} (h : P a []) : Settles inside (.pure a) P := by
  constructor
  apply Marks.pure
  refine ⟨fair_nil, fun a' he => ?_⟩
  cases he
  exact h

theorem throw {e : Thrown} : Settles inside (.throw e : OhnoProgram A) P := by
  constructor
  apply Marks.throw
  exact ⟨fair_nil, fun a he => by cases he⟩

theorem mono {P' : A → List Entry → Prop} (hp : Settles inside p P)
    (h : ∀ a l, P a l → P' a l) : Settles inside p P' :=
  ⟨hp.marks.mono fun _ l hl => ⟨hl.1, fun a he => h a l (hl.2 a he)⟩⟩

theorem bind (hp : Settles inside p P)
    (hf : ∀ a l, P a l → Settles (after inside l) (f a) fun b l' => Q b (l ++ l')) :
    Settles inside (p.bind f) Q := by
  constructor
  apply Marks.bind hp.marks
  · intro a l hl
    apply (hf a l (hl.2 a rfl)).marks.mono
    intro o l' hl'
    exact ⟨hl.1.append hl'.1, hl'.2⟩
  · intro e l hl
    exact ⟨hl.1, fun b he => by cases he⟩

/-- A first part that moves nothing. -/
theorem bind_still (hp : Settles inside p fun a l => moves l = [] ∧ P a l)
    (hf : ∀ a l, moves l = [] → P a l → Settles inside (f a) fun b l' => Q b (l ++ l')) :
    Settles inside (p.bind f) Q := by
  apply hp.bind
  intro a l hl
  rw [after_of_moves_nil hl.1]
  exact hf a l hl.1 hl.2

/-- A program whose commands are neutral. -/
theorem neutral (h : Only Neutral p) : Settles inside p fun _ l => moves l = [] ∧ True := by
  constructor
  apply h.marks.mono
  intro o l hl
  have hfair := fair_of_idle (fun x hx => (hl x hx).idle) inside
  exact ⟨hfair, fun _ _ => ⟨moves_of_neutral hl, trivial⟩⟩

end Settles

theorem marks_netlink {A : Type} {c : NetlinkCmd} {f : Bool → OhnoProgram A}
    {Q : Except Thrown A → List Entry → Prop}
    (h : ∀ r : Reply, Marks (f r.ok) fun o l => Q o ((.netlink c, r) :: l)) :
    Marks ((netlink c).bind f) Q :=
  Marks.call h

section Reads
variable (node pod nic : Text)

theorem only_listOrEmpty (key : Text) : Only (fun c => Neutral (.etcd c)) (listOrEmpty key) :=
  ⟨trivial, fun _ => trivial⟩

theorem only_getNetns : Only Neutral (etcd (getNetns node pod)) := ⟨trivial, fun _ => trivial⟩

theorem only_getAllAddrs : Only Neutral (etcd (getAllAddrs node pod nic)) :=
  (only_listOrEmpty _).embed fun _ h => h

theorem only_getAllRoutes : Only Neutral (etcd (getAllRoutes node pod nic)) :=
  ((only_listOrEmpty _).bind fun _ => Only.ofExcept _).embed fun _ h => h

end Reads

/-- An interface of a pod as it is when its addresses are added. -/
structure Ready (obj : Nic) : Prop where
  netlink : obj.netlink = true
  kind : obj.kind ≠ .underlay
  printable : ∀ a ∈ obj.addrs, ∃ t, a.getAddrCidr = .ok t

/-- `obj'` is `obj` with other lists. -/
structure Extends (obj obj' : Nic) : Prop where
  ready : Ready obj'
  name : obj'.name = obj.name
  netns : obj'.netns = obj.netns

theorem Ready.extends {obj : Nic} (h : Ready obj) : Extends obj obj := ⟨h, rfl, rfl⟩

theorem Extends.trans {obj obj' obj'' : Nic} (h : Extends obj obj') (h' : Extends obj' obj'') :
    Extends obj obj'' := ⟨h'.ready, h'.name.trans h.name, h'.netns.trans h.netns⟩

/-- The first attempt to move an interface, and where it is after it. -/
structure Restored (nic : Text) (obj : Nic) (l : List Entry) : Prop where
  ready : Ready obj
  name : obj.name = nic
  whole : Whole (moves l)
  entered : obj.netns ≠ [] ↔ Entered (moves l)

section Restore
variable {cni : Cni} {obj : Nic} {pod nic : Text} {l : List Entry}

theorem Restored.append (h : Restored nic obj l) (l' : List Entry) :
    Restored nic obj (l ++ l') := by
  obtain ⟨hwhole, hentered⟩ := entered_append h.whole (moves l')
  rw [← moves_append] at hwhole hentered
  exact ⟨h.ready, h.name, hwhole, h.entered.trans hentered.symm⟩

theorem Restored.after {l' : List Entry} (h : Restored nic obj l) (h' : moves l' = []) :
    Restored nic obj (l' ++ l) := by
  have hm : moves (l' ++ l) = moves l := by rw [moves_append, h', List.nil_append]
  exact ⟨h.ready, h.name, hm ▸ h.whole, hm ▸ h.entered⟩

theorem Restored.extends {obj' : Nic} (h : Restored nic obj l) (he : Extends obj obj') :
    Restored nic obj' l :=
  ⟨he.ready, he.name.trans h.name, h.whole, he.netns ▸ h.entered⟩

/-- The interface is let in exactly if its namespace has a name. -/
def Agrees (inside : Bool) (obj : Nic) : Prop := inside = true ↔ obj.netns ≠ []

theorem Agrees.eq {inside : Bool} (h : Agrees inside obj) : (inside = true) = (obj.netns ≠ []) :=
  propext h

theorem Agrees.extends {inside : Bool} {obj' : Nic} (h : Agrees inside obj)
    (he : Extends obj obj') : Agrees inside obj' := by
  unfold Agrees
  rw [he.netns]
  exact h

/-- An entry that is there is only looked for; one that is set was denied before. -/
theorem fair_looked {n : NetlinkCmd} {r : Reply} {inside : Bool} (looks : LooksFor n)
    (hr : r.ok = true) : Fair inside [(.netlink n, r)] := by
  constructor
  · apply iff_of_true
    · rw [clean_cons, changes_of_looksFor looks]
      exact ⟨(Option.some_ne_none _).symm, clean_nil⟩
    · exact ⟨fun _ => .inr hr, trivial⟩
  · rw [deletes_cons]
    exact not_deletes_nil

theorem fair_set {n n' : NetlinkCmd} {r r' : Reply} {inside : Bool} (agrees : Agrees inside obj)
    (looks : LooksFor n) (sets : changes n' = some obj.netns) (hr : r.ok = false) :
    Fair inside [(.netlink n, r), (.netlink n', r')] := by
  have hsheltered : Sheltered LooksFor inside [(.netlink n, r), (.netlink n', r')] ↔
      inside = true := by
    simp only [Sheltered, looks, not_looksFor_of_changes sets, hr]
    simp
  constructor
  · rw [hsheltered, clean_cons, clean_cons, changes_of_looksFor looks, sets, agrees.eq]
    simp [clean_nil]
  · rw [deletes_cons, deletes_cons]
    exact not_deletes_nil

theorem settles_addEntry {inside : Bool} {isExist setEntry : NetlinkCmd} {other : Nic}
    (hn : obj.netlink = true) (agrees : Agrees inside obj) (looks : LooksFor isExist)
    (sets : changes setEntry = some obj.netns) :
    Settles inside (obj.addEntry isExist setEntry other) fun ret l =>
      moves l = [] ∧ (ret.2 = other ∨ ret.2 = obj) := by
  have hmoves : ∀ r r' : Reply, moves [(.netlink isExist, r), (.netlink setEntry, r')] = [] := by
    intro r r'
    rw [moves_cons_of_looksFor looks, moves_cons_of_changes sets]
    rfl
  constructor
  simp only [Nic.addEntry, hn, if_true, Program.bind_eq]
  apply marks_netlink
  intro r
  cases hr : r.ok with
  | true =>
      apply Marks.pure
      refine ⟨fair_looked looks hr, fun ret he => ?_⟩
      cases he
      exact ⟨moves_cons_of_looksFor looks, .inl rfl⟩
  | false =>
      simp only [Bool.false_eq_true, if_false]
      apply marks_netlink
      intro r'
      cases r'.ok with
      | true =>
          apply Marks.pure
          refine ⟨fair_set agrees looks sets hr, fun ret he => ?_⟩
          cases he
          exact ⟨hmoves r r', .inl rfl⟩
      | false =>
          apply Marks.pure
          refine ⟨fair_set agrees looks sets hr, fun ret he => ?_⟩
          cases he
          exact ⟨hmoves r r', .inr rfl⟩

theorem settles_addAddr {inside : Bool} (h : Ready obj) (agrees : Agrees inside obj) (a : Addr) :
    Settles inside (obj.addAddr a) fun ret l => moves l = [] ∧ Extends obj ret.2 := by
  unfold Nic.addAddr
  cases ha : a.getAddrCidr with
  | error e => exact Settles.throw
  | ok cidr =>
      apply (settles_addEntry h.netlink agrees (by exact trivial) rfl).mono
      intro ret l hl
      obtain ⟨hmoves, hret | hret⟩ := hl
      · have hp : ∀ b ∈ obj.addrs ++ [a], ∃ t, b.getAddrCidr = .ok t := by
          intro b hb
          rcases List.mem_append.mp hb with hb | hb
          · exact h.printable b hb
          · exact ⟨cidr, List.mem_singleton.mp hb ▸ ha⟩
        rw [hret]
        exact ⟨hmoves, ⟨h.netlink, h.kind, hp⟩, rfl, rfl⟩
      · rw [hret]
        exact ⟨hmoves, h.extends⟩

theorem settles_addRoute {inside : Bool} (h : Ready obj) (agrees : Agrees inside obj) (r : Route)
    (nhflags : RouteNHFlags) :
    Settles inside (obj.addRoute r nhflags) fun ret l => moves l = [] ∧ Extends obj ret.2 := by
  unfold Nic.addRoute
  apply (settles_addEntry h.netlink agrees (by exact trivial) rfl).mono
  intro ret l hl
  obtain ⟨hmoves, hret | hret⟩ := hl
  · rw [hret]
    exact ⟨hmoves, ⟨h.netlink, h.kind, h.printable⟩, rfl, rfl⟩
  · rw [hret]
    exact ⟨hmoves, h.extends⟩

theorem moves_append_nil {l' : List Entry} (h : moves l = []) (h' : moves l' = []) :
    moves (l ++ l') = [] := by rw [moves_append, h, h', List.nil_append]

theorem settles_restoreAddrs {inside : Bool} (cidrs : List Text) (h : Ready obj)
    (agrees : Agrees inside obj) (gateway : Option Addr) :
    Settles inside (cni.restoreAddrs nic cidrs obj gateway) fun ret l =>
      moves l = [] ∧ Extends obj ret.1 := by
  induction cidrs generalizing obj gateway with
  | nil => exact Settles.pure ⟨rfl, h.extends⟩
  | cons cidr rest ih =>
      apply Settles.bind_still (settles_addAddr h agrees (Addr.ofCidr cni.boost cidr))
      intro added l hmoves hadded
      apply (ih hadded.ready (agrees.extends hadded) _).mono
      intro ret l' hl'
      exact ⟨moves_append_nil hmoves hl'.1, hadded.trans hl'.2⟩

theorem settles_restoreRoutes {inside : Bool} (routes : List Route) (h : Ready obj)
    (agrees : Agrees inside obj) :
    Settles inside (Cni.restoreRoutes routes obj) fun ret l => moves l = [] ∧ Extends obj ret := by
  induction routes generalizing obj with
  | nil => exact Settles.pure ⟨rfl, h.extends⟩
  | cons r rest ih =>
      apply Settles.bind_still (settles_addRoute h agrees r .none)
      intro added l hmoves hadded
      apply (ih hadded.ready (agrees.extends hadded)).mono
      intro ret l' hl'
      exact ⟨moves_append_nil hmoves hl'.1, hadded.trans hl'.2⟩

/-- The interface as `setNetns` leaves it. -/
def Placed (name : Text) (obj : Nic) (inside : Bool) (l : List Entry) : Prop :=
  Restored name obj l ∧ Agrees (after inside l) obj

/-- The interface stays in the root namespace if both commands fail. -/
theorem settles_setNetns {inside : Bool} (h : Ready obj) (hroot : obj.netns = []) (netns : Text) :
    Settles inside (obj.setNetns netns) fun ret l => Placed obj.name ret.2 inside l := by
  have hmoved : ∀ simple, Ready { obj with netlink := true, netns := simple } :=
    fun simple => ⟨rfl, h.kind, h.printable⟩
  have hfair : ∀ l : List Entry, (∀ x ∈ l, Idle x.1) → Fair inside l :=
    fun l hl => fair_of_idle hl inside
  simp only [Nic.setNetns, h.netlink, if_true, Program.bind_eq]
  cases simpleNetns netns with
  | error e => exact Settles.throw
  | ok simple =>
      constructor
      apply marks_netlink
      intro r
      cases hr : r.ok with
      | true =>
          apply Marks.pure
          refine ⟨hfair _ (by simp [Idle, changes, LooksFor]), fun ret he => ?_⟩
          cases he
          constructor
          · exact ⟨hmoved simple, rfl, by simp [moves, Whole, hr], by simp [moves, Entered, hr]⟩
          · simp [Agrees, after, letIn, hr]
      | false =>
          simp only [Bool.false_eq_true, if_false]
          apply marks_netlink
          intro r'
          cases hr' : r'.ok with
          | true =>
              apply Marks.pure
              refine ⟨hfair _ (by simp [Idle, changes, LooksFor]), fun ret he => ?_⟩
              cases he
              constructor
              · exact ⟨hmoved simple, rfl, by simp [moves, Whole, hr],
                  by simp [moves, Entered, hr, hr']⟩
              · simp [Agrees, after, letIn, hr']
          | false =>
              apply Marks.pure
              refine ⟨hfair _ (by simp [Idle, changes, LooksFor]), fun ret he => ?_⟩
              cases he
              constructor
              · exact ⟨h, rfl, by simp [moves, Whole, hr],
                  by simp [moves, Entered, hr, hr', hroot]⟩
              · simp [Agrees, after, letIn, hr', hroot]

theorem settles_enterNetns {inside : Bool} (hp : pod ≠ host) (h : Ready obj)
    (hroot : obj.netns = []) :
    Settles inside (cni.enterNetns pod obj) fun ret l => Placed obj.name ret inside l := by
  simp only [Cni.enterNetns, if_neg hp, Program.bind_eq]
  apply Settles.bind_still (Settles.neutral (only_getNetns cni.node pod))
  intro netns l hl _
  apply Settles.bind (settles_setNetns h hroot netns)
  intro ret l' hl'
  apply Settles.pure
  rw [List.append_nil]
  constructor
  · exact hl'.1.after hl
  · rw [after_append, after_of_moves_nil hl]
    exact hl'.2

theorem settles_setup_bridge {inside : Bool} :
    Settles inside (Nic.setup { kind := .bridge, name := nic }) fun ret l =>
      moves l = [] ∧ ret.2 = { kind := .bridge, netlink := true, name := nic } := by
  have hexist : Only Neutral (netlink (.linkExist nic [])) := ⟨⟨rfl, id⟩, fun _ => trivial⟩
  have hcreate : Only Neutral (netlink (.bridgeCreate nic)) := ⟨⟨rfl, id⟩, fun _ => trivial⟩
  simp only [Nic.setup, Program.bind_eq]
  apply Settles.bind_still (Settles.neutral hexist)
  intro found l hl _
  cases found with
  | true =>
      apply Settles.pure
      exact ⟨moves_append_nil hl rfl, rfl⟩
  | false =>
      apply Settles.bind_still (Settles.neutral hcreate)
      intro ok l' hl' _
      apply Settles.pure
      exact ⟨moves_append_nil hl (moves_append_nil hl' rfl), rfl⟩

theorem settles_getStorageNic {inside : Bool} (hp : pod ≠ host) :
    Settles inside (cni.getStorageNic pod nic) fun ret l => moves l = [] ∧
      ∀ obj, ret = some obj → Ready obj ∧ obj.name = nic ∧ obj.netns = [] := by
  have hready : ∀ kind : NicKind, kind ≠ .underlay →
      Ready { kind := kind, netlink := true, name := nic } :=
    fun kind hk => ⟨rfl, hk, by simp⟩
  simp only [Cni.getStorageNic, hp, false_and, if_false, Program.bind_eq]
  split_ifs with hb
  · apply Settles.bind_still settles_setup_bridge
    intro ret l hl hret
    apply Settles.pure
    refine ⟨moves_append_nil hl rfl, fun obj ho => ?_⟩
    split_ifs at ho
    rw [← Option.some.inj ho, hret]
    exact ⟨hready .bridge (by simp), rfl, rfl⟩
  · apply Settles.pure
    refine ⟨rfl, fun obj ho => ?_⟩
    cases ho
    exact ⟨hready .nic (by simp), rfl, rfl⟩

variable (cni) in
theorem settles_restoreNic {inside : Bool} (hp : pod ≠ host) (gateway : Option Addr) :
    Settles inside (cni.restoreNic pod nic gateway) fun ret l =>
      (ret.1 = none → moves l = []) ∧ ∀ obj, ret.1 = some obj → Restored nic obj l := by
  simp only [Cni.restoreNic, Program.bind_eq]
  apply Settles.bind_still (settles_getStorageNic hp)
  intro found l hl hfound
  cases found with
  | none =>
      apply Settles.pure
      rw [List.append_nil]
      exact ⟨fun _ => hl, fun obj ho => by cases ho⟩
  | some obj =>
      obtain ⟨hready, hname, hroot⟩ := hfound obj rfl
      apply Settles.bind (settles_enterNetns hp hready hroot)
      intro entered l₁ hplaced
      obtain ⟨hrest, hagrees⟩ := hplaced
      rw [hname] at hrest
      apply Settles.bind_still (Settles.neutral (only_getAllAddrs cni.node pod nic))
      intro addrs l₂ hl₂ _
      apply Settles.bind_still (settles_restoreAddrs addrs hrest.ready hagrees gateway)
      intro ret l₃ hl₃ hret
      apply Settles.bind_still (Settles.neutral (only_getAllRoutes cni.node pod nic))
      intro routes l₄ hl₄ _
      apply Settles.bind_still (settles_restoreRoutes routes hret.ready (hagrees.extends hret))
      intro last l₅ hl₅ hlast
      apply Settles.pure
      constructor
      · intro hn
        cases hn
      · intro obj' ho
        cases ho
        exact ((hrest.extends (hret.trans hlast)).append _).after hl

end Restore

/-! ### What is recorded for an interface -/

/-- The items of a list that was read under `key`. -/
def Listed (key : Text) (l : List Entry) (item : Text) : Prop :=
  ∃ r, (Cmd.etcd (.get key), r) ∈ l ∧ r.ok = true ∧ item ∈ split ',' (eraseNewlines r.out)

/-- An address or a route is looked for that is in the lists of the interface. -/
def Recorded (cni : Cni) (pod nic : Text) (l : List Entry) : NetlinkCmd → Prop
  | .addressIsExist _ cidr _ => ∃ item, Listed (getAddrKey cni.node pod nic) l item ∧
      (Addr.ofCidr cni.boost item).getAddrCidr = .ok cidr
  | .routeIsExist dest via dev _ => ∃ item, Listed (getRouteKey cni.node pod nic) l item ∧
      parseRoute item = .ok ⟨dest, via, dev⟩
  | _ => False

section Recorded
variable {cni : Cni} {pod nic key item : Text} {l l' : List Entry} {n : NetlinkCmd}

theorem Listed.mono (h : Listed key l item) (hl : l ⊆ l') : Listed key l' item := by
  obtain ⟨r, hm, hr, hitem⟩ := h
  exact ⟨r, hl hm, hr, hitem⟩

theorem Recorded.mono (h : Recorded cni pod nic l n) (hl : l ⊆ l') :
    Recorded cni pod nic l' n := by
  unfold Recorded at h ⊢
  split at h
  · obtain ⟨item, hitem, hcidr⟩ := h
    exact ⟨item, hitem.mono hl, hcidr⟩
  · obtain ⟨item, hitem, hroute⟩ := h
    exact ⟨item, hitem.mono hl, hroute⟩
  · exact h

theorem Recorded.looksFor (h : Recorded cni pod nic l n) : LooksFor n := by
  unfold Recorded at h
  split at h
  · trivial
  · trivial
  · exact h.elim

/-- A command that looks for nothing but what the lists read in `l` have. -/
def Asks (cni : Cni) (pod nic : Text) (l : List Entry) (c : Cmd) : Prop :=
  ∀ n, c = .netlink n → LooksFor n → Recorded cni pod nic l n

/-- After the commands `l`, what `p` looks for is recorded for the interface. -/
structure Grounded (cni : Cni) (pod nic : Text) {A : Type} (l : List Entry) (p : OhnoProgram A)
    (P : A → List Entry → Prop) : Prop where
  marks : Marks p fun o l' =>
    (∀ n r, (.netlink n, r) ∈ l' → LooksFor n →
      Recorded cni pod nic (l ++ l') n) ∧ ∀ a, o = .ok a → P a (l ++ l')

namespace Grounded
variable {A B : Type} {p : OhnoProgram A} {f : A → OhnoProgram B}
variable {P : A → List Entry → Prop} {Q : B → List Entry → Prop}

theorem pure {a : A} (h : P a l) : Grounded cni pod nic l (.pure a) P := by
  constructor
  apply Marks.pure
  refine ⟨fun n r hm _ => (List.not_mem_nil hm).elim, fun a' he => ?_⟩
  cases he
  rw [List.append_nil]
  exact h

theorem throw {e : Thrown} : Grounded cni pod nic l (.throw e : OhnoProgram A) P := by
  constructor
  apply Marks.throw
  exact ⟨fun n r hm _ => (List.not_mem_nil hm).elim, fun a he => by cases he⟩

theorem bind (hp : Grounded cni pod nic l p P)
    (hf : ∀ a l, P a l → Grounded cni pod nic l (f a) Q) :
    Grounded cni pod nic l (p.bind f) Q := by
  constructor
  apply Marks.bind hp.marks
  · intro a l₁ hl₁
    apply (hf a _ (hl₁.2 a rfl)).marks.mono
    intro o l₂ hl₂
    rw [← List.append_assoc]
    refine ⟨fun n r hm hn => ?_, hl₂.2⟩
    rcases List.mem_append.mp hm with hm | hm
    · exact (hl₁.1 n r hm hn).mono (List.subset_append_left _ _)
    · exact hl₂.1 n r hm hn
  · intro e l₁ hl₁
    exact ⟨hl₁.1, fun b he => by cases he⟩

theorem only (h : Only (Asks cni pod nic l) p) : Grounded cni pod nic l p fun _ _ => True := by
  constructor
  apply h.marks.mono
  intro o l' hl'
  refine ⟨fun n r hm hn => ?_, fun _ _ => trivial⟩
  exact (hl' _ hm n rfl hn).mono (List.subset_append_left _ _)

/-- A part that looks for nothing. -/
theorem of_idle (h : Only Idle p) : Grounded cni pod nic l p fun _ _ => True := by
  apply only
  apply h.mono
  intro c hc n hn hl
  cases hn
  exact absurd hl hc.2

end Grounded

/-- The list that `listOrEmpty` returns was read under its key. -/
theorem grounded_listOrEmpty (key : Text) :
    Grounded cni pod nic l (etcd (listOrEmpty key)) fun items l =>
      ∀ item ∈ items, Listed key l item := by
  constructor
  apply Marks.call
  intro r
  apply Marks.pure
  constructor
  · intro n r' hm
    simp at hm
  · intro items he item hi
    cases he
    cases hr : r.ok with
    | true =>
        rw [hr] at hi
        exact ⟨r, by simp, hr, hi⟩
    | false =>
        rw [hr] at hi
        cases hi

theorem mem_of_mapM_parseRoute {items : List Text} {routes : List Route}
    (h : items.mapM parseRoute = .ok routes) {r : Route} (hr : r ∈ routes) :
    ∃ item ∈ items, parseRoute item = .ok r := by
  induction items generalizing routes with
  | nil =>
      cases h
      cases hr
  | cons item rest ih =>
      rw [List.mapM_cons] at h
      cases hi : parseRoute item with
      | error e =>
          rw [hi] at h
          cases h
      | ok first =>
          cases hrest : rest.mapM parseRoute with
          | error e =>
              rw [hi, hrest] at h
              cases h
          | ok others =>
              rw [hi, hrest] at h
              cases h
              rcases List.mem_cons.mp hr with rfl | hr
              · exact ⟨item, List.mem_cons_self, hi⟩
              · obtain ⟨item', hmem, hparse⟩ := ih hrest hr
                exact ⟨item', List.mem_cons_of_mem _ hmem, hparse⟩

theorem grounded_getAllRoutes :
    Grounded cni pod nic l (etcd (getAllRoutes cni.node pod nic)) fun routes l =>
      ∀ r ∈ routes, ∃ item, Listed (getRouteKey cni.node pod nic) l item ∧
        parseRoute item = .ok r := by
  have hetcd : etcd (getAllRoutes cni.node pod nic) =
      (etcd (listOrEmpty (getRouteKey cni.node pod nic))).bind fun items =>
        Program.ofExcept (items.mapM parseRoute) := by
    unfold getAllRoutes etcd
    simp only [Program.bind_eq, Program.embed_bind]
    congr 1
    funext items
    cases items.mapM parseRoute <;> rfl
  rw [hetcd]
  apply (grounded_listOrEmpty _).bind
  intro items l hitems
  cases hroutes : items.mapM parseRoute with
  | error e => exact Grounded.throw
  | ok routes =>
      apply Grounded.pure
      intro r hr
      obtain ⟨item, hmem, hparse⟩ := mem_of_mapM_parseRoute hroutes hr
      exact ⟨item, hitems item hmem, hparse⟩

theorem only_addEntry {F : Cmd → Prop} {obj other : Nic} {isExist setEntry : NetlinkCmd}
    (looks : F (.netlink isExist)) (sets : F (.netlink setEntry)) :
    Only F (obj.addEntry isExist setEntry other) := by
  simp only [Nic.addEntry]
  split_ifs
  · refine ⟨looks, fun r => ?_⟩
    change Only F (if r.ok = true then _ else _)
    split_ifs
    · trivial
    · refine ⟨sets, fun r' => ?_⟩
      change Only F (if r'.ok = true then _ else _)
      split_ifs <;> trivial
  · trivial

theorem asks_restoreAddrs (cidrs : List Text) (obj : Nic) (gateway : Option Addr)
    (h : ∀ item ∈ cidrs, Listed (getAddrKey cni.node pod nic) l item) :
    Only (Asks cni pod nic l) (cni.restoreAddrs nic cidrs obj gateway) := by
  induction cidrs generalizing obj gateway with
  | nil => trivial
  | cons cidr rest ih =>
      have hadd : Only (Asks cni pod nic l) (obj.addAddr (Addr.ofCidr cni.boost cidr)) := by
        unfold Nic.addAddr
        cases hcidr : (Addr.ofCidr cni.boost cidr).getAddrCidr with
        | error e => trivial
        | ok text =>
            apply only_addEntry
            · intro n hn _
              cases hn
              exact ⟨cidr, h cidr List.mem_cons_self, hcidr⟩
            · intro n hn hl
              cases hn
              exact hl.elim
      apply hadd.bind
      intro ret
      exact ih ret.2 _ fun item hi => h item (List.mem_cons_of_mem _ hi)

theorem asks_restoreRoutes (routes : List Route) (obj : Nic)
    (h : ∀ r ∈ routes, ∃ item, Listed (getRouteKey cni.node pod nic) l item ∧
      parseRoute item = .ok r) :
    Only (Asks cni pod nic l) (Cni.restoreRoutes routes obj) := by
  induction routes generalizing obj with
  | nil => trivial
  | cons r rest ih =>
      have hadd : Only (Asks cni pod nic l) (obj.addRoute r .none) := by
        unfold Nic.addRoute
        apply only_addEntry
        · intro n hn _
          cases hn
          exact h r List.mem_cons_self
        · intro n hn hl
          cases hn
          exact hl.elim
      apply hadd.bind
      intro ret
      exact ih ret.2 fun r' hr' => h r' (List.mem_cons_of_mem _ hr')

theorem idle_getStorageNic (hp : pod ≠ host) : Only Idle (cni.getStorageNic pod nic) := by
  have hsetup : Only Idle (Nic.setup { kind := .bridge, name := nic }) := by
    simp only [Nic.setup, Program.bind_eq]
    refine ⟨⟨rfl, id⟩, fun r => ?_⟩
    change Only Idle (if r.ok = true then _ else _)
    split_ifs
    · trivial
    · exact ⟨⟨rfl, id⟩, fun _ => trivial⟩
  simp only [Cni.getStorageNic, hp, false_and, if_false]
  split_ifs
  · apply hsetup.bind
    intro ret
    trivial
  · trivial

theorem idle_enterNetns (obj : Nic) : Only Idle (cni.enterNetns pod obj) := by
  have hnetns : Only Idle (etcd (getNetns cni.node pod)) := ⟨trivial, fun _ => trivial⟩
  have hset : ∀ netns, Only Idle (obj.setNetns netns) := by
    intro netns
    simp only [Nic.setNetns]
    split_ifs
    · apply Only.bind (Only.ofExcept _)
      intro simple
      refine ⟨⟨rfl, id⟩, fun r => ?_⟩
      change Only Idle (if r.ok = true then _ else _)
      split_ifs
      · trivial
      · refine ⟨⟨rfl, id⟩, fun r' => ?_⟩
        change Only Idle (if r'.ok = true then _ else _)
        split_ifs <;> trivial
    · trivial
  unfold Cni.enterNetns
  split_ifs
  · trivial
  · apply hnetns.bind
    intro netns
    apply (hset netns).bind
    intro ret
    trivial

/-- What the restore loop looks for are the entries recorded for the interface. -/
theorem grounded_restoreNic (hp : pod ≠ host) (gateway : Option Addr) :
    Grounded cni pod nic [] (cni.restoreNic pod nic gateway) fun _ _ => True := by
  unfold Cni.restoreNic
  apply (Grounded.of_idle (idle_getStorageNic hp)).bind
  intro found l _
  cases found with
  | none => exact Grounded.pure trivial
  | some obj =>
      apply (Grounded.of_idle (idle_enterNetns obj)).bind
      intro entered l₁ _
      apply (grounded_listOrEmpty (getAddrKey cni.node pod nic)).bind
      intro addrs l₂ haddrs
      apply (Grounded.only (asks_restoreAddrs addrs entered gateway haddrs)).bind
      intro ret l₃ _
      apply grounded_getAllRoutes.bind
      intro routes l₄ hroutes
      apply (Grounded.only (asks_restoreRoutes routes ret.1 hroutes)).bind
      intro last l₅ _
      exact Grounded.pure trivial

end Recorded

end Ohno.RestoredCommands
