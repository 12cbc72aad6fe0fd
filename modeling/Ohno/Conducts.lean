import Ohno.RecordPrograms

/-!
# Worlds and conducts

The world of the plugin is the map of etcd, the network commands issued so far
with their answers, and the command that failed, if one did. A conduct says what
the network may answer and which command may fail. At most one command fails in
a world: it reports failure, prints nothing and changes nothing. Texts that the
plugin passes on stand for single words of a command line.

`Runs p R o R'` is the triple that the developments below chain: from the
registry `R` the program ends with `o` in the registry `R'` whatever the queries
answer, as long as everything else succeeds.
-/
namespace Ohno.Conducts
open CommandPrograms AddressText EtcdClientShell Netlink Nics Records

/-- The commands that ask and change nothing. -/
def isQuery : NetlinkCmd → Bool
  | .linkExist .. => true
  | .linkIsInNetns .. => true
  | .addressIsExist .. => true
  | .routeIsExist .. => true
  | .neighIsExist .. => true
  | .fdbIsExist .. => true
  | _ => false

abbrev Log := List (NetlinkCmd × Bool)

/-- A command that failed and the map at that time. -/
abbrev Fault := Cmd × Store

structure World where
  store : Store
  log : Log := []
  fault : Option Fault := none

structure Conduct where
  answers : NetlinkCmd → Bool → Prop
  fails : Cmd → Prop

namespace Conduct

def handle (m : Conduct) (c : Cmd) (w : World) (r : Reply) (u : World) : Prop :=
  (match c with
    | .etcd e => r = (Etcd.ok e w.store).1 ∧ u = { w with store := (Etcd.ok e w.store).2 }
    | .netlink n => m.answers n r.ok ∧ u = { w with log := w.log ++ [(n, r.ok)] }) ∨
  (w.fault = none ∧ m.fails c ∧ r = ⟨false, []⟩ ∧ u = { w with fault := some (c, w.store) })

/-- Nothing fails from here on. -/
def Settled (m : Conduct) (fault : Option Fault) : Prop := ∀ c, m.fails c → fault ≠ none

/-- Every command succeeds, and a query answers anything. -/
def obliging : Conduct where
  answers c b := isQuery c = false → b = true
  fails _ := False

/-- The etcdctl commands succeed, and the network answers anything. -/
def anyNetwork : Conduct where
  answers _ _ := True
  fails _ := False

/-- One command fails. -/
def oneFault : Conduct where
  answers c b := isQuery c = false → b = true
  fails _ := True

/-- One etcdctl command fails. -/
def oneEtcdFault : Conduct where
  answers c b := isQuery c = false → b = true
  fails c := ∃ e, c = .etcd e

/-- Only queries may answer no. -/
def Obliges (m : Conduct) : Prop := ∀ c b, m.answers c b → isQuery c = false → b = true

/-- One way to behave: every command succeeds, and every query is answered yes. -/
def comply (c : Cmd) (w : World) : Reply × World :=
  match c with
  | .etcd e => ((Etcd.ok e w.store).1, { w with store := (Etcd.ok e w.store).2 })
  | .netlink n => (⟨true, []⟩, { w with log := w.log ++ [(n, true)] })

theorem handle_comply {m : Conduct} (h : ∀ n, m.answers n true) (c : Cmd) (w : World) :
    m.handle c w (comply c w).1 (comply c w).2 := by
  cases c with
  | etcd e => exact .inl ⟨rfl, rfl⟩
  | netlink n => exact .inl ⟨h n, rfl⟩

theorem obliges_obliging : obliging.Obliges := fun _ _ h => h
theorem obliges_oneFault : oneFault.Obliges := fun _ _ h => h
theorem obliges_oneEtcdFault : oneEtcdFault.Obliges := fun _ _ h => h

theorem settled_obliging (fault : Option Fault) : obliging.Settled fault := fun _ h => h.elim
theorem settled_anyNetwork (fault : Option Fault) : anyNetwork.Settled fault := fun _ h => h.elim
theorem settled_some (m : Conduct) (fault : Fault) : m.Settled (some fault) :=
  fun _ _ h => Option.some_ne_none _ h

end Conduct

section Rules
variable {A : Type} {m : Conduct} {w : World}

theorem handle_etcd_settled (hw : m.Settled w.fault) {c : EtcdCmd} {r : Reply} {u : World} :
    m.handle (.etcd c) w r u ↔
      r = (Etcd.ok c w.store).1 ∧ u = { w with store := (Etcd.ok c w.store).2 } := by
  constructor
  · intro h
    rcases h with h | ⟨hn, hf, -⟩
    · exact h
    · exact absurd hn (hw _ hf)
  · exact Or.inl

/-- In a settled world an etcdctl program is run on the map. -/
theorem safe_etcd (hw : m.Settled w.fault) (p : EtcdProgram A)
    (Q : Except Thrown A → World → Prop) :
    (etcd p).Safe m.handle Q w ↔
      Q (p.run Etcd.ok w.store).1 { w with store := (p.run Etcd.ok w.store).2 } := by
  induction p generalizing w with
  | pure a => exact Iff.rfl
  | throw e => exact Iff.rfl
  | call c next ih =>
      change (∀ r u, m.handle (.etcd c) w r u → (etcd (next r)).Safe m.handle Q u) ↔ _
      constructor
      · intro h
        have hs := h _ _ ((handle_etcd_settled hw).mpr ⟨rfl, rfl⟩)
        rwa [ih _ (by exact hw)] at hs
      · intro h r u hu
        obtain ⟨rfl, rfl⟩ := (handle_etcd_settled hw).mp hu
        rwa [ih _ (by exact hw)]

/-- In a settled world a network command is answered. -/
theorem safe_netlink (hw : m.Settled w.fault) (c : NetlinkCmd)
    (Q : Except Thrown Bool → World → Prop) :
    (netlink c).Safe m.handle Q w ↔
      ∀ b, m.answers c b → Q (.ok b) { w with log := w.log ++ [(c, b)] } := by
  simp only [netlink, Program.bind_eq, Program.safe_bind, Program.safe_request, Program.onward_ok,
    Program.pure_eq, Program.safe_pure, Conduct.handle]
  constructor
  · intro h b hb
    exact h ⟨b, []⟩ _ (.inl ⟨hb, rfl⟩)
  · intro h r u hu
    rcases hu with ⟨hb, rfl⟩ | ⟨hn, hf, -⟩
    · exact h r.ok hb
    · exact absurd hn (hw _ hf)

end Rules

/-! ### Runs in which everything succeeds -/

def Runs {A : Type} (node : Text) (base : Store) (p : OhnoProgram A) (R : Registry)
    (o : Except Thrown A) (R' : Registry) : Prop :=
  ∀ m : Conduct, m.Obliges → ∀ l f, m.Settled f →
    p.Safe m.handle (fun o' w => o' = o ∧ ∃ l', w = ⟨R'.store node base, l', f⟩)
      ⟨R.store node base, l, f⟩

namespace Runs
variable {A B : Type} {node : Text} {base : Store} {p : OhnoProgram A} {f : A → OhnoProgram B}
variable {R R' R'' : Registry} {o : Except Thrown A} {o' : Except Thrown B} {a : A} {e : Thrown}

theorem pure (a : A) (R : Registry) : Runs node base (.pure a) R (.ok a) R :=
  fun _ _ l _ _ => ⟨rfl, l, rfl⟩

theorem throw (e : Thrown) (R : Registry) :
    Runs node base (.throw e : OhnoProgram A) R (.error e) R :=
  fun _ _ l _ _ => ⟨rfl, l, rfl⟩

theorem ofExcept (x : Except Thrown A) (R : Registry) :
    Runs node base (Program.ofExcept x) R x R := by
  cases x with
  | ok a => exact pure a R
  | error e => exact throw e R

theorem bind (h : Runs node base p R (.ok a) R') (hf : Runs node base (f a) R' o' R'') :
    Runs node base (p.bind f) R o' R'' := by
  intro m hm l ft hs
  rw [Program.safe_bind]
  apply (h m hm l ft hs).mono
  intro o w hw
  obtain ⟨rfl, l', rfl⟩ := hw
  exact hf m hm l' ft hs

theorem bind_error (h : Runs node base p R (.error e) R') :
    Runs node base (p.bind f) R (.error e) R' := by
  intro m hm l ft hs
  rw [Program.safe_bind]
  apply (h m hm l ft hs).mono
  intro o w hw
  obtain ⟨rfl, hw⟩ := hw
  exact ⟨rfl, hw⟩

theorem catch_ok {handler : Thrown → OhnoProgram A} (h : Runs node base p R (.ok a) R') :
    Runs node base (p.catch_ handler) R (.ok a) R' := by
  intro m hm l ft hs
  rw [Program.safe_catch]
  apply (h m hm l ft hs).mono
  intro o w hw
  obtain ⟨rfl, hw⟩ := hw
  exact ⟨rfl, hw⟩

theorem catch_error {handler : Thrown → OhnoProgram A} (h : Runs node base p R (.error e) R')
    (hh : Runs node base (handler e) R' o R'') :
    Runs node base (p.catch_ handler) R o R'' := by
  intro m hm l ft hs
  rw [Program.safe_catch]
  apply (h m hm l ft hs).mono
  intro o w hw
  obtain ⟨rfl, l', rfl⟩ := hw
  exact hh m hm l' ft hs

theorem etcd {q : EtcdProgram A}
    (h : q.run Etcd.ok (R.store node base) = (o, R'.store node base)) :
    Runs node base (Netlink.etcd q) R o R' := by
  intro m _ l ft hs
  rw [safe_etcd hs, h]
  exact ⟨rfl, l, rfl⟩

/-- An etcdctl program in front of another program. -/
theorem etcd_bind {q : EtcdProgram A}
    (h : q.run Etcd.ok (R.store node base) = (.ok a, R'.store node base))
    (hf : Runs node base (f a) R' o' R'') : Runs node base ((Netlink.etcd q).bind f) R o' R'' :=
  bind (etcd h) hf

theorem netlink {c : NetlinkCmd} (hc : isQuery c = false) :
    Runs node base (Netlink.netlink c) R (.ok true) R := by
  intro m hm l ft hs
  rw [safe_netlink hs]
  intro b hb
  rw [hm c b hb hc]
  exact ⟨rfl, _, rfl⟩

theorem netlink_bind {c : NetlinkCmd} {f : Bool → OhnoProgram B} (hc : isQuery c = false)
    (hf : Runs node base (f true) R o' R') :
    Runs node base ((Netlink.netlink c).bind f) R o' R' :=
  bind (netlink hc) hf

/-- What follows a query must not depend on the answer. -/
theorem query_bind {c : NetlinkCmd} {f : Bool → OhnoProgram B}
    (hf : ∀ b, Runs node base (f b) R o' R') :
    Runs node base ((Netlink.netlink c).bind f) R o' R' := by
  intro m hm l ft hs
  rw [Program.safe_bind, safe_netlink hs]
  intro b _
  exact hf b m hm _ ft hs

/-- The outcome and the map of an execution. -/
theorem exec (h : Runs node base p R o R') {m : Conduct} (hm : m.Obliges) {l : Log}
    {ft : Option Fault} (hs : m.Settled ft) {o' : Except Thrown A} {w : World}
    (hx : p.Exec m.handle ⟨R.store node base, l, ft⟩ o' w) :
    o' = o ∧ w.store = R'.store node base ∧ w.fault = ft := by
  obtain ⟨ho, l', hw⟩ := (h m hm l ft hs).exec hx
  rw [hw]
  exact ⟨ho, rfl, rfl⟩

end Runs
end Ohno.Conducts
