import Ohno.EtcdClientShell

/-!
# Network commands next to etcdctl commands

`NetlinkIpCmd` turns each of its functions into one `ip` or `bridge` command;
`NetlinkCmd` has one constructor for each function the modelled code calls. A
program of the plugin or the daemon issues commands of both kinds. `serve`
resolves them by one relation for each kind, on a pair of states, and the two
rules below it split a proof the same way. An empty device or namespace means
that the command names none.
-/
namespace Ohno.Netlink
open CommandPrograms AddressText EtcdClientShell

inductive LinkStatus where
  | up
  | down
deriving Repr, DecidableEq

/-- `RouteNHFlags` -/
inductive RouteNHFlags where
  | none
  | onlink
deriving Repr, DecidableEq

inductive NetlinkCmd where
  | linkDestory (name netns : Text)
  | linkExist (name netns : Text)
  | linkSetStatus (name : Text) (status : LinkStatus) (netns : Text)
  | linkIsInNetns (name netns : Text)
  | linkToNetns (name netns : Text)
  | linkRename (name newName netns : Text)
  | vethCreate (name₁ name₂ : Text)
  | bridgeCreate (name : Text)
  | vxlanCreate (name underlayAddr underlayDev : Text)
  | bridgeSetStatus (name : Text) (master : Bool) (bridge netns : Text)
  | addressIsExist (name addr netns : Text)
  | addressSetEntry (name addr : Text) (add : Bool) (netns : Text)
  | routeIsExist (dst via dev netns : Text)
  | routeSetEntry (dst via : Text) (add : Bool) (dev netns : Text) (nhflags : RouteNHFlags)
  | neighIsExist (addr dev netns : Text)
  | neighSetEntry (addr mac : Text) (add : Bool) (dev netns : Text)
  | fdbIsExist (mac underlayAddr dev netns : Text)
  | fdbSetEntry (mac underlayAddr dev : Text) (add : Bool) (netns : Text)
deriving Repr, DecidableEq

inductive Cmd where
  | etcd (c : EtcdCmd)
  | netlink (c : NetlinkCmd)
deriving Repr, DecidableEq

abbrev OhnoProgram (A : Type) := Program Cmd Reply Thrown A

def etcd {A : Type} (p : EtcdProgram A) : OhnoProgram A := p.embed .etcd

/-- A network command tells no more than whether it succeeded. -/
def netlink (c : NetlinkCmd) : OhnoProgram Bool := do
  let ret ← Program.request (.netlink c)
  pure ret.ok

/-- Commands of each kind work on their own half of the state. -/
def serve {S T : Type} (E : EtcdCmd → S → Reply → S → Prop) (N : NetlinkCmd → T → Bool → T → Prop) :
    Cmd → S × T → Reply → S × T → Prop
  | .etcd c, w, r, u => ∃ s, E c w.1 r s ∧ u = (s, w.2)
  | .netlink c, w, r, u => ∃ t, N c w.2 r.ok t ∧ u = (w.1, t)

/-- The same with a function for each kind. -/
def serveBy {S T : Type} (e : EtcdCmd → S → Reply × S) (n : NetlinkCmd → T → Bool × T) :
    Cmd → S × T → Reply × (S × T)
  | .etcd c, w => ((e c w.1).1, ((e c w.1).2, w.2))
  | .netlink c, w => (⟨(n c w.2).1, []⟩, (w.1, (n c w.2).2))

@[simp] theorem run_netlink {S T : Type} (e : EtcdCmd → S → Reply × S)
    (n : NetlinkCmd → T → Bool × T) (c : NetlinkCmd) (w : S × T) :
    (netlink c).run (serveBy e n) w = (.ok (n c w.2).1, (w.1, (n c w.2).2)) := rfl

section Rules
variable {A S T : Type} {E : EtcdCmd → S → Reply → S → Prop} {N : NetlinkCmd → T → Bool → T → Prop}

theorem safe_etcd (p : EtcdProgram A) (Q : Except Thrown A → S × T → Prop) (w : S × T) :
    (etcd p).Safe (serve E N) Q w ↔ p.Safe E (fun o s => Q o (s, w.2)) w.1 :=
  @Program.safe_embed _ _ _ _ _ _ _ E (serve E N) Cmd.etcd Prod.fst (fun s w => (s, w.2))
    (fun _ _ _ _ => Iff.rfl) (fun _ _ => rfl) (fun _ _ _ => rfl) (fun _ => rfl) p Q w

theorem safe_netlink (c : NetlinkCmd) (Q : Except Thrown Bool → S × T → Prop) (w : S × T) :
    (netlink c).Safe (serve E N) Q w ↔ ∀ b t, N c w.2 b t → Q (.ok b) (w.1, t) := by
  simp only [netlink, Program.bind_eq, Program.safe_bind, Program.safe_request, Program.onward_ok,
    Program.pure_eq, Program.safe_pure, serve]
  constructor
  · exact fun h b t ht => h ⟨b, []⟩ _ ⟨t, ht, rfl⟩
  · rintro h r u ⟨t, ht, rfl⟩
    exact h r.ok t ht

/-- Functions that behave as the relations allow resolve an execution. -/
theorem serveBy_serve {e : EtcdCmd → S → Reply × S} {n : NetlinkCmd → T → Bool × T}
    (he : ∀ c s, E c s (e c s).1 (e c s).2) (hn : ∀ c t, N c t (n c t).1 (n c t).2) (c : Cmd)
    (w : S × T) : serve E N c w (serveBy e n c w).1 (serveBy e n c w).2 := by
  cases c with
  | etcd c => exact ⟨_, he c w.1, rfl⟩
  | netlink c => exact ⟨_, hn c w.2, rfl⟩

end Rules
end Ohno.Netlink
