import Ohno.Ipam

/-!
# Sequential histories of the address manager

`allocateIp` and `releaseIp` are called one after another for any nodes. The
log of calls and results determines which addresses a node holds, and `held`
computes that list from the log alone. The theorems compare it with the list
that etcd stores: with commands that succeed the two are equal, and with
commands that may fail the stored list still covers what is held, as long as
`allocateIp` can read a list that is not empty.
-/
namespace Ohno.IpamHistory
open CommandPrograms DelimitedLists AddressText EtcdClientShell Subnets FirstFit Ipam

inductive IpamCall where
  | allocateIp (node : Text)
  | releaseIp (node ip : Text)
deriving Repr, DecidableEq

namespace IpamCall

def node : IpamCall → Text
  | allocateIp node => node
  | releaseIp node _ => node

def program (boost : Boost) : IpamCall → EtcdProgram (Bool × Text)
  | allocateIp node => Ipam.allocateIp boost node
  | releaseIp node ip => do
      let ret ← Ipam.releaseIp node ip
      pure (ret, [])

end IpamCall

/-- A call and how it ended. -/
abbrev Event := IpamCall × Except Thrown (Bool × Text)

/-- What one event does to the addresses that `node` holds. -/
def heldStep (node : Text) (held : List Text) : Event → List Text
  | (.allocateIp m, .ok (true, ip)) => if m = node then held ++ [ip] else held
  | (.releaseIp m ip, .ok (true, _)) => if m = node then held.filter (· ≠ ip) else held
  | _ => held

/-- The addresses allocated to `node` and not given back, oldest first. -/
def held (node : Text) (log : List Event) : List Text := log.foldl (heldStep node) []

@[simp] theorem held_nil (node : Text) : held node [] = [] := rfl
@[simp] theorem held_concat (node : Text) (log : List Event) (e : Event) :
    held node (log ++ [e]) = heldStep node (held node log) e := by
  simp [held]

theorem heldStep_of_ne {node : Text} {c : IpamCall} (h : c.node ≠ node) (l : List Text)
    (o : Except Thrown (Bool × Text)) : heldStep node l (c, o) = l := by
  cases c <;> simp only [IpamCall.node] at h <;> unfold heldStep <;> split <;> simp_all

/-! ### What one call can do -/

/-- Any command may fail, but the address list of `node` is read unless it is
empty. -/
def listReadable (node : Text) (c : EtcdCmd) (s : Store) : Prop :=
  c = .get (addressKey node) → s.values (addressKey node) = []

/-- The end of an `allocateIp`: it took a new address, or it changed nothing. -/
inductive AllocateEnd (node : Text) (s : Store) : Except Thrown (Bool × Text) → Store → Prop where
  | taken (ip : Text) (item : Store.Item ip) (free : ip ∉ s.values (addressKey node)) :
      AllocateEnd node s (.ok (true, ip)) (s.append (addressKey node) ip)
  | refused (out : Text) : AllocateEnd node s (.ok (false, out)) s
  | thrown (e : Thrown) : AllocateEnd node s (.error e) s

section End
variable {node : Text} {s t : Store} {o : Except Thrown (Bool × Text)}

theorem AllocateEnd.frame (h : AllocateEnd node s o t) {k : Text} (hk : k ≠ addressKey node) :
    t k = s k := by
  cases h with
  | taken ip item free => exact Store.append_of_ne hk
  | refused out => rfl
  | thrown e => rfl

/-- An `allocateIp` keeps a stored list and a list of held addresses equal. -/
theorem AllocateEnd.holds (h : AllocateEnd node s o t) {l : List Text}
    (hl : s.Holds (addressKey node) l) :
    t.Holds (addressKey node) (heldStep node l (.allocateIp node, o)) := by
  cases h with
  | taken ip item free => simpa only [heldStep, if_true] using hl.append item
  | refused out => exact hl
  | thrown e => exact hl

theorem AllocateEnd.nodup (h : AllocateEnd node s o t) {l : List Text} (hd : l.Nodup)
    (hl : l ⊆ s.values (addressKey node)) : (heldStep node l (.allocateIp node, o)).Nodup := by
  cases h with
  | taken ip item free =>
      simpa only [heldStep, if_true] using nodup_concat hd fun hip => free (hl hip)
  | refused out => exact hd
  | thrown e => exact hd

end End

section Specs
variable {node ip : Text} {s : Store}

theorem safe_append {Q : Except Thrown Bool → Store → Prop}
    (hok : Q (.ok true) (s.append (addressKey node) ip)) (hfail : Q (.ok false) s) :
    (append (addressKey node) ip).Safe (Etcd.failing (listReadable node)) Q s := by
  simp only [append, Program.bind_eq, Program.safe_bind, safe_get, safe_put, Program.onward_ok]
  refine ⟨⟨by simpa [Store.append] using hok, fun _ => hfail⟩, fun hk _ => ⟨?_, fun _ => hfail⟩⟩
  have hv : s.value (addressKey node) = [] := by
    simpa only [Store.values, split_eq_nil_iff] using hk rfl
  simpa [Store.append, hv] using hok

theorem safe_isIpAvailable {Q : Except Thrown Bool → Store → Prop}
    (h : Q (.ok (decide (ip ∉ s.values (addressKey node)))) s) :
    (isIpAvailable node ip).Safe (Etcd.failing (listReadable node)) Q s := by
  simp only [isIpAvailable, Program.bind_eq, Program.safe_bind, safe_list, Program.onward_ok,
    Program.pure_eq, Program.safe_pure]
  refine ⟨h, fun hk => ?_⟩
  simpa [hk rfl] using h

theorem generateIp_item {net : Subnet} {i : ℕ} {ip : Text} (h : net.generateIp i = .ok ip) :
    Store.Item ip := by
  obtain ⟨a, ha⟩ : ∃ a, ip = cidr a net.subnetV4.prefixLength := by
    simp only [Subnet.generateIp, bind, Except.bind, pure, Except.pure] at h
    split at h
    · simp at h
    · split at h
      · simp at h
      · exact ⟨_, (Except.ok.inj h).symm⟩
  rw [ha]
  exact ⟨cidr_ne_nil _ _, notMem_cidr (by decide) (by decide) (by decide),
    notMem_cidr (by decide) (by decide) (by decide)⟩

theorem safe_findIp (net : Subnet) (remaining i : ℕ) :
    (findIp node net remaining i).Safe (Etcd.failing (listReadable node))
      (AllocateEnd node s) s := by
  induction remaining generalizing i with
  | zero => exact .refused []
  | succ remaining ih =>
      simp only [findIp, Program.bind_eq, Program.safe_bind, Program.safe_ofExcept]
      cases hg : net.generateIp i with
      | error e => exact .thrown e
      | ok candidate =>
          simp only [Program.onward_ok, Program.safe_bind]
          refine safe_isIpAvailable ?_
          by_cases hc : candidate ∈ s.values (addressKey node)
          · simpa [hc] using ih (i + 1)
          · simp only [hc, not_false_eq_true, decide_true, Program.onward_ok, if_true,
              Program.safe_bind]
            refine safe_append ?_ ?_
            · exact .taken candidate (generateIp_item hg) hc
            · simpa using ih (i + 1)

theorem safe_allocateIp (boost : Boost) (node : Text) (s : Store) :
    (allocateIp boost node).Safe (Etcd.failing (listReadable node)) (AllocateEnd node s) s := by
  have hrest : ∀ text, (do
      let net ← Program.ofExcept (Subnet.init boost text)
      let maxHosts ← Program.ofExcept net.getMaxHosts
      findIp node net (loopCount maxHosts) 1 : EtcdProgram (Bool × Text)).Safe
        (Etcd.failing (listReadable node)) (AllocateEnd node s) s := by
    intro text
    simp only [Program.bind_eq, Program.safe_bind, Program.safe_ofExcept]
    cases Subnet.init boost text with
    | error e => exact .thrown e
    | ok net =>
        simp only [Program.onward_ok, Program.safe_bind, Program.safe_ofExcept]
        cases net.getMaxHosts with
        | error e => exact .thrown e
        | ok maxHosts => exact safe_findIp net _ 1
  simp only [allocateIp, getSubnet, Program.bind_eq, Program.safe_bind, safe_get, Program.onward_ok,
    Program.pure_eq, Program.safe_pure]
  refine ⟨?_, fun _ out => .refused []⟩
  split_ifs
  · exact hrest _
  · exact .refused []

end Specs
end Ohno.IpamHistory
