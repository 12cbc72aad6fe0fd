import Ohno.IpamHistory

/-!
# Sequential histories in which commands may fail

A failed command reports failure and leaves the map alone. The client and the
address manager go on after it: `append` writes as if the key were absent and
`isIpAvailable` takes the address for free. An address can then be handed out a
second time. It cannot if `allocateIp` reads its address list whenever that
list is not empty, whatever else fails.
-/
namespace Ohno.IpamFaults
open CommandPrograms DelimitedLists AddressText EtcdClientShell Subnets Ipam IpamHistory

/-- Calls one after another, the commands of each failing as `may` allows. -/
inductive History (boost : Boost) (may : IpamCall → EtcdCmd → Store → Prop) (s₀ : Store) :
    List Event → Store → Prop where
  | start : History boost may s₀ [] s₀
  | call {log : List Event} {s t : Store} (c : IpamCall) (o : Except Thrown (Bool × Text))
      (past : History boost may s₀ log s)
      (now : (c.program boost).Exec (Etcd.failing (may c)) s o t) :
      History boost may s₀ (log ++ [(c, o)]) t

/-- Every command of every call may fail. -/
def anyCommand (_ : IpamCall) (_ : EtcdCmd) (_ : Store) : Prop := True

/-- Every command may fail, but `allocateIp` can read a list that is not empty. -/
def listsReadable : IpamCall → EtcdCmd → Store → Prop
  | .allocateIp node => listReadable node
  | .releaseIp _ _ => fun _ _ => True

/-- The end of a `releaseIp`. -/
inductive ReleaseEnd (node ip : Text) (s : Store) : Except Thrown (Bool × Text) → Store → Prop where
  | released : ReleaseEnd node ip s (.ok (true, [])) (s.delValue (addressKey node) ip)
  | refused : ReleaseEnd node ip s (.ok (false, [])) s

theorem safe_releaseIp (boost : Boost) (may : EtcdCmd → Store → Prop) (node ip : Text) (s : Store) :
    ((IpamCall.releaseIp node ip).program boost).Safe (Etcd.failing may)
      (ReleaseEnd node ip s) s := by
  simp only [IpamCall.program, releaseIp, Program.bind_eq, Program.safe_bind]
  exact safe_delValue .released .refused

/-- What `node` holds is on its stored list. -/
structure Covers (node : Text) (log : List Event) (s : Store) : Prop where
  list : ∃ items, s.Holds (addressKey node) items ∧ held node log ⊆ items

theorem Covers.of_frame {node : Text} {log : List Event} {s t : Store} (h : Covers node log s)
    {c : IpamCall} (hc : c.node ≠ node) (o : Except Thrown (Bool × Text))
    (ht : t (addressKey node) = s (addressKey node)) : Covers node (log ++ [(c, o)]) t := by
  obtain ⟨items, hi, hsub⟩ := h.list
  refine ⟨items, hi.congr ht, ?_⟩
  rwa [held_concat, heldStep_of_ne hc]

theorem Covers.allocate {node : Text} {log : List Event} {s t : Store} (h : Covers node log s)
    {o : Except Thrown (Bool × Text)} (ho : AllocateEnd node s o t) :
    Covers node (log ++ [(.allocateIp node, o)]) t := by
  obtain ⟨items, hi, hsub⟩ := h.list
  refine ⟨heldStep node items (.allocateIp node, o), ho.holds hi, ?_⟩
  rw [held_concat]
  cases ho with
  | taken ip item free =>
      simp only [heldStep, if_true]
      exact List.append_subset.mpr
        ⟨List.Subset.trans hsub (List.subset_append_left _ _), List.subset_append_right _ _⟩
  | refused out => exact hsub
  | thrown e => exact hsub

theorem Covers.release {node ip : Text} {log : List Event} {s t : Store} (h : Covers node log s)
    {o : Except Thrown (Bool × Text)} (ho : ReleaseEnd node ip s o t) :
    Covers node (log ++ [(.releaseIp node ip, o)]) t := by
  obtain ⟨items, hi, hsub⟩ := h.list
  cases ho with
  | released =>
      refine ⟨items.filter (· ≠ ip), hi.delValue, ?_⟩
      simp only [held_concat, heldStep, if_true]
      exact List.filter_subset _ hsub
  | refused => exact ⟨items, hi, by simpa only [held_concat, heldStep] using hsub⟩

theorem ReleaseEnd.frame {node ip : Text} {s t : Store} {o : Except Thrown (Bool × Text)}
    (h : ReleaseEnd node ip s o t) {k : Text} (hk : k ≠ addressKey node) : t k = s k := by
  cases h with
  | released => exact Store.delValue_of_ne hk
  | refused => rfl

section Histories
variable {boost : Boost} {s₀ s : Store} {node : Text} {log : List Event}

theorem history_covers {items : List Text} (h₀ : s₀.Holds (addressKey node) items)
    (h : History boost listsReadable s₀ log s) : Covers node log s := by
  induction h with
  | start => exact ⟨items, h₀, List.nil_subset _⟩
  | @call log s t c o past now ih =>
      cases c with
      | allocateIp m =>
          have ho : AllocateEnd m s o t :=
            (Program.safe_iff _ _ _).mp (safe_allocateIp boost m s) o t now
          by_cases hm : m = node
          · exact hm ▸ (hm ▸ ih : Covers m log s).allocate ho
          · exact ih.of_frame (c := .allocateIp m) hm o
              (ho.frame fun he => hm (addressKey_injective he).symm)
      | releaseIp m ip =>
          have ho : ReleaseEnd m ip s o t :=
            (Program.safe_iff _ _ _).mp (safe_releaseIp boost _ m ip s) o t now
          by_cases hm : m = node
          · exact hm ▸ (hm ▸ ih : Covers m log s).release ho
          · exact ih.of_frame (c := .releaseIp m ip) hm o
              (ho.frame fun he => hm (addressKey_injective he).symm)

/-- An address that is handed out is not held, as long as `allocateIp` can read
its list whenever that list is not empty. -/
theorem allocated_not_held {items : List Text} (h₀ : s₀.Holds (addressKey node) items)
    (h : History boost listsReadable s₀ log s) {ip : Text} {t : Store}
    (ha : (allocateIp boost node).Exec (Etcd.failing (listReadable node)) s (.ok (true, ip)) t) :
    ip ∉ held node log := by
  obtain ⟨listed, hl, hsub⟩ := (history_covers h₀ h).list
  have ho : AllocateEnd node s (.ok (true, ip)) t :=
    (Program.safe_iff _ _ _).mp (safe_allocateIp boost node s) _ t ha
  cases ho with
  | taken ip item free =>
      rw [hl.values] at free
      exact fun hip => free (hsub hip)

end Histories

/-! ### A list that cannot be read -/

/-- Node n with the subnet 10.0.0.0/30. -/
def slash30 : Store := Store.set (fun _ => none) (subnetKey ['n']) (cidr 0x0A000000 30)

theorem slash30_fresh : slash30 (addressKey ['n']) = none :=
  Store.set_of_ne fun h => subnetKey_ne_addressKey _ _ h.symm

/-- The host 10.0.0.1 of that subnet. -/
def firstHost : Text := hostText ⟨0x0A000000, 30⟩ 1

/-- The map after one successful `allocateIp`. -/
def oneHost : Store := ((allocateIp .reference ['n']).run Etcd.ok slash30).2

theorem allocateIp_slash30 :
    ((allocateIp .reference ['n']).run Etcd.ok slash30).1 = .ok (true, firstHost) := by
  decide +kernel

/-- The address list of node n cannot be read; all else succeeds. -/
def unreadable (c : EtcdCmd) (s : Store) : Reply × Store :=
  if c = .get (addressKey ['n']) then (⟨false, []⟩, s) else Etcd.ok c s

theorem unreadable_failing {may : EtcdCmd → Store → Prop} (h : ∀ c s, may c s) (c : EtcdCmd)
    (s : Store) : Etcd.failing may c s (unreadable c s).1 (unreadable c s).2 := by
  unfold unreadable
  split_ifs
  · exact .inr ⟨h c s, rfl, rfl⟩
  · exact .inl rfl

theorem allocateIp_unreadable :
    ((allocateIp .reference ['n']).run unreadable oneHost).1 = .ok (true, firstHost) := by
  decide +kernel

theorem history_oneHost (may : IpamCall → EtcdCmd → Store → Prop) :
    History .reference may slash30
      ([] ++ [(.allocateIp ['n'], .ok (true, firstHost))]) oneHost := by
  refine .call _ _ .start ?_
  rw [← allocateIp_slash30]
  exact Program.exec_run (fun c s => .inl rfl) _ slash30

/-- The second of two calls cannot read the list and returns the held address. -/
theorem held_address_allocated :
    History .reference anyCommand slash30 [(.allocateIp ['n'], .ok (true, firstHost))] oneHost ∧
      (allocateIp .reference ['n']).Exec (Etcd.failing (anyCommand (.allocateIp ['n']))) oneHost
        (.ok (true, firstHost)) ((allocateIp .reference ['n']).run unreadable oneHost).2 ∧
      firstHost ∈ held ['n'] [(.allocateIp ['n'], .ok (true, firstHost))] := by
  refine ⟨history_oneHost anyCommand, ?_, by simp [held, heldStep]⟩
  rw [← allocateIp_unreadable]
  exact Program.exec_run (unreadable_failing fun _ _ => trivial) _ oneHost

/-- A release that cannot read the list gives nothing back. -/
def failedRelease : IpamCall := .releaseIp ['n'] firstHost

/-- The map after it. -/
def stillHeld : Store := ((failedRelease.program .reference).run unreadable oneHost).2

theorem history_stillHeld : History .reference listsReadable slash30
    ([(.allocateIp ['n'], .ok (true, firstHost))] ++ [(failedRelease, .ok (false, []))])
    stillHeld := by
  refine .call _ _ (history_oneHost listsReadable) ?_
  have hrun : ((failedRelease.program .reference).run unreadable oneHost).1 = .ok (false, []) := by
    decide +kernel
  rw [← hrun]
  exact Program.exec_run (unreadable_failing fun _ _ => trivial) _ oneHost

/-- Where the list can be read, the second host is next, and is not held. -/
theorem allocated_not_held_slash30 :
    hostText ⟨0x0A000000, 30⟩ 2 ∉
      held ['n'] [(.allocateIp ['n'], .ok (true, firstHost)),
        (failedRelease, .ok (false, []))] := by
  have hrun : ((allocateIp .reference ['n']).run Etcd.ok stillHeld).1 =
      .ok (true, hostText ⟨0x0A000000, 30⟩ 2) := by decide +kernel
  apply allocated_not_held (.nil slash30_fresh) history_stillHeld
    (t := ((allocateIp .reference ['n']).run Etcd.ok stillHeld).2)
  rw [← hrun]
  exact Program.exec_run (fun c s => .inl rfl) _ stillHeld

end Ohno.IpamFaults
