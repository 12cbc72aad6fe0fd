import Ohno.InterleavedPrograms
import Ohno.IpamHistory

/-!
# Concurrent calls of the address manager

Any number of `allocateIp` and `releaseIp` calls for one node run at the same
time, each etcdctl command being one atomic step. Nothing locks the address
list between the read that decides a call and the write that ends it. Two
calls can therefore return one address. They cannot in a run where no other
`allocateIp` writes between a call's deciding read and its own write.
-/
namespace Ohno.IpamInterleaved
open CommandPrograms DelimitedLists AddressText EtcdClientShell Subnets FirstFit Ipam IpamHistory
open InterleavedPrograms

/-- The clock counts the writes of `allocateIp` calls. -/
def allocates : IpamCall → EtcdCmd → Bool
  | .allocateIp _, .put _ _ => true
  | _, _ => false

/-- Between the deciding read of a call and its own write no `allocateIp` wrote.
An `allocateIp` is decided by the list read that found the address free, one
command before `append` reads the list again; a `releaseIp` by its only read. -/
def undisturbed : IpamCall → EtcdCmd → List ℕ → ℕ → Prop
  | .allocateIp _, .put _ _, seen, now => seen[1]? = some now
  | .releaseIp _ _, .put _ _, seen, now => seen[0]? = some now
  | .releaseIp _ _, .del _, seen, now => seen[0]? = some now
  | _, _, _, _ => True

instance : (k : IpamCall) → (c : EtcdCmd) → (seen : List ℕ) → (now : ℕ) →
    Decidable (undisturbed k c seen now)
  | .allocateIp _, .put _ _, seen, now => inferInstanceAs (Decidable (seen[1]? = some now))
  | .releaseIp _ _, .put _ _, seen, now => inferInstanceAs (Decidable (seen[0]? = some now))
  | .releaseIp _ _, .del _, seen, now => inferInstanceAs (Decidable (seen[0]? = some now))
  | .allocateIp _, .get _, _, _ => .isTrue trivial
  | .allocateIp _, .del _, _, _ => .isTrue trivial
  | .releaseIp _ _, .get _, _, _ => .isTrue trivial

def atomicCommands (allowed : IpamCall → EtcdCmd → List ℕ → ℕ → Prop) :
    Rules IpamCall EtcdCmd Reply Store where
  handle := Etcd.ok
  ticks := allocates
  allowed := allowed

instance (k : IpamCall) (c : EtcdCmd) (seen : List ℕ) (now : ℕ) :
    Decidable ((atomicCommands undisturbed).allowed k c seen now) :=
  inferInstanceAs (Decidable (undisturbed k c seen now))

abbrev IpamView := View IpamCall Thrown (Bool × Text) Store
abbrev IpamPool := Pool IpamCall EtcdCmd Reply Thrown (Bool × Text) Store

/-- The calls at the start, none of them having issued a command. -/
def start (boost : Boost) (s : Store) (calls : List IpamCall) : IpamPool where
  shared := s
  processes := calls.map fun c => ⟨c, c.program boost, []⟩

/-! ### What is held and what is listed -/

/-- The stored list covers the held addresses, which are distinct. -/
structure Consistent (node : Text) (v : IpamView) : Prop where
  list : ∃ items, v.shared.Holds (addressKey node) items ∧ held node v.log ⊆ items
  nodup : (held node v.log).Nodup

/-- A step of any call: the view stays consistent, and addresses become held
only when the clock moves. -/
structure Onward (node : Text) (v u : IpamView) : Prop where
  consistent : Consistent node u
  clock : v.clock ≤ u.clock
  kept : v.clock = u.clock → held node u.log ⊆ held node v.log

variable {node : Text}

theorem Onward.trans (u v w : IpamView) (h : Onward node u v) (h' : Onward node v w) :
    Onward node u w := by
  refine ⟨h'.consistent, h.clock.trans h'.clock, fun he => ?_⟩
  have hle := h.clock
  have hle' := h'.clock
  exact List.Subset.trans (h'.kept (by omega)) (h.kept (by omega))

theorem Onward.refl {v : IpamView} (h : Consistent node v) : Onward node v v :=
  ⟨h, le_rfl, fun _ => List.Subset.refl _⟩

/-- A command that writes nothing, after which the call has not taken an address. -/
theorem Onward.of_read {v u : IpamView} (h : Consistent node v) (hs : u.shared = v.shared)
    (hc : u.clock = v.clock) (hh : held node u.log = held node v.log) : Onward node v u := by
  refine ⟨⟨?_, hh ▸ h.nodup⟩, hc.ge, fun _ => hh ▸ List.Subset.refl _⟩
  rw [hs, hh]
  exact h.list

/-! ### The programs, command by command -/

section Programs

theorem isIpAvailable_bind (ip : Text) (f : Bool → EtcdProgram (Bool × Text)) :
    (isIpAvailable node ip).bind f = .call (.get (addressKey node)) fun r =>
      f (if r.ok then decide (ip ∉ split ',' (eraseNewlines r.out)) else true) := by
  simp only [isIpAvailable, list, EtcdClientShell.get, Program.request, Program.bind_eq,
    Program.bind, Program.pure_eq, Program.call.injEq, true_and]
  funext r
  cases r.ok <;> rfl

/-- A program that has not returned an address. -/
def NoResult (p : EtcdProgram (Bool × Text)) : Prop := ∀ ip, p ≠ .pure (true, ip)

theorem noResult_call (c : EtcdCmd) (next : Reply → EtcdProgram (Bool × Text)) :
    NoResult (.call c next) := by simp [NoResult]

theorem noResult_findIp (net : Subnet) (remaining i : ℕ) :
    NoResult (findIp node net remaining i) := by
  cases remaining with
  | zero => simp [findIp, NoResult]
  | succ remaining =>
      simp only [findIp]
      cases net.generateIp i with
      | error e => simp [NoResult]
      | ok ip =>
          simp only [Program.ofExcept_ok, Program.bind_eq, Program.pure_bind, isIpAvailable_bind]
          exact noResult_call _ _

/-- Ending without an address leaves the held addresses alone. -/
theorem held_finished {p : EtcdProgram (Bool × Text)} (hp : NoResult p) (log : List Event)
    (m : Text) : held node (log ++ finished (.allocateIp m) p) = held node log := by
  cases p with
  | pure a =>
      obtain ⟨b, ip⟩ := a
      cases b with
      | false => simp [finished, heldStep]
      | true => exact absurd rfl (hp ip)
  | throw e => simp [finished, heldStep]
  | call c next => simp [finished]

end Programs

/-! ### Every program keeps the view going onward -/

section Guards

abbrev guarded (node : Text) (k : IpamCall) (p : EtcdProgram (Bool × Text)) (seen : List ℕ)
    (v : IpamView) : Prop :=
  Guarded (atomicCommands undisturbed) (Onward node) k p seen v

theorem onward_get {u : IpamView} (h : Consistent node u) (k m : Text)
    {rest : EtcdProgram (Bool × Text)} (hr : NoResult rest) :
    Onward node u (u.issue (atomicCommands undisturbed) (.allocateIp m) (.get k) rest) :=
  .of_read h rfl rfl (held_finished hr u.log m)

/-- The write of `append` puts a new address on a list that covers what is held. -/
theorem onward_put {u w : IpamView} {candidate : Text} (hu : Consistent node u)
    (hi : Store.Item candidate) (hf : candidate ∉ held node w.log)
    (hd : (held node w.log).Nodup) (hsub : held node w.log ⊆ held node u.log) {text : Text}
    (ht : u.shared.append (addressKey node) candidate = u.shared.set (addressKey node) text) :
    Onward node w (w.issue (atomicCommands undisturbed) (.allocateIp node)
      (.put (addressKey node) text) (.pure (true, candidate))) := by
  obtain ⟨items, hitems, hheld⟩ := hu.list
  have hlog : held node (w.log ++ finished (C := EtcdCmd) (R := Reply) (.allocateIp node)
      (.pure (true, candidate))) = held node w.log ++ [candidate] := by
    simp [finished, heldStep]
  refine ⟨⟨⟨items ++ [candidate], ?_, ?_⟩, ?_⟩, by simp [View.issue, atomicCommands, allocates], ?_⟩
  · have happ := hitems.append hi
    rw [ht] at happ
    exact happ.congr (by simp [View.issue, atomicCommands, Etcd.ok])
  · simp only [View.issue, hlog]
    exact List.append_subset.mpr ⟨List.Subset.trans (List.Subset.trans hsub hheld)
      (List.subset_append_left _ _), List.subset_append_right _ _⟩
  · simp only [View.issue, hlog]
    exact nodup_concat hd hf
  · intro hc
    simp [View.issue, atomicCommands, allocates] at hc

/-- `append` after a read that found the address free. -/
theorem guarded_append {v : IpamView} {candidate : Text} (hi : Store.Item candidate)
    (hf : candidate ∉ held node v.log) (seen : List ℕ) (rest : EtcdProgram (Bool × Text)) :
    guarded node (.allocateIp node)
      ((append (addressKey node) candidate).bind fun b =>
        if b then .pure (true, candidate) else rest) (v.clock :: seen) v := by
  rw [append_bind]
  intro u hu _
  refine ⟨onward_get hu.consistent _ _ (noResult_call _ _), fun w hw hnow => ?_⟩
  -- nobody allocated since the list was found without the address
  have hnow : v.clock = w.clock := by simpa [atomicCommands, undisturbed] using hnow
  have huw : u.clock = w.clock := le_antisymm hw.clock (hnow ▸ hu.clock)
  have hsub : held node w.log ⊆ held node u.log := by
    simpa only [View.issue_log_call] using hw.kept huw
  have hfree : candidate ∉ held node w.log :=
    fun h => hf (hu.kept (hnow.trans huw.symm) (hsub h))
  refine ⟨onward_put hu.consistent hi hfree hw.consistent.nodup hsub ?_, trivial⟩
  simp [Store.append, atomicCommands, Etcd.ok]

/-- A read of an `allocateIp`: what follows is guarded at the view it read. -/
theorem guarded_get {k m : Text} {next : Reply → EtcdProgram (Bool × Text)} {seen : List ℕ}
    {v : IpamView}
    (h : ∀ u, Onward node v u → NoResult (next ⟨true, u.shared.shown k⟩) ∧
      guarded node (.allocateIp m) (next ⟨true, u.shared.shown k⟩) (u.clock :: seen)
        (u.issue (atomicCommands undisturbed) (.allocateIp m) (.get k)
          (next ⟨true, u.shared.shown k⟩))) :
    guarded node (.allocateIp m) (.call (.get k) next) seen v := by
  intro u hu _
  exact ⟨onward_get hu.consistent k m (h u hu).1, (h u hu).2⟩

theorem guarded_findIp (net : Subnet) (remaining i : ℕ) (seen : List ℕ) (v : IpamView) :
    guarded node (.allocateIp node) (findIp node net remaining i) seen v := by
  induction remaining generalizing i seen v with
  | zero => trivial
  | succ remaining ih =>
      simp only [findIp]
      cases hg : net.generateIp i with
      | error e => trivial
      | ok ip =>
          simp only [Program.ofExcept_ok, Program.bind_eq, Program.pure_bind, isIpAvailable_bind]
          refine guarded_get fun u hu => ?_
          obtain ⟨items, hitems, hsub⟩ := hu.consistent.list
          have hread : split ',' (eraseNewlines (u.shared.shown (addressKey node))) = items := by
            rw [Store.eraseNewlines_shown]
            exact hitems.values
          simp only [if_true, hread]
          by_cases hip : ip ∈ items
          · simp only [hip, not_true_eq_false, decide_false, Bool.false_eq_true, if_false]
            exact ⟨noResult_findIp net remaining (i + 1), ih _ _ _⟩
          · simp only [hip, not_false_eq_true, decide_true, if_true]
            refine ⟨append_bind _ _ _ ▸ noResult_call _ _, ?_⟩
            refine guarded_append (generateIp_item hg) ?_ seen _
            rw [append_bind, View.issue_log_call]
            exact fun h => hip (hsub h)

theorem guarded_allocateIp (boost : Boost) (v : IpamView) :
    guarded node (.allocateIp node) (allocateIp boost node) [] v := by
  simp only [allocateIp, getSubnet, Program.bind_eq, get_bind, Program.pure_eq, Program.bind]
  refine guarded_get fun u hu => ?_
  simp only [if_true, Bool.true_and]
  split_ifs
  · cases Subnet.init boost _ with
    | error e => exact ⟨by simp [NoResult, Program.ofExcept], trivial⟩
    | ok net =>
        simp only [Program.ofExcept_ok, Program.pure_bind]
        cases net.getMaxHosts with
        | error e => exact ⟨by simp [NoResult, Program.ofExcept], trivial⟩
        | ok maxHosts => exact ⟨noResult_findIp _ _ _, guarded_findIp _ _ _ _ _⟩
  · exact ⟨by simp [NoResult], trivial⟩

/-- A list without the released address, written while nobody allocates, still
covers what is held then. -/
theorem onward_release {u w : IpamView} (hu : Consistent node u) (hw : Consistent node w)
    (hsub : held node w.log ⊆ held node u.log) (ip : Text) {c : EtcdCmd} {s : Store}
    (hc : Etcd.ok c w.shared = (⟨true, []⟩, s))
    (hs : s (addressKey node) = (u.shared.delValue (addressKey node) ip) (addressKey node)) :
    Onward node w (w.issue (atomicCommands undisturbed) (.releaseIp node ip) c
      (.pure (true, []))) := by
  obtain ⟨items, hitems, hheld⟩ := hu.list
  have hlog : held node (w.log ++ finished (C := EtcdCmd) (R := Reply) (.releaseIp node ip)
      (.pure (true, []))) = (held node w.log).filter (· ≠ ip) := by
    simp [finished, heldStep]
  refine ⟨⟨⟨items.filter (· ≠ ip), ?_, ?_⟩, ?_⟩, le_rfl, fun _ => ?_⟩
  · refine hitems.delValue.congr ?_
    simp only [View.issue, atomicCommands, hc]
    exact hs
  · simp only [View.issue, hlog]
    exact List.filter_subset _ (List.Subset.trans hsub hheld)
  · simp only [View.issue, hlog]
    exact hw.nodup.filter _
  · simp only [View.issue, hlog]
    exact List.filter_subset_self _

theorem guarded_releaseIp (boost : Boost) (ip : Text) (v : IpamView) :
    guarded node (.releaseIp node ip) ((IpamCall.releaseIp node ip).program boost) [] v := by
  simp only [IpamCall.program, releaseIp, Program.bind_eq, delValue_bind, Program.pure_eq]
  intro u hu _
  have hlist : split ',' (eraseNewlines (u.shared.shown (addressKey node))) =
      u.shared.values (addressKey node) := by
    rw [Store.eraseNewlines_shown, Store.values]
  simp only [atomicCommands, Etcd.ok, if_true, hlist]
  by_cases hput : join ',' ((u.shared.values (addressKey node)).filter (· ≠ ip)) = []
  · simp only [hput, if_true]
    refine ⟨.of_read hu.consistent rfl rfl (congrArg (held node) (List.append_nil _)), ?_⟩
    intro w hw hnow
    have hnow : u.clock = w.clock := by simpa [undisturbed] using hnow
    refine ⟨onward_release hu.consistent hw.consistent ?_ ip rfl ?_, trivial⟩
    · simpa only [View.issue_log_call] using hw.kept hnow
    · simp only [Store.delValue, hput, if_true, Store.erase_same]
  · simp only [hput, if_false]
    refine ⟨.of_read hu.consistent rfl rfl (congrArg (held node) (List.append_nil _)), ?_⟩
    intro w hw hnow
    have hnow : u.clock = w.clock := by simpa [undisturbed] using hnow
    refine ⟨onward_release hu.consistent hw.consistent ?_ ip rfl ?_, trivial⟩
    · simpa only [View.issue_log_call] using hw.kept hnow
    · simp only [Store.delValue, hput, if_false, Store.set_same]

end Guards

/-! ### Runs -/

theorem start_consistent {boost : Boost} {s : Store} {items : List Text}
    (h : s.Holds (addressKey node) items) (calls : List IpamCall) :
    Consistent node (start boost s calls).toView :=
  ⟨⟨items, h, List.nil_subset _⟩, List.nodup_nil⟩

theorem start_guarded {boost : Boost} {s : Store} {calls : List IpamCall}
    (hn : ∀ c ∈ calls, c.node = node) :
    (start boost s calls).AllGuarded (atomicCommands undisturbed) (Onward node) := by
  intro p hp
  obtain ⟨c, hc, rfl⟩ := List.mem_map.mp hp
  have hnode := hn c hc
  cases c with
  | allocateIp m =>
      subst hnode
      exact guarded_allocateIp boost _
  | releaseIp m ip =>
      subst hnode
      exact guarded_releaseIp boost ip _

/-- No two results that are still held are the same address, in every run where
no `allocateIp` writes between the deciding read of another call and its write. -/
theorem undisturbed_distinct (boost : Boost) (node : Text) (s : Store) (items : List Text)
    (h : s.Holds (addressKey node) items) (calls : List IpamCall)
    (hn : ∀ c ∈ calls, c.node = node) (schedule : List ℕ)
    (hq : (start boost s calls).AllAllowed (atomicCommands undisturbed) schedule) :
    (held node ((start boost s calls).run (atomicCommands undisturbed) schedule).log).Nodup :=
  (run_rely Onward.trans (fun _ _ h => .refl h.consistent) (.refl (start_consistent h calls))
    (start_guarded hn) schedule hq).consistent.nodup

/-! ### Two allocations side by side -/

/-- Node n with the subnet 10.0.0.0/30, no address taken. -/
def emptyPool : Store := Store.set (fun _ => none) (subnetKey ['n']) (cidr 0x0A000000 30)

theorem emptyPool_holds : emptyPool.Holds (addressKey ['n']) [] :=
  .nil (Store.set_of_ne fun h => subnetKey_ne_addressKey _ _ h.symm)

/-- Two calls that both read the subnet and the list before either of them writes. -/
theorem two_calls_one_address :
    let w := (start .reference emptyPool [.allocateIp ['n'], .allocateIp ['n']]).run
      (atomicCommands fun _ _ _ _ => True) [0, 1, 0, 1, 0, 0, 1, 1]
    held ['n'] w.log = [hostText ⟨0x0A000000, 30⟩ 1, hostText ⟨0x0A000000, 30⟩ 1] ∧
      ¬ (held ['n'] w.log).Nodup := by
  decide +kernel

/-- The same two calls when the second reads the list after the first has
written it, and a release that runs beside it. -/
theorem undisturbed_distinct_slash30 :
    (held ['n'] ((start .reference emptyPool
      [.allocateIp ['n'], .allocateIp ['n'], .releaseIp ['n'] (hostText ⟨0x0A000000, 30⟩ 1)]).run
        (atomicCommands undisturbed) [0, 1, 0, 0, 0, 1, 2, 2, 1, 1, 1]).log).Nodup :=
  undisturbed_distinct .reference ['n'] emptyPool [] emptyPool_holds _ (by decide) _
    (by decide +kernel)

end Ohno.IpamInterleaved
