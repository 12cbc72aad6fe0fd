import Ohno.InterleavedPrograms
import Ohno.EtcdClientShell

/-!
# Concurrent updates of one list

Any number of `append` and `del` calls work on one key, each etcdctl command
being one atomic step. A call reads the whole list and writes it back, and
nothing locks the key in between, so a write that comes between the two is
lost. Where no write comes between them the list is what the calls make of it
one after the other, in the order of their writes.
-/
namespace Ohno.ListInterleaved
open CommandPrograms DelimitedLists AddressText EtcdClientShell InterleavedPrograms

/-- A call on the list of a fixed key. -/
inductive ListUpdate where
  | append (value : Text)
  | delValue (value : Text)
deriving Repr, DecidableEq

def ListUpdate.program (key : Text) : ListUpdate → EtcdProgram Bool
  | append v => EtcdClientShell.append key v
  | delValue v => EtcdClientShell.delValue key v

/-- What the call is for. -/
def ListUpdate.apply (items : List Text) : ListUpdate → List Text
  | append v => items ++ [v]
  | delValue v => items.filter (· ≠ v)

/-- An appended text is an item. -/
def ListUpdate.Storable : ListUpdate → Prop
  | append v => Store.Item v
  | delValue _ => True

instance : (c : ListUpdate) → Decidable c.Storable
  | .append v => inferInstanceAs (Decidable (Store.Item v))
  | .delValue _ => .isTrue trivial

abbrev Entry := ListUpdate × Except Thrown Bool

/-- The list after the calls of a log, one after the other. -/
def applied (items : List Text) (log : List Entry) : List Text :=
  log.foldl (fun items e => if e.2 matches .ok true then e.1.apply items else items) items

/-- The clock counts the writes. -/
def writes : ListUpdate → EtcdCmd → Bool
  | _, .get _ => false
  | _, _ => true

/-- Nobody wrote between the read of a call and its own write. -/
def undisturbed : ListUpdate → EtcdCmd → List ℕ → ℕ → Prop
  | _, .get _, _, _ => True
  | _, _, seen, now => seen[0]? = some now

instance : (k : ListUpdate) → (c : EtcdCmd) → (seen : List ℕ) → (now : ℕ) →
    Decidable (undisturbed k c seen now)
  | _, .get _, _, _ => .isTrue trivial
  | _, .put _ _, seen, now => inferInstanceAs (Decidable (seen[0]? = some now))
  | _, .del _, seen, now => inferInstanceAs (Decidable (seen[0]? = some now))

def atomicCommands (allowed : ListUpdate → EtcdCmd → List ℕ → ℕ → Prop) :
    Rules ListUpdate EtcdCmd Reply Store where
  handle := Etcd.ok
  ticks := writes
  allowed := allowed

instance (k : ListUpdate) (c : EtcdCmd) (seen : List ℕ) (now : ℕ) :
    Decidable ((atomicCommands undisturbed).allowed k c seen now) :=
  inferInstanceAs (Decidable (undisturbed k c seen now))

abbrev ListView := View ListUpdate Thrown Bool Store
abbrev ListPool := Pool ListUpdate EtcdCmd Reply Thrown Bool Store

/-- The calls at the start, none of them having issued a command. -/
def start (key : Text) (s : Store) (calls : List ListUpdate) : ListPool where
  shared := s
  processes := calls.map fun c => ⟨c, c.program key, []⟩

/-! ### A log, call by call -/

section Applied
variable {items : List Text} {log : List Entry} {x : Text}

theorem applied_concat (c : ListUpdate) :
    applied items (log ++ [(c, .ok true)]) = c.apply (applied items log) := by
  simp [applied]

theorem applied_append (log' : List Entry) :
    applied items (log ++ log') = applied (applied items log) log' :=
  List.foldl_append

theorem applied_cons (e : Entry) :
    applied items (e :: log) =
      applied (if e.2 matches .ok true then e.1.apply items else items) log := rfl

/-- An item stays while nobody deletes it. -/
theorem mem_applied (hx : x ∈ items) (hd : ∀ e ∈ log, e.1 ≠ .delValue x) :
    x ∈ applied items log := by
  induction log generalizing items with
  | nil => exact hx
  | cons e log ih =>
      obtain ⟨he, hrest⟩ := List.forall_mem_cons.mp hd
      rw [applied_cons]
      apply ih _ hrest
      split
      · cases hc : e.1 with
        | append v => exact List.mem_append_left _ hx
        | delValue v =>
            have hv : x ≠ v := fun h => he (h ▸ hc)
            exact List.mem_filter.mpr ⟨hx, by simpa using hv⟩
      · exact hx

/-- An item that is not there does not come back while nobody appends it. -/
theorem notMem_applied (hx : x ∉ items) (ha : ∀ e ∈ log, e.1 ≠ .append x) :
    x ∉ applied items log := by
  induction log generalizing items with
  | nil => exact hx
  | cons e log ih =>
      obtain ⟨he, hrest⟩ := List.forall_mem_cons.mp ha
      rw [applied_cons]
      apply ih _ hrest
      split
      · cases hc : e.1 with
        | append v =>
            have hv : x ≠ v := fun h => he (h ▸ hc)
            simpa [ListUpdate.apply, hv] using hx
        | delValue v => exact fun h => hx (List.mem_of_mem_filter h)
      · exact hx

/-- An appended item is in the list if nobody deletes it. -/
theorem mem_applied_of_append (ha : (.append x, .ok true) ∈ log)
    (hd : ∀ e ∈ log, e.1 ≠ .delValue x) : x ∈ applied items log := by
  obtain ⟨before, after, rfl⟩ := List.append_of_mem ha
  rw [applied_append, applied_cons]
  apply mem_applied
  · simp [ListUpdate.apply]
  · intro e he
    exact hd e (by simp [he])

/-- A deleted item is not in the list if nobody appends it afterwards. -/
theorem notMem_applied_of_delValue {before after : List Entry}
    (h : log = before ++ (.delValue x, .ok true) :: after) (ha : ∀ e ∈ after, e.1 ≠ .append x) :
    x ∉ applied items log := by
  rw [h, applied_append, applied_cons]
  apply notMem_applied _ ha
  simp [ListUpdate.apply]

end Applied

/-! ### Every program keeps the list -/

variable {key : Text} {items : List Text}

/-- The stored list is what the log makes of the first one. -/
def Consistent (key : Text) (items : List Text) (v : ListView) : Prop :=
  v.shared.Holds key (applied items v.log)

/-- A step of any call. The list changes only when the clock moves. -/
structure Onward (key : Text) (items : List Text) (v u : ListView) : Prop where
  consistent : Consistent key items u
  clock : v.clock ≤ u.clock
  kept : v.clock = u.clock → u.shared key = v.shared key ∧ u.log = v.log

theorem Onward.trans (u v w : ListView) (h : Onward key items u v) (h' : Onward key items v w) :
    Onward key items u w := by
  refine ⟨h'.consistent, h.clock.trans h'.clock, fun he => ?_⟩
  have hle := h.clock
  have hle' := h'.clock
  obtain ⟨hs, hl⟩ := h.kept (by omega)
  obtain ⟨hs', hl'⟩ := h'.kept (by omega)
  exact ⟨hs'.trans hs, hl'.trans hl⟩

theorem Onward.refl {v : ListView} (h : Consistent key items v) : Onward key items v v :=
  ⟨h, le_rfl, fun _ => ⟨rfl, rfl⟩⟩

abbrev guarded (key : Text) (items : List Text) (k : ListUpdate) (p : EtcdProgram Bool)
    (seen : List ℕ) (v : ListView) : Prop :=
  Guarded (atomicCommands undisturbed) (Onward key items) k p seen v

/-- The read of a call changes nothing. -/
theorem onward_get {u : ListView} (h : Consistent key items u) (k : ListUpdate) (c : EtcdCmd)
    (next : Reply → EtcdProgram Bool) :
    Onward key items u (u.issue (atomicCommands undisturbed) k (.get key) (.call c next)) := by
  have hlog : (u.issue (atomicCommands undisturbed) k (.get key) (.call c next)).log = u.log :=
    View.issue_log_call ..
  refine ⟨?_, le_rfl, fun _ => ⟨rfl, hlog⟩⟩
  unfold Consistent
  rw [hlog]
  exact h

/-- The write of a call, if it leaves the list that the call is for. -/
theorem onward_write {w : ListView} {k : ListUpdate} {c : EtcdCmd} {s : Store}
    (hc : Etcd.ok c w.shared = (⟨true, []⟩, s)) (hw : writes k c = true)
    (hs : s.Holds key (k.apply (applied items w.log))) :
    Onward key items w (w.issue (atomicCommands undisturbed) k c (.pure true)) := by
  have hlog : (w.issue (atomicCommands undisturbed) k c (.pure true)).log =
      w.log ++ [(k, .ok true)] := rfl
  have hclock : (w.issue (atomicCommands undisturbed) k c (.pure true)).clock = w.clock + 1 := by
    simp [View.issue, atomicCommands, hw]
  refine ⟨?_, by omega, fun h => by omega⟩
  unfold Consistent
  rw [hlog, applied_concat]
  simpa [View.issue, atomicCommands, hc] using hs

/-- A read, and the write that it decides. -/
theorem guarded_update {k : ListUpdate} {v u : ListView} {c : EtcdCmd} (hu : Onward key items v u)
    (hw : ∀ w : ListView, w.shared key = u.shared key → w.log = u.log →
      ∃ s, Etcd.ok c w.shared = (⟨true, []⟩, s) ∧ s.Holds key (k.apply (applied items w.log)))
    (hc : ∀ key', c ≠ .get key') :
    Onward key items u (u.issue (atomicCommands undisturbed) k (.get key)
        (.call c fun r => .pure r.ok)) ∧
      guarded key items k (.call c fun r => .pure r.ok) [u.clock]
        (u.issue (atomicCommands undisturbed) k (.get key) (.call c fun r => .pure r.ok)) := by
  refine ⟨onward_get hu.consistent _ _ _, fun w hread hnow => ?_⟩
  -- nobody wrote since the list was read
  have hnow : u.clock = w.clock := by
    cases c with
    | get key' => exact absurd rfl (hc key')
    | put | del => simpa [atomicCommands, undisturbed] using hnow
  obtain ⟨hshared, hlog⟩ := hread.kept hnow
  obtain ⟨s, hs, hholds⟩ := hw w hshared (by simpa only [View.issue_log_call] using hlog)
  have hreply : ((atomicCommands undisturbed).handle c w.shared).1.ok = true :=
    congrArg (fun x => x.1.ok) hs
  refine ⟨?_, trivial⟩
  simp only [hreply]
  apply onward_write hs _ hholds
  cases c with
  | get key' => exact absurd rfl (hc key')
  | put | del => rfl

theorem guarded_append {x : Text} (hx : Store.Item x) (v : ListView) :
    guarded key items (.append x) (append key x) [] v := by
  rw [← Program.bind_pure (append key x), append_bind]
  intro u hu _
  simp only [atomicCommands, Etcd.ok, if_true]
  refine guarded_update hu (fun w hshared hlog => ⟨_, rfl, ?_⟩) (by simp)
  have happ := Store.Holds.append hu.consistent hx
  rw [← hlog] at happ
  refine happ.congr ?_
  simp [Store.append]

theorem guarded_delValue (x : Text) (v : ListView) :
    guarded key items (.delValue x) (delValue key x) [] v := by
  rw [← Program.bind_pure (delValue key x), delValue_bind]
  intro u hu _
  have hlist : split ',' (eraseNewlines (u.shared.shown key)) = u.shared.values key := by
    rw [Store.eraseNewlines_shown, Store.values]
  have hdel : ∀ w : ListView, w.log = u.log →
      (u.shared.delValue key x).Holds key ((ListUpdate.delValue x).apply (applied items w.log)) :=
    fun w hlog => hlog ▸ Store.Holds.delValue hu.consistent
  simp only [atomicCommands, Etcd.ok, if_true, hlist]
  by_cases hput : join ',' ((u.shared.values key).filter (· ≠ x)) = []
  · simp only [hput, if_true]
    refine guarded_update hu (fun w hshared hlog => ⟨_, rfl, ?_⟩) (by simp)
    refine (hdel w hlog).congr ?_
    simp only [Store.delValue, hput, if_true, Store.erase_same]
  · simp only [hput, if_false]
    refine guarded_update hu (fun w hshared hlog => ⟨_, rfl, ?_⟩) (by simp)
    refine (hdel w hlog).congr ?_
    simp only [Store.delValue, hput, if_false, Store.set_same]

/-! ### Runs -/

theorem start_guarded {s : Store} {calls : List ListUpdate} (hc : ∀ c ∈ calls, c.Storable) :
    (start key s calls).AllGuarded (atomicCommands undisturbed) (Onward key items) := by
  intro p hp
  obtain ⟨c, hmem, rfl⟩ := List.mem_map.mp hp
  have hcall := hc c hmem
  cases c with
  | append x => exact guarded_append hcall _
  | delValue x => exact guarded_delValue x _

/-- In every run in which no write comes between the read of a call and its own
write, the list is what the calls make of it one after the other. -/
theorem undisturbed_applied (key : Text) (s : Store) (items : List Text) (h : s.Holds key items)
    (calls : List ListUpdate) (hc : ∀ c ∈ calls, c.Storable) (schedule : List ℕ)
    (hq : (start key s calls).AllAllowed (atomicCommands undisturbed) schedule) :
    let w := (start key s calls).run (atomicCommands undisturbed) schedule
    w.shared.Holds key (applied items w.log) := by
  have hstart : Consistent key items (start key s calls).toView := h
  exact (run_rely Onward.trans (fun _ _ h => .refl h.consistent) (.refl hstart) (start_guarded hc)
    schedule hq).consistent

theorem run_log_mem (key : Text) (s : Store) (calls : List ListUpdate) (schedule : List ℕ) :
    ∀ e ∈ ((start key s calls).run (atomicCommands undisturbed) schedule).log, e.1 ∈ calls := by
  intro e he
  rcases Pool.run_log _ _ _ e he with h | h
  · exact absurd h List.not_mem_nil
  · simpa [start] using h

/-- Where no write comes between the read of a call and its own write, and all
calls have returned true, no update is lost. -/
theorem no_update_lost (key : Text) (s : Store) (items : List Text) (h : s.Holds key items)
    (calls : List ListUpdate) (hc : ∀ c ∈ calls, c.Storable) (schedule : List ℕ)
    (hq : (start key s calls).AllAllowed (atomicCommands undisturbed) schedule)
    (hdone : ∀ c ∈ calls,
      (c, .ok true) ∈ ((start key s calls).run (atomicCommands undisturbed) schedule).log) :
    let w := (start key s calls).run (atomicCommands undisturbed) schedule
    (∀ x, .append x ∈ calls → .delValue x ∉ calls → x ∈ w.shared.values key) ∧
      (∀ x, .delValue x ∈ calls → .append x ∉ calls → x ∉ w.shared.values key) ∧
      ∀ x before after, w.log = before ++ (.delValue x, .ok true) :: after →
        (∀ e ∈ after, e.1 ≠ .append x) → x ∉ w.shared.values key := by
  intro w
  have hlist : w.shared.values key = applied items w.log :=
    (undisturbed_applied key s items h calls hc schedule hq).values
  have hcalls : ∀ e ∈ w.log, e.1 ∈ calls := run_log_mem key s calls schedule
  rw [hlist]
  refine ⟨fun x ha hd => ?_, fun x hd ha => ?_, fun x before after hlog ha => ?_⟩
  · apply mem_applied_of_append (hdone _ ha)
    exact fun e he hx => hd (hx ▸ hcalls e he)
  · obtain ⟨before, after, hlog⟩ := List.append_of_mem (hdone _ hd)
    apply notMem_applied_of_delValue hlog
    exact fun e he hx => ha (hx ▸ hcalls e (hlog ▸ by simp [he]))
  · exact notMem_applied_of_delValue hlog ha

/-! ### Two appends side by side -/

/-- Both calls read the empty list before either of them writes: the first item
is lost, though both calls return true. -/
theorem both_read_first :
    let w := (start ['k'] (fun _ => none) [.append ['a'], .append ['b']]).run
      (atomicCommands fun _ _ _ _ => True) [0, 1, 0, 1]
    w.log = [(.append ['a'], .ok true), (.append ['b'], .ok true)] ∧
      w.shared.values ['k'] = [['b']] ∧ ['a'] ∉ w.shared.values ['k'] := by
  decide +kernel

/-- The same appends and a deletion, the second append reading after the first
has written, and the deletion before both. -/
theorem no_update_lost_three_calls :
    ['a'] ∈ ((start ['k'] (Store.set (fun _ => none) ['k'] ['c'])
        [.append ['a'], .append ['b'], .delValue ['c']]).run
      (atomicCommands undisturbed) [2, 2, 0, 0, 1, 1]).shared.values ['k'] :=
  (no_update_lost ['k'] (Store.set (fun _ => none) ['k'] ['c']) [['c']]
    ⟨by decide +kernel, by decide⟩ _ (by decide) _ (by decide +kernel) (by decide +kernel)).1
    ['a'] (by decide) (by decide)

end Ohno.ListInterleaved
