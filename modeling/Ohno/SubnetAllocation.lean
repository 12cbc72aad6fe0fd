import Ohno.Ipam

/-!
# Allocating the subnet of a node

`allocateSubnet` writes the pod CIDR of the API server to the list of subnets
and under the key of the node, and takes it out of the list again if the second
write fails. The commands of a call are numbered, and a pattern says which of
them fail. An empty CIDR, which stands for an answer that could not be used, is
stored like any other; and taking the CIDR out of the list is the inverse of
appending it only for some lists.
-/
namespace Ohno.SubnetAllocation
open CommandPrograms DelimitedLists AddressText EtcdClientShell Ipam

/-! ### Patterns of failing commands -/

/-- What the command with a number prints if it fails. -/
abbrev Pattern := ℕ → Option Text

/-- The map and the number of the next command. A failed command has no effect. -/
def patterned (fails : Pattern) (c : EtcdCmd) (w : Store × ℕ) : Reply × Store × ℕ :=
  match fails w.2 with
  | none => ((Etcd.ok c w.1).1, (Etcd.ok c w.1).2, w.2 + 1)
  | some out => (⟨false, out⟩, w.1, w.2 + 1)

/-- What `append` writes; `read` says whether it could read the list. -/
def appended (s : Store) (k v : Text) (read : Prop) [Decidable read] : Text :=
  if read ∧ s.value k ≠ [] then s.value k ++ ',' :: v else v

section Runs
variable {fails : Pattern} {s : Store} {n : ℕ} {k v out : Text}

theorem run_get_ok (h : fails n = none) :
    (get k).run (patterned fails) (s, n) = (.ok ⟨true, s.value k⟩, s, n + 1) := by
  simp [EtcdClientShell.get, patterned, h, Etcd.ok]

theorem run_get_failed (h : fails n = some out) :
    (get k).run (patterned fails) (s, n) = (.ok ⟨false, out⟩, s, n + 1) := by
  simp [EtcdClientShell.get, patterned, h]

theorem run_put_ok (h : fails n = none) :
    (put k v).run (patterned fails) (s, n) = (.ok true, s.set k v, n + 1) := by
  simp [put, patterned, h, Etcd.ok]

theorem run_put_failed (h : fails n ≠ none) :
    (put k v).run (patterned fails) (s, n) = (.ok false, s, n + 1) := by
  obtain ⟨out, hout⟩ := Option.ne_none_iff_exists'.mp h
  simp [put, patterned, hout]

theorem run_append_ok (h : fails (n + 1) = none) :
    (append k v).run (patterned fails) (s, n) =
      (.ok true, s.set k (appended s k v (fails n = none)), n + 2) := by
  cases hn : fails n with
  | none =>
      simp only [append, Program.bind_eq, Program.run_bind, run_get_ok hn, Program.Final.andThen_ok,
        if_true, run_put_ok h, appended, true_and]
      by_cases hv : s.value k = [] <;> simp [hv]
  | some out =>
      simp [append, run_get_failed hn, run_put_ok h, appended]

theorem run_append_failed (h : fails (n + 1) ≠ none) :
    (append k v).run (patterned fails) (s, n) = (.ok false, s, n + 2) := by
  cases hn : fails n with
  | none => simp [append, run_get_ok hn, run_put_failed h]
  | some out => simp [append, run_get_failed hn, run_put_failed h]

theorem run_delValue_ok (h : fails n = none) (h' : fails (n + 1) = none) :
    (delValue k v).run (patterned fails) (s, n) = (.ok true, s.delValue k v, n + 2) := by
  have hdel : (del k).run (patterned fails) (s, n + 1) = (.ok true, s.erase k, n + 2) := by
    simp [del, patterned, h', Etcd.ok]
  simp only [delValue, list, Program.bind_eq, Program.run_bind, run_get_ok h,
    Program.Final.andThen_ok, if_true, Program.pure_eq, Program.run_pure, Store.delValue,
    Store.values]
  by_cases hput : join ',' ((split ',' (s.value k)).filter (· ≠ v)) = []
  · simp only [hput, if_true]
    exact hdel
  · simp only [hput, if_false]
    exact run_put_ok h'

/-- Taking an item out of a list always returns. -/
theorem run_delValue_returns (fails : Pattern) (s : Store) (n : ℕ) (k v : Text) :
    ∃ b w, (delValue k v).run (patterned fails) (s, n) = (.ok b, w) := by
  cases hn : fails n with
  | some out => exact ⟨false, _, by simp [delValue, list, run_get_failed hn]; rfl⟩
  | none =>
      simp only [delValue, list, Program.bind_eq, Program.run_bind, run_get_ok hn,
        Program.Final.andThen_ok, if_true, Program.pure_eq, Program.run_pure]
      split_ifs
      · exact ⟨_, _, rfl⟩
      · exact ⟨_, _, rfl⟩

end Runs

/-! ### The function over its client -/

/-- The functions of the client that `allocateSubnet` calls. -/
structure Client where
  get : Text → EtcdProgram Reply
  put : Text → Text → EtcdProgram Bool
  append : Text → Text → EtcdProgram Bool
  delValue : Text → Text → EtcdProgram Bool

def Client.shell : Client where
  get := EtcdClientShell.get
  put := EtcdClientShell.put
  append := EtcdClientShell.append
  delValue := EtcdClientShell.delValue

/-- Throws instead of writing an empty value. A call that returns with this
client has passed none to `put` or `append`. -/
def Client.refusing : Client where
  get := EtcdClientShell.get
  put k v := if v = [] then .throw (.exception "empty value") else EtcdClientShell.put k v
  append k v := if v = [] then .throw (.exception "empty value") else EtcdClientShell.append k v
  delValue := EtcdClientShell.delValue

def allocateSubnetWith (client : Client) (node podCidr : Text) : EtcdProgram (Bool × Text) := do
  let ret ← client.get (subnetKey node)
  if ret.ok && ret.out ≠ [] then
    pure (true, ret.out)
  else if ← client.append etcdKeySubnet podCidr then
    if ← client.put (subnetKey node) podCidr then
      pure (true, podCidr)
    else do
      let _ ← client.delValue etcdKeySubnet podCidr
      pure (false, [])
  else
    pure (false, [])

theorem allocateSubnetWith_shell (node podCidr : Text) :
    allocateSubnetWith .shell node podCidr = allocateSubnet node podCidr := by
  simp only [allocateSubnetWith, Client.shell, allocateSubnet, getSubnet, Program.bind_eq,
    Program.bind_assoc, Program.pure_eq, Program.pure_bind]
  congr 1
  funext ret
  cases ret.ok with
  | false => rfl
  | true => by_cases hout : ret.out = [] <;> simp [hout]

theorem allocateSubnetWith_refusing {podCidr : Text} (h : podCidr ≠ []) (node : Text) :
    allocateSubnetWith .refusing node podCidr = allocateSubnetWith .shell node podCidr := by
  simp [allocateSubnetWith, Client.refusing, Client.shell, h]

/-- All or nothing, for one call with the pod CIDR of the API server on a map.
The first four commands are those of `getSubnet`, `append` and `put`; the
compensating `del` has the next two. -/
structure AllOrNothing (fails : Pattern) (node podCidr : Text) (s : Store) : Prop where
  stored : ∀ subnet t n,
    (allocateSubnet node podCidr).run (patterned fails) (s, 0) = (.ok (true, subnet), t, n) →
      subnet ≠ [] ∧ t.value (subnetKey node) = subnet
  unchanged : ∀ subnet t n,
    (allocateSubnet node podCidr).run (patterned fails) (s, 0) = (.ok (false, subnet), t, n) →
      fails 4 = none → fails 5 = none → t = s
  nonempty : ∀ e t n,
    (allocateSubnetWith .refusing node podCidr).run (patterned fails) (s, 0) ≠ (.error e, t, n)

/-! ### How a call ends -/

section Ends
variable {fails : Pattern} {node podCidr : Text} {s : Store}

theorem run_known (h₀ : fails 0 = none) (hv : s.value (subnetKey node) ≠ []) (client : Client)
    (hc : client.get = EtcdClientShell.get) :
    (allocateSubnetWith client node podCidr).run (patterned fails) (s, 0) =
      (.ok (true, s.value (subnetKey node)), s, 1) := by
  simp [allocateSubnetWith, hc, run_get_ok h₀, hv]

/-- The subnet is not known. -/
def Unknown (fails : Pattern) (node : Text) (s : Store) : Prop :=
  ¬ (fails 0 = none ∧ s.value (subnetKey node) ≠ [])

/-- What is left to do when the subnet is not known. -/
theorem run_unknown (h : Unknown fails node s) (client : Client)
    (hc : client.get = EtcdClientShell.get) :
    (allocateSubnetWith client node podCidr).run (patterned fails) (s, 0) =
      Program.run (patterned fails) (do
        if ← client.append etcdKeySubnet podCidr then
          if ← client.put (subnetKey node) podCidr then
            pure (true, podCidr)
          else do
            let _ ← client.delValue etcdKeySubnet podCidr
            pure (false, [])
        else
          pure (false, [])) (s, 1) := by
  cases h₀ : fails 0 with
  | some out => simp [allocateSubnetWith, hc, run_get_failed h₀]
  | none =>
      have hv : s.value (subnetKey node) = [] := by
        by_contra hv
        exact h ⟨h₀, hv⟩
      simp [allocateSubnetWith, hc, run_get_ok h₀, hv]

/-- The map after the first write. -/
def listed (fails : Pattern) (podCidr : Text) (s : Store) : Store :=
  s.set etcdKeySubnet (appended s etcdKeySubnet podCidr (fails 1 = none))

theorem run_unlisted (h : Unknown fails node s) (h₂ : fails 2 ≠ none) :
    (allocateSubnet node podCidr).run (patterned fails) (s, 0) = (.ok (false, []), s, 3) := by
  rw [← allocateSubnetWith_shell, run_unknown h _ rfl]
  simp [Client.shell, run_append_failed h₂]

theorem run_stored (h : Unknown fails node s) (h₂ : fails 2 = none) (h₃ : fails 3 = none) :
    (allocateSubnet node podCidr).run (patterned fails) (s, 0) =
      (.ok (true, podCidr), (listed fails podCidr s).set (subnetKey node) podCidr, 4) := by
  rw [← allocateSubnetWith_shell, run_unknown h _ rfl]
  simp [Client.shell, run_append_ok h₂, run_put_ok h₃, listed]

theorem run_undone (h : Unknown fails node s) (h₂ : fails 2 = none) (h₃ : fails 3 ≠ none)
    (h₄ : fails 4 = none) (h₅ : fails 5 = none) :
    (allocateSubnet node podCidr).run (patterned fails) (s, 0) =
      (.ok (false, []), (listed fails podCidr s).delValue etcdKeySubnet podCidr, 6) := by
  rw [← allocateSubnetWith_shell, run_unknown h _ rfl]
  simp [Client.shell, run_append_ok h₂, run_put_failed h₃, run_delValue_ok h₄ h₅, listed]

theorem run_undo_returns (h : Unknown fails node s) (h₂ : fails 2 = none) (h₃ : fails 3 ≠ none) :
    ∃ w, (allocateSubnet node podCidr).run (patterned fails) (s, 0) = (.ok (false, []), w) := by
  obtain ⟨b, w, hw⟩ :=
    run_delValue_returns fails (listed fails podCidr s) 4 etcdKeySubnet podCidr
  rw [← allocateSubnetWith_shell, run_unknown h _ rfl]
  refine ⟨w, ?_⟩
  simp only [listed] at hw
  simp [Client.shell, run_append_ok h₂, run_put_failed h₃, hw]

theorem run_refused (h : Unknown fails node s) :
    (allocateSubnetWith .refusing node []).run (patterned fails) (s, 0) =
      (.error (.exception "empty value"), s, 1) := by
  rw [run_unknown h _ rfl]
  simp [Client.refusing]

end Ends

/-! ### Taking the CIDR out of the list again -/

section Undo
variable {s : Store} {k v text : Text}

/-- How a list text is stored; an empty one has no key. -/
def kept (text : Text) : Option Text := if text = [] then none else some text

/-- A list text read and written back. -/
def rewritten (text : Text) : Option Text := kept (join ',' (split ',' (eraseNewlines text)))

/-- The value that taking an item out writes. -/
def pruned (v text : Text) : Text := join ',' ((split ',' (eraseNewlines text)).filter (· ≠ v))

theorem delValue_set :
    (s.set k text).delValue k v = Function.update s k (kept (pruned v text)) := by
  have hvalues : (s.set k text).values k = split ',' (eraseNewlines text) := by
    simp [Store.values, Store.value, Store.shown]
  simp only [Store.delValue, hvalues, kept]
  change (if pruned v text = [] then _ else (s.set k text).set k (pruned v text)) = _
  by_cases hn : pruned v text = []
  · simp only [hn, if_true]
    simp [Store.set, Store.erase]
  · simp only [hn, if_false]
    simp [Store.set]

theorem undo_eq_iff : (s.set k text).delValue k v = s ↔ s k = kept (pruned v text) := by
  rw [delValue_set, Function.update_eq_self_iff, eq_comm]

theorem newline_notMem_pruned : '\n' ∉ pruned v text := by
  intro h
  rcases mem_join ',' h with h | ⟨x, hx, hc⟩
  · simp at h
  · exact newline_notMem_eraseNewlines text
      (mem_of_mem_split ',' (List.mem_of_mem_filter hx) _ hc)

/-- A value that is not empty is stored as it was kept if it is what was kept. -/
theorem kept_iff (hv : s.value k ≠ []) (ht : '\n' ∉ text) :
    s k = kept text ↔ s k = some (s.value k) ∧ text = s.value k := by
  constructor
  · intro h
    unfold kept at h
    split_ifs at h with hn
    · exact absurd (by simp [Store.value, Store.shown, h]) hv
    · have hvalue : s.value k = text := by
        simp [Store.value, Store.shown, h, eraseNewlines_eq_self ht]
      exact ⟨by rw [h, hvalue], hvalue.symm⟩
  · rintro ⟨hs, rfl⟩
    rw [kept, if_neg hv, hs]

/-- No part of a list text is a text with a delimiter or a line break in it. -/
theorem pruned_of_not_item (hv : v ≠ []) (hi : ¬ Store.Item v) :
    pruned v text = join ',' (split ',' (eraseNewlines text)) := by
  unfold pruned
  rw [List.filter_eq_self.mpr]
  intro x hx
  have hcomma : ',' ∉ x := free_of_mem_split ',' _ x hx
  have hline : '\n' ∉ x := fun h => newline_notMem_eraseNewlines text (mem_of_mem_split ',' hx _ h)
  have hne : x ≠ v := by
    rintro rfl
    exact hi ⟨hv, hcomma, hline⟩
  simpa using hne

theorem pruned_self (hi : Store.Item v) : pruned v v = [] := by
  have hs : split ',' v = [v] := split_eq_singleton hi.comma hi.ne_nil
  simp [pruned, eraseNewlines_eq_self hi.line, hs]

/-- The list is as before if the item was not in it. -/
theorem pruned_append_item (hl : '\n' ∉ text) (hn : text ≠ []) (hi : Store.Item v) :
    pruned v (text ++ ',' :: v) = text ↔ v ∉ split ',' text := by
  have hsplit : split ',' v = [v] := split_eq_singleton hi.comma hi.ne_nil
  have hline : '\n' ∉ text ++ ',' :: v := by simp [hl, hi.line]
  have hmem : v ∈ text.splitOn ',' ↔ v ∈ split ',' text := by
    rw [splitOn_eq]
    split_ifs
    · simp [hi.ne_nil]
    · rfl
  have hpruned : pruned v (text ++ ',' :: v) = join ',' ((text.splitOn ',').filter (· ≠ v)) := by
    simp [pruned, eraseNewlines_eq_self hline, split_append_cons, hsplit]
  rw [hpruned, ← hmem]
  constructor
  · intro h hv
    have hfree : ∀ x ∈ (text.splitOn ',').filter (· ≠ v), ',' ∉ x := by
      intro x hx
      have hx' := List.mem_of_mem_filter hx
      rw [splitOn_eq] at hx'
      split_ifs at hx'
      · rcases List.mem_append.mp hx' with hx' | hx'
        · exact free_of_mem_split ',' _ x hx'
        · simp [List.mem_singleton.mp hx']
      · exact free_of_mem_split ',' _ x hx'
    have hne : (text.splitOn ',').filter (· ≠ v) ≠ [] := by
      intro he
      rw [he] at h
      exact hn h.symm
    have hsame : (join ',' ((text.splitOn ',').filter (· ≠ v))).splitOn ',' =
        (text.splitOn ',').filter (· ≠ v) := List.splitOn_intercalate ',' hfree hne
    rw [h] at hsame
    rw [hsame] at hv
    simpa using List.of_mem_filter hv
  · intro hv
    rw [List.filter_eq_self.mpr]
    · exact List.intercalate_splitOn ','
    · intro x hx
      have hne : x ≠ v := by
        rintro rfl
        exact hv hx
      simpa using hne

/-- A text that is not an item leaves the list longer, unless it is only line breaks. -/
theorem pruned_append_not_item (hl : '\n' ∉ text) (hv : v ≠ []) (hi : ¬ Store.Item v) :
    pruned v (text ++ ',' :: v) = text ↔ eraseNewlines v = [] := by
  have herase : eraseNewlines (text ++ ',' :: v) = text ++ ',' :: eraseNewlines v := by
    rw [eraseNewlines_append, eraseNewlines_eq_self hl]
    rfl
  have hjoin : join ',' (text.splitOn ',') = text := List.intercalate_splitOn ','
  rw [pruned_of_not_item hv hi, herase, split_append_cons]
  by_cases hn : split ',' (eraseNewlines v) = []
  · rw [hn, List.append_nil, hjoin]
    simpa using (split_eq_nil_iff ',' _).mp hn
  · rw [join_append ',' (List.splitOn_ne_nil ',' text) hn, hjoin]
    rw [split_eq_nil_iff] at hn
    constructor
    · intro h
      have hlen := congrArg List.length h
      simp only [List.length_append, List.length_cons] at hlen
      omega
    · exact fun h => absurd h hn

end Undo

/-- When taking the CIDR out undoes appending it. A list that was read must be
in one line and without the CIDR, and an absent or unread one must have no key.
(A text with a comma or a line break is no item; then the second branch of each
case says what is left.) -/
def Undoable (fails : Pattern) (podCidr : Text) (s : Store) : Prop :=
  if fails 1 = none ∧ s.value etcdKeySubnet ≠ [] then
    s etcdKeySubnet = some (s.value etcdKeySubnet) ∧
      if Store.Item podCidr then podCidr ∉ s.values etcdKeySubnet else eraseNewlines podCidr = []
  else
    s etcdKeySubnet = if Store.Item podCidr then none else rewritten podCidr

theorem undone_iff {fails : Pattern} {podCidr : Text} (h : podCidr ≠ []) (s : Store) :
    (listed fails podCidr s).delValue etcdKeySubnet podCidr = s ↔ Undoable fails podCidr s := by
  unfold listed Undoable appended
  rw [undo_eq_iff]
  by_cases hread : fails 1 = none ∧ s.value etcdKeySubnet ≠ []
  · rw [if_pos hread, if_pos hread, kept_iff hread.2 newline_notMem_pruned]
    apply and_congr_right
    intro _
    by_cases hi : Store.Item podCidr
    · rw [if_pos hi]
      exact pruned_append_item Store.newline_notMem_value hread.2 hi
    · rw [if_neg hi]
      exact pruned_append_not_item Store.newline_notMem_value h hi
  · rw [if_neg hread, if_neg hread]
    by_cases hi : Store.Item podCidr
    · rw [if_pos hi, pruned_self hi, kept, if_pos rfl]
    · rw [if_neg hi, pruned_of_not_item h hi, rewritten]

/-- When a call is all or nothing: the subnet is known; or the API server gave a
CIDR and writing the list fails, or both writes succeed, or the list is undone. -/
def Sound (fails : Pattern) (node podCidr : Text) (s : Store) : Prop :=
  (fails 0 = none ∧ s.value (subnetKey node) ≠ []) ∨
    podCidr ≠ [] ∧
      (fails 2 ≠ none ∨ (fails 3 = none ∧ '\n' ∉ podCidr) ∨
        (fails 3 ≠ none ∧ (fails 4 ≠ none ∨ fails 5 ≠ none ∨ Undoable fails podCidr s)))

theorem allOrNothing_known {fails : Pattern} {node podCidr : Text} {s : Store}
    (h₀ : fails 0 = none) (hv : s.value (subnetKey node) ≠ []) :
    AllOrNothing fails node podCidr s := by
  have hrun := allocateSubnetWith_shell node podCidr ▸ run_known h₀ hv .shell rfl
  refine ⟨fun subnet t n h => ?_, fun subnet t n h => ?_, fun e t n => ?_⟩
  · rw [hrun] at h
    cases h
    exact ⟨hv, rfl⟩
  · rw [hrun] at h
    cases h
  · rw [run_known h₀ hv .refusing rfl]
    exact fun h => nomatch h

section Unknown
variable {fails : Pattern} {node podCidr : Text} {s : Store}

/-- With an empty CIDR the call tries to append it. -/
theorem not_allOrNothing_nil (h : Unknown fails node s) : ¬ AllOrNothing fails node [] s :=
  fun hall => hall.nonempty _ _ _ (run_refused h)

theorem returns_refusing (hc : podCidr ≠ []) {b : Bool × Text} {w : Store × ℕ}
    (hrun : (allocateSubnet node podCidr).run (patterned fails) (s, 0) = (.ok b, w)) (e : Thrown)
    (t : Store) (n : ℕ) :
    (allocateSubnetWith .refusing node podCidr).run (patterned fails)
      (s, 0) ≠ (.error e, t, n) := by
  rw [allocateSubnetWith_refusing hc, allocateSubnetWith_shell, hrun]
  exact fun h => nomatch h

theorem allOrNothing_unlisted (h : Unknown fails node s) (hc : podCidr ≠ []) (h₂ : fails 2 ≠ none) :
    AllOrNothing fails node podCidr s := by
  have hrun : (allocateSubnet node podCidr).run (patterned fails) (s, 0) = _ := run_unlisted h h₂
  refine ⟨fun subnet t n he => ?_, fun subnet t n he => ?_, returns_refusing hc hrun⟩
  · rw [hrun] at he
    cases he
  · rw [hrun] at he
    cases he
    exact fun _ _ => rfl

theorem allOrNothing_stored_iff (h : Unknown fails node s) (hc : podCidr ≠ []) (h₂ : fails 2 = none)
    (h₃ : fails 3 = none) : AllOrNothing fails node podCidr s ↔ '\n' ∉ podCidr := by
  have hrun : (allocateSubnet node podCidr).run (patterned fails) (s, 0) = _ := run_stored h h₂ h₃
  constructor
  · intro hall hline
    have hvalue := (hall.stored _ _ _ hrun).2
    exact Store.newline_notMem_value (hvalue ▸ hline)
  · intro hline
    refine ⟨fun subnet t n he => ?_, fun subnet t n he => ?_, returns_refusing hc hrun⟩
    · rw [hrun] at he
      cases he
      exact ⟨hc, Store.value_set hline⟩
    · rw [hrun] at he
      cases he

theorem allOrNothing_undone_iff (h : Unknown fails node s) (hc : podCidr ≠ []) (h₂ : fails 2 = none)
    (h₃ : fails 3 ≠ none) : AllOrNothing fails node podCidr s ↔
      (fails 4 ≠ none ∨ fails 5 ≠ none ∨ Undoable fails podCidr s) := by
  obtain ⟨w, hreturn⟩ : ∃ w, (allocateSubnet node podCidr).run (patterned fails) (s, 0) =
      (.ok (false, []), w) := run_undo_returns h h₂ h₃
  constructor
  · intro hall
    by_cases h₄ : fails 4 = none
    · by_cases h₅ : fails 5 = none
      · have hsame := hall.unchanged _ _ _ (run_undone h h₂ h₃ h₄ h₅) h₄ h₅
        exact .inr (.inr ((undone_iff hc s).mp hsame))
      · exact .inr (.inl h₅)
    · exact .inl h₄
  · intro hundo
    refine ⟨fun subnet t n he => ?_, fun subnet t n he h₄ h₅ => ?_, returns_refusing hc hreturn⟩
    · rw [hreturn] at he
      cases he
    · rw [run_undone h h₂ h₃ h₄ h₅] at he
      cases he
      rcases hundo with hf | hf | hu
      · exact absurd h₄ hf
      · exact absurd h₅ hf
      · exact (undone_iff hc s).mpr hu

end Unknown

/-- A call is all or nothing exactly when the subnet is known, or the API server
gave a CIDR and the writes that happen are complete or can be undone. -/
theorem allOrNothing_iff (fails : Pattern) (node podCidr : Text) (s : Store) :
    AllOrNothing fails node podCidr s ↔ Sound fails node podCidr s := by
  unfold Sound
  by_cases hknown : fails 0 = none ∧ s.value (subnetKey node) ≠ []
  · exact iff_of_true (allOrNothing_known hknown.1 hknown.2) (.inl hknown)
  · rw [or_iff_right hknown]
    by_cases hc : podCidr = []
    · subst hc
      simp only [ne_eq, not_true_eq_false, false_and, iff_false]
      exact not_allOrNothing_nil hknown
    · rw [and_iff_right hc]
      by_cases h₂ : fails 2 = none
      · by_cases h₃ : fails 3 = none
        · rw [allOrNothing_stored_iff hknown hc h₂ h₃]
          simp [h₂, h₃]
        · rw [allOrNothing_undone_iff hknown hc h₂ h₃]
          simp [h₂, h₃]
      · simp only [ne_eq, h₂, not_false_eq_true, true_or, iff_true]
        exact allOrNothing_unlisted hknown hc h₂

/-- The API server did not answer: no command fails, the call returns true with
an empty subnet, and the empty text is stored. -/
theorem no_answer_not_allOrNothing :
    let x := (allocateSubnet ['n'] []).run (patterned fun _ => none) (fun _ => none, 0)
    x.1 = .ok (true, []) ∧ x.2.1 (subnetKey ['n']) = some [] ∧
      ¬ AllOrNothing (fun _ => none) ['n'] [] fun _ => none := by
  refine ⟨by decide +kernel, by decide +kernel, not_allOrNothing_nil ?_⟩
  simp [Unknown, Store.value, Store.shown]

end Ohno.SubnetAllocation
