import Ohno.CommandPrograms
import Ohno.AddressText

/-!
# The etcdctl client

`EtcdClientShell` issues one etcdctl command for each `get`, `put` and `del`
and builds `append`, `list` and the deletion of one list item from them. The
functions are programs over these three commands. `Etcd.ok` resolves the
commands by a map from text to text in which every command succeeds: `get`
prints the value, or nothing for an absent key. The commands are lines for a
shell with nothing quoted in them, so keys and values reach etcd as they are only
if they are plain words; this is left to the lines themselves.

The second half states the composite functions as operations on that map.
Assertions only log in a release build and are not modelled. `dump`, which
feeds the log alone, is left out.
-/
namespace Ohno.EtcdClientShell
open CommandPrograms DelimitedLists AddressText

/-- What the modelled code can throw. `exception` carries the message of
`except::Exception`, `cniError` the code and details of `CniError`; `standard`
is any other `std::exception`. A null pointer that is followed ends the
process: no handler of the source sees `segfault`. -/
inductive Thrown where
  | exception (msg : String)
  | cniError (code : ℕ) (details : String)
  | standard
  | segfault
deriving Repr, DecidableEq

/-- The etcdctl commands of the client. -/
inductive EtcdCmd where
  | get (key : Text)
  | put (key value : Text)
  | del (key : Text)
deriving Repr, DecidableEq

/-- The exit status of a command and what it printed. -/
structure Reply where
  ok : Bool
  out : Text := []
deriving Repr, DecidableEq

abbrev EtcdProgram (A : Type) := Program EtcdCmd Reply Thrown A

def put (key value : Text) : EtcdProgram Bool := do
  let ret ← Program.request (.put key value)
  pure ret.ok

/-- The value comes back without line breaks; a failed command leaves what it
printed as it is. -/
def get (key : Text) : EtcdProgram Reply := do
  let ret ← Program.request (.get key)
  pure ⟨ret.ok, if ret.ok then eraseNewlines ret.out else ret.out⟩

/-- Behaves as `put` when the key is absent or `get` fails. -/
def append (key value : Text) : EtcdProgram Bool := do
  let ret ← get key
  let out := if ret.ok then (if ret.out = [] then value else ret.out ++ ',' :: value) else value
  put key out

def del (key : Text) : EtcdProgram Bool := do
  let ret ← Program.request (.del key)
  pure ret.ok

/-- `none` when `get` fails. -/
def list (key : Text) : EtcdProgram (Option (List Text)) := do
  let ret ← get key
  pure (if ret.ok then some (split ',' ret.out) else none)

/-- `EtcdClientShell::del` with a value: all copies of it leave the list. -/
def delValue (key value : Text) : EtcdProgram Bool := do
  match ← list key with
  | none => pure false
  | some values =>
      let toPut := join ',' (values.filter (· ≠ value))
      if toPut = [] then del key else put key toPut

/-! ### The calls, command by command -/

section Commands
variable {A : Type} (k v : Text)

theorem get_bind (f : Reply → EtcdProgram A) :
    (get k).bind f =
      .call (.get k) fun r => f ⟨r.ok, if r.ok then eraseNewlines r.out else r.out⟩ := rfl

theorem append_bind (f : Bool → EtcdProgram A) :
    (append k v).bind f = .call (.get k) fun r => .call (.put k
      (if r.ok then
        (if eraseNewlines r.out = [] then v else eraseNewlines r.out ++ ',' :: v)
      else v)) fun r' => f r'.ok := by
  simp only [append, EtcdClientShell.get, put, Program.request, Program.bind_eq, Program.bind,
    Program.pure_eq, Program.call.injEq, true_and]
  funext r
  cases r.ok <;> rfl

theorem delValue_bind (f : Bool → EtcdProgram A) :
    (delValue k v).bind f = .call (.get k) fun r =>
      if r.ok then
        let toPut := join ',' ((split ',' (eraseNewlines r.out)).filter (· ≠ v))
        if toPut = [] then .call (.del k) fun r' => f r'.ok
        else .call (.put k toPut) fun r' => f r'.ok
      else f false := by
  simp only [delValue, list, EtcdClientShell.get, Program.request, Program.bind_eq, Program.bind,
    Program.pure_eq, Program.call.injEq, true_and]
  funext r
  cases r.ok with
  | false => rfl
  | true =>
      simp only [if_true]
      split_ifs <;> rfl

end Commands

/-! ### The map behind the commands -/

/-- A key without a value is absent. -/
abbrev Store := Text → Option Text

namespace Store
variable (s : Store) (k : Text) (v : Text)

def set : Store := Function.update s k (some v)
def erase : Store := Function.update s k none

/-- What `etcdctl get` prints; `ShellSync` takes the final line break off. -/
def shown : Text := (s k).getD []

/-- The text that `get` returns, the empty one for an absent key. -/
def value : Text := eraseNewlines (s.shown k)

/-- The list that `list` returns. -/
def values : List Text := split ',' (s.value k)

def append : Store := s.set k (if s.value k = [] then v else s.value k ++ ',' :: v)

def delValue : Store :=
  let toPut := join ',' ((s.values k).filter (· ≠ v))
  if toPut = [] then s.erase k else s.set k toPut

/-- A list under a key. The empty list takes the key with it. -/
def write (items : List Text) : Store :=
  if items = [] then s.erase k else s.set k (join ',' items)

variable {s k v}

@[simp] theorem set_same : (s.set k v) k = some v := Function.update_self ..
@[simp] theorem erase_same : (s.erase k) k = none := Function.update_self ..
theorem set_of_ne {k' : Text} (h : k' ≠ k) : (s.set k v) k' = s k' := Function.update_of_ne h ..
theorem erase_of_ne {k' : Text} (h : k' ≠ k) : (s.erase k) k' = s k' := Function.update_of_ne h ..

theorem append_of_ne {k' : Text} (h : k' ≠ k) : (s.append k v) k' = s k' := set_of_ne h

theorem delValue_of_ne {k' : Text} (h : k' ≠ k) : (s.delValue k v) k' = s k' := by
  simp only [delValue]
  split_ifs
  · exact erase_of_ne h
  · exact set_of_ne h

theorem write_of_ne {k' : Text} (h : k' ≠ k) (items : List Text) : (s.write k items) k' = s k' := by
  unfold write
  split_ifs
  · exact erase_of_ne h
  · exact set_of_ne h

@[simp] theorem eraseNewlines_shown : eraseNewlines (s.shown k) = s.value k := by
  rw [value]

theorem value_congr {t : Store} {k' : Text} (h : s k = t k') : s.value k = t.value k' := by
  simp only [value, shown, h]

theorem values_congr {t : Store} {k' : Text} (h : s k = t k') : s.values k = t.values k' := by
  simp only [values, value_congr h]

theorem value_set (hv : '\n' ∉ v) : (s.set k v).value k = v := by
  simp only [value, shown, set_same, Option.getD_some, eraseNewlines_eq_self hv]

@[simp] theorem value_erase : (s.erase k).value k = [] := by simp [value, shown]

theorem newline_notMem_value : '\n' ∉ s.value k := newline_notMem_eraseNewlines _

theorem values_ne_nil (h : s.value k ≠ []) : s.values k ≠ [] := by
  simpa only [values, Ne, split_eq_nil_iff] using h

/-- A text that a list can hold and give back. -/
structure Item (x : Text) : Prop where
  ne_nil : x ≠ []
  comma : ',' ∉ x
  line : '\n' ∉ x

instance (x : Text) : Decidable (Item x) :=
  decidable_of_iff (x ≠ [] ∧ ',' ∉ x ∧ '\n' ∉ x)
    ⟨fun h => ⟨h.1, h.2.1, h.2.2⟩, fun h => ⟨h.ne_nil, h.comma, h.line⟩⟩

/-- The key holds the list `items`, as `append` and `delValue` write it. -/
structure Holds (s : Store) (k : Text) (items : List Text) : Prop where
  text : s.value k = join ',' items
  item : ∀ x ∈ items, Item x

theorem readable_of_item {items : List Text} (h : ∀ x ∈ items, Item x) : Readable ',' items :=
  Readable.of_forall fun x hx => ⟨(h x hx).comma, (h x hx).ne_nil⟩

theorem join_ne_nil_of_item {items : List Text} (h : ∀ x ∈ items, Item x) (hn : items ≠ []) :
    join ',' items ≠ [] := by
  rw [Ne, join_eq_nil_iff]
  rintro (rfl | rfl)
  · exact hn rfl
  · exact (h [] (by simp)).ne_nil rfl

theorem newline_notMem_join {items : List Text} (h : ∀ x ∈ items, Item x) :
    '\n' ∉ join ',' items := by
  intro hn
  rcases mem_join ',' hn with hc | ⟨x, hx, hc⟩
  · simp at hc
  · exact (h x hx).line hc

namespace Holds
variable {items : List Text}

theorem nil (h : s k = none) : Holds s k [] := ⟨by simp [value, shown, h], by simp⟩

theorem congr (h : Holds s k items) {t : Store} (ht : t k = s k) : Holds t k items :=
  ⟨(value_congr ht).trans h.text, h.item⟩

theorem values (h : Holds s k items) : s.values k = items := by
  rw [Store.values, h.text, split_join ',' (readable_of_item h.item)]

theorem append_eq (h : Holds s k items) : s.append k v = s.write k (items ++ [v]) := by
  unfold Store.append Store.write
  by_cases hn : items = []
  · simp [h.text, hn]
  · rw [if_neg (h.text ▸ join_ne_nil_of_item h.item hn), if_neg (by simp), join_concat ',' hn,
      h.text]

theorem delValue_eq (h : Holds s k items) : s.delValue k v = s.write k (items.filter (· ≠ v)) := by
  have hi : ∀ x ∈ items.filter (· ≠ v), Item x := fun x hx => h.item x (List.mem_of_mem_filter hx)
  simp only [Store.delValue, Store.write, h.values]
  generalize items.filter (· ≠ v) = kept at hi
  by_cases hn : kept = []
  · simp [hn]
  · rw [if_neg (join_ne_nil_of_item hi hn), if_neg hn]

theorem write (s : Store) (k : Text) (h : ∀ x ∈ items, Item x) :
    Holds (s.write k items) k items := by
  refine ⟨?_, h⟩
  unfold Store.write
  split_ifs with hn
  · simp [hn]
  · exact value_set (newline_notMem_join h)

theorem append (h : Holds s k items) (hv : Item v) : Holds (s.append k v) k (items ++ [v]) := by
  rw [h.append_eq]
  refine Holds.write s k fun x hx => ?_
  rcases List.mem_append.mp hx with hx | hx
  · exact h.item x hx
  · exact List.mem_singleton.mp hx ▸ hv

theorem delValue (h : Holds s k items) : Holds (s.delValue k v) k (items.filter (· ≠ v)) := by
  rw [h.delValue_eq]
  exact Holds.write s k fun x hx => h.item x (List.mem_of_mem_filter hx)

end Holds
end Store

/-- Every command succeeds. -/
def Etcd.ok : EtcdCmd → Store → Reply × Store
  | .get k, s => (⟨true, s.shown k⟩, s)
  | .put k v, s => (⟨true, []⟩, s.set k v)
  | .del k, s => (⟨true, []⟩, s.erase k)

/-- A command that `may` fail either succeeds or reports failure, printing
anything, and leaves the map alone. -/
def Etcd.failing (may : EtcdCmd → Store → Prop) (c : EtcdCmd) (s : Store) (r : Reply) (t : Store) :
    Prop :=
  (r, t) = Etcd.ok c s ∨ may c s ∧ r.ok = false ∧ t = s

section Failing
variable {may : EtcdCmd → Store → Prop} {k v : Text} {s : Store}

theorem Etcd.failing_of_det (c : EtcdCmd) (s : Store) (r : Reply) (t : Store)
    (h : Program.det Etcd.ok c s r t) : Etcd.failing may c s r t := .inl h

theorem safe_get (Q : Except Thrown Reply → Store → Prop) :
    (get k).Safe (Etcd.failing may) Q s ↔
      Q (.ok ⟨true, s.value k⟩) s ∧ (may (.get k) s → ∀ out, Q (.ok ⟨false, out⟩) s) := by
  simp only [EtcdClientShell.get, Program.bind_eq, Program.safe_bind, Program.safe_request,
    Program.onward_ok, Program.pure_eq, Program.safe_pure, Etcd.failing]
  constructor
  · intro h
    refine ⟨?_, fun hm out => ?_⟩
    · simpa using h ⟨true, s.shown k⟩ s (.inl rfl)
    · simpa using h ⟨false, out⟩ s (.inr ⟨hm, rfl, rfl⟩)
  · rintro ⟨hok, hfail⟩ r t (hr | ⟨hm, hr, rfl⟩)
    · obtain ⟨rfl, rfl⟩ := Prod.mk.inj hr
      simpa using hok
    · simpa [hr] using hfail hm r.out

theorem safe_put (Q : Except Thrown Bool → Store → Prop) :
    (put k v).Safe (Etcd.failing may) Q s ↔
      Q (.ok true) (s.set k v) ∧ (may (.put k v) s → Q (.ok false) s) := by
  simp only [put, Program.bind_eq, Program.safe_bind, Program.safe_request, Program.onward_ok,
    Program.pure_eq, Program.safe_pure, Etcd.failing]
  constructor
  · intro h
    exact ⟨h ⟨true, []⟩ _ (.inl rfl), fun hm => h ⟨false, []⟩ s (.inr ⟨hm, rfl, rfl⟩)⟩
  · rintro ⟨hok, hfail⟩ r t (hr | ⟨hm, hr, rfl⟩)
    · obtain ⟨rfl, rfl⟩ := Prod.mk.inj hr
      exact hok
    · simpa [hr] using hfail hm

theorem safe_del (Q : Except Thrown Bool → Store → Prop) :
    (del k).Safe (Etcd.failing may) Q s ↔
      Q (.ok true) (s.erase k) ∧ (may (.del k) s → Q (.ok false) s) := by
  simp only [del, Program.bind_eq, Program.safe_bind, Program.safe_request, Program.onward_ok,
    Program.pure_eq, Program.safe_pure, Etcd.failing]
  constructor
  · intro h
    exact ⟨h ⟨true, []⟩ _ (.inl rfl), fun hm => h ⟨false, []⟩ s (.inr ⟨hm, rfl, rfl⟩)⟩
  · rintro ⟨hok, hfail⟩ r t (hr | ⟨hm, hr, rfl⟩)
    · obtain ⟨rfl, rfl⟩ := Prod.mk.inj hr
      exact hok
    · simpa [hr] using hfail hm

theorem safe_list (Q : Except Thrown (Option (List Text)) → Store → Prop) :
    (list k).Safe (Etcd.failing may) Q s ↔
      Q (.ok (some (s.values k))) s ∧ (may (.get k) s → Q (.ok none) s) := by
  simp [list, safe_get, Store.values]

/-- Deleting a list item happens, or nothing happens. -/
theorem safe_delValue {Q : Except Thrown Bool → Store → Prop}
    (hok : Q (.ok true) (s.delValue k v)) (hfail : Q (.ok false) s) :
    (delValue k v).Safe (Etcd.failing may) Q s := by
  simp only [delValue, Program.bind_eq, Program.safe_bind, safe_list, Program.onward_ok,
    Program.pure_eq, Program.safe_pure]
  refine ⟨?_, fun _ => hfail⟩
  simp only [Store.delValue] at hok
  split_ifs with h
  · rw [if_pos h] at hok
    exact (safe_del Q).mpr ⟨hok, fun _ => hfail⟩
  · rw [if_neg h] at hok
    exact (safe_put Q).mpr ⟨hok, fun _ => hfail⟩

end Failing

section Ok
variable (k v : Text) (s : Store)

@[simp] theorem run_put : (put k v).run Etcd.ok s = (.ok true, s.set k v) := rfl
@[simp] theorem run_del : (del k).run Etcd.ok s = (.ok true, s.erase k) := rfl

@[simp] theorem run_get : (get k).run Etcd.ok s = (.ok ⟨true, s.value k⟩, s) := by
  simp [EtcdClientShell.get, Etcd.ok]

@[simp] theorem run_append : (append k v).run Etcd.ok s = (.ok true, s.append k v) := by
  simp [append, Store.append]

@[simp] theorem run_list : (list k).run Etcd.ok s = (.ok (some (s.values k)), s) := by
  simp [list, Store.values]

@[simp] theorem run_delValue : (delValue k v).run Etcd.ok s = (.ok true, s.delValue k v) := by
  simp only [delValue, Program.bind_eq, Program.run_bind, run_list, Program.Final.andThen_ok,
    Store.delValue]
  split_ifs <;> simp

end Ok
end Ohno.EtcdClientShell
