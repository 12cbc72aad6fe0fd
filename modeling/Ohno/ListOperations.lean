import Ohno.DataRefinement
import Ohno.EtcdClientShell

/-!
# The client as a map from keys to lists

Over a store in which every command succeeds the calls of `EtcdClientShell`
act on lists of items: `put` stores the list of one item, `append` adds an item
at the end, `del` with a value takes all copies of it out. The stored text is
the joined list, and the key of an empty list is absent.
-/
namespace Ohno.ListOperations
open CommandPrograms DelimitedLists AddressText EtcdClientShell DataRefinement

/-- The calls of the client. -/
inductive ListCall where
  | put (key value : Text)
  | append (key value : Text)
  | del (key : Text)
  | delValue (key value : Text)
  | get (key : Text)
  | list (key : Text)
deriving Repr, DecidableEq

inductive ListAnswer where
  | done (ok : Bool)
  | got (ret : Reply)
  | listed (values : Option (List Text))
deriving Repr, DecidableEq

namespace ListCall

def program : ListCall → EtcdProgram ListAnswer
  | put k v => do pure (.done (← EtcdClientShell.put k v))
  | append k v => do pure (.done (← EtcdClientShell.append k v))
  | del k => do pure (.done (← EtcdClientShell.del k))
  | delValue k v => do pure (.done (← EtcdClientShell.delValue k v))
  | get k => do pure (.got (← EtcdClientShell.get k))
  | list k => do pure (.listed (← EtcdClientShell.list k))

def key : ListCall → Text
  | put k _ | append k _ | del k | delValue k _ | get k | list k => k

/-- The texts that are stored can be given back. -/
def Storable : ListCall → Prop
  | put _ v | append _ v => Store.Item v
  | _ => True

instance : (c : ListCall) → Decidable c.Storable
  | put _ v | append _ v => inferInstanceAs (Decidable (Store.Item v))
  | del _ | delValue _ _ | get _ | list _ => .isTrue trivial

end ListCall

/-- A list under every key, the empty one where nothing is stored. -/
abbrev Lists := Text → List Text

/-- What a call answers and does, in terms of lists. -/
def specified : ListCall → Lists → Except Thrown ListAnswer × Lists
  | .put k v, m => (.ok (.done true), Function.update m k [v])
  | .append k v, m => (.ok (.done true), Function.update m k (m k ++ [v]))
  | .del k, m => (.ok (.done true), Function.update m k [])
  | .delValue k v, m => (.ok (.done true), Function.update m k ((m k).filter (· ≠ v)))
  | .get k, m => (.ok (.got ⟨true, join ',' (m k)⟩), m)
  | .list k, m => (.ok (.listed (some (m k))), m)

theorem specified_of_ne {c : ListCall} {k : Text} (h : k ≠ c.key) (m : Lists) :
    (specified c m).2 k = m k := by
  cases c with
  | get | list => rfl
  | put | append | del | delValue => exact Function.update_of_ne h ..

/-- The store holds the lists, and nothing under the key of an empty one. -/
structure Represents (s : Store) (m : Lists) : Prop where
  holds : ∀ k, s.Holds k (m k)
  absent : ∀ k, m k = [] ↔ s k = none

theorem represents_empty : Represents (fun _ => none) fun _ => [] :=
  ⟨fun _ => .nil rfl, fun _ => by simp⟩

theorem Represents.write {s : Store} {m : Lists} (h : Represents s m) (k : Text) {items : List Text}
    (hi : ∀ x ∈ items, Store.Item x) :
    Represents (s.write k items) (Function.update m k items) := by
  have hne : ∀ k' ≠ k, (s.write k items) k' = s k' := fun k' hk => Store.write_of_ne hk items
  constructor
  · intro k'
    by_cases hk : k' = k
    · subst hk
      rw [Function.update_self]
      exact Store.Holds.write s k' hi
    · rw [Function.update_of_ne hk]
      exact (h.holds k').congr (hne k' hk)
  · intro k'
    by_cases hk : k' = k
    · subst hk
      rw [Function.update_self]
      unfold Store.write
      split_ifs with hn
      · simp [hn]
      · simp [hn]
    · rw [Function.update_of_ne hk, hne k' hk]
      exact h.absent k'

/-- A call of the client on the store. -/
def issued (c : ListCall) (s : Store) : Except Thrown ListAnswer × Store := c.program.run Etcd.ok s

theorem issued_specified : Refines issued specified (fun c _ => c.Storable) Represents := by
  intro c m s hc h
  have hold := fun k => h.holds k
  cases c with
  | put k v =>
      have hv : ∀ x ∈ [v], Store.Item x := fun x hx => List.mem_singleton.mp hx ▸ hc
      have hs : s.write k [v] = s.set k v := by simp [Store.write]
      have hwrite := h.write k hv
      rw [hs] at hwrite
      exact ⟨rfl, hwrite⟩
  | append k v =>
      simp only [issued, ListCall.program, Program.bind_eq, Program.run_bind, run_append,
        Program.Final.andThen_ok, Program.pure_eq, Program.run_pure, specified, true_and]
      rw [(hold k).append_eq]
      apply h.write k
      exact ((hold k).append hc).item
  | del k =>
      have hs : s.write k [] = s.erase k := by simp [Store.write]
      have hwrite : Represents (s.write k []) (Function.update m k []) := h.write k (by simp)
      rw [hs] at hwrite
      exact ⟨rfl, hwrite⟩
  | delValue k v =>
      simp only [issued, ListCall.program, Program.bind_eq, Program.run_bind, run_delValue,
        Program.Final.andThen_ok, Program.pure_eq, Program.run_pure, specified, true_and]
      rw [(hold k).delValue_eq]
      apply h.write k
      exact (hold k).delValue.item
  | get k =>
      have hanswer : (issued (.get k) s).1 = (specified (.get k) m).1 := by
        simp [issued, ListCall.program, specified, (hold k).text]
      exact ⟨hanswer, h⟩
  | list k =>
      have hanswer : (issued (.list k) s).1 = (specified (.list k) m).1 := by
        simp [issued, ListCall.program, specified, (hold k).values]
      have hstate : (issued (.list k) s).2 = s := by simp [issued, ListCall.program]
      exact ⟨hanswer, hstate ▸ h⟩

/-- Every sequence of calls that store items is answered as lists would answer
it and leaves those lists, each key being absent exactly when its list is
empty. The list of a key that no call names stays. -/
theorem lists_refined (calls : List ListCall) (hc : ∀ c ∈ calls, c.Storable) (s : Store) (m : Lists)
    (h : Represents s m) :
    (history issued calls s).1 = (history specified calls m).1 ∧
      Represents (history issued calls s).2 (history specified calls m).2 ∧
      ∀ k, (∀ c ∈ calls, k ≠ c.key) → (history specified calls m).2 k = m k := by
  obtain ⟨hanswers, hrep⟩ := issued_specified.history calls m s (.of_forall hc m) h
  refine ⟨hanswers, hrep, fun k hk => ?_⟩
  exact history_unchanged (fun m : Lists => m k) (fun c hmem m => specified_of_ne (hk c hmem) m) m

/-- The list under the first key comes and goes, the other keeps its item. -/
def twoKeys : List ListCall :=
  [.put ['k'] ['a'], .append ['m'] ['c'], .append ['k'] ['b'], .append ['k'] ['a'], .list ['k'],
    .delValue ['k'] ['a'], .get ['k'], .delValue ['k'] ['b'], .list ['k'], .list ['m']]

theorem lists_refined_two_keys :
    (history issued twoKeys fun _ => none).1 =
        [.ok (.done true), .ok (.done true), .ok (.done true), .ok (.done true),
          .ok (.listed (some [['a'], ['b'], ['a']])), .ok (.done true), .ok (.got ⟨true, ['b']⟩),
          .ok (.done true), .ok (.listed (some [])), .ok (.listed (some [['c']]))] ∧
      (history issued twoKeys fun _ => none).2 ['k'] = none := by
  obtain ⟨hanswers, hrep, -⟩ :=
    lists_refined twoKeys (by decide) (fun _ => none) (fun _ => []) represents_empty
  exact ⟨hanswers, (hrep.absent ['k']).mp (by decide)⟩

end Ohno.ListOperations
