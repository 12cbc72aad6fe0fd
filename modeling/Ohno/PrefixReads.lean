import Ohno.HelperString
import Ohno.KeyedLists

/-!
# Reading all keys under a prefix

`etcdctl get --prefix` prints every key and every value on a line of its own,
`ShellSync` takes the last line break off, and `EtcdClientShell::get` pairs the
tokens that `helper::split` makes of the rest. An empty value at the very end
is the one that all of this loses.
-/
namespace Ohno.PrefixReads
open AddressText EtcdClientShell HelperString KeyedLists

/-- `std::unordered_map`, as the pairs in it. -/
abbrev Map := List (Text × Text)

/-- What `ShellSync::execute` makes of the standard output of a command. -/
def execute (out : Text) : Text := if out.getLast? = some '\n' then out.dropLast else out

/-- The loop over the tokens, two at a time; `none` when it reads behind the last one. -/
def storePairs : List Text → Map → Option Map
  | [], value => some value
  | [_], _ => none
  | k :: v :: map, value => storePairs map (assign value k v)

/-- The assertion on the number of tokens. -/
def evenTokens (out : Text) : Bool := out = [] || (split out '\n').length % 2 = 0

/-- `EtcdClientShell::get` on a prefix, after the command has run. A failed
assertion only logs. -/
def get (ret : Reply) (value : Map) : Option (Bool × Map) :=
  if ret.ok then
    if ret.out = [] then some (true, value)
    else (storePairs (split ret.out '\n') value).map (true, ·)
  else some (false, value)

/-- `EtcdClientShell::dump`, in the order in which the pairs came. -/
def dump (ret : Reply) : Option Text := do
  let (ok, map) ← get ret []
  pure (if ok then map.flatMap fun item => item.1 ++ " -> ".toList ++ item.2 ++ ['\n'] else [])

/-- What etcdctl prints for the pairs under a prefix. -/
def printed (pairs : Map) : Text := pairs.flatMap fun p => p.1 ++ '\n' :: (p.2 ++ ['\n'])

/-- Pairs that etcd can hold under a prefix, each on two lines. -/
structure Stored (pairs : Map) : Prop where
  distinct : (pairs.map Prod.fst).Nodup
  key : ∀ p ∈ pairs, p.1 ≠ [] ∧ '\n' ∉ p.1
  value : ∀ p ∈ pairs, '\n' ∉ p.2

/-- The pairs are read as they are stored, in one pass over existing tokens. -/
structure Decoded (pairs : Map) : Prop where
  even : evenTokens (execute (printed pairs))
  get : get ⟨true, execute (printed pairs)⟩ [] = some (true, pairs)
  dump : dump ⟨true, execute (printed pairs)⟩ ≠ none

/-! ### The tokens -/

/-- The lines that etcdctl prints. -/
def lines (pairs : Map) : List Text := pairs.flatMap fun p => [p.1, p.2]

@[simp] theorem lines_nil : lines [] = [] := rfl
@[simp] theorem lines_cons (p : Text × Text) (pairs : Map) :
    lines (p :: pairs) = p.1 :: p.2 :: lines pairs := rfl
@[simp] theorem lines_append (pairs pairs' : Map) :
    lines (pairs ++ pairs') = lines pairs ++ lines pairs' := List.flatMap_append

@[simp] theorem length_lines (pairs : Map) : (lines pairs).length = 2 * pairs.length := by
  induction pairs with
  | nil => rfl
  | cons p pairs ih =>
      simp only [lines_cons, List.length_cons, ih]
      omega

theorem printed_eq (pairs : Map) : printed pairs = (lines pairs).flatMap (· ++ ['\n']) := by
  induction pairs with
  | nil => rfl
  | cons p pairs ih =>
      have hp : printed (p :: pairs) = p.1 ++ '\n' :: (p.2 ++ ['\n']) ++ printed pairs := rfl
      rw [hp, ih]
      simp

/-- `ShellSync` leaves the lines joined. -/
theorem execute_printed (pairs : Map) :
    execute (printed pairs) = DelimitedLists.join '\n' (lines pairs) := by
  rw [printed_eq]
  rcases List.eq_nil_or_concat (lines pairs) with hnil | ⟨init, last, hlast⟩
  · rw [hnil]
    rfl
  · rw [hlast, List.concat_eq_append, join_eq_flatMap, List.flatMap_append,
      List.flatMap_singleton, ← List.append_assoc, execute]
    simp

theorem newline_notMem_lines {pairs : Map} (stored : Stored pairs) :
    ∀ t ∈ lines pairs, '\n' ∉ t := by
  intro t ht
  obtain ⟨p, hp, ht⟩ := List.mem_flatMap.mp ht
  simp only [List.mem_cons, List.not_mem_nil, or_false] at ht
  rcases ht with rfl | rfl
  · exact (stored.key p hp).2
  · exact stored.value p hp

/-- A last line with text on it is read, and so are all the lines before it. -/
theorem split_printed {pairs : Map} (stored : Stored pairs)
    (hlast : (lines pairs).getLast? ≠ some []) :
    split (execute (printed pairs)) '\n' = lines pairs := by
  rw [split_eq, execute_printed]
  exact DelimitedLists.split_join '\n' ⟨newline_notMem_lines stored, hlast⟩

/-- An empty last line is lost. -/
theorem split_printed_empty {init : Map} {k : Text} (stored : Stored (init ++ [(k, [])])) :
    split (execute (printed (init ++ [(k, [])]))) '\n' = lines init ++ [k] := by
  have hlines : lines (init ++ [(k, [])]) = (lines init ++ [k]) ++ [[]] := by simp
  have hne : lines init ++ [k] ≠ [] := by simp
  have hk : k ≠ [] := (stored.key (k, []) (by simp)).1
  have hread : DelimitedLists.Readable '\n' (lines init ++ [k]) := by
    refine ⟨?_, by simpa using hk⟩
    intro t ht
    exact newline_notMem_lines stored t (hlines ▸ List.mem_append_left _ ht)
  rw [split_eq, execute_printed, hlines, DelimitedLists.join_concat '\n' hne,
    DelimitedLists.split_append_cons, DelimitedLists.split, List.append_nil]
  exact List.splitOn_intercalate '\n' hread.free hne

/-! ### The pairs -/

/-- The loop appends one pair after the other. -/
theorem storePairs_lines {pairs map : Map} (h : ((map ++ pairs).map Prod.fst).Nodup) :
    storePairs (lines pairs) map = some (map ++ pairs) := by
  induction pairs generalizing map with
  | nil => simp [storePairs]
  | cons p pairs ih =>
      have hp : p.1 ∉ map.map Prod.fst := by
        intro hm
        rw [List.map_append, List.map_cons, List.nodup_append] at h
        exact h.2.2 _ hm _ List.mem_cons_self rfl
      rw [lines_cons, storePairs, assign_of_notMem hp, ih (by simpa using h)]
      simp

/-- With one token too many the loop reads behind the last one. -/
theorem storePairs_odd (pairs : Map) (k : Text) (map : Map) :
    storePairs (lines pairs ++ [k]) map = none := by
  induction pairs generalizing map with
  | nil => rfl
  | cons p pairs ih =>
      rw [lines_cons, List.cons_append, List.cons_append, storePairs, ih]

theorem getLast?_lines (init : Map) (k v : Text) :
    (lines (init ++ [(k, v)])).getLast? = some v := by
  simp

theorem decoded_of_last {pairs : Map} (stored : Stored pairs)
    (hlast : (lines pairs).getLast? ≠ some []) : Decoded pairs := by
  have hsplit := split_printed stored hlast
  have hget : get ⟨true, execute (printed pairs)⟩ [] = some (true, pairs) := by
    by_cases hnil : execute (printed pairs) = []
    · have hlines : lines pairs = [] := by rw [← hsplit, hnil, split_eq, DelimitedLists.split]
      have hp : pairs = [] := by
        have hlen := length_lines pairs
        rw [hlines, List.length_nil] at hlen
        exact List.eq_nil_of_length_eq_zero (by omega)
      rw [get, if_pos rfl, if_pos hnil, hp]
    · have hpairs : storePairs (lines pairs) [] = some pairs := by
        exact storePairs_lines (by simpa using stored.distinct)
      rw [get, if_pos rfl, if_neg hnil, hsplit, hpairs, Option.map_some]
  constructor
  · simp [evenTokens, hsplit]
  · exact hget
  · simp [dump, hget]

theorem not_decoded_of_last {init : Map} {k : Text} (stored : Stored (init ++ [(k, [])])) :
    ¬ Decoded (init ++ [(k, [])]) := by
  intro h
  have hsplit := split_printed_empty stored
  have hne : execute (printed (init ++ [(k, [])])) ≠ [] := by
    intro hnil
    rw [hnil, split_eq, DelimitedLists.split] at hsplit
    simp at hsplit
  have hget := h.get
  rw [get, if_pos rfl, if_neg hne, hsplit, storePairs_odd] at hget
  simp at hget

/-- The pairs are read back exactly when the last one has a value. -/
theorem decoded_iff {pairs : Map} (stored : Stored pairs) :
    Decoded pairs ↔ ∀ p, pairs.getLast? = some p → p.2 ≠ [] := by
  rcases List.eq_nil_or_concat pairs with rfl | ⟨init, ⟨k, v⟩, rfl⟩
  · simp only [List.getLast?_nil, reduceCtorEq, false_implies, implies_true, iff_true]
    exact decoded_of_last stored (by simp)
  · rw [List.concat_eq_append] at stored ⊢
    simp only [List.getLast?_concat, Option.some.injEq, forall_eq']
    by_cases hv : v = []
    · subst hv
      simp [not_decoded_of_last stored]
    · simp only [ne_eq, hv, not_false_eq_true, iff_true]
      exact decoded_of_last stored (by rw [getLast?_lines]; simpa using hv)

theorem decoded_iff_node : Decoded [("/ohno/a".toList, []), ("/ohno/b".toList, "1".toList)] ↔
    ∀ p, [("/ohno/a".toList, []), ("/ohno/b".toList, "1".toList)].getLast? = some p → p.2 ≠ [] :=
  decoded_iff ⟨by decide, by decide, by decide⟩

/-- One key with an empty value: the loop reads a token that is not there. -/
theorem empty_value_last :
    Stored [("/ohno/a".toList, [])] ∧ ¬ Decoded [("/ohno/a".toList, [])] ∧
    evenTokens (execute (printed [("/ohno/a".toList, [])])) = false ∧
    dump ⟨true, execute (printed [("/ohno/a".toList, [])])⟩ = none := by
  have stored : Stored [("/ohno/a".toList, [])] := ⟨by decide, by decide, by decide⟩
  have hsplit : split (execute (printed [("/ohno/a".toList, [])])) '\n' = ["/ohno/a".toList] :=
    split_printed_empty (show Stored ([] ++ [(_, [])]) from stored)
  refine ⟨stored, not_decoded_of_last (show Stored ([] ++ [(_, [])]) from stored), ?_, ?_⟩
  · rw [evenTokens, hsplit]
    decide
  · rw [dump, get, hsplit]
    rfl

end Ohno.PrefixReads
