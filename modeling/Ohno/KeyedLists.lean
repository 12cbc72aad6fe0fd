import Mathlib.Data.List.Basic

/-!
# Maps as lists of pairs

`List.lookup` reads a map that is kept as a list of keys and values. `assign`
is its assignment: a key that is there keeps its place and gets the new value,
another one comes last. Keys are over any type with decidable equality.
-/
namespace Ohno.KeyedLists

variable {K V : Type} [DecidableEq K]

def assign : List (K × V) → K → V → List (K × V)
  | [], k, v => [(k, v)]
  | e :: m, k, v => if e.1 = k then (k, v) :: m else e :: assign m k v

variable {m : List (K × V)} {k : K}

theorem assign_of_notMem (h : k ∉ m.map Prod.fst) (v : V) : assign m k v = m ++ [(k, v)] := by
  induction m with
  | nil => rfl
  | cons e m ih =>
      rw [List.map_cons, List.mem_cons, not_or] at h
      rw [assign, if_neg (Ne.symm h.1), ih h.2, List.cons_append]

/-- Reading is by the test for equality that the type of the keys has. -/
theorem lookup_cons_eq [BEq K] [LawfulBEq K] (e : K × V) (m : List (K × V)) (k : K) :
    (e :: m).lookup k = if k = e.1 then some e.2 else m.lookup k := by
  obtain ⟨a, b⟩ := e
  by_cases h : k = a
  · simp [h]
  · have hne : (k == a) = false := by simpa using h
    simp only [List.lookup_cons, hne, if_neg h]

theorem lookup_assign [BEq K] [LawfulBEq K] (m : List (K × V)) (k : K) (v : V) (k' : K) :
    (assign m k v).lookup k' = if k' = k then some v else m.lookup k' := by
  induction m with
  | nil => rw [assign, lookup_cons_eq]
  | cons e m ih =>
      by_cases he : e.1 = k
      · rw [assign, if_pos he, lookup_cons_eq, lookup_cons_eq, he]
        split <;> rfl
      · rw [assign, if_neg he, lookup_cons_eq, lookup_cons_eq, ih]
        by_cases h : k' = e.1
        · have hne : k' ≠ k := h ▸ he
          rw [if_pos h, if_neg hne, if_pos h]
        · rw [if_neg h, if_neg h]

end Ohno.KeyedLists
