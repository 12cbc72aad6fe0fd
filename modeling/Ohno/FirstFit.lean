import Mathlib.Data.List.Nodup

/-!
# First fit over named slots

Slots are numbered from 1 to `n` and known to the outside by a name. A list
records the names that are taken, oldest first. `firstFree` is the least slot
whose name is not taken. Names are over any type with decidable equality; the
only fact about them that is ever needed is that two slots differ in name.
-/
namespace Ohno.FirstFit

variable {α : Type} [DecidableEq α] {name : ℕ → α} {n i : ℕ} {taken : List α}

/-- The least of `count` slots from `start` on whose name is not taken. -/
def firstFrom (name : ℕ → α) (taken : List α) (start count : ℕ) : Option ℕ :=
  (List.range' start count).find? fun i => name i ∉ taken

def firstFree (name : ℕ → α) (n : ℕ) (taken : List α) : Option ℕ := firstFrom name taken 1 n

theorem firstFrom_succ (start count : ℕ) :
    firstFrom name taken start (count + 1) =
      if name start ∈ taken then firstFrom name taken (start + 1) count else some start := by
  simp only [firstFrom, List.range'_succ, List.find?_cons]
  split <;> simp_all

theorem firstFree_eq_some_iff :
    firstFree name n taken = some i ↔
      1 ≤ i ∧ i ≤ n ∧ name i ∉ taken ∧ ∀ j, 1 ≤ j → j < i → name j ∈ taken := by
  simp only [firstFree, firstFrom, List.find?_range'_eq_some, decide_eq_true_eq, List.mem_range'_1,
    Bool.not_eq_true', decide_eq_false_iff_not, not_not]
  constructor
  · rintro ⟨h, ⟨h₁, h₂⟩, h₃⟩
    exact ⟨h₁, by omega, h, h₃⟩
  · rintro ⟨h₁, h₂, h, h₃⟩
    exact ⟨h, ⟨h₁, by omega⟩, h₃⟩

theorem firstFree_eq_none_iff :
    firstFree name n taken = none ↔ ∀ j, 1 ≤ j → j ≤ n → name j ∈ taken := by
  simp only [firstFree, firstFrom, List.find?_eq_none, List.mem_range'_1,
    decide_eq_true_eq, not_not]
  exact ⟨fun h j h₁ h₂ => h j ⟨h₁, by omega⟩, fun h j hj => h j hj.1 (by omega)⟩

omit [DecidableEq α] in
/-- Taking the first free slot and giving names back keep names distinct. -/
theorem nodup_concat {x : α} (h : taken.Nodup) (hx : x ∉ taken) : (taken ++ [x]).Nodup :=
  List.nodup_append.mpr ⟨h, List.nodup_singleton x, fun a ha b hb => by
    rintro rfl
    exact hx (List.mem_singleton.mp hb ▸ ha)⟩

end Ohno.FirstFit
