import Mathlib.Algebra.Group.Nat.Defs
import Mathlib.Data.Set.Lattice
import Mathlib.Order.CompletePartialOrder
import Mathlib.Tactic.Common

/-!
# Blocks of numbers with common leading bits

The numbers that differ from `x` in the last `k` bits at most form a block of
`2 ^ k` neighbours. A block contains another strictly exactly when it is the
larger one and a number of the other belongs to it.
-/
namespace Ohno.DyadicBlocks

variable {j k w x y : ℕ}

def block (k x : ℕ) : Set ℕ := {y | y / 2 ^ k = x / 2 ^ k}

def first (k x : ℕ) : ℕ := x / 2 ^ k * 2 ^ k
def last (k x : ℕ) : ℕ := x / 2 ^ k * 2 ^ k + (2 ^ k - 1)

theorem mem_block : y ∈ block k x ↔ y / 2 ^ k = x / 2 ^ k := Iff.rfl

theorem self_mem_block (k x : ℕ) : x ∈ block k x := mem_block.mpr rfl

theorem first_add_mod (k x : ℕ) : first k x + x % 2 ^ k = x := by
  have h := Nat.div_add_mod x (2 ^ k)
  rw [Nat.mul_comm] at h
  exact h

theorem mem_block_iff : y ∈ block k x ↔ first k x ≤ y ∧ y ≤ last k x := by
  have hpos : 0 < 2 ^ k := Nat.two_pow_pos k
  rw [mem_block, Nat.div_eq_iff hpos, first, last, Nat.add_sub_assoc hpos]

/-- A step forward stays in the block as long as the last bits do not overflow. -/
theorem add_mem_block_iff (i : ℕ) : x + i ∈ block k x ↔ x % 2 ^ k + i < 2 ^ k := by
  have hpos : 0 < 2 ^ k := Nat.two_pow_pos k
  have hx := first_add_mod k x
  have hlast : last k x = first k x + (2 ^ k - 1) := rfl
  rw [mem_block_iff]
  omega

/-- All numbers of a block have the width of one of them. -/
theorem lt_of_mem_block (hx : x < 2 ^ w) (hk : k ≤ w) (hy : y ∈ block k x) : y < 2 ^ w := by
  have hsplit : 2 ^ w = 2 ^ (w - k) * 2 ^ k := by rw [← Nat.pow_add, Nat.sub_add_cancel hk]
  rw [hsplit] at hx ⊢
  rw [← Nat.div_lt_iff_lt_mul (Nat.two_pow_pos k)] at hx ⊢
  rwa [mem_block.mp hy]

theorem block_eq_of_mem (h : y ∈ block k x) : block k y = block k x := by
  ext z
  rw [mem_block, mem_block, mem_block.mp h]

theorem block_subset_block (h : j ≤ k) (x : ℕ) : block j x ⊆ block k x := by
  intro y hy
  have hsplit : 2 ^ k = 2 ^ j * 2 ^ (k - j) := by rw [← Nat.pow_add, Nat.add_sub_cancel' h]
  rw [mem_block, hsplit, ← Nat.div_div_eq_div_mul, ← Nat.div_div_eq_div_mul, mem_block.mp hy]

/-- The first number of the upper half of a block, and that of the lower half. -/
theorem halves_mem_block (h : j < k) (x : ℕ) :
    first k x ∈ block k x ∧ first k x + 2 ^ j ∈ block k x := by
  have hlt : 2 ^ j < 2 ^ k := Nat.pow_lt_pow_right (by omega) h
  have hpos : 0 < 2 ^ j := Nat.two_pow_pos j
  have hlast : last k x = first k x + (2 ^ k - 1) := rfl
  rw [mem_block_iff, mem_block_iff]
  omega

theorem block_ssubset_iff : block j x ⊂ block k y ↔ j < k ∧ x / 2 ^ k = y / 2 ^ k := by
  constructor
  · intro h
    obtain ⟨hsub, hnot⟩ := h
    have hx : x ∈ block k y := hsub (self_mem_block j x)
    refine ⟨?_, hx⟩
    by_contra hjk
    apply hnot
    rw [← block_eq_of_mem hx]
    exact block_subset_block (Nat.le_of_not_lt hjk) x
  · intro h
    obtain ⟨hjk, hx⟩ := h
    have hsub : block j x ⊆ block k y := by
      rw [← block_eq_of_mem (mem_block.mpr hx)]
      exact block_subset_block hjk.le x
    refine ⟨hsub, fun hback => ?_⟩
    -- one of two numbers at a distance of `2 ^ j` is outside the small block
    obtain ⟨hlow, hhigh⟩ := halves_mem_block hjk y
    have h₁ := mem_block.mp (hback hlow)
    have h₂ := mem_block.mp (hback hhigh)
    rw [Nat.add_div_right _ (Nat.two_pow_pos j)] at h₂
    omega

end Ohno.DyadicBlocks
