import Mathlib.Data.List.Basic
import Mathlib.Data.List.Infix
import Mathlib.Data.List.TakeWhile
import Mathlib.Data.Nat.Find

/-!
# Searching a sequence for a part of it

`find` is the position of the first occurrence of a pattern at or behind a
position. `List.dropInfix?` gives what stands in front of that occurrence and
behind it. A pattern without borders, no proper part of which is both at its
beginning and at its end, cannot begin in a text that it does not occur in and
end behind it. Items are over any type with decidable equality.
-/
namespace Ohno.TextSearch

variable {α : Type} [BEq α] [LawfulBEq α] {pattern text u v x y z : List α}

def find (pattern text : List α) (pos : ℕ) : Option ℕ :=
  ((text.drop pos).dropInfix? pattern).map fun cut => pos + cut.1.length

omit [LawfulBEq α] [BEq α] in
/-- Only nothing and the pattern itself are at both of its ends. -/
def Borderless (pattern : List α) : Prop :=
  ∀ k < pattern.length, 0 < k → pattern.take k ≠ pattern.drop (pattern.length - k)

theorem dropInfix?_eq_some :
    text.dropInfix? pattern = some (x, y) ↔
      text = x ++ pattern ++ y ∧
        ∀ x' y', text = x' ++ pattern ++ y' → x.length ≤ x'.length := by
  rw [List.dropInfix?_eq_some_iff]
  constructor
  · intro h
    obtain ⟨⟨i, ht, hi⟩, hfirst⟩ := h
    rw [beq_iff_eq] at hi
    subst hi
    exact ⟨ht, fun x' y' h' => hfirst x' i y' h' (beq_self_eq_true i)⟩
  · intro h
    refine ⟨⟨pattern, h.1, beq_self_eq_true pattern⟩, ?_⟩
    intro x' i y' h' hi
    rw [beq_iff_eq] at hi
    subst hi
    exact h.2 x' y' h'

/-- A pattern that occurs has a first occurrence. -/
theorem exists_dropInfix? (h : pattern <:+: text) :
    ∃ x y, text.dropInfix? pattern = some (x, y) := by
  classical
  have hex : ∃ n x y, text = x ++ pattern ++ y ∧ x.length = n := by
    obtain ⟨x, y, ht⟩ := h
    exact ⟨x.length, x, y, ht.symm, rfl⟩
  obtain ⟨x, y, ht, hx⟩ := Nat.find_spec hex
  refine ⟨x, y, dropInfix?_eq_some.mpr ⟨ht, ?_⟩⟩
  intro x' y' ht'
  rw [hx]
  exact Nat.find_min' hex ⟨x', y', ht', rfl⟩

theorem dropInfix?_eq_none : text.dropInfix? pattern = none ↔ ¬ pattern <:+: text := by
  constructor
  · intro h hin
    obtain ⟨x, y, hxy⟩ := exists_dropInfix? hin
    simp [h] at hxy
  · intro h
    cases hxy : text.dropInfix? pattern with
    | none => rfl
    | some cut =>
        have ht := (dropInfix?_eq_some.mp (show _ = some (cut.1, cut.2) from hxy)).1
        exact absurd ⟨cut.1, cut.2, ht.symm⟩ h

/-- A first occurrence stays the first when the text goes on. -/
theorem dropInfix?_append (h : u.dropInfix? pattern = some (x, y)) (z : List α) :
    (u ++ z).dropInfix? pattern = some (x, y ++ z) := by
  obtain ⟨hu, hfirst⟩ := dropInfix?_eq_some.mp h
  rw [dropInfix?_eq_some]
  refine ⟨by rw [hu]; simp, ?_⟩
  intro x' y' ht
  by_contra hlt
  have hle : (x' ++ pattern).length ≤ u.length := by
    have hlen := congrArg List.length hu
    simp only [List.length_append] at hlen ⊢
    omega
  have hpre : x' ++ pattern <+: u :=
    List.prefix_of_prefix_length_le ⟨y', ht.symm⟩ (List.prefix_append u z) hle
  obtain ⟨r, hr⟩ := hpre
  exact hlt (hfirst x' r hr.symm)

/-- A pattern without borders is found where it was appended. -/
theorem dropInfix?_append_self (hb : Borderless pattern) (h : ¬ pattern <:+: u) (z : List α) :
    (u ++ pattern ++ z).dropInfix? pattern = some (u, z) := by
  rw [dropInfix?_eq_some]
  refine ⟨rfl, ?_⟩
  intro x' y' ht
  by_contra hlt
  rw [List.append_assoc, List.append_assoc] at ht
  obtain ⟨t, hx, -⟩ | ⟨t, hu, hrest⟩ := List.append_eq_append_iff.mp ht
  · have hlen := congrArg List.length hx
    rw [List.length_append] at hlen
    omega
  · -- The occurrence begins in `u`, so `t` is a beginning of the pattern.
    obtain ⟨s, ht, -⟩ | ⟨r, hpattern, hr⟩ := List.append_eq_append_iff.mp hrest
    · exact h ⟨x', s, by rw [hu, ht, List.append_assoc]⟩
    · have hlen := congrArg List.length hpattern
      have hulen := congrArg List.length hu
      rw [List.length_append] at hlen hulen
      by_cases hnil : r = []
      · exact h ⟨x', [], by rw [hu, hpattern, hnil, List.append_nil, List.append_nil]⟩
      · have hpos : 0 < r.length := List.length_pos_of_ne_nil hnil
        have htake : pattern.take r.length = r := by
          have hpre := congrArg (List.take r.length) hr
          rwa [List.take_append_of_le_length (by omega), List.take_left] at hpre
        have hdrop : pattern.drop (pattern.length - r.length) = r := by
          have hsub : pattern.length - r.length = t.length := by omega
          rw [hsub]
          conv_lhs => rw [hpattern]
          exact List.drop_left
        exact hb r.length (by omega) hpos (htake.trans hdrop.symm)

/-- So is one whose first item is not in the text. -/
theorem dropInfix?_append_of_notMem {c : α} (h : c ∉ u) (z : List α) :
    (u ++ c :: pattern ++ z).dropInfix? (c :: pattern) = some (u, z) := by
  rw [dropInfix?_eq_some]
  refine ⟨rfl, ?_⟩
  intro x' y' ht
  by_contra hlt
  rw [List.append_assoc, List.append_assoc] at ht
  obtain ⟨t, hx, -⟩ | ⟨t, hu, hrest⟩ := List.append_eq_append_iff.mp ht
  · have hlen := congrArg List.length hx
    rw [List.length_append] at hlen
    omega
  · cases t with
    | nil =>
        have hlen := congrArg List.length hu
        rw [List.length_append, List.length_nil] at hlen
        omega
    | cons b t =>
        have hb : c = b := (List.cons.inj hrest).1
        exact h (hu ▸ List.mem_append_right x' (hb ▸ List.mem_cons_self))

/-! ### Positions -/

theorem find_eq_none {pos : ℕ} : find pattern text pos = none ↔ ¬ pattern <:+: text.drop pos := by
  rw [find, Option.map_eq_none_iff, dropInfix?_eq_none]

omit [LawfulBEq α] in
theorem find_of_dropInfix? {pos : ℕ} (h : (text.drop pos).dropInfix? pattern = some (x, y)) :
    find pattern text pos = some (pos + x.length) := by
  rw [find, h, Option.map_some]

/-- From a position to the next `c`, or to the end. -/
theorem take_find [DecidableEq α] (c : α) {text : List α} (pos : ℕ) :
    (text.drop pos).take ((find [c] text pos).getD text.length - pos) =
      (text.drop pos).takeWhile (· ≠ c) := by
  by_cases h : c ∈ text.drop pos
  · obtain ⟨u, z, ht, hu⟩ := List.eq_append_cons_of_mem h
    have hall : ∀ b ∈ u, decide (b ≠ c) = true := by
      intro b hb
      simpa using fun he : b = c => hu (he ▸ hb)
    have hcut : (text.drop pos).dropInfix? [c] = some (u, z) := by
      rw [ht]
      have hsingle : (u ++ [c] ++ z).dropInfix? [c] = some (u, z) :=
        dropInfix?_append_of_notMem hu z
      rwa [List.append_assoc] at hsingle
    rw [find_of_dropInfix? hcut, Option.getD_some, Nat.add_sub_cancel_left, ht, List.take_left,
      List.takeWhile_append_of_pos hall]
    simp
  · have hall : ∀ b ∈ text.drop pos, decide (b ≠ c) = true := by
      intro b hb
      simpa using fun he : b = c => h (he ▸ hb)
    have hnone : find [c] text pos = none := by
      rw [find_eq_none, List.singleton_infix_iff]
      exact h
    rw [hnone, Option.getD_none, List.take_of_length_le (by rw [List.length_drop]),
      List.takeWhile_eq_self_iff.mpr hall]

end Ohno.TextSearch
