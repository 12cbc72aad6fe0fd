import Mathlib.Data.List.Basic

/-!
# Lists kept as one delimited sequence

A list of items is written by putting a delimiter between neighbours and read
back by cutting at every delimiter. `split` is the reader that stops at the end
of its input: it returns no item for an empty input and none for what follows a
final delimiter, so it differs from `List.splitOn` by one trailing empty item.
`join` is `List.intercalate`. Items are over any type with decidable equality.
-/
namespace Ohno.DelimitedLists

variable {α : Type} [DecidableEq α]

/-- Cut at every `d`; the end of the input ends the last item, if one began. -/
def split (d : α) : List α → List (List α)
  | [] => []
  | c :: cs =>
      if c = d then [] :: split d cs else
        match split d cs with
        | [] => [[c]]
        | t :: ts => (c :: t) :: ts

/-- Items with one `d` between neighbours. -/
def join (d : α) (items : List (List α)) : List α := [d].intercalate items

/-- What `join` writes and `split` reads back without loss. -/
structure Readable (d : α) (items : List (List α)) : Prop where
  free : ∀ x ∈ items, d ∉ x
  last : items.getLast? ≠ some []

omit [DecidableEq α] in
@[simp] theorem join_nil (d : α) : join d [] = [] := rfl
omit [DecidableEq α] in
@[simp] theorem join_singleton (d : α) (x : List α) : join d [x] = x := List.intercalate_singleton

omit [DecidableEq α] in
theorem join_cons (d : α) (x : List α) {items : List (List α)} (h : items ≠ []) :
    join d (x :: items) = x ++ d :: join d items := by
  simp only [join, List.intercalate_cons_of_ne_nil h, List.append_assoc, List.singleton_append]

omit [DecidableEq α] in
theorem join_concat (d : α) {items : List (List α)} (h : items ≠ []) (x : List α) :
    join d (items ++ [x]) = join d items ++ d :: x := by
  induction items with
  | nil => exact absurd rfl h
  | cons y items ih =>
      cases items with
      | nil => simp [join_cons]
      | cons z items =>
          have hz := ih (List.cons_ne_nil z items)
          rw [List.cons_append, join_cons d y (by simp), hz, join_cons d y (by simp)]
          simp only [List.append_assoc, List.cons_append]

omit [DecidableEq α] in
theorem join_eq_nil_iff (d : α) (items : List (List α)) :
    join d items = [] ↔ items = [] ∨ items = [[]] := by
  cases items with
  | nil => simp
  | cons x items =>
      cases items with
      | nil => simp
      | cons y items => simp [join_cons]

omit [DecidableEq α] in
theorem mem_join (d : α) {items : List (List α)} {c : α} (h : c ∈ join d items) :
    c = d ∨ ∃ x ∈ items, c ∈ x := by
  induction items with
  | nil => simp at h
  | cons x items ih =>
      by_cases hi : items = []
      · subst hi
        exact .inr ⟨x, by simp, by simpa using h⟩
      · rw [join_cons d x hi, List.mem_append, List.mem_cons] at h
        rcases h with h | h | h
        · exact .inr ⟨x, by simp, h⟩
        · exact .inl h
        · rcases ih h with h | ⟨y, hy, hc⟩
          · exact .inl h
          · exact .inr ⟨y, by simp [hy], hc⟩

theorem splitOn_cons (d c : α) (cs : List α) :
    (c :: cs).splitOn d =
      if c = d then [] :: cs.splitOn d else (cs.splitOn d).modifyHead (List.cons c) := by
  simp only [List.splitOn_cons_eq_if_modifyHead, beq_iff_eq]

theorem split_eq_nil_iff (d : α) (s : List α) : split d s = [] ↔ s = [] := by
  cases s with
  | nil => simp [split]
  | cons c cs =>
      simp only [split, reduceCtorEq, iff_false]
      split
      · simp
      · split <;> simp

/-- Only the item after the end of the input or a final delimiter is missing. -/
theorem splitOn_eq (d : α) (s : List α) :
    s.splitOn d = if s = [] ∨ s.getLast? = some d then split d s ++ [[]] else split d s := by
  induction s with
  | nil => simp [split]
  | cons c cs ih =>
      rw [splitOn_cons, ih]
      cases cs with
      | nil => by_cases hc : c = d <;> simp [split, hc]
      | cons b cs =>
          obtain ⟨t, ts, ht⟩ : ∃ t ts, split d (b :: cs) = t :: ts :=
            List.exists_cons_of_ne_nil (by simp [split_eq_nil_iff])
          by_cases hc : c = d
          · by_cases hl : (b :: cs).getLast? = some d <;>
              simp [split, hc, hl, List.getLast?_cons_cons]
          · by_cases hl : (b :: cs).getLast? = some d <;>
              simp [split.eq_2 d c, hc, ht, hl, List.getLast?_cons_cons]

/-- No item that is read contains the delimiter. -/
theorem free_of_mem_split (d : α) (s : List α) : ∀ x ∈ split d s, d ∉ x := by
  induction s with
  | nil => simp [split]
  | cons c cs ih =>
      simp only [split]
      split
      · simpa using ih
      · rename_i hc
        split
        · simpa using Ne.symm hc
        · rename_i t ts ht
          rw [ht] at ih
          simp only [List.mem_cons, forall_eq_or_imp] at ih ⊢
          exact ⟨fun h => h.elim (fun h => hc h.symm) ih.1, ih.2⟩

/-- What is read is part of the input. -/
theorem mem_of_mem_split (d : α) {s x : List α} (hx : x ∈ split d s) : ∀ c ∈ x, c ∈ s := by
  induction s generalizing x with
  | nil => simp [split] at hx
  | cons b s ih =>
      simp only [split] at hx
      split at hx
      · rcases List.mem_cons.mp hx with rfl | hx
        · simp
        · exact fun c hc => List.mem_cons_of_mem b (ih hx c hc)
      · split at hx
        · intro c hc
          rw [List.mem_singleton.mp hx] at hc
          simp [List.mem_singleton.mp hc]
        · rename_i t ts ht
          rw [ht] at ih
          intro c hc
          rcases List.mem_cons.mp hx with rfl | hx
          · rcases List.mem_cons.mp hc with rfl | hc
            · exact List.mem_cons_self
            · exact List.mem_cons_of_mem b (ih List.mem_cons_self c hc)
          · exact List.mem_cons_of_mem b (ih (List.mem_cons_of_mem t hx) c hc)

/-- Reading what was written. -/
theorem split_join (d : α) {items : List (List α)} (h : Readable d items) :
    split d (join d items) = items := by
  by_cases hn : items = []
  · subst hn; simp [split]
  have hs : (join d items).splitOn d = items := List.splitOn_intercalate d h.free hn
  rw [splitOn_eq] at hs
  split at hs
  · have hl := congrArg List.getLast? hs
    rw [List.getLast?_append] at hl
    exact absurd hl.symm h.last
  · exact hs

/-- Behind a delimiter reading starts anew. -/
theorem split_append_cons (d : α) (s r : List α) :
    split d (s ++ d :: r) = s.splitOn d ++ split d r := by
  induction s with
  | nil => simp [split]
  | cons c s ih =>
      rw [List.cons_append, splitOn_cons, split, ih]
      split
      · rfl
      · cases hs : s.splitOn d with
        | nil => exact absurd hs (List.splitOn_ne_nil d s)
        | cons t ts => rfl

omit [DecidableEq α] in
theorem join_append (d : α) {xs ys : List (List α)} (hx : xs ≠ []) (hy : ys ≠ []) :
    join d (xs ++ ys) = join d xs ++ d :: join d ys := by
  induction xs with
  | nil => exact absurd rfl hx
  | cons x xs ih =>
      by_cases hn : xs = []
      · subst hn
        rw [List.singleton_append, join_cons d x hy, join_singleton]
      · rw [List.cons_append, join_cons d x (by simp [hn]), ih hn, join_cons d x hn,
          List.append_assoc, List.cons_append]

/-- Reading stops at the first delimiter and goes on behind it. -/
theorem split_append (d : α) {x : List α} (h : d ∉ x) (r : List α) :
    split d (x ++ d :: r) = x :: split d r := by
  induction x with
  | nil => simp [split]
  | cons c x ih =>
      have hc : c ≠ d := fun he => h (he ▸ List.mem_cons_self)
      have hx : d ∉ x := fun hm => h (List.mem_cons_of_mem c hm)
      rw [List.cons_append, split, if_neg hc, ih hx]

omit [DecidableEq α] in
theorem Readable.nil (d : α) : Readable d ([] : List (List α)) := ⟨by simp, by simp⟩

omit [DecidableEq α] in
/-- Appending one item that can be read leaves the list readable, whatever the
earlier items are, as long as they do not contain the delimiter. -/
theorem Readable.concat {d : α} {items : List (List α)} {x : List α}
    (h : ∀ y ∈ items, d ∉ y) (hx : d ∉ x) (hn : x ≠ []) : Readable d (items ++ [x]) := by
  refine ⟨?_, by simpa using hn⟩
  intro y hy
  rcases List.mem_append.mp hy with hy | hy
  · exact h y hy
  · simpa [List.mem_singleton.mp hy] using hx

omit [DecidableEq α] in
/-- Lists without empty items stay readable when items are dropped. -/
theorem Readable.of_forall {d : α} {items : List (List α)}
    (h : ∀ x ∈ items, d ∉ x ∧ x ≠ []) : Readable d items :=
  ⟨fun x hx => (h x hx).1, fun hl => (h [] (List.mem_of_getLast? hl)).2 rfl⟩

/-- An item alone. -/
theorem split_eq_singleton {d : α} {x : List α} (hd : d ∉ x) (hn : x ≠ []) : split d x = [x] := by
  have hr : Readable d [x] := Readable.of_forall (by simp [hd, hn])
  simpa using split_join d hr

omit [DecidableEq α] in
theorem eq_nil_of_prefix_cons (d : α) {y c : List α} (hc : d ∉ c) (h : c <+: d :: y) : c = [] := by
  cases c with
  | nil => rfl
  | cons b c =>
      have hb : b = d := (List.cons_prefix_cons.mp h).1
      exact absurd (hb ▸ List.mem_cons_self) hc

omit [DecidableEq α] in
/-- What does not contain the delimiter occurs on one side of it. -/
theorem infix_append_cons_iff (d : α) {x y c : List α} (hc : d ∉ c) :
    c <:+: x ++ d :: y ↔ c <:+: x ∨ c <:+: y := by
  constructor
  · intro h
    rcases List.infix_append_iff.mp h with h | h | ⟨l, r, hlr, hl, hr⟩
    · exact .inl h
    · rcases List.infix_cons_iff.mp h with h | h
      · rw [eq_nil_of_prefix_cons d hc h]
        exact .inl List.nil_infix
      · exact .inr h
    · have hd : d ∉ r := fun hd => hc (hlr ▸ List.mem_append_right l hd)
      rw [eq_nil_of_prefix_cons d hd hr, List.append_nil] at hlr
      exact .inl (hlr ▸ hl.isInfix)
  · intro h
    rcases h with h | h
    · exact h.trans (List.prefix_append x _).isInfix
    · exact h.trans (List.infix_append_of_infix_right (List.infix_cons List.infix_rfl))

omit [DecidableEq α] in
/-- It occurs in a written list exactly when it occurs in one of the items. -/
theorem infix_join_iff (d : α) {items : List (List α)} {c : List α} (hc : d ∉ c) (hn : c ≠ []) :
    c <:+: join d items ↔ ∃ x ∈ items, c <:+: x := by
  induction items with
  | nil => simp [hn]
  | cons x items ih =>
      by_cases hi : items = []
      · simp [hi]
      · rw [join_cons d x hi, infix_append_cons_iff d hc, ih]
        simp

omit [DecidableEq α] in
theorem infix_join_of_mem (d : α) {items : List (List α)} {x : List α} (hx : x ∈ items) :
    x <:+: join d items := by
  induction items with
  | nil => simp at hx
  | cons y items ih =>
      by_cases hi : items = []
      · rw [hi, List.mem_singleton] at hx
        have hjoin : join d (y :: items) = x := by rw [hi, join_singleton, hx]
        exact hjoin ▸ List.infix_rfl
      · rw [join_cons d y hi]
        rcases List.mem_cons.mp hx with rfl | hx
        · exact (List.prefix_append x _).isInfix
        · exact List.infix_append_of_infix_right (List.infix_cons (ih hx))

end Ohno.DelimitedLists
