import Mathlib.Data.List.Basic
import Mathlib.Tactic.Common

/-!
# The words of a command line

A POSIX shell cuts a line at blanks, and characters such as `;`, `$` or a quote
have a meaning of their own. A line that has none of these is read as its words,
among which a vertical bar connects two commands. `unwords` puts arguments
behind each other with one blank between two; an empty argument leaves only its
blank, and the shell does not see it.
-/
namespace Ohno.ShellWords

/-- Letters, digits and what no shell looks at inside a word. -/
def plainChar (c : Char) : Bool :=
  c.isAlphanum || ['/', '.', ':', ',', '-', '_', '@', '+', '='].contains c

def Plain (t : List Char) : Prop := ∀ c ∈ t, plainChar c = true

def bar : List Char := ['|']

/-- What may stand in a line between two blanks. -/
def Token (t : List Char) : Prop := Plain t ∨ t = bar

def words (t : List Char) : List (List Char) := (t.splitOn ' ').filter (· ≠ [])

def unwords (ts : List (List Char)) : List Char := [' '].intercalate ts

/-- `none` for a line that the shell does more with than cutting it. -/
def lex (t : List Char) : Option (List (List Char)) :=
  if (words t).all fun w => w.all plainChar || w = bar then some (words t) else none

@[simp] theorem plain_nil : Plain [] := by
  intro c hc
  cases hc

@[simp] theorem plain_cons {c : Char} {t : List Char} :
    Plain (c :: t) ↔ plainChar c = true ∧ Plain t := List.forall_mem_cons

@[simp] theorem plain_append {t u : List Char} : Plain (t ++ u) ↔ Plain t ∧ Plain u :=
  List.forall_mem_append

theorem Plain.subset {t u : List Char} (hu : Plain u) (h : ∀ c ∈ t, c ∈ u) : Plain t :=
  fun c hc => hu c (h c hc)

theorem Token.blank_notMem {t : List Char} (h : Token t) : ' ' ∉ t := by
  intro hmem
  rcases h with h | rfl
  · have hblank := h ' ' hmem
    revert hblank
    decide
  · simp [bar] at hmem

theorem words_unwords {ts : List (List Char)} (h : ∀ t ∈ ts, ' ' ∉ t) :
    words (unwords ts) = ts.filter (· ≠ []) := by
  cases ts with
  | nil => rfl
  | cons t ts => rw [words, unwords, List.splitOn_intercalate ' ' h (by simp)]

theorem words_append (t u : List Char) : words (t ++ ' ' :: u) = words t ++ words u := by
  rw [words, List.splitOn_append_cons_self, List.filter_append]
  rfl

/-- The words of a line are those of its arguments, which may have blanks in them. -/
theorem words_unwords_append (ts : List (List Char)) {us : List (List Char)} (h : us ≠ []) :
    words (unwords (ts ++ us)) = ts.flatMap words ++ words (unwords us) := by
  induction ts with
  | nil => rfl
  | cons t ts ih =>
      have hline : unwords (t :: ts ++ us) = t ++ ' ' :: unwords (ts ++ us) := by
        rw [List.cons_append, unwords, List.intercalate_cons_of_ne_nil (by simp [h])]
        simp [unwords]
      rw [hline, words_append, ih, List.flatMap_cons, List.append_assoc]

theorem words_of_plain {t : List Char} (h : Plain t) : words t = [t].filter (· ≠ []) := by
  have hone : unwords [t] = t := List.intercalate_singleton
  have hblank : ∀ u ∈ [t], ' ' ∉ u :=
    fun u hu => List.mem_singleton.mp hu ▸ Token.blank_notMem (.inl h)
  rw [← words_unwords hblank, hone]

theorem flatMap_words {ts : List (List Char)} (h : ∀ t ∈ ts, Plain t) :
    ts.flatMap words = ts.filter (· ≠ []) := by
  induction ts with
  | nil => rfl
  | cons t ts ih =>
      obtain ⟨ht, hts⟩ := List.forall_mem_cons.mp h
      rw [List.flatMap_cons, words_of_plain ht, ih hts, ← List.filter_append, List.singleton_append]

/-- The shell sees the arguments that are not empty, and nothing else. -/
theorem lex_unwords {ts : List (List Char)} (h : ∀ t ∈ ts, Token t) :
    lex (unwords ts) = some (ts.filter (· ≠ [])) := by
  have hwords := words_unwords fun t ht => (h t ht).blank_notMem
  rw [lex, hwords, if_pos]
  rw [List.all_eq_true]
  intro w hw
  rcases h w (List.mem_of_mem_filter hw) with hplain | rfl
  · rw [List.all_eq_true.mpr hplain, Bool.true_or]
  · rfl

end Ohno.ShellWords
