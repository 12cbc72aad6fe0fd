import Mathlib.Tactic.Common

/-!
# Objects that refine one another

An object answers calls and changes its state with each of them; `history`
gives the answers to a list of calls and the state it ends in. One object
refines another when every call that the abstract state admits is answered
alike and keeps the states related. `Refines.history` carries that over every
list of admitted calls.
-/
namespace Ohno.DataRefinement

variable {Call B S A : Type}

/-- The answers to a list of calls, and the state after them. -/
def history (step : Call → S → B × S) : List Call → S → List B × S
  | [], s => ([], s)
  | c :: calls, s =>
      let rest := history step calls (step c s).2
      ((step c s).1 :: rest.1, rest.2)

/-- Every call of a list is admitted in the state the calls before it lead to. -/
def Admitted (step : Call → A → B × A) (allows : Call → A → Prop) : List Call → A → Prop
  | [], _ => True
  | c :: calls, a => allows c a ∧ Admitted step allows calls (step c a).2

def Refines (concrete : Call → S → B × S) (abstract_ : Call → A → B × A)
    (allows : Call → A → Prop) (represents : S → A → Prop) : Prop :=
  ∀ c a s, allows c a → represents s a →
    (concrete c s).1 = (abstract_ c a).1 ∧ represents (concrete c s).2 (abstract_ c a).2

variable {concrete : Call → S → B × S} {abstract_ : Call → A → B × A}
  {allows : Call → A → Prop} {represents : S → A → Prop}

theorem Refines.history (h : Refines concrete abstract_ allows represents) (calls : List Call)
    (a : A) (s : S) (ha : Admitted abstract_ allows calls a) (hs : represents s a) :
    (history concrete calls s).1 = (history abstract_ calls a).1 ∧
      represents (history concrete calls s).2 (history abstract_ calls a).2 := by
  induction calls generalizing a s with
  | nil => exact ⟨rfl, hs⟩
  | cons c calls ih =>
      obtain ⟨hc, hrest⟩ := ha
      obtain ⟨hanswer, hstep⟩ := h c a s hc hs
      obtain ⟨hanswers, hend⟩ := ih _ _ hrest hstep
      exact ⟨congrArg₂ List.cons hanswer hanswers, hend⟩

/-- Answers that are rewritten one by one. -/
theorem history_map {B' : Type} (f : B → B') (step : Call → S → B × S) (calls : List Call) (s : S) :
    history (fun c s => (f (step c s).1, (step c s).2)) calls s =
      ((history step calls s).1.map f, (history step calls s).2) := by
  induction calls generalizing s with
  | nil => rfl
  | cons c calls ih => simp only [DataRefinement.history, ih, List.map_cons]

/-- Calls that are admitted in every state. -/
theorem Admitted.of_forall {allows : Call → Prop} {calls : List Call} (h : ∀ c ∈ calls, allows c)
    (a : A) : Admitted abstract_ (fun c _ => allows c) calls a := by
  induction calls generalizing a with
  | nil => trivial
  | cons c calls ih =>
      obtain ⟨hc, hrest⟩ := List.forall_mem_cons.mp h
      exact ⟨hc, ih hrest _⟩

/-- What every call of a list leaves alone, the list leaves alone. -/
theorem history_unchanged {O : Type} {step : Call → S → B × S} (observe : S → O)
    {calls : List Call} (h : ∀ c ∈ calls, ∀ s, observe (step c s).2 = observe s) (s : S) :
    observe (history step calls s).2 = observe s := by
  induction calls generalizing s with
  | nil => rfl
  | cons c calls ih =>
      obtain ⟨hc, hrest⟩ := List.forall_mem_cons.mp h
      exact (ih hrest _).trans (hc s)

end Ohno.DataRefinement
