import Ohno.CommandPrograms

/-!
# Processes that share a state

A pool holds the programs of any number of calls. A schedule names the process
that issues its next command; one command is one atomic step, and the step that
ends a program also enters its result in a log. A clock counts the commands
that `ticks` selects, and every process remembers the clock at each of its own
commands, so that a condition can speak of what happened between two of them.

The proof rule is the rely-guarantee rule. `Guarded` asks of one program that
each of its commands keeps `rely`, whatever the others do in between, as long
as `rely` describes it. `run_rely` puts the processes together.
-/
namespace Ohno.InterleavedPrograms
open CommandPrograms

variable {K C R E A S : Type}

/-- A call, what is left of its program, and the clock at each of the commands
it has issued, the latest first. -/
structure Process (K C R E A : Type) where
  call : K
  rest : Program C R E A
  seen : List ℕ := []

/-- What all processes can see or change. -/
structure View (K E A S : Type) where
  shared : S
  clock : ℕ := 0
  log : List (K × Except E A) := []

structure Pool (K C R E A S : Type) extends View K E A S where
  processes : List (Process K C R E A)

/-- The log entry of a program, if nothing is left of it. -/
def finished (k : K) : Program C R E A → List (K × Except E A)
  | .pure a => [(k, .ok a)]
  | .throw e => [(k, .error e)]
  | .call _ _ => []

theorem fst_of_finished {k : K} {p : Program C R E A} {e : K × Except E A} (h : e ∈ finished k p) :
    e.1 = k := by
  cases p with
  | pure a => exact congrArg Prod.fst (List.mem_singleton.mp h)
  | throw err => exact congrArg Prod.fst (List.mem_singleton.mp h)
  | call c next => exact absurd h (List.not_mem_nil)

/-- Which commands the handler, the clock and the condition on commands are. -/
structure Rules (K C R S : Type) where
  handle : C → S → R × S
  ticks : K → C → Bool
  allowed : K → C → List ℕ → ℕ → Prop

variable (rules : Rules K C R S)

/-- The view after call `k` has issued `c`, with `rest` left of its program. -/
def View.issue (v : View K E A S) (k : K) (c : C) (rest : Program C R E A) : View K E A S where
  shared := (rules.handle c v.shared).2
  clock := if rules.ticks k c then v.clock + 1 else v.clock
  log := v.log ++ finished k rest

@[simp] theorem View.issue_log_call (v : View K E A S) (k : K) (c c' : C)
    (next : R → Program C R E A) : (v.issue rules k c (.call c' next)).log = v.log :=
  List.append_nil v.log

/-- Process `i` issues its next command. -/
def Pool.step (w : Pool K C R E A S) (i : ℕ) : Pool K C R E A S :=
  match w.processes[i]? with
  | some ⟨k, .call c next, seen⟩ =>
      let rest := next (rules.handle c w.shared).1
      { w.toView.issue rules k c rest with
        processes := w.processes.set i ⟨k, rest, w.clock :: seen⟩ }
  | _ => w

def Pool.run (w : Pool K C R E A S) (schedule : List ℕ) : Pool K C R E A S :=
  schedule.foldl (Pool.step rules) w

/-- The command that process `i` is about to issue is allowed. -/
def Pool.Allowed (w : Pool K C R E A S) (i : ℕ) : Prop :=
  match w.processes[i]? with
  | some ⟨k, .call c _, seen⟩ => rules.allowed k c seen w.clock
  | _ => True

/-- Every command of a schedule is allowed when it is issued. -/
def Pool.AllAllowed (w : Pool K C R E A S) : List ℕ → Prop
  | [] => True
  | i :: schedule => w.Allowed rules i ∧ (w.step rules i).AllAllowed schedule

/-- Only the calls of a pool enter its log. -/
theorem Pool.run_log (w : Pool K C R E A S) (schedule : List ℕ) :
    ∀ e ∈ (w.run rules schedule).log, e ∈ w.log ∨ e.1 ∈ w.processes.map Process.call := by
  induction schedule generalizing w with
  | nil => exact fun e he => .inl he
  | cons i schedule ih =>
      intro e he
      have hstep : (e ∈ (w.step rules i).log → e ∈ w.log ∨ e.1 ∈ w.processes.map Process.call) ∧
          (w.step rules i).processes.map Process.call = w.processes.map Process.call := by
        unfold Pool.step
        split
        · rename_i k c next seen hi
          have hk : k ∈ w.processes.map Process.call :=
            List.mem_map_of_mem (f := Process.call) (List.mem_of_getElem? hi)
          constructor
          · intro h
            rcases List.mem_append.mp h with h | h
            · exact .inl h
            · exact .inr (fst_of_finished h ▸ hk)
          · obtain ⟨hlt, hget⟩ := List.getElem?_eq_some_iff.mp hi
            have hmap : i < (w.processes.map Process.call).length := by simpa using hlt
            have hcall : k = (w.processes.map Process.call)[i] := by simp [hget]
            simp only [List.map_set]
            rw [hcall, List.set_getElem_self]
        · exact ⟨.inl, rfl⟩
      rcases ih (w.step rules i) e he with h | h
      · exact hstep.1 h
      · exact .inr (hstep.2 ▸ h)

section Decidable
variable [hd : ∀ k c seen now, Decidable (rules.allowed k c seen now)]

instance (w : Pool K C R E A S) (i : ℕ) : Decidable (w.Allowed rules i) :=
  match h : w.processes[i]? with
  | some ⟨k, .call c _, seen⟩ =>
      decidable_of_iff (rules.allowed k c seen w.clock) (by simp [Pool.Allowed, h])
  | some ⟨_, .pure _, _⟩ => .isTrue (by simp [Pool.Allowed, h])
  | some ⟨_, .throw _, _⟩ => .isTrue (by simp [Pool.Allowed, h])
  | none => .isTrue (by simp [Pool.Allowed, h])

instance decideAllAllowed (w : Pool K C R E A S) :
    (schedule : List ℕ) → Decidable (w.AllAllowed rules schedule)
  | [] => .isTrue trivial
  | i :: schedule =>
      have := decideAllAllowed (w.step rules i) schedule
      inferInstanceAs (Decidable (w.Allowed rules i ∧ (w.step rules i).AllAllowed rules schedule))

end Decidable

/-- Each command of the program keeps `rely` if it is allowed, for every change
of the view that `rely` describes before it. -/
def Guarded (rely : View K E A S → View K E A S → Prop) (k : K) :
    Program C R E A → List ℕ → View K E A S → Prop
  | .pure _, _, _ => True
  | .throw _, _, _ => True
  | .call c next, seen, v =>
      ∀ u, rely v u → rules.allowed k c seen u.clock →
        let rest := next (rules.handle c u.shared).1
        rely u (u.issue rules k c rest) ∧
          Guarded rely k rest (u.clock :: seen) (u.issue rules k c rest)

/-- All processes are guarded at the view of the pool. -/
def Pool.AllGuarded (w : Pool K C R E A S) (rely : View K E A S → View K E A S → Prop) : Prop :=
  ∀ p ∈ w.processes, Guarded rules rely p.call p.rest p.seen w.toView

section Rule
variable {rules} {rely : View K E A S → View K E A S → Prop}

theorem Guarded.later (trans : ∀ u v w, rely u v → rely v w → rely u w) {k : K}
    {p : Program C R E A} {seen : List ℕ} {v u : View K E A S}
    (h : Guarded rules rely k p seen v) (hu : rely v u) : Guarded rules rely k p seen u := by
  cases p with
  | pure a => trivial
  | throw e => trivial
  | call c next => exact fun w hw => h w (trans v u w hu hw)

theorem step_rely (trans : ∀ u v w, rely u v → rely v w → rely u w) {w : Pool K C R E A S}
    (now : rely w.toView w.toView) (hg : w.AllGuarded rules rely) (i : ℕ)
    (ha : w.Allowed rules i) :
    rely w.toView (w.step rules i).toView ∧ (w.step rules i).AllGuarded rules rely := by
  unfold Pool.step
  unfold Pool.Allowed at ha
  split
  · rename_i k c next seen hi
    simp only [hi] at ha
    have hp := hg _ (List.mem_of_getElem? hi) w.toView now ha
    refine ⟨hp.1, fun p hmem => ?_⟩
    rcases List.mem_or_eq_of_mem_set hmem with hmem | rfl
    · exact (hg p hmem).later trans hp.1
    · exact hp.2
  · exact ⟨now, hg⟩

/-- A run whose commands are all allowed keeps `rely`, if every program does. -/
theorem run_rely (trans : ∀ u v w, rely u v → rely v w → rely u w)
    (stable : ∀ u v, rely u v → rely v v) {w : Pool K C R E A S}
    (now : rely w.toView w.toView) (hg : w.AllGuarded rules rely) (schedule : List ℕ)
    (ha : w.AllAllowed rules schedule) : rely w.toView (w.run rules schedule).toView := by
  induction schedule generalizing w with
  | nil => exact now
  | cons i schedule ih =>
      obtain ⟨hi, hrest⟩ := ha
      obtain ⟨hstep, hnext⟩ := step_rely trans now hg i hi
      exact trans _ _ _ hstep (ih (stable _ _ hstep) hnext hrest)

end Rule
end Ohno.InterleavedPrograms
