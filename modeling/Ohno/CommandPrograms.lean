import Mathlib.Tactic.Common

/-!
# Programs that issue commands and may throw

A program is a finite tree: it returns, throws, or issues one command and
continues with the reply. The tree does not say what a command does. `run`
resolves every command by one function on states, and `Exec` by a relation, so
a command that may fail, or whose answer is unknown, has several continuations.

`Safe H p Q s` says that every execution of `p` from `s` under `H` ends in `Q`.
It is computed along the tree and is the only proof rule the developments
below use: `safe_bind` cuts a program into its calls, `safe_det` turns it into
an equation about `run`, and `safe_embed` moves a program that issues one kind
of command into one that issues several.
-/
namespace Ohno.CommandPrograms

/-- A tree of commands `C` with replies `R`, exceptions `E` and results `A`. -/
inductive Program (C R E : Type) (A : Type) : Type where
  | pure (a : A)
  | throw (e : E)
  | call (c : C) (next : R → Program C R E A)

variable {C D R E A B S T : Type}

namespace Program

def bind (p : Program C R E A) (f : A → Program C R E B) : Program C R E B :=
  match p with
  | .pure a => f a
  | .throw e => .throw e
  | .call c next => .call c (fun r => (next r).bind f)

/-- The handler runs after whatever the program did before it threw. -/
def catch_ (p : Program C R E A) (h : E → Program C R E A) : Program C R E A :=
  match p with
  | .pure a => .pure a
  | .throw e => h e
  | .call c next => .call c (fun r => (next r).catch_ h)

instance : Monad (Program C R E) where
  pure := .pure
  bind := .bind

/-- One command, its reply being the result. -/
def request (c : C) : Program C R E R := .call c .pure

/-- A computation without commands that may throw. -/
def ofExcept : Except E A → Program C R E A
  | .ok a => .pure a
  | .error e => .throw e

/-- The same program with its commands renamed. -/
def embed (inj : C → D) (p : Program C R E A) : Program D R E A :=
  match p with
  | .pure a => .pure a
  | .throw e => .throw e
  | .call c next => .call (inj c) (fun r => (next r).embed inj)

@[simp] theorem pure_eq (a : A) : (Pure.pure a : Program C R E A) = .pure a := rfl
@[simp] theorem bind_eq (p : Program C R E A) (f : A → Program C R E B) :
    (p >>= f) = p.bind f := rfl
@[simp] theorem pure_bind (a : A) (f : A → Program C R E B) :
    (Program.pure a : Program C R E A).bind f = f a := rfl
@[simp] theorem throw_bind (e : E) (f : A → Program C R E B) :
    (Program.throw e : Program C R E A).bind f = .throw e := rfl

theorem bind_assoc (p : Program C R E A) (f : A → Program C R E B) (g : B → Program C R E S) :
    (p.bind f).bind g = p.bind (fun a => (f a).bind g) := by
  induction p with
  | pure a => rfl
  | throw e => rfl
  | call c next ih => simp only [bind, ih]

theorem bind_pure (p : Program C R E A) : p.bind .pure = p := by
  induction p with
  | pure a => rfl
  | throw e => rfl
  | call c next ih => simp only [bind, ih]

@[simp] theorem ofExcept_ok (a : A) : (ofExcept (.ok a) : Program C R E A) = .pure a := rfl
@[simp] theorem ofExcept_error (e : E) :
    (ofExcept (.error e) : Program C R E A) = .throw e := rfl

/-- The end of an execution that a function resolves: an outcome and a state. -/
abbrev Final (E A S : Type) := Except E A × S

/-- Continue from a result; an exception stays as it is. -/
def Final.andThen (x : Final E A S) (f : A → S → Final E B S) : Final E B S :=
  match x with
  | (.ok a, s) => f a s
  | (.error e, s) => (.error e, s)

@[simp] theorem Final.andThen_ok (a : A) (s : S) (f : A → S → Final E B S) :
    Final.andThen (.ok a, s) f = f a s := rfl
@[simp] theorem Final.andThen_error (e : E) (s : S) (f : A → S → Final E B S) :
    Final.andThen ((.error e, s) : Final E A S) f = (.error e, s) := rfl

/-- Execution with every command resolved by `h`. It is total by recursion. -/
def run (h : C → S → R × S) (p : Program C R E A) (s : S) : Final E A S :=
  match p with
  | .pure a => (.ok a, s)
  | .throw e => (.error e, s)
  | .call c next => (next (h c s).1).run h (h c s).2

@[simp] theorem run_pure (h : C → S → R × S) (a : A) (s : S) :
    (Program.pure a : Program C R E A).run h s = (.ok a, s) := rfl
@[simp] theorem run_throw (h : C → S → R × S) (e : E) (s : S) :
    (Program.throw e : Program C R E A).run h s = (.error e, s) := rfl
@[simp] theorem run_request (h : C → S → R × S) (c : C) (s : S) :
    (request c : Program C R E R).run h s = (.ok (h c s).1, (h c s).2) := rfl

@[simp] theorem run_bind (h : C → S → R × S) (p : Program C R E A)
    (f : A → Program C R E B) (s : S) :
    (p.bind f).run h s = (p.run h s).andThen (fun a t => (f a).run h t) := by
  induction p generalizing s with
  | pure a => rfl
  | throw e => rfl
  | call c next ih => exact ih _ _

theorem run_catch_ok {h : C → S → R × S} {p : Program C R E A} {g : E → Program C R E A} {s t : S}
    {a : A} (hp : p.run h s = (.ok a, t)) : (p.catch_ g).run h s = (.ok a, t) := by
  induction p generalizing s with
  | pure a => exact hp
  | throw e => cases hp
  | call c next ih => exact ih _ hp

/-- Execution with every command resolved by the relation `H`. -/
def Exec (H : C → S → R → S → Prop) (p : Program C R E A) (s : S)
    (o : Except E A) (t : S) : Prop :=
  match p with
  | .pure a => o = .ok a ∧ t = s
  | .throw e => o = .error e ∧ t = s
  | .call c next => ∃ r u, H c s r u ∧ (next r).Exec H u o t

/-- Every execution of the program from `s` ends in `Q`. -/
def Safe (H : C → S → R → S → Prop) (p : Program C R E A)
    (Q : Except E A → S → Prop) (s : S) : Prop :=
  match p with
  | .pure a => Q (.ok a) s
  | .throw e => Q (.error e) s
  | .call c next => ∀ r t, H c s r t → (next r).Safe H Q t

variable {H : C → S → R → S → Prop}

theorem safe_iff (p : Program C R E A) (Q : Except E A → S → Prop) (s : S) :
    p.Safe H Q s ↔ ∀ o t, p.Exec H s o t → Q o t := by
  induction p generalizing s with
  | pure a => simp [Safe, Exec]
  | throw e => simp [Safe, Exec]
  | call c next ih =>
      simp only [Safe, Exec, ih]
      constructor
      · rintro h o t ⟨r, u, hu, ht⟩
        exact h r u hu o t ht
      · intro h r u hu o t ht
        exact h o t ⟨r, u, hu, ht⟩

@[simp] theorem safe_pure (a : A) (Q : Except E A → S → Prop) (s : S) :
    (Program.pure a : Program C R E A).Safe H Q s ↔ Q (.ok a) s := Iff.rfl
@[simp] theorem safe_throw (e : E) (Q : Except E A → S → Prop) (s : S) :
    (Program.throw e : Program C R E A).Safe H Q s ↔ Q (.error e) s := Iff.rfl
theorem safe_call (c : C) (next : R → Program C R E A) (Q : Except E A → S → Prop) (s : S) :
    (Program.call c next).Safe H Q s ↔ ∀ r t, H c s r t → (next r).Safe H Q t := Iff.rfl
theorem safe_request (c : C) (Q : Except E R → S → Prop) (s : S) :
    (request c : Program C R E R).Safe H Q s ↔ ∀ r t, H c s r t → Q (.ok r) t := Iff.rfl

theorem safe_ofExcept (x : Except E A) (Q : Except E A → S → Prop) (s : S) :
    (ofExcept x : Program C R E A).Safe H Q s ↔ Q x s := by
  cases x <;> exact Iff.rfl

/-- What the first half of a sequence must establish for the second half. -/
def onward (H : C → S → R → S → Prop) (f : A → Program C R E B)
    (Q : Except E B → S → Prop) : Except E A → S → Prop
  | .ok a, t => (f a).Safe H Q t
  | .error e, t => Q (.error e) t

@[simp] theorem onward_ok (f : A → Program C R E B) (Q : Except E B → S → Prop) (a : A) (t : S) :
    onward H f Q (.ok a) t ↔ (f a).Safe H Q t := Iff.rfl
@[simp] theorem onward_error (f : A → Program C R E B) (Q : Except E B → S → Prop)
    (e : E) (t : S) : onward H f Q (.error e) t ↔ Q (.error e) t := Iff.rfl

@[simp] theorem safe_bind (p : Program C R E A) (f : A → Program C R E B)
    (Q : Except E B → S → Prop) (s : S) :
    (p.bind f).Safe H Q s ↔ p.Safe H (onward H f Q) s := by
  induction p generalizing s with
  | pure a => exact Iff.rfl
  | throw e => exact Iff.rfl
  | call c next ih => simp only [bind, Safe, ih]

@[simp] theorem safe_catch (p : Program C R E A) (h : E → Program C R E A)
    (Q : Except E A → S → Prop) (s : S) :
    (p.catch_ h).Safe H Q s ↔ p.Safe H (fun o t => match o with
      | .ok a => Q (.ok a) t
      | .error e => (h e).Safe H Q t) s := by
  induction p generalizing s with
  | pure a => exact Iff.rfl
  | throw e => exact Iff.rfl
  | call c next ih => simp only [catch_, Safe, ih]

theorem Safe.mono {p : Program C R E A} {Q Q' : Except E A → S → Prop} {s : S}
    (h : p.Safe H Q s) (hQ : ∀ o t, Q o t → Q' o t) : p.Safe H Q' s := by
  rw [safe_iff] at h ⊢
  exact fun o t ht => hQ o t (h o t ht)

theorem Safe.exec {p : Program C R E A} {Q : Except E A → S → Prop} {s t : S} {o : Except E A}
    (h : p.Safe H Q s) (ht : p.Exec H s o t) : Q o t :=
  (safe_iff p Q s).mp h o t ht

/-- Fewer behaviours of the commands leave fewer executions to check. -/
theorem Safe.restrict {H' : C → S → R → S → Prop} {p : Program C R E A}
    {Q : Except E A → S → Prop} {s : S} (h : p.Safe H Q s)
    (hH : ∀ c u r t, H' c u r t → H c u r t) : p.Safe H' Q s := by
  induction p generalizing s with
  | pure a => exact h
  | throw e => exact h
  | call c next ih => exact fun r t ht => ih r (h r t (hH c s r t ht))

theorem Exec.mono {H' : C → S → R → S → Prop} {p : Program C R E A} {s t : S} {o : Except E A}
    (hH : ∀ c u r t, H' c u r t → H c u r t) (h : p.Exec H' s o t) : p.Exec H s o t :=
  (((safe_iff p (p.Exec H s) s).mpr fun _ _ ho => ho).restrict hH).exec h

theorem exec_bind (p : Program C R E A) (f : A → Program C R E B) (s : S)
    (o : Except E B) (t : S) :
    (p.bind f).Exec H s o t ↔
      (∃ a u, p.Exec H s (.ok a) u ∧ (f a).Exec H u o t) ∨
      (∃ e, p.Exec H s (.error e) t ∧ o = .error e) := by
  induction p generalizing s with
  | pure a => simp [bind, Exec]
  | throw e => simp [bind, Exec, and_comm]
  | call c next ih =>
      simp only [bind, Exec, ih]
      constructor
      · rintro ⟨r, u, hu, ⟨a, v, h₁, h₂⟩ | ⟨e, h₁, h₂⟩⟩
        · exact .inl ⟨a, v, ⟨r, u, hu, h₁⟩, h₂⟩
        · exact .inr ⟨e, ⟨r, u, hu, h₁⟩, h₂⟩
      · rintro (⟨a, v, ⟨r, u, hu, h₁⟩, h₂⟩ | ⟨e, ⟨r, u, hu, h₁⟩, h₂⟩)
        · exact ⟨r, u, hu, .inl ⟨a, v, h₁, h₂⟩⟩
        · exact ⟨r, u, hu, .inr ⟨e, h₁, h₂⟩⟩

theorem exec_catch (p : Program C R E A) (h : E → Program C R E A) (s : S)
    (o : Except E A) (t : S) :
    (p.catch_ h).Exec H s o t ↔
      (∃ a, p.Exec H s (.ok a) t ∧ o = .ok a) ∨
      (∃ e u, p.Exec H s (.error e) u ∧ (h e).Exec H u o t) := by
  induction p generalizing s with
  | pure a => simp [catch_, Exec, and_comm]
  | throw e => simp [catch_, Exec]
  | call c next ih =>
      simp only [catch_, Exec, ih]
      constructor
      · rintro ⟨r, u, hu, ⟨a, h₁, h₂⟩ | ⟨e, v, h₁, h₂⟩⟩
        · exact .inl ⟨a, ⟨r, u, hu, h₁⟩, h₂⟩
        · exact .inr ⟨e, v, ⟨r, u, hu, h₁⟩, h₂⟩
      · rintro (⟨a, ⟨r, u, hu, h₁⟩, h₂⟩ | ⟨e, v, ⟨r, u, hu, h₁⟩, h₂⟩)
        · exact ⟨r, u, hu, .inl ⟨a, h₁, h₂⟩⟩
        · exact ⟨r, u, hu, .inr ⟨e, v, h₁, h₂⟩⟩

/-- The relation that a function on states is. -/
def det (h : C → S → R × S) (c : C) (s : S) (r : R) (t : S) : Prop := (r, t) = h c s

theorem safe_det (h : C → S → R × S) (p : Program C R E A) (Q : Except E A → S → Prop) (s : S) :
    p.Safe (det h) Q s ↔ Q (p.run h s).1 (p.run h s).2 := by
  induction p generalizing s with
  | pure a => exact Iff.rfl
  | throw e => exact Iff.rfl
  | call c next ih =>
      simp only [Safe, run, ← ih]
      constructor
      · intro hs
        exact hs _ _ rfl
      · rintro hs r t ht
        obtain ⟨rfl, rfl⟩ := Prod.mk.inj ht
        exact hs

/-- A function that behaves as `H` allows resolves one of the executions. -/
theorem exec_run {h : C → S → R × S} (hH : ∀ c s, H c s (h c s).1 (h c s).2)
    (p : Program C R E A) (s : S) : p.Exec H s (p.run h s).1 (p.run h s).2 := by
  induction p generalizing s with
  | pure a => exact ⟨rfl, rfl⟩
  | throw e => exact ⟨rfl, rfl⟩
  | call c next ih => exact ⟨_, _, hH c s, ih _ _⟩

theorem exec_of_run {h : C → S → R × S} (hH : ∀ c s, H c s (h c s).1 (h c s).2)
    {p : Program C R E A} {s : S} {o : Except E A} (ho : (p.run h s).1 = o) :
    p.Exec H s o (p.run h s).2 := by
  rw [← ho]
  exact exec_run hH p s

section Embed
variable {H' : D → T → R → T → Prop} {inj : C → D} {get : T → S} {put : S → T → T}

@[simp] theorem embed_pure (a : A) : (Program.pure a : Program C R E A).embed inj = .pure a := rfl
@[simp] theorem embed_throw (e : E) :
    (Program.throw e : Program C R E A).embed inj = .throw e := rfl
@[simp] theorem embed_bind (p : Program C R E A) (f : A → Program C R E B) :
    (p.bind f).embed inj = (p.embed inj).bind (fun a => (f a).embed inj) := by
  induction p with
  | pure a => rfl
  | throw e => rfl
  | call c next ih => simp only [bind, embed, ih]

/-- A program that only sees one part of the state behaves in the whole as it
does on that part, the rest being left alone. -/
theorem safe_embed
    (hH : ∀ c t r u, H' (inj c) t r u ↔ ∃ s, H c (get t) r s ∧ u = put s t)
    (get_put : ∀ s t, get (put s t) = s) (put_put : ∀ s s' t, put s' (put s t) = put s' t)
    (put_get : ∀ t, put (get t) t = t)
    (p : Program C R E A) (Q : Except E A → T → Prop) (t : T) :
    (p.embed inj).Safe H' Q t ↔ p.Safe H (fun o s => Q o (put s t)) (get t) := by
  induction p generalizing t with
  | pure a => simp [embed, put_get]
  | throw e => simp [embed, put_get]
  | call c next ih =>
      simp only [embed, Safe, hH, ih]
      constructor
      · intro h r s hs
        simpa only [get_put, put_put] using h r (put s t) ⟨s, hs, rfl⟩
      · rintro h r u ⟨s, hs, rfl⟩
        simpa only [get_put, put_put] using h r s hs

end Embed
end Program
end Ohno.CommandPrograms
