import Ohno.CommandTraces

/-!
# Programs that are alike

Two programs are alike when they issue the same commands and go on alike for the
same replies. Some commands are not compared: where the one program issues such a
command the other one issues one too, but the two commands may differ, and so may
what they are told. A program is alike to itself when it passes nothing on from the
commands that are not compared to those that are.

Where two states look the same to the commands that are compared, the one program
follows the other, command for command.
-/
namespace Ohno.AlikePrograms
open CommandPrograms CommandTraces

variable {C D R E A A' B B' S T : Type}

/-- Commands in `F` are compared, those in `X` are not. The replies to the latter
agree as `G` says, and the results as `P` says. -/
inductive Alike (F X : C → Prop) (G : R → R → Prop) (P : A → B → Prop) :
    Program C R E A → Program C R E B → Prop where
  | pure {a : A} {b : B} (h : P a b) : Alike F X G P (.pure a) (.pure b)
  | throw (e : E) : Alike F X G P (.throw e) (.throw e)
  | same {c : C} {next : R → Program C R E A} {next' : R → Program C R E B} (hc : F c)
      (h : ∀ r, Alike F X G P (next r) (next' r)) : Alike F X G P (.call c next) (.call c next')
  | each {c c' : C} {next : R → Program C R E A} {next' : R → Program C R E B} (hc : X c)
      (hc' : X c') (h : ∀ r r', G r r' → Alike F X G P (next r) (next' r')) :
      Alike F X G P (.call c next) (.call c' next')

namespace Alike
variable {F X : C → Prop} {G : R → R → Prop} {P : A → B → Prop} {Q : A' → B' → Prop}
variable {p : Program C R E A} {q : Program C R E B}

theorem bind {f : A → Program C R E A'} {g : B → Program C R E B'} (h : Alike F X G P p q)
    (hf : ∀ a b, P a b → Alike F X G Q (f a) (g b)) : Alike F X G Q (p.bind f) (q.bind g) := by
  induction h with
  | pure h => exact hf _ _ h
  | throw e => exact .throw e
  | same hc h ih => exact .same hc ih
  | each hc hc' h ih => exact .each hc hc' ih

theorem catch_ {f : E → Program C R E A} {g : E → Program C R E B} (h : Alike F X G P p q)
    (hf : ∀ e, Alike F X G P (f e) (g e)) : Alike F X G P (p.catch_ f) (q.catch_ g) := by
  induction h with
  | pure h => exact .pure h
  | throw e => exact hf e
  | same hc h ih => exact .same hc ih
  | each hc hc' h ih => exact .each hc hc' ih

theorem embed {F' X' : D → Prop} {inj : C → D} (h : Alike F X G P p q) (hF : ∀ c, F c → F' (inj c))
    (hX : ∀ c, X c → X' (inj c)) : Alike F' X' G P (p.embed inj) (q.embed inj) := by
  induction h with
  | pure h => exact .pure h
  | throw e => exact .throw e
  | same hc h ih => exact .same (hF _ hc) ih
  | each hc hc' h ih => exact .each (hX _ hc) (hX _ hc') ih

/-- A program without commands that are not compared. -/
theorem refl {p : Program C R E A} (h : Only F p) : Alike F X G (· = ·) p p := by
  induction p with
  | pure a => exact .pure rfl
  | throw e => exact .throw e
  | call c next ih => exact .same h.1 fun r => ih r (h.2 r)

/-- The second half starts from one result. -/
theorem after {p : Program C R E A'} {f : A' → Program C R E A} {g : A' → Program C R E B}
    (h : Alike F X G (· = ·) p p) (hf : ∀ a, Alike F X G P (f a) (g a)) :
    Alike F X G P (p.bind f) (p.bind g) := by
  apply h.bind
  intro a b hab
  exact hab ▸ hf a

theorem eq_of_ofExcept {p : Program C R E A} {o : Except E A}
    (h : Alike F X G (· = ·) (Program.ofExcept o) p) : p = Program.ofExcept o := by
  cases o with
  | ok a =>
      cases h with
      | pure h => rw [← h, Program.ofExcept_ok]
  | error e =>
      cases h with
      | throw e => rfl

end Alike

/-! ### What is left of a program -/

/-- The program comes from `s` to `t` with `q` left to do. -/
inductive Steps (H : C → S → R → S → Prop) (p : Program C R E A) (s : S) :
    Program C R E A → S → Prop where
  | refl : Steps H p s p s
  | call {c : C} {next : R → Program C R E A} {t u : S} {r : R} (h : Steps H p s (.call c next) t)
      (hr : H c t r u) : Steps H p s (next r) u

section Steps
variable {H : C → S → R → S → Prop} {p q : Program C R E A} {s t u : S} {o : Except E A}

theorem Steps.exec (h : Steps H p s q t) (hq : q.Exec H t o u) : p.Exec H s o u := by
  induction h with
  | refl => exact hq
  | call h hr ih => exact ih ⟨_, _, hr, hq⟩

theorem Steps.exec_ofExcept (h : Steps H p s (Program.ofExcept o) t) : p.Exec H s o t := by
  apply h.exec
  cases o with
  | ok a => exact ⟨rfl, rfl⟩
  | error e => exact ⟨rfl, rfl⟩

end Steps

section Follow
variable {F X : C → Prop} {G : R → R → Prop} {P : A → A → Prop} {H : C → S → R → S → Prop}
variable {V : S → S → Prop} {p q q' : Program C R E A} {s s' t u : S} {c : C} {r : R}
variable {next : R → Program C R E A}

/-- The states look the same to the commands that are compared. -/
structure View (H : C → S → R → S → Prop) (F X : C → Prop) (G : R → R → Prop) (V : S → S → Prop) :
    Prop where
  same : ∀ {c s t r u}, F c → V s t → H c s r u → ∃ v, H c t r v ∧ V u v
  each : ∀ {c c' s t r u}, X c → X c' → V s t → H c s r u → ∃ r' v, H c' t r' v ∧ G r r' ∧ V u v

/-- The other program follows. -/
theorem Alike.command (hV : View H F X G V) (h : Alike F X G P (.call c next) q) (hs : V s t)
    (hq : Steps H p s' q t) (hr : H c s r u) :
    ∃ q' v, Steps H p s' q' v ∧ Alike F X G P (next r) q' ∧ V u v := by
  cases h with
  | same hc h =>
      obtain ⟨v, hv, huv⟩ := hV.same hc hs hr
      exact ⟨_, v, hq.call hv, h r, huv⟩
  | each hc hc' h =>
      obtain ⟨r', v, hv, hG, huv⟩ := hV.each hc hc' hs hr
      exact ⟨_, v, hq.call hv, h r r' hG, huv⟩

/-- The command is one or the other. -/
theorem Alike.head {q : Program C R E B} {P : A → B → Prop} (h : Alike F X G P (.call c next) q) :
    F c ∨ X c := by
  cases h with
  | same hc h => exact .inl hc
  | each hc hc' h => exact .inr hc

end Follow
end Ohno.AlikePrograms
