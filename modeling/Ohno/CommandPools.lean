import Ohno.CommandTraces

/-!
# Processes that come and go

Processes share one state. A process may start at any time, issue its next
command, or be gone, whether it has come to its end or was killed before.
`Reached` are the states that this can lead to, and what every command of every
process preserves holds in all of them.

A program is moved to other commands by `relay`: it issues `tr c` for the command
`c` and goes on with `back c r` for the reply `r`. Where the commands of the two
levels answer alike, the two levels reach the same states.
-/
namespace Ohno.CommandPools
open CommandPrograms CommandTraces

variable {C D R R' E A S : Type}

/-- `Start` are the programs that may start. -/
inductive Reached (H : C → S → R → S → Prop) (Start : Program C R E A → Prop) (s₀ : S) :
    List (Program C R E A) → S → Prop where
  | init : Reached H Start s₀ [] s₀
  | start {l : List (Program C R E A)} {s : S} (p : Program C R E A) (hp : Start p)
      (h : Reached H Start s₀ l s) : Reached H Start s₀ (p :: l) s
  | command {l l' : List (Program C R E A)} {c : C} {next : R → Program C R E A} {s t : S} {r : R}
      (h : Reached H Start s₀ (l ++ .call c next :: l') s) (hr : H c s r t) :
      Reached H Start s₀ (l ++ next r :: l') t
  | leave {l l' : List (Program C R E A)} {p : Program C R E A} {s : S}
      (h : Reached H Start s₀ (l ++ p :: l') s) : Reached H Start s₀ (l ++ l') s

variable {H H₁ : C → S → R → S → Prop} {H' : D → S → R' → S → Prop} {Start : Program C R E A → Prop}
variable {F : C → Prop} {G : C → R → Prop} {P : A → Prop} {I : S → Prop} {s₀ s : S}
variable {l : List (Program C R E A)}

theorem Reached.mono (hH : ∀ c s r t, H c s r t → H₁ c s r t) (h : Reached H Start s₀ l s) :
    Reached H₁ Start s₀ l s := by
  induction h with
  | init => exact .init
  | start p hp h ih => exact .start p hp ih
  | command h hr ih => exact .command ih (hH _ _ _ _ hr)
  | leave h ih => exact .leave ih

theorem issues_of_mem {l l' : List (Program C R E A)} {c : C} {next : R → Program C R E A}
    (h : ∀ p ∈ l ++ .call c next :: l', Issues F G P p) :
    F c ∧ ∀ r, G c r → Issues F G P (next r) :=
  h (.call c next) (by simp)

/-- The invariant of all processes. -/
theorem Reached.keeps (hstart : ∀ p, Start p → Issues F G P p) (hH : Keeps H F G I) (hs : I s₀)
    (h : Reached H Start s₀ l s) : I s ∧ ∀ p ∈ l, Issues F G P p := by
  induction h with
  | init => exact ⟨hs, by simp⟩
  | start p hp h ih =>
      refine ⟨ih.1, ?_⟩
      intro q hq
      rcases List.mem_cons.mp hq with rfl | hq
      · exact hstart q hp
      · exact ih.2 q hq
  | command h hr ih =>
      obtain ⟨hI, hall⟩ := ih
      obtain ⟨hc, hnext⟩ := issues_of_mem hall
      obtain ⟨hG, hI⟩ := hH _ _ _ _ hc hr hI
      refine ⟨hI, ?_⟩
      intro q hq
      rcases List.mem_append.mp hq with hq | hq
      · exact hall q (by simp [hq])
      · rcases List.mem_cons.mp hq with rfl | hq
        · exact hnext _ hG
        · exact hall q (by simp [hq])
  | leave h ih =>
      refine ⟨ih.1, ?_⟩
      intro q hq
      apply ih.2 q
      rcases List.mem_append.mp hq with hq | hq
      · simp [hq]
      · simp [hq]

/-- `n` commands of a program, answered by `f`. -/
def progress (f : C → S → R × S) : ℕ → Program C R E A → S → Program C R E A × S
  | n + 1, .call c next, s => progress f n (next (f c s).1) (f c s).2
  | _, p, s => (p, s)

theorem Reached.progress {f : C → S → R × S} (hf : ∀ c s, H c s (f c s).1 (f c s).2)
    {l' : List (Program C R E A)} {p : Program C R E A}
    (h : Reached H Start s₀ (l ++ p :: l') s) (n : ℕ) :
    Reached H Start s₀ (l ++ (progress f n p s).1 :: l') (progress f n p s).2 := by
  induction n generalizing p s with
  | zero => exact h
  | succ n ih =>
      cases p with
      | pure a => exact h
      | throw e => exact h
      | call c next => exact ih (h.command (hf c s))

/-- The command that a program is about to issue. -/
def nextCommand : Program C R E A → Option C
  | .call c _ => some c
  | _ => none

theorem eq_call_of_nextCommand {p : Program C R E A} {c : C} (h : nextCommand p = some c) :
    ∃ next, p = .call c next := by
  cases p with
  | pure a => cases h
  | throw e => cases h
  | call d next =>
      cases h
      exact ⟨next, rfl⟩

/-! ### Other commands -/

def relay (tr : C → D) (back : C → R' → R) : Program C R E A → Program D R' E A
  | .pure a => .pure a
  | .throw e => .throw e
  | .call c next => .call (tr c) fun r => relay tr back (next (back c r))

variable {tr : C → D} {back : C → R' → R}

theorem relay_eq_call {p : Program C R E A} {d : D} {next' : R' → Program D R' E A}
    (h : relay tr back p = .call d next') : ∃ c next, p = .call c next ∧ d = tr c ∧
      next' = fun r => relay tr back (next (back c r)) := by
  cases p with
  | pure a => cases h
  | throw e => cases h
  | call c next =>
      obtain ⟨rfl, rfl⟩ := Program.call.inj h
      exact ⟨c, next, rfl, rfl, rfl⟩

theorem relay_bind {B : Type} (p : Program C R E A) (f : A → Program C R E B) :
    relay tr back (p.bind f) = (relay tr back p).bind fun a => relay tr back (f a) := by
  induction p with
  | pure a => rfl
  | throw e => rfl
  | call c next ih => simp only [Program.bind, relay, ih]

/-- The processes of one level are those of the other. -/
theorem reached_relay_iff (hstart : ∀ p, Start p → Issues F G P p) (hH : Keeps H F G I) (hs : I s₀)
    (agree : ∀ c s r t, F c → I s → (H c s r t ↔ ∃ r', H' (tr c) s r' t ∧ r = back c r'))
    (m : List (Program D R' E A)) (s : S) :
    Reached H' (fun q => ∃ p, Start p ∧ q = relay tr back p) s₀ m s ↔
      ∃ l, m = l.map (relay tr back) ∧ Reached H Start s₀ l s := by
  constructor
  · intro h
    induction h with
    | init => exact ⟨[], rfl, .init⟩
    | start q hq h ih =>
        obtain ⟨l, rfl, hl⟩ := ih
        obtain ⟨p, hp, rfl⟩ := hq
        exact ⟨p :: l, rfl, .start p hp hl⟩
    | command h hr ih =>
        obtain ⟨l, hm, hl⟩ := ih
        obtain ⟨l₁, l₂, rfl, rfl, hl₂⟩ := List.append_eq_map_iff.mp hm
        obtain ⟨p, l₂, rfl, hp, rfl⟩ := List.map_eq_cons_iff.mp hl₂
        obtain ⟨c, next, rfl, rfl, rfl⟩ := relay_eq_call hp
        obtain ⟨hI, hall⟩ := hl.keeps hstart hH hs
        have hc : F c := (issues_of_mem hall).1
        have hstep := (agree c _ _ _ hc hI).mpr ⟨_, hr, rfl⟩
        exact ⟨_, by simp, hl.command hstep⟩
    | leave h ih =>
        obtain ⟨l, hm, hl⟩ := ih
        obtain ⟨l₁, l₂, rfl, rfl, hl₂⟩ := List.append_eq_map_iff.mp hm
        obtain ⟨p, l₂, rfl, hp, rfl⟩ := List.map_eq_cons_iff.mp hl₂
        exact ⟨l₁ ++ l₂, by simp, hl.leave⟩
  · intro h
    obtain ⟨l, rfl, hl⟩ := h
    induction hl with
    | init => exact .init
    | start p hp h ih => exact .start _ ⟨p, hp, rfl⟩ ih
    | command h hr ih =>
        obtain ⟨hI, hall⟩ := h.keeps hstart hH hs
        obtain ⟨r', hr', rfl⟩ := (agree _ _ _ _ (issues_of_mem hall).1 hI).mp hr
        rw [List.map_append, List.map_cons, relay] at ih
        rw [List.map_append, List.map_cons]
        exact ih.command hr'
    | leave h ih =>
        rw [List.map_append, List.map_cons] at ih
        rw [List.map_append]
        exact ih.leave

end Ohno.CommandPools
