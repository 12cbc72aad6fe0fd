import Ohno.CommandPrograms

/-!
# The commands of an execution

`Path p o l` says that the tree `p` ends with `o` after the commands in `l`, each
with its reply. A trace is a path whose replies a relation on states allows, so
an execution is a trace whose commands are not looked at (`exec_iff_traces`).

Tags tell the commands of the parts of a program apart. `tag k p` marks those of
`p` and `erase` takes all tags off again: the paths of the two programs are the
same but for the tags.

An execution may be interrupted. What every command of a tree preserves holds in
each state that `Stops` gives.
-/
namespace Ohno.CommandTraces
open CommandPrograms

variable {K C D R E A B S : Type}

/-! ### Paths -/

def Path : Program C R E A → Except E A → List (C × R) → Prop
  | .pure a, o, l => o = .ok a ∧ l = []
  | .throw e, o, l => o = .error e ∧ l = []
  | .call c next, o, l => ∃ r l', Path (next r) o l' ∧ l = (c, r) :: l'

theorem path_bind (p : Program C R E A) (f : A → Program C R E B) (o : Except E B)
    (l : List (C × R)) :
    Path (p.bind f) o l ↔
      (∃ a l₁ l₂, Path p (.ok a) l₁ ∧ Path (f a) o l₂ ∧ l = l₁ ++ l₂) ∨
      ∃ e, Path p (.error e) l ∧ o = .error e := by
  induction p generalizing l with
  | pure a => simp [Program.bind, Path]
  | throw e => simp [Program.bind, Path, and_comm]
  | call c next ih =>
      simp only [Program.bind, Path, ih]
      constructor
      · intro h
        obtain ⟨r, l', ⟨a, l₁, l₂, h₁, h₂, rfl⟩ | ⟨e, h₁, h₂⟩, rfl⟩ := h
        · exact .inl ⟨a, (c, r) :: l₁, l₂, ⟨r, l₁, h₁, rfl⟩, h₂, rfl⟩
        · exact .inr ⟨e, ⟨r, l', h₁, rfl⟩, h₂⟩
      · intro h
        rcases h with ⟨a, l₁, l₂, ⟨r, l', h₁, rfl⟩, h₂, rfl⟩ | ⟨e, ⟨r, l', h₁, rfl⟩, h₂⟩
        · exact ⟨r, l' ++ l₂, .inl ⟨a, l', l₂, h₁, h₂, rfl⟩, rfl⟩
        · exact ⟨r, l', .inr ⟨e, h₁, h₂⟩, rfl⟩

theorem path_catch (p : Program C R E A) (h : E → Program C R E A) (o : Except E A)
    (l : List (C × R)) :
    Path (p.catch_ h) o l ↔
      (∃ a, Path p (.ok a) l ∧ o = .ok a) ∨
      ∃ e l₁ l₂, Path p (.error e) l₁ ∧ Path (h e) o l₂ ∧ l = l₁ ++ l₂ := by
  induction p generalizing l with
  | pure a => simp [Program.catch_, Path, and_comm]
  | throw e => simp [Program.catch_, Path]
  | call c next ih =>
      simp only [Program.catch_, Path, ih]
      constructor
      · intro hp
        obtain ⟨r, l', ⟨a, h₁, h₂⟩ | ⟨e, l₁, l₂, h₁, h₂, rfl⟩, rfl⟩ := hp
        · exact .inl ⟨a, ⟨r, l', h₁, rfl⟩, h₂⟩
        · exact .inr ⟨e, (c, r) :: l₁, l₂, ⟨r, l₁, h₁, rfl⟩, h₂, rfl⟩
      · intro hp
        rcases hp with ⟨a, ⟨r, l', h₁, rfl⟩, h₂⟩ | ⟨e, l₁, l₂, ⟨r, l', h₁, rfl⟩, h₂, rfl⟩
        · exact ⟨r, l', .inl ⟨a, h₁, h₂⟩, rfl⟩
        · exact ⟨r, l' ++ l₂, .inr ⟨e, l', l₂, h₁, h₂, rfl⟩, rfl⟩

theorem path_embed (inj : C → D) (p : Program C R E A) (o : Except E A) (l : List (D × R)) :
    Path (p.embed inj) o l ↔ ∃ l', Path p o l' ∧ l = l'.map (Prod.map inj id) := by
  induction p generalizing l with
  | pure a => simp [Program.embed, Path, and_assoc]
  | throw e => simp [Program.embed, Path, and_assoc]
  | call c next ih =>
      simp only [Program.embed, Path, ih]
      constructor
      · intro h
        obtain ⟨r, l', ⟨l'', hp, rfl⟩, rfl⟩ := h
        exact ⟨(c, r) :: l'', ⟨r, l'', hp, rfl⟩, rfl⟩
      · intro h
        obtain ⟨l'', ⟨r, l', hp, rfl⟩, rfl⟩ := h
        exact ⟨r, _, ⟨l', hp, rfl⟩, rfl⟩

/-! ### Traces -/

/-- The replies of `l` are possible, one after the other. -/
def Replays (H : C → S → R → S → Prop) : S → List (C × R) → S → Prop
  | s, [], t => t = s
  | s, (c, r) :: l, t => ∃ u, H c s r u ∧ Replays H u l t

structure Traces (H : C → S → R → S → Prop) (p : Program C R E A) (s : S) (o : Except E A) (t : S)
    (l : List (C × R)) : Prop where
  path : Path p o l
  replays : Replays H s l t

theorem exec_iff_traces {H : C → S → R → S → Prop} (p : Program C R E A) (s : S) (o : Except E A)
    (t : S) : p.Exec H s o t ↔ ∃ l, Traces H p s o t l := by
  have hiff : p.Exec H s o t ↔ ∃ l, Path p o l ∧ Replays H s l t := by
    induction p generalizing s with
    | pure a => simp [Program.Exec, Path, Replays, and_assoc]
    | throw e => simp [Program.Exec, Path, Replays, and_assoc]
    | call c next ih =>
        simp only [Program.Exec, Path, ih]
        constructor
        · intro h
          obtain ⟨r, u, hu, l, hp, hl⟩ := h
          exact ⟨(c, r) :: l, ⟨r, l, hp, rfl⟩, u, hu, hl⟩
        · intro h
          obtain ⟨_, ⟨r, l, hp, rfl⟩, u, hu, hl⟩ := h
          exact ⟨r, u, hu, l, hp, hl⟩
  rw [hiff]
  constructor
  · intro h
    obtain ⟨l, hp, hl⟩ := h
    exact ⟨l, hp, hl⟩
  · intro h
    obtain ⟨l, hp, hl⟩ := h
    exact ⟨l, hp, hl⟩

/-- The commands when a function replies. -/
def record (h : C → S → R × S) : Program C R E A → S → List (C × R)
  | .pure _, _ => []
  | .throw _, _ => []
  | .call c next, s => (c, (h c s).1) :: record h (next (h c s).1) (h c s).2

theorem traces_record {H : C → S → R → S → Prop} {h : C → S → R × S}
    (hH : ∀ c s, H c s (h c s).1 (h c s).2) (p : Program C R E A) (s : S) :
    Traces H p s (p.run h s).1 (p.run h s).2 (record h p s) := by
  induction p generalizing s with
  | pure a => exact ⟨⟨rfl, rfl⟩, rfl⟩
  | throw e => exact ⟨⟨rfl, rfl⟩, rfl⟩
  | call c next ih =>
      have hnext := ih (h c s).1 (h c s).2
      exact ⟨⟨_, _, hnext.path, rfl⟩, ⟨_, hH c s, hnext.replays⟩⟩

/-! ### What holds of every path -/

/-- Every path ends in `Q`. -/
structure Marks (p : Program C R E A) (Q : Except E A → List (C × R) → Prop) : Prop where
  path : ∀ o l, Path p o l → Q o l

namespace Marks
variable {p : Program C R E A} {f : A → Program C R E B} {P : Except E A → List (C × R) → Prop}
variable {Q : Except E B → List (C × R) → Prop}

theorem pure {a : A} {Q : Except E A → List (C × R) → Prop} (h : Q (.ok a) []) :
    Marks (.pure a) Q := by
  constructor
  intro o l hp
  obtain ⟨rfl, rfl⟩ := hp
  exact h

theorem throw {e : E} {Q : Except E A → List (C × R) → Prop} (h : Q (.error e) []) :
    Marks (.throw e) Q := by
  constructor
  intro o l hp
  obtain ⟨rfl, rfl⟩ := hp
  exact h

theorem ofExcept {x : Except E A} {Q : Except E A → List (C × R) → Prop} (h : Q x []) :
    Marks (Program.ofExcept x) Q := by
  cases x with
  | ok a => exact pure h
  | error e => exact throw h

theorem mono {Q : Except E A → List (C × R) → Prop} (hp : Marks p P) (h : ∀ o l, P o l → Q o l) :
    Marks p Q :=
  ⟨fun o l hl => h o l (hp.path o l hl)⟩

theorem and {Q : Except E A → List (C × R) → Prop} (hp : Marks p P) (hq : Marks p Q) :
    Marks p fun o l => P o l ∧ Q o l :=
  ⟨fun o l hl => ⟨hp.path o l hl, hq.path o l hl⟩⟩

theorem bind (hp : Marks p P)
    (ok : ∀ a l, P (.ok a) l → Marks (f a) fun o l' => Q o (l ++ l'))
    (error : ∀ e l, P (.error e) l → Q (.error e) l) : Marks (p.bind f) Q := by
  constructor
  intro o l h
  rcases (path_bind p f o l).mp h with ⟨a, l₁, l₂, h₁, h₂, rfl⟩ | ⟨e, h₁, rfl⟩
  · exact (ok a l₁ (hp.path _ _ h₁)).path o l₂ h₂
  · exact error e l (hp.path _ _ h₁)

theorem call {c : C} {next : R → Program C R E A} {Q : Except E A → List (C × R) → Prop}
    (h : ∀ r, Marks (next r) fun o l => Q o ((c, r) :: l)) : Marks (.call c next) Q := by
  constructor
  intro o l hp
  obtain ⟨r, l', hp, rfl⟩ := hp
  exact (h r).path o l' hp

theorem embed {inj : C → D} (hp : Marks p P) :
    Marks (p.embed inj) fun o l => ∃ l', P o l' ∧ l = l'.map (Prod.map inj id) := by
  constructor
  intro o l h
  obtain ⟨l', hl', rfl⟩ := (path_embed inj p o l).mp h
  exact ⟨l', hp.path o l' hl', rfl⟩

end Marks

/-- Every command of the tree satisfies `F`. -/
def Only (F : C → Prop) : Program C R E A → Prop
  | .pure _ => True
  | .throw _ => True
  | .call c next => F c ∧ ∀ r, Only F (next r)

section Only
variable {F : C → Prop} {p : Program C R E A} {f : A → Program C R E B}

theorem Only.bind (hp : Only F p) (hf : ∀ a, Only F (f a)) : Only F (p.bind f) := by
  induction p with
  | pure a => exact hf a
  | throw e => trivial
  | call c next ih => exact ⟨hp.1, fun r => ih r (hp.2 r)⟩

theorem Only.ofExcept (x : Except E A) : Only F (Program.ofExcept x : Program C R E A) := by
  cases x <;> trivial

theorem Only.embed {G : D → Prop} {inj : C → D} (hp : Only F p) (h : ∀ c, F c → G (inj c)) :
    Only G (p.embed inj) := by
  induction p with
  | pure a => trivial
  | throw e => trivial
  | call c next ih => exact ⟨h c hp.1, fun r => ih r (hp.2 r)⟩

theorem Only.mono {G : C → Prop} (hp : Only F p) (h : ∀ c, F c → G c) : Only G p := by
  induction p with
  | pure a => trivial
  | throw e => trivial
  | call c next ih => exact ⟨h c hp.1, fun r => ih r (hp.2 r)⟩

/-- A check that ends the program if it fails. -/
theorem Only.check {p : Program C R E Bool} {q : Program C R E B} {e : E} (hp : Only F p)
    (hq : Only F q) : Only F (p.bind fun b => if b = true then q else .throw e) := by
  apply hp.bind
  intro b
  split_ifs
  · exact hq
  · trivial

theorem Only.marks (hp : Only F p) : Marks p fun _ l => ∀ x ∈ l, F x.1 := by
  constructor
  intro o l
  induction p generalizing l with
  | pure a =>
      intro h x hx
      rw [h.2] at hx
      cases hx
  | throw e =>
      intro h x hx
      rw [h.2] at hx
      cases hx
  | call c next ih =>
      intro h x hx
      obtain ⟨r, l', hp', rfl⟩ := h
      rcases List.mem_cons.mp hx with rfl | hx
      · exact hp.1
      · exact ih r (hp.2 r) l' hp' x hx

end Only

/-! ### Tags -/

/-- Every command of `p` gets the tag `k`. -/
def tag (k : K) (p : Program C R E A) : Program (K × C) R E A := p.embed (Prod.mk k)

def erase (p : Program (K × C) R E A) : Program C R E A := p.embed Prod.snd

@[simp] theorem erase_pure (a : A) : erase (.pure a : Program (K × C) R E A) = .pure a := rfl
@[simp] theorem erase_throw (e : E) : erase (.throw e : Program (K × C) R E A) = .throw e := rfl

@[simp] theorem erase_bind (p : Program (K × C) R E A) (f : A → Program (K × C) R E B) :
    erase (p.bind f) = (erase p).bind fun a => erase (f a) := Program.embed_bind p f

@[simp] theorem erase_catch (p : Program (K × C) R E A) (h : E → Program (K × C) R E A) :
    erase (p.catch_ h) = (erase p).catch_ fun e => erase (h e) := by
  unfold erase
  induction p with
  | pure a => rfl
  | throw e => rfl
  | call c next ih => simp only [Program.catch_, Program.embed, ih]

@[simp] theorem erase_tag (k : K) (p : Program C R E A) : erase (tag k p) = p := by
  unfold erase tag
  induction p with
  | pure a => rfl
  | throw e => rfl
  | call c next ih => simp only [Program.embed, ih]

@[simp] theorem erase_ofExcept (x : Except E A) :
    erase (Program.ofExcept x : Program (K × C) R E A) = Program.ofExcept x := by
  cases x <;> rfl

/-- The executions of the erased program are the traces without their tags. -/
theorem exec_erase {H : C → S → R → S → Prop} (p : Program (K × C) R E A) (s : S) (o : Except E A)
    (t : S) : (erase p).Exec H s o t ↔ p.Exec (fun c => H c.2) s o t := by
  unfold erase
  induction p generalizing s with
  | pure a => exact Iff.rfl
  | throw e => exact Iff.rfl
  | call c next ih => simp only [Program.embed, Program.Exec, ih]

/-- The entries of a list with the tag `k`, without it. -/
def entriesOf [DecidableEq K] (k : K) (l : List ((K × C) × R)) : List (C × R) :=
  l.filterMap fun x => if x.1.1 = k then some (x.1.2, x.2) else none

section Entries
variable [DecidableEq K] {k k' : K} {p : Program C R E A}

@[simp] theorem entriesOf_nil : entriesOf k ([] : List ((K × C) × R)) = [] := rfl

@[simp] theorem entriesOf_append (l l' : List ((K × C) × R)) :
    entriesOf k (l ++ l') = entriesOf k l ++ entriesOf k l' := List.filterMap_append

theorem entriesOf_map (l : List (C × R)) :
    entriesOf k (l.map (Prod.map (Prod.mk k') id)) = if k' = k then l else [] := by
  split_ifs with hk
  · subst hk
    induction l with
    | nil => rfl
    | cons x l ih =>
        rw [List.map_cons, ← List.singleton_append, entriesOf_append, ih]
        simp [entriesOf]
  · simp [entriesOf, List.filterMap_map, hk]

/-- A part of a program behaves as it does alone, and leaves nothing under the other tags. -/
theorem Marks.tag {Q : Except E A → List (C × R) → Prop} (hp : Marks p Q) :
    Marks (tag k' p) fun o l => Q o (entriesOf k' l) ∧ ∀ k, k ≠ k' → entriesOf k l = [] := by
  apply hp.embed.mono
  intro o l h
  obtain ⟨l', hl', rfl⟩ := h
  constructor
  · rw [entriesOf_map, if_pos rfl]
    exact hl'
  · intro k hk
    rw [entriesOf_map, if_neg hk.symm]

end Entries

/-! ### Interrupted executions -/

/-- The states in which an execution may be interrupted, its end among them. -/
def Stops (H : C → S → R → S → Prop) : Program C R E A → S → S → Prop
  | .pure _, s, t => t = s
  | .throw _, s, t => t = s
  | .call c next, s, t => t = s ∨ ∃ r u, H c s r u ∧ Stops H (next r) u t

/-- As long as every reply satisfies `G`, every command satisfies `F`, and the result `P`. -/
def Issues (F : C → Prop) (G : C → R → Prop) (P : A → Prop) : Program C R E A → Prop
  | .pure a => P a
  | .throw _ => True
  | .call c next => F c ∧ ∀ r, G c r → Issues F G P (next r)

section Issues
variable {F : C → Prop} {G : C → R → Prop} {P P' : A → Prop} {Q : B → Prop} {p : Program C R E A}
variable {f : A → Program C R E B} {H H' : C → S → R → S → Prop} {I : S → Prop} {s t : S}

@[simp] theorem issues_pure (a : A) : Issues F G P (.pure a : Program C R E A) ↔ P a := Iff.rfl
@[simp] theorem issues_throw (e : E) : Issues F G P (.throw e : Program C R E A) ↔ True := Iff.rfl
@[simp] theorem issues_call (c : C) (next : R → Program C R E A) :
    Issues F G P (.call c next) ↔ F c ∧ ∀ r, G c r → Issues F G P (next r) := Iff.rfl

@[simp] theorem issues_request_bind (c : C) (g : R → Program C R E B) :
    Issues F G Q ((Program.request c : Program C R E R).bind g) ↔
      F c ∧ ∀ r, G c r → Issues F G Q (g r) := Iff.rfl

theorem Issues.bind (hp : Issues F G P p) (hf : ∀ a, P a → Issues F G Q (f a)) :
    Issues F G Q (p.bind f) := by
  induction p with
  | pure a => exact hf a hp
  | throw e => trivial
  | call c next ih => exact ⟨hp.1, fun r hr => ih r (hp.2 r hr)⟩

/-- A check that ends the program if it fails. -/
theorem Issues.check {p : Program C R E Bool} {P : Bool → Prop} {q : Program C R E B} {e : E}
    (hp : Issues F G P p) (hq : Issues F G Q q) :
    Issues F G Q (p.bind fun b => if b = true then q else .throw e) := by
  apply hp.bind
  intro b hb
  split_ifs
  · exact hq
  · exact trivial

theorem Issues.catch_ {h : E → Program C R E A} (hp : Issues F G P p)
    (hh : ∀ e, Issues F G P (h e)) : Issues F G P (p.catch_ h) := by
  induction p with
  | pure a => exact hp
  | throw e => exact hh e
  | call c next ih => exact ⟨hp.1, fun r hr => ih r (hp.2 r hr)⟩

theorem Issues.mono (hp : Issues F G P p) (h : ∀ a, P a → P' a) : Issues F G P' p := by
  induction p with
  | pure a => exact h a hp
  | throw e => trivial
  | call c next ih => exact ⟨hp.1, fun r hr => ih r (hp.2 r hr)⟩

theorem Issues.ofExcept {x : Except E A} (h : ∀ a, x = .ok a → P a) :
    Issues F G P (Program.ofExcept x : Program C R E A) := by
  cases x with
  | ok a => exact h a rfl
  | error e => trivial

theorem Issues.embed {F' : D → Prop} {G' : D → R → Prop} {inj : C → D} (hp : Issues F G P p)
    (hF : ∀ c, F c → F' (inj c)) (hG : ∀ c r, G' (inj c) r → G c r) :
    Issues F' G' P (p.embed inj) := by
  induction p with
  | pure a => exact hp
  | throw e => trivial
  | call c next ih => exact ⟨hF c hp.1, fun r hr => ih r (hp.2 r (hG c r hr))⟩

/-- The commands keep `I` and give replies in `G`. -/
def Keeps (H : C → S → R → S → Prop) (F : C → Prop) (G : C → R → Prop) (I : S → Prop) : Prop :=
  ∀ c s r t, F c → H c s r t → I s → G c r ∧ I t

/-- What the commands keep survives an interruption. -/
theorem Issues.stops (hp : Issues F G P p) (hH : Keeps H F G I) (hs : I s) (h : Stops H p s t) :
    I t := by
  induction p generalizing s with
  | pure a =>
      cases h
      exact hs
  | throw e =>
      cases h
      exact hs
  | call c next ih =>
      obtain ⟨hc, hnext⟩ := hp
      rcases h with rfl | ⟨r, u, hu, ht⟩
      · exact hs
      · obtain ⟨hr, hI⟩ := hH c s r u hc hu hs
        exact ih r (hnext r hr) hI ht

end Issues
end Ohno.CommandTraces
