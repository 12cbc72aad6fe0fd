import Mathlib.Logic.Function.Basic
import Mathlib.Tactic.Common

/-!
# Tables of network links

A table maps names to links. A link has a kind, is up or down, and may be a port
of another link, its master, which then keeps settings for it. The operations
are those of `ip link`; on a name without a link they do nothing, and a port
that is plugged in where it is already keeps its settings. `at_` lemmas say what
an operation leaves under each name.
-/
namespace Ohno.LinkTables

/-- What a master keeps for one of its ports. -/
structure Port (N : Type) where
  master : N
  neighSuppress : Bool := false
  learning : Bool := true
deriving Repr, DecidableEq

structure Link (N K : Type) where
  kind : K
  up : Bool := false
  port : Option (Port N) := none
  addrGen : Bool := true
deriving Repr, DecidableEq

abbrev Links (N K : Type) := N → Option (Link N K)

variable {N K : Type}

namespace Link

def setPort (neighSuppress learning : Bool) (l : Link N K) : Link N K :=
  { l with port := l.port.map fun p => { p with neighSuppress, learning } }

@[simp] theorem setPort_kind (b b' : Bool) (l : Link N K) : (l.setPort b b').kind = l.kind := rfl
@[simp] theorem setPort_up (b b' : Bool) (l : Link N K) : (l.setPort b b').up = l.up := rfl

theorem setPort_of_port {m : N} {b b' : Bool} {l : Link N K} (h : l.port = some ⟨m, b, b'⟩) :
    l.setPort b b' = l := by
  obtain ⟨kind, up, port, addrGen⟩ := l
  obtain rfl : port = _ := h
  rfl

variable [DecidableEq N]

/-- Plugged into `m`; `quiet` turns the generation of addresses off. -/
def plug (m : N) (quiet : Bool) (l : Link N K) : Link N K :=
  { l with
    port := if l.port.map Port.master = some m then l.port else some { master := m }
    addrGen := l.addrGen && !quiet }

/-- Taken out of `m`. -/
def unplug (m : N) (l : Link N K) : Link N K :=
  if l.port.map Port.master = some m then { l with port := none } else l

@[simp] theorem plug_kind (m : N) (quiet : Bool) (l : Link N K) :
    (l.plug m quiet).kind = l.kind := rfl
@[simp] theorem plug_up (m : N) (quiet : Bool) (l : Link N K) : (l.plug m quiet).up = l.up := rfl
@[simp] theorem plug_addrGen (m : N) (quiet : Bool) (l : Link N K) :
    (l.plug m quiet).addrGen = (l.addrGen && !quiet) := rfl
@[simp] theorem plug_master (m : N) (quiet : Bool) (l : Link N K) :
    (l.plug m quiet).port.map Port.master = some m := by
  unfold plug
  split_ifs with h
  · exact h
  · rfl

/-- Nothing changes where the port is plugged in already. -/
theorem plug_of_master {m : N} {quiet : Bool} {l : Link N K} (h : l.port.map Port.master = some m)
    (hquiet : quiet = true → l.addrGen = false) : l.plug m quiet = l := by
  have haddr : (l.addrGen && !quiet) = l.addrGen := by
    cases quiet with
    | false => simp
    | true => simp [hquiet rfl]
  rw [plug, if_pos h, haddr]

@[simp] theorem unplug_kind (m : N) (l : Link N K) : (l.unplug m).kind = l.kind := by
  unfold unplug
  split_ifs <;> rfl
@[simp] theorem unplug_up (m : N) (l : Link N K) : (l.unplug m).up = l.up := by
  unfold unplug
  split_ifs <;> rfl

theorem unplug_port {m : N} {l : Link N K} (h : l.port.map Port.master = some m) :
    (l.unplug m).port = none := by rw [unplug, if_pos h]

theorem unplug_of_free {m : N} {l : Link N K} (h : l.port = none) : l.unplug m = l := by
  rw [unplug, if_neg]
  rw [h]
  simp

end Link

namespace Links
variable [DecidableEq N]

/-- The link under `n` changes, if there is one. -/
def modify (k : Links N K) (n : N) (f : Link N K → Link N K) : Links N K :=
  Function.update k n ((k n).map f)

/-- A new link, if there is none. -/
def ensure (k : Links N K) (n : N) (kind : K) : Links N K :=
  if (k n).isSome then k else Function.update k n (some { kind })

/-- The link goes, and its ports are free. -/
def destroy (k : Links N K) (n : N) : Links N K :=
  fun m => if m = n then none else (k m).map (Link.unplug n)

section At
variable (k : Links N K) (n m : N) (f : Link N K → Link N K) (kind : K)

theorem at_modify : k.modify n f m = if m = n then (k n).map f else k m := by
  by_cases h : m = n
  · subst h
    rw [if_pos rfl, modify, Function.update_self]
  · rw [if_neg h, modify, Function.update_of_ne h]

@[simp] theorem at_modify_self : k.modify n f n = (k n).map f := by rw [at_modify, if_pos rfl]

theorem at_modify_of_ne {k : Links N K} {n m : N} {f : Link N K → Link N K} (h : m ≠ n) :
    k.modify n f m = k m := by rw [at_modify, if_neg h]

theorem at_ensure_of_ne {k : Links N K} {n m : N} {kind : K} (h : m ≠ n) :
    k.ensure n kind m = k m := by
  unfold ensure
  split_ifs
  · rfl
  · rw [Function.update_of_ne h]

/-- Afterwards there is a link, and it is the old one if there was one. -/
theorem at_ensure_self : k.ensure n kind n = some ((k n).getD { kind }) := by
  unfold ensure
  cases h : k n with
  | none => simp
  | some l => simp [h]

theorem ensure_of_some {k : Links N K} {n : N} {kind : K} {l : Link N K} (h : k n = some l) :
    k.ensure n kind = k := by rw [ensure, if_pos (by rw [h]; rfl)]

theorem at_destroy : k.destroy n m = if m = n then none else (k m).map (Link.unplug n) := rfl

/-- The kinds of the links stay, and no link appears. -/
theorem kind_modify {P : N → K → Prop} (hf : ∀ l : Link N K, (f l).kind = l.kind)
    (h : ∀ m l, k m = some l → P m l.kind) : ∀ m l, k.modify n f m = some l → P m l.kind := by
  intro m l hl
  rw [at_modify] at hl
  split_ifs at hl with hm
  · obtain ⟨l', hl', rfl⟩ := Option.map_eq_some_iff.mp hl
    rw [hf l', hm]
    exact h n l' hl'
  · exact h m l hl

theorem kind_ensure {P : N → K → Prop} (hn : P n kind) (h : ∀ m l, k m = some l → P m l.kind) :
    ∀ m l, k.ensure n kind m = some l → P m l.kind := by
  intro m l hl
  by_cases hm : m = n
  · subst hm
    rw [at_ensure_self, Option.some.injEq] at hl
    subst hl
    cases hk : k m with
    | none => exact hn
    | some l => exact h m l hk
  · rw [at_ensure_of_ne hm] at hl
    exact h m l hl

theorem kind_destroy {P : N → K → Prop} (h : ∀ m l, k m = some l → P m l.kind) :
    ∀ m l, k.destroy n m = some l → P m l.kind := by
  intro m l hl
  rw [at_destroy] at hl
  split_ifs at hl
  obtain ⟨l', hl', rfl⟩ := Option.map_eq_some_iff.mp hl
  rw [Link.unplug_kind]
  exact h m l' hl'

end At
end Links
end Ohno.LinkTables
