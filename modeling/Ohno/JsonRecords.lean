import Mathlib.Data.Int.Notation
import Mathlib.Data.List.Nodup
import Mathlib.Data.Nat.Notation
import Mathlib.Tactic.Common

/-!
# Records in JSON

A codec writes values of a type and reads them back. A record is written as an
object with a member for each field; it is read over a record that is there
already: a field whose member is missing keeps its value, and what is no object
changes nothing. Texts are of any type.

`decode_fill` says what a partial object means: the members that are missing
may as well be those of the record that is there.
-/
namespace Ohno.JsonRecords

/-- A parsed text. Of a number that is no integer only the integral part is
known. -/
inductive Value (T : Type) where
  | null
  | bool (b : Bool)
  | int (n : ℤ)
  | real (whole : ℤ)
  | string (text : T)
  | array (elems : List (Value T))
  | object (members : List (T × Value T))

variable {T A S : Type}

/-- The values that are read and written as `A`; a reader may refuse. -/
structure Codec (T A : Type) where
  write : A → Value T
  read : Value T → Option A
  read_write : ∀ a, read (write a) = some a

namespace Codec

def readString : Value T → Option T
  | .string t => some t
  | _ => none

def readBool : Value T → Option Bool
  | .bool b => some b
  | _ => none

/-- A boolean is a number for the reader of numbers. -/
def readInt (w : ℕ) : Value T → Option (BitVec w)
  | .int n => some (BitVec.ofInt w n)
  | .real n => some (BitVec.ofInt w n)
  | .bool b => some (BitVec.ofInt w b.toInt)
  | _ => none

def readList (read : Value T → Option A) : Value T → Option (List A)
  | .array elems => elems.mapM read
  | _ => none

theorem readString_string (t : T) : readString (.string t) = some t := rfl

theorem readBool_bool (b : Bool) : readBool (.bool b : Value T) = some b := rfl

theorem readInt_toInt {w : ℕ} (n : BitVec w) : readInt w (.int n.toInt : Value T) = some n := by
  rw [readInt, BitVec.ofInt_toInt]

theorem readList_map (c : Codec T A) (l : List A) :
    readList c.read (.array (l.map c.write)) = some l := by
  rw [readList]
  induction l with
  | nil => rfl
  | cons a l ih => simp [c.read_write, ih]

def string : Codec T T := ⟨.string, readString, readString_string⟩

def bool : Codec T Bool := ⟨.bool, readBool, readBool_bool⟩

/-- Two's complement on `w` bits. -/
def int (w : ℕ) : Codec T (BitVec w) := ⟨fun n => .int n.toInt, readInt w, readInt_toInt⟩

def list (c : Codec T A) : Codec T (List A) :=
  ⟨fun l => .array (l.map c.write), readList c.read, readList_map c⟩

section Enum
variable [DecidableEq T]

/-- Enumerators are written by name. What is no name of one is read as `other`. -/
structure Enum (T A : Type) where
  all : List A
  name : A → T
  other : A
  mem : ∀ a, a ∈ all
  injective : ∀ a b, name a = name b → a = b

def Enum.ofName (e : Enum T A) (t : T) : Option A := e.all.find? fun a => decide (e.name a = t)

def Enum.read (e : Enum T A) : Value T → Option A
  | .string t => some ((e.ofName t).getD e.other)
  | _ => none

theorem Enum.ofName_name (e : Enum T A) (a : A) : e.ofName (e.name a) = some a := by
  unfold Enum.ofName
  cases h : e.all.find? fun b => decide (e.name b = e.name a) with
  | none =>
      have hnone := List.find?_eq_none.mp h a (e.mem a)
      simp at hnone
  | some b =>
      have hb := List.find?_some h
      rw [e.injective b a (of_decide_eq_true hb)]

theorem Enum.read_name (e : Enum T A) (a : A) : e.read (.string (e.name a)) = some a := by
  rw [Enum.read, e.ofName_name, Option.getD_some]

def enum (e : Enum T A) : Codec T A := ⟨fun a => .string (e.name a), e.read, e.read_name⟩

end Enum
end Codec

/-! ### Fields -/

/-- A field of `S`. `copy s t` is `t` with the field of `s`. -/
structure Field (T S : Type) where
  key : T
  write : S → Value T
  read : S → Value T → Option S
  copy : S → S → S
  read_write : ∀ s t, read t (write s) = some (copy s t)

theorem read_write_field (c : Codec T A) (get : S → A) (set : A → S → S) (s t : S) :
    ((c.read (c.write (get s))).map fun a => set a t) = some (set (get s) t) := by
  rw [c.read_write, Option.map_some]

/-- The field that `get` reads and `set` replaces. -/
def field (key : T) (c : Codec T A) (get : S → A) (set : A → S → S) : Field T S where
  key
  write s := c.write (get s)
  read t w := (c.read w).map fun a => set a t
  copy s t := set (get s) t
  read_write := read_write_field c get set

def encode (fs : List (Field T S)) (s : S) : List (T × Value T) :=
  fs.map fun f => (f.key, f.write s)

def copyAll (fs : List (Field T S)) (s t : S) : S := fs.foldl (fun t f => f.copy s t) t

@[simp] theorem copyAll_cons (f : Field T S) (fs : List (Field T S)) (s t : S) :
    copyAll (f :: fs) s t = copyAll fs s (f.copy s t) := rfl

/-- A reader depends on the member alone. -/
def Field.Uniform (f : Field T S) : Prop :=
  ∀ s t w, f.read t w = (f.read s w).map fun r => f.copy r t

def Field.Apart (f g : Field T S) : Prop := ∀ r t, f.copy (g.copy r t) = f.copy t

/-- Fields that are made by `field`. -/
theorem uniform_field {key : T} {c : Codec T A} {get : S → A} {set : A → S → S}
    (h : ∀ a s, get (set a s) = a) : (field key c get set).Uniform := by
  intro s t w
  simp only [field]
  cases c.read w with
  | none => rfl
  | some a => simp [h]

section Records
variable [DecidableEq T]

/-- The member of an object. -/
def Value.member (v : Value T) (key : T) : Option (Value T) :=
  match v with
  | .object members => members.lookup key
  | _ => none

/-- `field` of the record `t`, as the member says. -/
def Field.load (f : Field T S) (v : Value T) (t : S) : Option S :=
  match v.member f.key with
  | none => some t
  | some w => f.read t w

def decode (fs : List (Field T S)) (v : Value T) (t : S) : Option S :=
  fs.foldlM (fun t f => f.load v t) t

/-- The fields have names of their own, do not overlap and make up the record. -/
structure Lawful (fs : List (Field T S)) : Prop where
  nodup : (fs.map Field.key).Nodup
  uniform : ∀ f ∈ fs, f.Uniform
  apart : fs.Pairwise fun f g => f.Apart g ∧ g.Apart f
  all : ∀ s t, copyAll fs s t = s

variable {fs : List (Field T S)} {v w : Value T} {s t u : S}

@[simp] theorem decode_nil (v : Value T) (t : S) : decode [] v t = some t := rfl
@[simp] theorem decode_cons (f : Field T S) (fs : List (Field T S)) (v : Value T) (t : S) :
    decode (f :: fs) v t = (f.load v t).bind (decode fs v) := rfl

/-- Only the members of the fields are looked at. -/
theorem decode_congr (h : ∀ f ∈ fs, v.member f.key = w.member f.key) (t : S) :
    decode fs v t = decode fs w t := by
  induction fs generalizing t with
  | nil => rfl
  | cons f fs ih =>
      have hf : f.load v t = f.load w t := by
        simp only [Field.load, h f List.mem_cons_self]
      have hfs : decode fs v = decode fs w :=
        funext fun t => ih (fun g hg => h g (List.mem_cons_of_mem _ hg)) t
      rw [decode_cons, decode_cons, hf, hfs]

theorem decode_of_absent (h : ∀ f ∈ fs, v.member f.key = none) (t : S) :
    decode fs v t = some t := by
  induction fs generalizing t with
  | nil => rfl
  | cons f fs ih =>
      rw [decode_cons, Field.load, h f List.mem_cons_self]
      exact ih (fun g hg => h g (List.mem_cons_of_mem _ hg)) t

theorem lookup_encode (hfs : (fs.map Field.key).Nodup) (s : S) {f : Field T S} (hf : f ∈ fs) :
    (encode fs s).lookup f.key = some (f.write s) := by
  induction fs with
  | nil => cases hf
  | cons g fs ih =>
      obtain ⟨hg, hnodup⟩ := List.nodup_cons.mp hfs
      rcases List.mem_cons.mp hf with rfl | hf
      · simp [encode]
      · have hne : f.key ≠ g.key := by
          intro he
          exact hg (he ▸ List.mem_map_of_mem hf)
        have hcons : encode (g :: fs) s = (g.key, g.write s) :: encode fs s := rfl
        rw [hcons, List.lookup_cons, beq_false_of_ne hne]
        exact ih hnodup hf

theorem Field.Apart.load {f g : Field T S} (h : f.Apart g) (hg : g.Uniform)
    (hs : g.load v t = some s) : f.copy s = f.copy t := by
  unfold Field.load at hs
  split at hs
  · rw [Option.some.injEq] at hs
    rw [hs]
  · rename_i w _
    have hself := hg t t w
    rw [hs, Option.map_some, Option.some.injEq] at hself
    rw [hself]
    exact h s t

/-- What is read into the other fields does not touch `f`. -/
theorem copy_of_decode {f : Field T S} (huniform : ∀ g ∈ fs, g.Uniform)
    (hapart : ∀ g ∈ fs, f.Apart g)
    (h : decode fs v t = some s) : f.copy s = f.copy t := by
  induction fs generalizing t with
  | nil =>
      rw [decode_nil, Option.some.injEq] at h
      rw [h]
  | cons g fs ih =>
      rw [decode_cons, Option.bind_eq_some_iff] at h
      obtain ⟨r, hr, h⟩ := h
      rw [ih (fun g' hg' => huniform g' (List.mem_cons_of_mem _ hg'))
        (fun g' hg' => hapart g' (List.mem_cons_of_mem _ hg')) h]
      exact (hapart g List.mem_cons_self).load (huniform g List.mem_cons_self) hr

/-- `w` has the members of `v`, and those of `s` where `v` has none. -/
def Fills (fs : List (Field T S)) (s : S) (v w : Value T) : Prop :=
  ∀ f ∈ fs, w.member f.key = some ((v.member f.key).getD (f.write s))

theorem decode_of_fills (huniform : ∀ f ∈ fs, f.Uniform)
    (hapart : fs.Pairwise fun f g => f.Apart g ∧ g.Apart f) (hfill : Fills fs s v w)
    (hs : ∀ f ∈ fs, f.copy t = f.copy s) (u : S) :
    decode fs w u = (decode fs v t).map fun r => copyAll fs r u := by
  induction fs generalizing t u with
  | nil => rfl
  | cons f fs ih =>
      obtain ⟨hf, hapart⟩ := List.pairwise_cons.mp hapart
      have huniforms : ∀ g ∈ fs, g.Uniform := fun g hg => huniform g (List.mem_cons_of_mem _ hg)
      have hself := huniform f List.mem_cons_self
      have hload : f.load w u = (f.load v t).map fun r => f.copy r u := by
        unfold Field.load
        rw [hfill f List.mem_cons_self]
        cases v.member f.key with
        | none =>
            rw [Option.getD_none, Option.map_some, hs f List.mem_cons_self]
            exact f.read_write s u
        | some x =>
            rw [Option.getD_some]
            exact hself t u x
      rw [decode_cons, decode_cons, hload]
      cases hr : f.load v t with
      | none => rfl
      | some r =>
          have hstep : ∀ g ∈ fs, g.copy r = g.copy t := fun g hg => (hf g hg).2.load hself hr
          rw [Option.map_some, Option.bind_some, Option.bind_some,
            ih huniforms hapart (fun g hg => hfill g (List.mem_cons_of_mem _ hg))
              (fun g hg => (hstep g hg).trans (hs g (List.mem_cons_of_mem _ hg)))]
          cases hd : decode fs v r with
          | none => rfl
          | some q =>
              have hq := copy_of_decode huniforms (fun g hg => (hf g hg).1) hd
              rw [Option.map_some, Option.map_some, copyAll_cons, hq]

/-- Over any record, an object that is filled up with the members of `s` is read
as the object itself over `s`. -/
theorem decode_fill (h : Lawful fs) (members : List (T × Value T)) (s u : S) :
    decode fs (.object (members ++ encode fs s)) u = decode fs (.object members) s := by
  have hfill : Fills fs s (.object members) (.object (members ++ encode fs s)) := by
    intro f hf
    simp only [Value.member, List.lookup_append, lookup_encode h.nodup s hf]
    cases members.lookup f.key <;> rfl
  rw [decode_of_fills h.uniform h.apart hfill (fun _ _ => rfl)]
  cases decode fs (.object members) s with
  | none => rfl
  | some r => rw [Option.map_some, h.all]

/-- Over any record, what was written is read back. -/
theorem decode_encode (h : Lawful fs) (s u : S) : decode fs (.object (encode fs s)) u = some s := by
  have hfill := decode_fill h [] s u
  rw [List.nil_append] at hfill
  rw [hfill]
  exact decode_of_absent (fun _ _ => rfl) s

/-- A record that is read over `init`. -/
def Codec.record (fs : List (Field T S)) (init : S) (h : Lawful fs) : Codec T S where
  write s := .object (encode fs s)
  read v := decode fs v init
  read_write s := decode_encode h s init

end Records
end Ohno.JsonRecords
