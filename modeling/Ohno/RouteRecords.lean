import Ohno.Storage

/-!
# Stored routes

A route is stored as one text, destination, next hop and device behind each
other with `-` between them, and the routes of an interface as one list of such
texts. Where keys and values reach etcd as they are, which is so for plain words,
`Storage` reads back what it stored exactly when no device has a delimiter of
either level or a line break in its name.
-/
namespace Ohno.RouteRecords
open CommandPrograms DelimitedLists AddressText EtcdClientShell Subnets Nics Storage

/-- A text that neither of the two levels cuts. -/
structure Field (x : Text) : Prop where
  comma : ',' ∉ x
  dash : separator ∉ x
  line : '\n' ∉ x

instance (x : Text) : Decidable (Field x) :=
  decidable_of_iff (',' ∉ x ∧ separator ∉ x ∧ '\n' ∉ x)
    ⟨fun h => ⟨h.1, h.2.1, h.2.2⟩, fun h => ⟨h.comma, h.dash, h.line⟩⟩

/-- A route whose text can be read back. -/
structure Readback (r : Route) : Prop where
  dest : Field r.dest
  via : Field r.via
  dev : Field r.dev
  dev_ne_nil : r.dev ≠ []

instance (r : Route) : Decidable (Readback r) :=
  decidable_of_iff (Field r.dest ∧ Field r.via ∧ Field r.dev ∧ r.dev ≠ [])
    ⟨fun h => ⟨h.1, h.2.1, h.2.2.1, h.2.2.2⟩, fun h => ⟨h.dest, h.via, h.dev, h.dev_ne_nil⟩⟩

def routeText (r : Route) : Text := getRouteValue r.dest r.via r.dev

theorem routeText_eq (r : Route) : routeText r = join separator [r.dest, r.via, r.dev] := by
  simp [routeText, getRouteValue, join_cons]

namespace Readback
variable {r : Route}

theorem split_eq (h : Readback r) : split separator (routeText r) = [r.dest, r.via, r.dev] := by
  have hread : Readable separator [r.dest, r.via, r.dev] := by
    constructor
    · intro x hx
      simp only [List.mem_cons, List.not_mem_nil, or_false] at hx
      rcases hx with rfl | rfl | rfl
      · exact h.dest.dash
      · exact h.via.dash
      · exact h.dev.dash
    · simpa using h.dev_ne_nil
  rw [routeText_eq, split_join _ hread]

theorem parseRoute_eq (h : Readback r) : parseRoute (routeText r) = .ok r := by
  simp [parseRoute, h.split_eq]

theorem item (h : Readback r) : Store.Item (routeText r) where
  ne_nil := by simp [routeText, getRouteValue]
  comma := by
    simp [routeText, getRouteValue, separator, h.dest.comma, h.via.comma, h.dev.comma]
  line := by
    simp [routeText, getRouteValue, separator, h.dest.line, h.via.line, h.dev.line]

end Readback

theorem mapM_routeText {routes : List Route} (h : ∀ r ∈ routes, Readback r) :
    (routes.map routeText).mapM parseRoute = .ok routes := by
  induction routes with
  | nil => rfl
  | cons r routes ih =>
      obtain ⟨hr, hrest⟩ := List.forall_mem_cons.mp h
      simp [List.mapM_cons, hr.parseRoute_eq, ih hrest, bind, Except.bind, pure, Except.pure]

/-- Every route that was read is one of the texts. -/
theorem exists_of_mapM {items : List Text} {routes : List Route}
    (h : items.mapM parseRoute = .ok routes) : ∀ r ∈ routes, ∃ x ∈ items, parseRoute x = .ok r := by
  induction items generalizing routes with
  | nil =>
      cases h
      simp
  | cons x items ih =>
      simp only [List.mapM_cons, bind, Except.bind, pure, Except.pure] at h
      cases hx : parseRoute x with
      | error e => simp [hx] at h
      | ok r =>
          cases hi : items.mapM parseRoute with
          | error e => simp [hx, hi] at h
          | ok rest =>
              simp only [hx, hi, Except.ok.injEq] at h
              subst h
              intro r' hr'
              rcases List.mem_cons.mp hr' with rfl | hr'
              · exact ⟨x, List.mem_cons_self, hx⟩
              · obtain ⟨y, hy, hry⟩ := ih hi r' hr'
                exact ⟨y, List.mem_cons_of_mem x hy, hry⟩

/-- A device that was read is part of its text and has no delimiter in it. -/
theorem dev_of_parseRoute {x : Text} {r : Route} (h : parseRoute x = .ok r) :
    separator ∉ r.dev ∧ ∀ c ∈ r.dev, c ∈ x := by
  unfold parseRoute at h
  split at h
  · rename_i dest via dev rest hs
    have hdev : dev ∈ split separator x := by simp [hs]
    cases h
    exact ⟨free_of_mem_split separator x dev hdev, mem_of_mem_split separator hdev⟩
  · cases h

/-! ### One interface -/

section Interface
variable (node pod nic : Text)

/-- `addRoute` for one route after the other. -/
def addRoutes : List Route → EtcdProgram Unit
  | [] => pure ()
  | r :: routes => do
      let _ ← addRoute node pod nic r
      addRoutes routes

/-- What the store holds after the routes were added. -/
def afterRoutes (routes : List Route) (s : Store) : Store :=
  ((addRoutes node pod nic routes).run Etcd.ok s).2

@[simp] theorem afterRoutes_nil (s : Store) : afterRoutes node pod nic [] s = s := rfl

@[simp] theorem afterRoutes_cons (r : Route) (routes : List Route) (s : Store) :
    afterRoutes node pod nic (r :: routes) s =
      afterRoutes node pod nic routes (s.append (getRouteKey node pod nic) (routeText r)) := by
  simp [afterRoutes, addRoutes, addRoute, routeText]

theorem run_getAllRoutes (s : Store) :
    (getAllRoutes node pod nic).run Etcd.ok s =
      ((s.values (getRouteKey node pod nic)).mapM parseRoute, s) := by
  simp only [getAllRoutes, listOrEmpty, Program.bind_eq, Program.run_bind, run_list,
    Program.Final.andThen_ok, Program.pure_eq, Program.run_pure, Option.getD_some]
  cases (s.values (getRouteKey node pod nic)).mapM parseRoute <;> rfl

variable {node pod nic}

theorem holds_afterRoutes {s : Store} {items : List Text}
    (hs : s.Holds (getRouteKey node pod nic) items) {routes : List Route}
    (h : ∀ r ∈ routes, Readback r) :
    (afterRoutes node pod nic routes s).Holds (getRouteKey node pod nic)
      (items ++ routes.map routeText) := by
  induction routes generalizing s items with
  | nil => simpa using hs
  | cons r routes ih =>
      obtain ⟨hr, hrest⟩ := List.forall_mem_cons.mp h
      have happ := ih (hs.append hr.item) hrest
      simpa using happ

end Interface

/-! ### Routes that ADD can store -/

/-- A text of digits, dots and slashes. -/
theorem field_of_digits {x : Text} (h : ∀ c ∈ x, c = '.' ∨ c = '/' ∨ c.isDigit) : Field x := by
  have hne : ∀ c : Char, c ≠ '.' → c ≠ '/' → c.isDigit = false → c ∉ x := by
    intro c hd hs hc hx
    rcases h c hx with h | h | h
    · exact hd h
    · exact hs h
    · simp [h] at hc
  exact ⟨hne _ (by decide) (by decide) (by decide), hne _ (by decide) (by decide) (by decide),
    hne _ (by decide) (by decide) (by decide)⟩

theorem digit_of_isDigits {x : Text} (h : isDigits x = true) : ∀ c ∈ x, c.isDigit = true := by
  simp only [isDigits, Bool.and_eq_true, List.all_eq_true] at h
  exact h.2

theorem mem_of_matchesIpv4 {x : Text} (h : matchesIpv4 x = true) :
    ∀ c ∈ x, c = '.' ∨ c = '/' ∨ c.isDigit := by
  unfold matchesIpv4 at h
  split at h
  · rename_i addr len hx
    split at h
    · rename_i o₁ o₂ o₃ o₄ haddr
      simp only [Bool.and_eq_true] at h
      obtain ⟨⟨⟨⟨h₁, h₂⟩, h₃⟩, h₄⟩, hlen⟩ := h
      have hx' : x = join '/' [addr, len] := by rw [← hx]; exact (List.intercalate_splitOn '/').symm
      have haddr' : addr = join '.' [o₁, o₂, o₃, o₄] := by
        rw [← haddr]; exact (List.intercalate_splitOn '.').symm
      have hdigits : ∀ o ∈ [o₁, o₂, o₃, o₄], isDigits o = true := by simp [h₁, h₂, h₃, h₄]
      intro c hc
      rcases mem_join '/' (hx' ▸ hc) with hslash | ⟨y, hy, hcy⟩
      · exact .inr (.inl hslash)
      · simp only [List.mem_cons, List.not_mem_nil, or_false] at hy
        rcases hy with rfl | rfl
        · rcases mem_join '.' (haddr' ▸ hcy) with hdot | ⟨o, ho, hco⟩
          · exact .inl hdot
          · exact .inr (.inr (digit_of_isDigits (hdigits o ho) c hco))
        · exact .inr (.inr (digit_of_isDigits hlen c hcy))
    · cases h
  · cases h

/-- A destination that is empty or an IPv4 CIDR, an IPv4 address, and a device
with any name that is not empty. -/
structure Addable (r : Route) : Prop where
  dest : r.dest = [] ∨ matchesIpv4 r.dest = true
  via : matchesIpv4 (r.via ++ '/' :: decimal maxPrefixIpv4) = true
  dev : r.dev ≠ []

theorem Addable.readback {r : Route} (h : Addable r) (hd : Field r.dev) : Readback r where
  dest := by
    rcases h.dest with hn | hm
    · rw [hn]
      decide
    · exact field_of_digits (mem_of_matchesIpv4 hm)
  via := field_of_digits fun c hc => mem_of_matchesIpv4 h.via c (List.mem_append_left _ hc)
  dev := hd
  dev_ne_nil := h.dev

/-- All routes are read back in order, each text having three parts. -/
def ReadBack (node pod nic : Text) (routes : List Route) (s : Store) : Prop :=
  ((getAllRoutes node pod nic).run Etcd.ok s).1 = .ok routes ∧
    ∀ x ∈ s.values (getRouteKey node pod nic), (split separator x).length = 3

/-- When keys and values reach etcd as they are, routes that ADD can store are read
back exactly when no device name has a dash, a comma or a line break in it. -/
theorem readBack_iff_of_verbatim (node pod nic : Text) (s : Store)
    (hs : s (getRouteKey node pod nic) = none)
    (routes : List Route) (hr : ∀ r ∈ routes, Addable r) :
    ReadBack node pod nic routes (afterRoutes node pod nic routes s) ↔
      ∀ r ∈ routes, '-' ∉ r.dev ∧ ',' ∉ r.dev ∧ '\n' ∉ r.dev := by
  unfold ReadBack
  rw [run_getAllRoutes]
  constructor
  · intro ⟨hread, _⟩ r hmem
    obtain ⟨x, hx, hparse⟩ := exists_of_mapM hread r hmem
    obtain ⟨hdash, hpart⟩ := dev_of_parseRoute hparse
    have hcomma : ',' ∉ x := free_of_mem_split ',' _ x hx
    have hline : '\n' ∉ x := fun h => Store.newline_notMem_value (mem_of_mem_split ',' hx _ h)
    exact ⟨hdash, fun h => hcomma (hpart _ h), fun h => hline (hpart _ h)⟩
  · intro h
    have hreadback : ∀ r ∈ routes, Readback r := fun r hmem =>
      (hr r hmem).readback ⟨(h r hmem).2.1, (h r hmem).1, (h r hmem).2.2⟩
    have hvalues := (holds_afterRoutes (.nil hs) hreadback).values
    rw [List.nil_append] at hvalues
    rw [hvalues]
    refine ⟨mapM_routeText hreadback, fun x hx => ?_⟩
    obtain ⟨r, hmem, rfl⟩ := List.mem_map.mp hx
    simp [(hreadback r hmem).split_eq]

end Ohno.RouteRecords
