import Ohno.Nics

/-!
# What the system keeps for the daemon

The routing table, the ARP table and the FDB as lists of entries. `execute` is
what a command of the daemon does when it succeeds and what a query answers
when it is truthful. A command that names no device applies to every device; a
route added without one stays on the device that the kernel chose, written as
the empty text. An ARP entry is known by its address and device alone.
-/
namespace Ohno.KernelTables
open CommandPrograms AddressText EtcdClientShell Netlink Nics

structure Tables where
  routes : List Route := []
  neighs : List Neigh := []
  fdbs : List Fdb := []
deriving Repr, DecidableEq

def onDevice (dev actual : Text) : Bool := dev = [] || actual = dev

def routeMatches (dst via dev : Text) (r : Route) : Bool :=
  r.dest = dst && r.via = via && onDevice dev r.dev

def neighMatches (addr dev : Text) (n : Neigh) : Bool := n.addr = addr && onDevice dev n.dev

def execute : NetlinkCmd → Tables → Bool × Tables
  | .routeIsExist dst via dev _, t => (t.routes.any (routeMatches dst via dev), t)
  | .routeSetEntry dst via true dev _ _, t =>
      (true, { t with routes := t.routes ++ [⟨dst, via, dev⟩] })
  | .routeSetEntry dst via false dev _ _, t =>
      (true, { t with routes := t.routes.filter (!routeMatches dst via dev ·) })
  | .neighIsExist addr dev _, t => (t.neighs.any (neighMatches addr dev), t)
  | .neighSetEntry addr mac true dev _, t =>
      (true, { t with neighs := t.neighs ++ [⟨addr, mac, dev⟩] })
  | .neighSetEntry addr _ false dev _, t =>
      (true, { t with neighs := t.neighs.filter (!neighMatches addr dev ·) })
  | .fdbIsExist mac addr dev _, t => (decide (⟨mac, addr, dev⟩ ∈ t.fdbs), t)
  | .fdbSetEntry mac addr dev true _, t => (true, { t with fdbs := t.fdbs ++ [⟨mac, addr, dev⟩] })
  | .fdbSetEntry mac addr dev false _, t =>
      (true, { t with fdbs := t.fdbs.filter (· ≠ ⟨mac, addr, dev⟩) })
  | _, t => (true, t)

/-- The commands that change a table. -/
def changes : NetlinkCmd → Bool
  | .routeSetEntry .. => true
  | .neighSetEntry .. => true
  | .fdbSetEntry .. => true
  | _ => false

/-- The arguments that a command must be given are not empty. -/
def wellFormed : NetlinkCmd → Bool
  | .routeIsExist _ via _ _ => via ≠ []
  | .routeSetEntry _ via _ _ _ _ => via ≠ []
  | .neighIsExist addr _ _ => addr ≠ []
  | .neighSetEntry addr mac _ _ _ => addr ≠ [] && mac ≠ []
  | .fdbIsExist mac addr dev _ => mac ≠ [] && addr ≠ [] && dev ≠ []
  | .fdbSetEntry mac addr dev _ _ => mac ≠ [] && addr ≠ [] && dev ≠ []
  | _ => true

/-- Queries are truthful; a change happens or fails without effect. -/
def mayFail (c : NetlinkCmd) (t : Tables) (b : Bool) (u : Tables) : Prop :=
  (b, u) = execute c t ∨ changes c = true ∧ b = false ∧ u = t

/-- A command with the arguments it needs succeeds. Without them a change fails
and a query answers anything. -/
def carriesOut (c : NetlinkCmd) (t : Tables) (b : Bool) (u : Tables) : Prop :=
  if wellFormed c then (b, u) = execute c t else u = t ∧ (changes c = true → b = false)

/-- Nothing fails. -/
def allSucceed (c : NetlinkCmd) (t : Tables) (b : Bool) (u : Tables) : Prop := (b, u) = execute c t

section MayFail
variable {dst via dev netns : Text} {flags : RouteNHFlags} {t u : Tables} {b : Bool}

theorem mayFail_execute (c : NetlinkCmd) (t : Tables) :
    mayFail c t (execute c t).1 (execute c t).2 := .inl rfl

@[simp] theorem mayFail_routeIsExist : mayFail (.routeIsExist dst via dev netns) t b u ↔
    b = t.routes.any (routeMatches dst via dev) ∧ u = t := by
  simp [mayFail, execute, changes]

@[simp] theorem mayFail_addRoute : mayFail (.routeSetEntry dst via true dev netns flags) t b u ↔
    b = true ∧ u = { t with routes := t.routes ++ [⟨dst, via, dev⟩] } ∨ b = false ∧ u = t := by
  simp [mayFail, execute, changes]

@[simp] theorem mayFail_delRoute : mayFail (.routeSetEntry dst via false dev netns flags) t b u ↔
    b = true ∧ u = { t with routes := t.routes.filter (!routeMatches dst via dev ·) } ∨
      b = false ∧ u = t := by
  simp [mayFail, execute, changes]

end MayFail

/-! ### Entries added and deleted by commands that are carried out -/

section CarriedOut
variable {S : Type} {E : EtcdCmd → S → Reply → S → Prop} {nic other : Nic}
variable {isExist setEntry c : NetlinkCmd} {t u : Tables} {b : Bool} {w : S × Tables}
variable {Q : Except Thrown (Bool × Nic) → S × Tables → Prop}

theorem carriesOut_of_wellFormed (hc : wellFormed c = true) (h : carriesOut c t b u) :
    b = (execute c t).1 ∧ u = (execute c t).2 := by
  unfold carriesOut at h
  rw [if_pos hc] at h
  exact Prod.mk.inj h

theorem carriesOut_of_malformed (hc : ¬ wellFormed c = true) (h : carriesOut c t b u) :
    u = t ∧ (changes c = true → b = false) := by
  unfold carriesOut at h
  rwa [if_neg hc] at h

/-- A query leaves the tables alone. -/
theorem carriesOut_query (hc : ∀ t, (execute c t).2 = t) (h : carriesOut c t b u) : u = t := by
  by_cases hw : wellFormed c = true
  · rw [(carriesOut_of_wellFormed hw h).2, hc]
  · exact (carriesOut_of_malformed hw h).1

theorem safe_addEntry (hn : nic.netlink = true) (hq : ∀ t, (execute isExist t).2 = t)
    (hs : ∀ t, (execute setEntry t).1 = true) (hch : changes setEntry = true)
    (taken : Q (.ok (true, other)) w)
    (added : wellFormed setEntry = true →
      Q (.ok (true, other)) (w.1, (execute setEntry w.2).2))
    (failed : ¬ wellFormed setEntry = true → Q (.ok (false, nic)) w) :
    (nic.addEntry isExist setEntry other).Safe (serve E carriesOut) Q w := by
  apply Nic.safe_addEntry hn
  · intro t ht
    rw [carriesOut_query hq ht]
    exact taken
  · intro t u ht hu
    rw [carriesOut_query hq ht] at hu
    by_cases hw : wellFormed setEntry = true
    · rw [(carriesOut_of_wellFormed hw hu).2]
      exact added hw
    · have hb := (carriesOut_of_malformed hw hu).2 hch
      cases hb
  · intro t u ht hu
    rw [carriesOut_query hq ht] at hu
    by_cases hw : wellFormed setEntry = true
    · have hb := (carriesOut_of_wellFormed hw hu).1
      rw [hs] at hb
      cases hb
    · rw [(carriesOut_of_malformed hw hu).1]
      exact failed hw

theorem safe_delEntry (hn : nic.netlink = true) (hq : ∀ t, (execute isExist t).2 = t)
    (hs : ∀ t, (execute setEntry t).1 = true) (hch : changes setEntry = true)
    (absent : (wellFormed isExist = true → (execute isExist w.2).1 = false) →
      Q (.ok (true, nic)) w)
    (deleted : wellFormed setEntry = true →
      Q (.ok (true, other)) (w.1, (execute setEntry w.2).2))
    (failed : ¬ wellFormed setEntry = true → Q (.ok (false, nic)) w) :
    (nic.delEntry isExist setEntry other).Safe (serve E carriesOut) Q w := by
  apply Nic.safe_delEntry hn
  · intro t ht
    rw [carriesOut_query hq ht]
    exact absent fun hw => (carriesOut_of_wellFormed hw ht).1.symm
  · intro t u ht hu
    rw [carriesOut_query hq ht] at hu
    by_cases hw : wellFormed setEntry = true
    · rw [(carriesOut_of_wellFormed hw hu).2]
      exact deleted hw
    · have hb := (carriesOut_of_malformed hw hu).2 hch
      cases hb
  · intro t u ht hu
    rw [carriesOut_query hq ht] at hu
    by_cases hw : wellFormed setEntry = true
    · have hb := (carriesOut_of_wellFormed hw hu).1
      rw [hs] at hb
      cases hb
    · rw [(carriesOut_of_malformed hw hu).1]
      exact failed hw

end CarriedOut
end Ohno.KernelTables
