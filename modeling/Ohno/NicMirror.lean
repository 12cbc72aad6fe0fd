import Ohno.KernelTables

/-!
# The lists of an interface and what it manages

A `Nic` adds and deletes entries of four kinds and remembers them in lists. The
lists should hold exactly the entries whose last successful call was an add. A
call asks the kernel first, and what it does to the list depends on the answer:
an add appends also what is on the list already, and a del of an entry that the
kernel has lost leaves it there. `mirrors_iff` says in which runs the lists are
right after every call.
-/
namespace Ohno.NicMirror
open CommandPrograms AddressText EtcdClientShell Netlink Nics KernelTables

/-! ### The kernel -/

/-- The tables with the addresses of each interface. -/
structure System extends Tables where
  addrs : List (Text × Text) := []
deriving Repr, DecidableEq

def executeOn : NetlinkCmd → System → Bool × System
  | .addressIsExist name addr _, t => (decide ((name, addr) ∈ t.addrs), t)
  | .addressSetEntry name addr true _, t => (true, { t with addrs := t.addrs ++ [(name, addr)] })
  | .addressSetEntry name addr false _, t =>
      (true, { t with addrs := t.addrs.filter (· ≠ (name, addr)) })
  | c, t => ((execute c t.toTables).1, { t with toTables := (execute c t.toTables).2 })

/-- The commands that change something. -/
def sets : NetlinkCmd → Bool
  | .addressSetEntry .. => true
  | c => changes c

/-- Queries are truthful; a change happens, or fails without effect. -/
def answering (fails : Bool) (c : NetlinkCmd) (t : System) : Bool × System :=
  if fails && sets c then (false, t) else executeOn c t

/-! ### Calls and entries -/

inductive NicCall where
  | addAddr (a : Addr)
  | delAddr (cidr : Text)
  | addRoute (r : Route) (nhflags : RouteNHFlags)
  | delRoute (dst via dev : Text)
  | addNeigh (n : Neigh)
  | delNeigh (addr mac dev : Text)
  | addFdb (f : Fdb)
  | delFdb (addr mac dev : Text)
deriving Repr, DecidableEq

/-- An entry with all its identifying fields. An address is its text. -/
inductive Entry where
  | addr (cidr : Text)
  | route (r : Route)
  | neigh (n : Neigh)
  | fdb (f : Fdb)
deriving Repr, DecidableEq

namespace NicCall

def program (nic : Nic) : NicCall → OhnoProgram (Bool × Nic)
  | addAddr a => nic.addAddr a
  | delAddr cidr => nic.delAddr cidr
  | addRoute r nhflags => nic.addRoute r nhflags
  | delRoute dst via dev => nic.delRoute dst via dev
  | addNeigh n => nic.addNeigh n
  | delNeigh addr mac dev => nic.delNeigh addr mac dev
  | addFdb f => nic.addFdb f
  | delFdb addr mac dev => nic.delFdb addr mac dev

/-- The entry a call is about. An address may have no text. -/
def entry : NicCall → Option Entry
  | addAddr a => a.getAddrCidr.toOption.map .addr
  | delAddr cidr => some (.addr cidr)
  | addRoute r _ => some (.route r)
  | delRoute dst via dev => some (.route ⟨dst, via, dev⟩)
  | addNeigh n => some (.neigh n)
  | delNeigh addr mac dev => some (.neigh ⟨addr, mac, dev⟩)
  | addFdb f => some (.fdb f)
  | delFdb addr mac dev => some (.fdb ⟨mac, addr, dev⟩)

def adds : NicCall → Bool
  | addAddr _ | addRoute .. | addNeigh _ | addFdb _ => true
  | _ => false

/-- The query that a call about an entry issues. -/
def asks (nic : Nic) : NicCall → Option NetlinkCmd
  | addAddr a => a.getAddrCidr.toOption.map fun t => .addressIsExist nic.name t nic.netns
  | delAddr cidr => some (.addressIsExist nic.name cidr nic.netns)
  | addRoute r _ => some (.routeIsExist r.dest r.via r.dev nic.netns)
  | delRoute dst via dev => some (.routeIsExist dst via dev nic.netns)
  | addNeigh n => some (.neighIsExist n.addr n.dev nic.netns)
  | delNeigh addr _ dev => some (.neighIsExist addr dev nic.netns)
  | addFdb f => some (.fdbIsExist f.mac f.underlayAddr f.dev nic.netns)
  | delFdb addr mac dev => some (.fdbIsExist mac addr dev nic.netns)

/-- The lists after a call that changed them. -/
def changed (nic : Nic) : NicCall → Nic
  | addAddr a => { nic with addrs := nic.addrs ++ [a] }
  | delAddr cidr =>
      { nic with addrs := nic.addrs.filter fun a => a.getAddrCidr.toOption ≠ some cidr }
  | addRoute r _ => { nic with routes := nic.routes ++ [r] }
  | delRoute dst via dev => { nic with routes := nic.routes.filter (· ≠ ⟨dst, via, dev⟩) }
  | addNeigh n => { nic with neighs := nic.neighs ++ [n] }
  | delNeigh addr mac dev => { nic with neighs := nic.neighs.filter (· ≠ ⟨addr, mac, dev⟩) }
  | addFdb f => { nic with fdbs := nic.fdbs ++ [f] }
  | delFdb addr mac _ =>
      { nic with fdbs := nic.fdbs.filter fun f => ¬ (f.mac = mac ∧ f.underlayAddr = addr) }

end NicCall

/-- All cached entries. Entries of different kinds are different. -/
def entries (nic : Nic) : List Entry :=
  nic.addrs.filterMap (fun a => a.getAddrCidr.toOption.map .addr) ++ nic.routes.map .route ++
    nic.neighs.map .neigh ++ nic.fdbs.map .fdb

/-- A call, the system it finds, and whether its change fails. Others may have
changed the system since the last call. -/
structure Step where
  found : System
  fails : Bool
  call : NicCall

/-- The interface, and the calls so far with their results, the latest first. -/
structure State where
  nic : Nic
  history : List (NicCall × Bool) := []

/-- A call that throws has not succeeded. -/
def step (x : Step) (m : State) : State :=
  match (x.call.program m.nic).run (serveBy Etcd.ok (answering x.fails))
    (fun _ => none, x.found) with
  | (.ok (b, nic), _) => ⟨nic, (x.call, b) :: m.history⟩
  | (.error _, _) => ⟨m.nic, (x.call, false) :: m.history⟩

/-- The last successful call about the entry was an add. -/
def live (e : Entry) : List (NicCall × Bool) → Bool
  | [] => false
  | (c, ok) :: h => if ok = true ∧ c.entry = some e then c.adds else live e h

/-- The lists have no duplicates and hold exactly the entries whose last
successful call was an add. -/
structure Mirrors (m : State) : Prop where
  texts : ∀ a ∈ m.nic.addrs, ∃ t, a.getAddrCidr = .ok t
  nodup : (entries m.nic).Nodup
  mem_iff : ∀ e, e ∈ entries m.nic ↔ live e m.history = true

/-! ### What one call does -/

/-- The answer to the query of a call. -/
def Step.held (x : Step) (nic : Nic) : Bool :=
  (x.call.asks nic).any fun c => (executeOn c x.found).1

/-- The flag and the lists after a call that asked. -/
def outcome (x : Step) (nic : Nic) : Bool × Nic :=
  if x.call.adds then
    if x.held nic || !x.fails then (true, x.call.changed nic) else (false, nic)
  else if x.held nic then
    if x.fails then (false, nic) else (true, x.call.changed nic)
  else (true, nic)

theorem pruneAddrs_eq {addrs : List Addr} (h : ∀ a ∈ addrs, ∃ t, a.getAddrCidr = .ok t)
    (cidr : Text) : Nic.pruneAddrs cidr addrs =
      .ok (addrs.filter fun a => a.getAddrCidr.toOption ≠ some cidr) := by
  induction addrs with
  | nil => rfl
  | cons a addrs ih =>
      obtain ⟨ha, hrest⟩ := List.forall_mem_cons.mp h
      obtain ⟨t, ht⟩ := ha
      by_cases htc : t = cidr
      · simp [Nic.pruneAddrs, ht, ih hrest, htc, bind, Except.bind, pure, Except.pure,
          Except.toOption]
      · simp [Nic.pruneAddrs, ht, ih hrest, htc, bind, Except.bind, pure, Except.pure,
          Except.toOption]

section Calls
variable {found : System} {fails : Bool} {nic other : Nic} {isExist setEntry : NetlinkCmd}

theorem answering_query (h : sets isExist = false) (t : System) :
    answering fails isExist t = executeOn isExist t := by
  simp [answering, h]

/-- A change succeeds unless it fails. -/
theorem answering_set (h : sets setEntry = true) (hs : ∀ t, (executeOn setEntry t).1 = true)
    (t : System) : (answering fails setEntry t).1 = !fails := by
  cases fails with
  | false => simp [answering, hs]
  | true => simp [answering, h]

theorem run_addEntry (hn : nic.netlink = true) (hq : sets isExist = false)
    (hset : sets setEntry = true) (hs : ∀ t, (executeOn setEntry t).1 = true) :
    ∃ w, (nic.addEntry isExist setEntry other).run (serveBy Etcd.ok (answering fails))
        (fun _ => none, found) =
      (.ok (if (executeOn isExist found).1 || !fails then (true, other) else (false, nic)), w) := by
  rw [Nic.run_addEntry hn, answering_query hq]
  cases (executeOn isExist found).1 with
  | true => exact ⟨_, rfl⟩
  | false =>
      simp only [Bool.false_eq_true, if_false, answering_set hset hs, Bool.false_or]
      exact ⟨_, rfl⟩

theorem run_delEntry (hn : nic.netlink = true) (hq : sets isExist = false)
    (hset : sets setEntry = true) (hs : ∀ t, (executeOn setEntry t).1 = true) :
    ∃ w, (nic.delEntry isExist setEntry other).run (serveBy Etcd.ok (answering fails))
        (fun _ => none, found) =
      (.ok (if (executeOn isExist found).1 then
        if fails then (false, nic) else (true, other) else (true, nic)), w) := by
  rw [Nic.run_delEntry hn, answering_query hq]
  cases (executeOn isExist found).1 with
  | false => exact ⟨_, rfl⟩
  | true =>
      simp only [if_true, answering_set hset hs]
      cases fails <;> exact ⟨_, rfl⟩

/-- `delAddr` asks as the others do and looks at the texts of its addresses last. -/
theorem run_delAddr (hn : nic.netlink = true) (ht : ∀ a ∈ nic.addrs, ∃ t, a.getAddrCidr = .ok t)
    (cidr : Text) :
    ∃ w, (nic.delAddr cidr).run (serveBy Etcd.ok (answering fails)) (fun _ => none, found) =
      (.ok (if (executeOn (.addressIsExist nic.name cidr nic.netns) found).1 then
        if fails then (false, nic) else (true, (NicCall.delAddr cidr).changed nic)
        else (true, nic)), w) := by
  have hset : ∀ t, (answering fails (.addressSetEntry nic.name cidr false nic.netns) t).1 =
      !fails :=
    answering_set rfl fun _ => rfl
  have hquery : ∀ t, answering fails (.addressIsExist nic.name cidr nic.netns) t =
    executeOn (.addressIsExist nic.name cidr nic.netns) t := answering_query rfl
  rw [Nic.delAddr, if_pos hn]
  simp only [Program.bind_eq, Program.run_bind, run_netlink, Program.Final.andThen_ok, hquery]
  cases (executeOn (.addressIsExist nic.name cidr nic.netns) found).1 with
  | false => exact ⟨_, rfl⟩
  | true =>
      simp only [if_true, Program.run_bind, run_netlink, Program.Final.andThen_ok, hset,
        pruneAddrs_eq ht, Program.ofExcept_ok, Program.pure_bind]
      cases fails <;> exact ⟨_, rfl⟩

/-- Every call about an entry ends with its outcome. -/
theorem run_program {x : Step} (hn : nic.netlink = true)
    (ht : ∀ a ∈ nic.addrs, ∃ t, a.getAddrCidr = .ok t) {e : Entry} (he : x.call.entry = some e) :
    ∃ w, (x.call.program nic).run (serveBy Etcd.ok (answering x.fails)) (fun _ => none, x.found) =
      (.ok (outcome x nic), w) := by
  obtain ⟨found, fails, call⟩ := x
  cases call with
  | addAddr a =>
      cases ha : a.getAddrCidr with
      | error err => simp [NicCall.entry, ha, Except.toOption] at he
      | ok t =>
          simp only [NicCall.program, Nic.addAddr, ha, Program.ofExcept_ok, Program.bind_eq,
            Program.pure_bind, outcome, NicCall.adds, NicCall.changed, Step.held, NicCall.asks,
            Except.toOption, Option.map_some, Option.any_some, if_true]
          exact run_addEntry hn rfl rfl fun _ => rfl
  | delAddr cidr => exact run_delAddr hn ht cidr
  | addRoute r nhflags => exact run_addEntry hn rfl rfl fun _ => rfl
  | delRoute dst via dev => exact run_delEntry hn rfl rfl fun _ => rfl
  | addNeigh n => exact run_addEntry hn rfl rfl fun _ => rfl
  | delNeigh addr mac dev => exact run_delEntry hn rfl rfl fun _ => rfl
  | addFdb f => exact run_addEntry hn rfl rfl fun _ => rfl
  | delFdb addr mac dev => exact run_delEntry hn rfl rfl fun _ => rfl

/-- Without a netlink object no call does anything. -/
theorem run_program_unlinked {x : Step} (hn : nic.netlink = false) :
    (∃ w, (x.call.program nic).run (serveBy Etcd.ok (answering x.fails)) (fun _ => none, x.found) =
        (.ok (false, nic), w)) ∨
      ∃ e w, (x.call.program nic).run (serveBy Etcd.ok (answering x.fails))
        (fun _ => none, x.found) = (.error e, w) := by
  obtain ⟨found, fails, call⟩ := x
  cases call with
  | addAddr a =>
      cases ha : a.getAddrCidr with
      | error err => exact .inr ⟨err, _, by simp [NicCall.program, Nic.addAddr, ha]; rfl⟩
      | ok t => exact .inl ⟨_, by simp [NicCall.program, Nic.addAddr, ha, Nic.addEntry, hn]; rfl⟩
  | delAddr cidr => exact .inl ⟨_, by simp [NicCall.program, Nic.delAddr, hn]; rfl⟩
  | addRoute r nhflags =>
      exact .inl ⟨_, by simp [NicCall.program, Nic.addRoute, Nic.addEntry, hn]; rfl⟩
  | delRoute dst via dev =>
      exact .inl ⟨_, by simp [NicCall.program, Nic.delRoute, Nic.delEntry, hn]; rfl⟩
  | addNeigh n => exact .inl ⟨_, by simp [NicCall.program, Nic.addNeigh, Nic.addEntry, hn]; rfl⟩
  | delNeigh addr mac dev =>
      exact .inl ⟨_, by simp [NicCall.program, Nic.delNeigh, Nic.delEntry, hn]; rfl⟩
  | addFdb f => exact .inl ⟨_, by simp [NicCall.program, Nic.addFdb, Nic.addEntry, hn]; rfl⟩
  | delFdb addr mac dev =>
      exact .inl ⟨_, by simp [NicCall.program, Nic.delFdb, Nic.delEntry, hn]; rfl⟩

/-- A call about nothing throws. -/
theorem run_program_none (nic : Nic) {x : Step} (he : x.call.entry = none) :
    ∃ e w, (x.call.program nic).run (serveBy Etcd.ok (answering x.fails)) (fun _ => none, x.found) =
      (.error e, w) := by
  obtain ⟨found, fails, call⟩ := x
  cases call with
  | addAddr a =>
      cases ha : a.getAddrCidr with
      | error err => exact ⟨err, _, by simp [NicCall.program, Nic.addAddr, ha]; rfl⟩
      | ok t => simp [NicCall.entry, ha, Except.toOption] at he
  | delAddr | addRoute | delRoute | addNeigh | delNeigh | addFdb | delFdb => cases he

end Calls

/-! ### The lists after a call -/

section Entries
variable {c : NicCall} {nic : Nic} {e : Entry}

/-- An add puts its entry on a list. -/
theorem entries_added (nic : Nic) (ha : c.adds = true) (he : c.entry = some e) :
    (entries (c.changed nic)).Perm (e :: entries nic) := by
  cases c with
  | addAddr a =>
      have hlist : [a].filterMap (fun a => a.getAddrCidr.toOption.map Entry.addr) = [e] := by
        simp only [NicCall.entry] at he
        simp [he]
      simp only [entries, NicCall.changed, List.filterMap_append, hlist, List.append_assoc]
      exact List.perm_middle
  | addRoute r nhflags =>
      cases he
      simp only [entries, NicCall.changed, List.map_append, List.map_singleton, List.append_assoc]
      exact (List.perm_middle.append_left _).trans List.perm_middle
  | addNeigh n =>
      cases he
      simp only [entries, NicCall.changed, List.map_append, List.map_singleton, List.append_assoc]
      apply List.Perm.trans _ List.perm_middle
      apply List.Perm.append_left
      exact (List.perm_middle.append_left _).trans List.perm_middle
  | addFdb f =>
      cases he
      simp only [entries, NicCall.changed, List.map_append, List.map_singleton]
      rw [← List.append_assoc]
      exact List.perm_append_singleton _ _
  | delAddr | delRoute | delNeigh | delFdb => cases ha

/-- No other entry is dropped with the one that a del is about. -/
def Separate (nic : Nic) : NicCall → Prop
  | .delFdb addr mac dev => ∀ f ∈ nic.fdbs, f.mac = mac → f.underlayAddr = addr → f.dev = dev
  | _ => True

theorem filter_addrs (addrs : List Addr) (cidr : Text) :
    (addrs.filter fun a => a.getAddrCidr.toOption ≠ some cidr).filterMap
        (fun a => a.getAddrCidr.toOption.map Entry.addr) =
      (addrs.filterMap fun a => a.getAddrCidr.toOption.map Entry.addr).filter (· ≠ .addr cidr) := by
  induction addrs with
  | nil => rfl
  | cons a addrs ih =>
      cases ha : a.getAddrCidr.toOption with
      | none => simpa [ha] using ih
      | some t =>
          by_cases ht : t = cidr
          · simpa [ha, ht] using ih
          · simpa [ha, ht] using ih

/-- An entry of one kind is not among the entries of another. -/
theorem filter_kind {α : Type} {f : α → Entry} (l : List α) (h : ∀ a, f a ≠ e) :
    (l.map f).filter (· ≠ e) = l.map f := by
  rw [List.filter_eq_self]
  intro y hy
  obtain ⟨a, -, rfl⟩ := List.mem_map.mp hy
  simpa using h a

theorem filter_same {α : Type} [DecidableEq α] {f : α → Entry} (hf : Function.Injective f)
    (l : List α) (a : α) : (l.map f).filter (· ≠ f a) = (l.filter (· ≠ a)).map f := by
  rw [List.filter_map]
  congr 1
  apply List.filter_congr
  intro y _
  simp [hf.eq_iff]

theorem filter_addr_kind (addrs : List Addr) (h : ∀ t, Entry.addr t ≠ e) :
    (addrs.filterMap fun a => a.getAddrCidr.toOption.map Entry.addr).filter (· ≠ e) =
      addrs.filterMap fun a => a.getAddrCidr.toOption.map Entry.addr := by
  rw [List.filter_eq_self]
  intro y hy
  obtain ⟨a, -, ha⟩ := List.mem_filterMap.mp hy
  obtain ⟨t, -, rfl⟩ := Option.map_eq_some_iff.mp ha
  simpa using h t

theorem entries_deleted (ha : c.adds = false) (he : c.entry = some e) (hs : Separate nic c) :
    entries (c.changed nic) = (entries nic).filter (· ≠ e) := by
  unfold entries
  simp only [List.filter_append]
  cases c with
  | addAddr | addRoute | addNeigh | addFdb => cases ha
  | delAddr cidr =>
      cases he
      rw [filter_kind nic.routes (by simp), filter_kind nic.neighs (by simp),
        filter_kind nic.fdbs (by simp), ← filter_addrs]
      rfl
  | delRoute dst via dev =>
      cases he
      rw [filter_same (fun _ _ h => Entry.route.inj h), filter_kind nic.neighs (by simp),
        filter_kind nic.fdbs (by simp), filter_addr_kind nic.addrs (by simp)]
      rfl
  | delNeigh addr mac dev =>
      cases he
      rw [filter_same (fun _ _ h => Entry.neigh.inj h), filter_kind nic.routes (by simp),
        filter_kind nic.fdbs (by simp), filter_addr_kind nic.addrs (by simp)]
      rfl
  | delFdb addr mac dev =>
      cases he
      have hpruned : (nic.fdbs.filter fun f => ¬ (f.mac = mac ∧ f.underlayAddr = addr)) =
          nic.fdbs.filter (· ≠ ⟨mac, addr, dev⟩) := by
        apply List.filter_congr
        intro f hf
        have hdev := hs f hf
        obtain ⟨fmac, faddr, fdev⟩ := f
        simp only [ne_eq, Fdb.mk.injEq, decide_eq_decide]
        constructor
        · exact fun h hall => h ⟨hall.1, hall.2.1⟩
        · exact fun h hboth => h ⟨hboth.1, hboth.2, hdev hboth.1 hboth.2⟩
      rw [filter_same (fun _ _ h => Entry.fdb.inj h), filter_kind nic.routes (by simp),
        filter_kind nic.neighs (by simp), filter_addr_kind nic.addrs (by simp), ← hpruned]
      rfl

end Entries

/-! ### When a call keeps the lists right -/

/-- An add that succeeds is for an entry that is not on a list; a del of an entry
that the kernel has not is for one that is not on a list either, and a del that
changes its list drops no other entry. -/
def Proper (x : Step) (nic : Nic) : Prop :=
  nic.netlink = true → ∀ e, x.call.entry = some e →
    if x.call.adds then
      x.held nic = true ∨ x.fails = false → e ∉ entries nic
    else
      (x.held nic = false → e ∉ entries nic) ∧
        (x.held nic = true → x.fails = false → Separate nic x.call)

theorem proper_iff {x : Step} {nic : Nic} (hn : nic.netlink = true) {e : Entry}
    (he : x.call.entry = some e) : Proper x nic ↔
      if x.call.adds then
        x.held nic = true ∨ x.fails = false → e ∉ entries nic
      else
        (x.held nic = false → e ∉ entries nic) ∧
          (x.held nic = true → x.fails = false → Separate nic x.call) := by
  constructor
  · exact fun h => h hn e he
  · intro h _ e' he'
    rw [he, Option.some.injEq] at he'
    exact he' ▸ h

section Step
variable {x : Step} {m : State}

/-- A call without success changes nothing that counts. -/
theorem mirrors_unsuccessful (h : Mirrors m) (c : NicCall) :
    Mirrors ⟨m.nic, (c, false) :: m.history⟩ := by
  refine ⟨h.texts, h.nodup, fun e => ?_⟩
  rw [h.mem_iff e]
  simp [live]

theorem step_unlinked (hn : m.nic.netlink = false) :
    step x m = ⟨m.nic, (x.call, false) :: m.history⟩ := by
  unfold step
  rcases run_program_unlinked hn with ⟨w, hw⟩ | ⟨e, w, hw⟩
  · rw [hw]
  · rw [hw]

theorem step_none (he : x.call.entry = none) :
    step x m = ⟨m.nic, (x.call, false) :: m.history⟩ := by
  unfold step
  obtain ⟨e, w, hw⟩ := run_program_none m.nic he
  rw [hw]

theorem step_some (hn : m.nic.netlink = true) (ht : ∀ a ∈ m.nic.addrs, ∃ t, a.getAddrCidr = .ok t)
    {e : Entry} (he : x.call.entry = some e) :
    step x m = ⟨(outcome x m.nic).2, (x.call, (outcome x m.nic).1) :: m.history⟩ := by
  unfold step
  obtain ⟨w, hw⟩ := run_program hn ht he
  rw [hw]

variable {c : NicCall} {e : Entry}

theorem live_success (he : c.entry = some e) (e' : Entry) (h : List (NicCall × Bool)) :
    live e' ((c, true) :: h) = if e' = e then c.adds else live e' h := by
  simp only [live, he, true_and, Option.some.injEq]
  by_cases hee : e' = e
  · simp [hee]
  · simp [hee, Ne.symm hee]

/-- The texts stay with an added address, which has one, and without a deleted one. -/
theorem texts_changed (h : ∀ a ∈ m.nic.addrs, ∃ t, a.getAddrCidr = .ok t) (he : c.entry = some e) :
    ∀ a ∈ (c.changed m.nic).addrs, ∃ t, a.getAddrCidr = .ok t := by
  cases c with
  | addAddr a =>
      intro a' ha'
      rcases List.mem_append.mp ha' with ha' | ha'
      · exact h a' ha'
      · rw [List.mem_singleton.mp ha']
        cases ht : a.getAddrCidr with
        | error err => simp [NicCall.entry, ht, Except.toOption] at he
        | ok t => exact ⟨t, rfl⟩
  | delAddr cidr => exact fun a ha => h a (List.mem_of_mem_filter ha)
  | addRoute | delRoute | addNeigh | delNeigh | addFdb | delFdb => exact h

theorem mirrors_added_iff (h : Mirrors m) (ha : c.adds = true) (he : c.entry = some e) :
    Mirrors ⟨c.changed m.nic, (c, true) :: m.history⟩ ↔ e ∉ entries m.nic := by
  have hperm := entries_added m.nic ha he
  constructor
  · intro h' hmem
    have hnodup : (e :: entries m.nic).Nodup := hperm.nodup_iff.mp h'.nodup
    exact (List.nodup_cons.mp hnodup).1 hmem
  · intro hmem
    refine ⟨texts_changed h.texts he, ?_, fun e' => ?_⟩
    · exact hperm.nodup_iff.mpr (List.nodup_cons.mpr ⟨hmem, h.nodup⟩)
    · rw [hperm.mem_iff, List.mem_cons, live_success he, h.mem_iff e']
      by_cases hee : e' = e
      · simp [hee, ha]
      · simp [hee]

/-- An entry on a list that the del is not about is dropped with it. -/
theorem exists_dropped (hs : ¬ Separate m.nic c) (he : c.entry = some e) :
    ∃ e', e' ≠ e ∧ e' ∈ entries m.nic ∧ e' ∉ entries (c.changed m.nic) := by
  cases c with
  | delFdb addr mac dev =>
      cases he
      simp only [Separate, not_forall] at hs
      obtain ⟨f, hf, hmac, haddr, hdev⟩ := hs
      refine ⟨.fdb f, ?_, ?_, ?_⟩
      · intro h
        cases h
        exact hdev rfl
      · simp [entries, hf]
      · simp [entries, NicCall.changed, hmac, haddr]
  | addAddr | delAddr | addRoute | delRoute | addNeigh | delNeigh | addFdb =>
      exact absurd trivial hs

theorem mirrors_deleted_iff (h : Mirrors m) (ha : c.adds = false) (he : c.entry = some e) :
    Mirrors ⟨c.changed m.nic, (c, true) :: m.history⟩ ↔ Separate m.nic c := by
  constructor
  · intro h'
    by_contra hs
    obtain ⟨e', hne, hmem, hdropped⟩ := exists_dropped hs he
    apply hdropped
    rw [h'.mem_iff e', live_success he, if_neg hne, ← h.mem_iff e']
    exact hmem
  · intro hs
    have hfilter := entries_deleted ha he hs
    refine ⟨texts_changed h.texts he, ?_, fun e' => ?_⟩
    · rw [hfilter]
      exact h.nodup.filter _
    · rw [hfilter, List.mem_filter, live_success he, h.mem_iff e']
      by_cases hee : e' = e
      · simp [hee, ha]
      · simp [hee]

theorem mirrors_absent_iff (h : Mirrors m) (ha : c.adds = false) (he : c.entry = some e) :
    Mirrors ⟨m.nic, (c, true) :: m.history⟩ ↔ e ∉ entries m.nic := by
  constructor
  · intro h' hmem
    have hlive := (h'.mem_iff e).mp hmem
    rw [live_success he, if_pos rfl, ha] at hlive
    cases hlive
  · intro hmem
    refine ⟨h.texts, h.nodup, fun e' => ?_⟩
    rw [live_success he, h.mem_iff e']
    by_cases hee : e' = e
    · subst hee
      rw [h.mem_iff e'] at hmem
      simp [hmem, ha]
    · simp [hee]

/-- One call keeps the lists right exactly when it is proper. -/
theorem mirrors_step_iff (h : Mirrors m) : Mirrors (step x m) ↔ Proper x m.nic := by
  cases hn : m.nic.netlink with
  | false =>
      rw [step_unlinked hn]
      exact iff_of_true (mirrors_unsuccessful h _) fun hn' => by simp [hn] at hn'
  | true =>
      cases he : x.call.entry with
      | none =>
          rw [step_none he]
          exact iff_of_true (mirrors_unsuccessful h _) fun _ e hsome => by simp [he] at hsome
      | some e =>
          rw [step_some hn h.texts he]
          rw [proper_iff hn he]
          unfold outcome
          cases ha : x.call.adds with
          | true =>
              simp only [if_true]
              by_cases hok : x.held m.nic || !x.fails
              · rw [if_pos hok, mirrors_added_iff h ha he]
                exact ⟨fun hmem _ => hmem, fun hp => hp (by simpa using hok)⟩
              · rw [if_neg hok]
                exact iff_of_true (mirrors_unsuccessful h _) fun ho =>
                  absurd (by simpa using ho) hok
          | false =>
              simp only [Bool.false_eq_true, if_false]
              cases hheld : x.held m.nic with
              | false =>
                  simp only [Bool.false_eq_true, if_false]
                  rw [mirrors_absent_iff h ha he]
                  simp
              | true =>
                  cases hf : x.fails with
                  | true =>
                      simp only [if_true]
                      exact iff_of_true (mirrors_unsuccessful h _) (by simp)
                  | false =>
                      simp only [if_true, Bool.false_eq_true, if_false]
                      rw [mirrors_deleted_iff h ha he]
                      simp

end Step

/-! ### Runs -/

/-- The lists are right before the first call and after every one. -/
def AlwaysMirrors : List Step → State → Prop
  | [], m => Mirrors m
  | x :: steps, m => Mirrors m ∧ AlwaysMirrors steps (step x m)

/-- Every call is proper on the lists it finds. -/
def AllProper : List Step → State → Prop
  | [], _ => True
  | x :: steps, m => Proper x m.nic ∧ AllProper steps (step x m)

/-- An interface that has not added anything. -/
def fresh (nic : Nic) : State where
  nic := { nic with addrs := [], routes := [], neighs := [], fdbs := [] }

theorem mirrors_fresh (nic : Nic) : Mirrors (fresh nic) :=
  ⟨by simp [fresh], by simp [fresh, entries], by simp [fresh, entries, live]⟩

theorem alwaysMirrors_iff {m : State} (h : Mirrors m) (steps : List Step) :
    AlwaysMirrors steps m ↔ AllProper steps m := by
  induction steps generalizing m with
  | nil => exact iff_of_true h trivial
  | cons x steps ih =>
      simp only [AlwaysMirrors, AllProper, h, true_and]
      constructor
      · intro hall
        have hstep : Mirrors (step x m) := by
          cases steps with
          | nil => exact hall
          | cons y steps => exact hall.1
        exact ⟨(mirrors_step_iff h).mp hstep, (ih hstep).mp hall⟩
      · intro ⟨hproper, hrest⟩
        exact (ih ((mirrors_step_iff h).mpr hproper)).mpr hrest

/-- In every run from an interface without entries, whatever each call finds in
the system and whichever changes fail, the lists are right after every call if
and only if every call is proper. -/
theorem mirrors_iff (nic : Nic) (steps : List Step) :
    AlwaysMirrors steps (fresh nic) ↔ AllProper steps (fresh nic) :=
  alwaysMirrors_iff (mirrors_fresh nic) steps

/-- The same route is added twice, and the kernel has it the second time. -/
theorem added_twice :
    let r : Route := ⟨"10.0.1.0/24".toList, "10.0.1.0".toList, "ohnov".toList⟩
    let steps : List Step :=
      [⟨{}, false, .addRoute r .none⟩, ⟨{ routes := [r] }, false, .addRoute r .none⟩]
    ((steps.foldl (fun m x => step x m) (fresh { netlink := true })).nic.routes = [r, r]) ∧
      ¬ AlwaysMirrors steps (fresh { netlink := true }) := by
  refine ⟨by decide +kernel, fun h => ?_⟩
  exact absurd h.2.2.nodup (by decide +kernel)

end Ohno.NicMirror
