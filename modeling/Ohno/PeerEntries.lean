import Ohno.VxlanEntries

/-!
# The entries of one peer

One peer of the vxlan backend is followed among others that come and go. As long
as its record is there while it is cached, its route, its ARP entry and its FDB
entry are there while it is cached, and nothing of it is there before: what an
addition that failed halfway left behind is taken back.
-/
namespace Ohno.PeerEntries
open CommandPrograms DelimitedLists AddressText EtcdClientShell Ipam Netlink Nics KernelTables
open Storage
open Backends VxlanEntries

/-! ### Additions that may fail -/

/-- Queries are truthful and deletions succeed; an addition happens or fails
without effect. -/
def addsMayFail (c : NetlinkCmd) (t : Tables) (b : Bool) (u : Tables) : Prop :=
  (b, u) = execute c t ∨ adds c = true ∧ b = false ∧ u = t

section Entries
variable {E : EtcdCmd → Store → Reply → Store → Prop} {nic other : Nic} {w : Store × Tables}
variable {isExist setEntry : NetlinkCmd} {Q : Except Thrown (Bool × Nic) → Store × Tables → Prop}

theorem query_end {c : NetlinkCmd} {t u : Tables} {b : Bool} (hq : ∀ t, (execute c t).2 = t)
    (ha : adds c = false) (h : addsMayFail c t b u) : b = (execute c t).1 ∧ u = t := by
  rcases h with h | ⟨h, -⟩
  · exact ⟨congrArg Prod.fst h, (congrArg Prod.snd h).trans (hq t)⟩
  · rw [ha] at h
    cases h

theorem safe_addEntry (hn : nic.netlink = true) (hq : ∀ t, (execute isExist t).2 = t)
    (ha : adds isExist = false) (hs : ∀ t, (execute setEntry t).1 = true)
    (taken : (execute isExist w.2).1 = true → Q (.ok (true, other)) w)
    (added : (execute isExist w.2).1 = false →
      Q (.ok (true, other)) (w.1, (execute setEntry w.2).2))
    (failed : Q (.ok (false, nic)) w) :
    (nic.addEntry isExist setEntry other).Safe (serve E addsMayFail) Q w := by
  apply Nic.safe_addEntry hn
  · intro t ht
    obtain ⟨hb, rfl⟩ := query_end hq ha ht
    exact taken hb.symm
  · intro t u ht hu
    obtain ⟨hb, rfl⟩ := query_end hq ha ht
    rcases hu with hu | ⟨-, hu, -⟩
    · have hu' : u = (execute setEntry w.2).2 := congrArg Prod.snd hu
      rw [hu']
      exact added hb.symm
    · cases hu
  · intro t u ht hu
    obtain ⟨-, rfl⟩ := query_end hq ha ht
    rcases hu with hu | ⟨-, -, rfl⟩
    · have hfalse : false = (execute setEntry w.2).1 := congrArg Prod.fst hu
      rw [hs] at hfalse
      cases hfalse
    · exact failed

theorem safe_delEntry (hn : nic.netlink = true) (hq : ∀ t, (execute isExist t).2 = t)
    (ha : adds isExist = false) (hd : adds setEntry = false)
    (hs : ∀ t, (execute setEntry t).1 = true)
    (absent : (execute isExist w.2).1 = false → Q (.ok (true, nic)) w)
    (deleted : Q (.ok (true, other)) (w.1, (execute setEntry w.2).2)) :
    (nic.delEntry isExist setEntry other).Safe (serve E addsMayFail) Q w := by
  have hset : ∀ {b u}, addsMayFail setEntry w.2 b u → (b, u) = execute setEntry w.2 := by
    intro b u hu
    rcases hu with hu | ⟨hu, -⟩
    · exact hu
    · rw [hd] at hu
      cases hu
  apply Nic.safe_delEntry hn
  · intro t ht
    obtain ⟨hb, rfl⟩ := query_end hq ha ht
    exact absent hb.symm
  · intro t u ht hu
    obtain ⟨-, rfl⟩ := query_end hq ha ht
    have hu' : u = (execute setEntry w.2).2 := congrArg Prod.snd (hset hu)
    rw [hu']
    exact deleted
  · intro t u ht hu
    obtain ⟨-, rfl⟩ := query_end hq ha ht
    have hfalse : false = (execute setEntry w.2).1 := congrArg Prod.fst (hset hu)
    rw [hs] at hfalse
    cases hfalse

end Entries

/-! ### The entries of one peer -/

/-- The entries of ohnov with a VTEP address from `A` or a VTEP MAC from `M`. -/
structure EntriesAre (A M : Text → Prop) (routes : Route → Prop) (neighs : Neigh → Prop)
    (fdbs : Fdb → Prop) (t : Tables) : Prop where
  routes : ∀ r, r.dev = nameVxlan → A r.via → (r ∈ t.routes ↔ routes r)
  neighs : ∀ n, n.dev = nameVxlan → A n.addr → (n ∈ t.neighs ↔ neighs n)
  fdbs : ∀ f, f.dev = nameVxlan → M f.mac → (f ∈ t.fdbs ↔ fdbs f)

/-- No such entry. -/
def NoEntries (A M : Text → Prop) (t : Tables) : Prop :=
  EntriesAre A M (fun _ => False) (fun _ => False) (fun _ => False) t

/-- The entries computed from `info` and `vtep`, and no others. -/
def EntriesOf (A M : Text → Prop) (info : NodeInfo) (vtep : Text × Text) (t : Tables) : Prop :=
  EntriesAre A M (· = ⟨info.podCidr, vtep.1, nameVxlan⟩) (· = ⟨vtep.1, vtep.2, nameVxlan⟩)
    (· = ⟨vtep.2, info.internalIp, nameVxlan⟩) t

/-- Tables that differ at most in entries with this VTEP. -/
structure Beside (vtep : Text × Text) (t u : Tables) : Prop where
  routes : ∀ r, r.via ≠ vtep.1 → (r ∈ u.routes ↔ r ∈ t.routes)
  neighs : ∀ n, n.addr ≠ vtep.1 → (n ∈ u.neighs ↔ n ∈ t.neighs)
  fdbs : ∀ f, f.mac ≠ vtep.2 → (f ∈ u.fdbs ↔ f ∈ t.fdbs)

section Beside
variable {A M : Text → Prop} {vtep : Text × Text} {t u v : Tables}

theorem Beside.refl (t : Tables) : Beside vtep t t :=
  ⟨fun _ _ => Iff.rfl, fun _ _ => Iff.rfl, fun _ _ => Iff.rfl⟩

theorem Beside.trans (h : Beside vtep t u) (h' : Beside vtep u v) : Beside vtep t v :=
  ⟨fun r hr => (h'.routes r hr).trans (h.routes r hr),
    fun n hn => (h'.neighs n hn).trans (h.neighs n hn),
    fun f hf => (h'.fdbs f hf).trans (h.fdbs f hf)⟩

theorem EntriesAre.beside {routes : Route → Prop} {neighs : Neigh → Prop} {fdbs : Fdb → Prop}
    (h : EntriesAre A M routes neighs fdbs t) (hb : Beside vtep t u) (hA : ¬ A vtep.1)
    (hM : ¬ M vtep.2) : EntriesAre A M routes neighs fdbs u := by
  constructor
  · intro r hdev hr
    exact (hb.routes r fun he => hA (he ▸ hr)).trans (h.routes r hdev hr)
  · intro n hdev hn
    exact (hb.neighs n fun he => hA (he ▸ hn)).trans (h.neighs n hdev hn)
  · intro f hdev hf
    exact (hb.fdbs f fun he => hM (he ▸ hf)).trans (h.fdbs f hdev hf)

/-- A command names the VTEP. -/
def Names (vtep : Text × Text) : NetlinkCmd → Prop
  | .routeSetEntry _ via _ _ _ _ => via = vtep.1
  | .neighSetEntry addr _ _ _ _ => addr = vtep.1
  | .fdbSetEntry mac _ _ _ _ => mac = vtep.2
  | _ => True

theorem beside_execute {c : NetlinkCmd} (h : Names vtep c) (t : Tables) :
    Beside vtep t (execute c t).2 := by
  cases c with
  | routeSetEntry dst via add dev netns flags =>
      have hvia : via = vtep.1 := h
      subst hvia
      refine ⟨?_, fun n _ => by cases add <;> rfl, fun f _ => by cases add <;> rfl⟩
      intro r hr
      cases add with
      | true =>
          have hne : r ≠ ⟨dst, vtep.1, dev⟩ := fun he => hr (he ▸ rfl)
          simp [execute, hne]
      | false => simp [execute, routeMatches, hr]
  | neighSetEntry addr mac add dev netns =>
      have haddr : addr = vtep.1 := h
      subst haddr
      refine ⟨fun r _ => by cases add <;> rfl, ?_, fun f _ => by cases add <;> rfl⟩
      intro n hn
      cases add with
      | true =>
          have hne : n ≠ ⟨vtep.1, mac, dev⟩ := fun he => hn (he ▸ rfl)
          simp [execute, hne]
      | false => simp [execute, neighMatches, hn]
  | fdbSetEntry mac addr dev add netns =>
      have hmac : mac = vtep.2 := h
      subst hmac
      refine ⟨fun r _ => by cases add <;> rfl, fun n _ => by cases add <;> rfl, ?_⟩
      intro f hf
      have hne : f ≠ ⟨vtep.2, addr, dev⟩ := fun he => hf (he ▸ rfl)
      cases add with
      | true => simp [execute, hne]
      | false => simp [execute, hne]
  | _ => exact Beside.refl t

end Beside

section Own
variable {A M : Text → Prop} {routes : Route → Prop} {neighs : Neigh → Prop} {fdbs : Fdb → Prop}
variable {t : Tables}

theorem EntriesAre.addRoute (h : EntriesAre A M (fun _ => False) neighs fdbs t)
    {via : Text} (hA : A via)
    (dst netns : Text) (flags : RouteNHFlags) :
    (execute (.routeIsExist dst via nameVxlan netns) t).1 = false ∧
      EntriesAre A M (· = ⟨dst, via, nameVxlan⟩) neighs fdbs
        (execute (.routeSetEntry dst via true nameVxlan netns flags) t).2 := by
  constructor
  · simp only [execute, List.any_eq_false]
    intro r hr hm
    simp only [routeMatches, onDevice, nameVxlan_ne_nil, decide_false, Bool.false_or,
      Bool.and_eq_true,
      decide_eq_true_eq] at hm
    exact (h.routes r hm.2 (hm.1.2 ▸ hA)).mp hr
  · refine ⟨?_, h.neighs, h.fdbs⟩
    intro r hdev hr
    simp only [execute, List.mem_append, List.mem_singleton, h.routes r hdev hr, false_or]

theorem EntriesAre.delRoute {dst via dev : Text}
    (h : EntriesAre A M (· = ⟨dst, via, nameVxlan⟩) neighs fdbs t) (hA : A via)
    (hdev : dev = [] ∨ dev = nameVxlan) (netns : Text) (flags : RouteNHFlags) :
    (execute (.routeIsExist dst via dev netns) t).1 = true ∧
      EntriesAre A M (fun _ => False) neighs fdbs
        (execute (.routeSetEntry dst via false dev netns flags) t).2 := by
  have hon : onDevice dev nameVxlan = true := by
    rcases hdev with rfl | rfl <;> simp [onDevice]
  have hm : routeMatches dst via dev ⟨dst, via, nameVxlan⟩ = true := by simp [routeMatches, hon]
  constructor
  · simp only [execute, List.any_eq_true]
    exact ⟨_, (h.routes ⟨dst, via, nameVxlan⟩ rfl hA).mpr rfl, hm⟩
  · refine ⟨?_, h.neighs, h.fdbs⟩
    intro r hr hvia
    simp only [execute, List.mem_filter, h.routes r hr hvia, iff_false, not_and]
    rintro rfl
    simp [hm]

theorem EntriesAre.addNeigh (h : EntriesAre A M routes (fun _ => False) fdbs t) {addr : Text}
    (hA : A addr) (mac netns : Text) : (execute (.neighIsExist addr nameVxlan netns) t).1 = false ∧
      EntriesAre A M routes (· = ⟨addr, mac, nameVxlan⟩) fdbs
        (execute (.neighSetEntry addr mac true nameVxlan netns) t).2 := by
  constructor
  · simp only [execute, List.any_eq_false]
    intro n hn hm
    simp only [neighMatches, onDevice, nameVxlan_ne_nil, decide_false, Bool.false_or,
      Bool.and_eq_true,
      decide_eq_true_eq] at hm
    exact (h.neighs n hm.2 (hm.1 ▸ hA)).mp hn
  · refine ⟨h.routes, ?_, h.fdbs⟩
    intro n hdev hn
    simp only [execute, List.mem_append, List.mem_singleton, h.neighs n hdev hn, false_or]

theorem EntriesAre.delNeigh {addr mac : Text}
    (h : EntriesAre A M routes (· = ⟨addr, mac, nameVxlan⟩) fdbs t) (hA : A addr) (netns : Text) :
    (execute (.neighIsExist addr nameVxlan netns) t).1 = true ∧
      EntriesAre A M routes (fun _ => False) fdbs
        (execute (.neighSetEntry addr mac false nameVxlan netns) t).2 := by
  have hm : neighMatches addr nameVxlan ⟨addr, mac, nameVxlan⟩ = true := by
    simp [neighMatches, onDevice]
  constructor
  · simp only [execute, List.any_eq_true]
    exact ⟨_, (h.neighs ⟨addr, mac, nameVxlan⟩ rfl hA).mpr rfl, hm⟩
  · refine ⟨h.routes, ?_, h.fdbs⟩
    intro n hn haddr
    simp only [execute, List.mem_filter, h.neighs n hn haddr, iff_false, not_and]
    rintro rfl
    simp [hm]

theorem EntriesAre.addFdb (h : EntriesAre A M routes neighs (fun _ => False) t) {mac : Text}
    (hM : M mac) (addr netns : Text) :
    (execute (.fdbIsExist mac addr nameVxlan netns) t).1 = false ∧
      EntriesAre A M routes neighs (· = ⟨mac, addr, nameVxlan⟩)
        (execute (.fdbSetEntry mac addr nameVxlan true netns) t).2 := by
  constructor
  · simp only [execute, decide_eq_false_iff_not]
    exact fun hf => (h.fdbs _ rfl hM).mp hf
  · refine ⟨h.routes, h.neighs, ?_⟩
    intro f hdev hf
    simp only [execute, List.mem_append, List.mem_singleton, h.fdbs f hdev hf, false_or]

theorem EntriesAre.delFdb {mac addr : Text}
    (h : EntriesAre A M routes neighs (· = ⟨mac, addr, nameVxlan⟩) t) (hM : M mac) (netns : Text) :
    (execute (.fdbIsExist mac addr nameVxlan netns) t).1 = true ∧
      EntriesAre A M routes neighs (fun _ => False)
        (execute (.fdbSetEntry mac addr nameVxlan false netns) t).2 := by
  constructor
  · simp only [execute, decide_eq_true_eq]
    exact (h.fdbs ⟨mac, addr, nameVxlan⟩ rfl hM).mpr rfl
  · refine ⟨h.routes, h.neighs, ?_⟩
    intro f hf hmac
    simp only [execute, List.mem_filter, h.fdbs f hf hmac, iff_false, not_and]
    rintro rfl
    simp

end Own

/-! ### Steps of the vxlan backend -/

section Steps
variable {E : EtcdCmd → Store → Reply → Store → Prop} {A M : Text → Prop} {s : Store} {t : Tables}
variable {b : Backend} {name : Text} {info : NodeInfo} {vtep : Text × Text}

/-- The end of a step for a peer that may be cached. -/
def PeerAdded (s : Store) (b : Backend) (e : Text × NodeInfo) (out kept : Tables → Prop)
    (o : Except Thrown Backend) (w : Store × Tables) : Prop :=
  w.1 = s ∧ ∃ b', o = .ok b' ∧ b'.nic.netlink = true ∧
    (b'.nodeCache = b.nodeCache ∧ out w.2 ∨ b'.nodeCache = b.nodeCache ++ [e] ∧ kept w.2)

/-- An entry with this VTEP, added or not. -/
theorem safe_addEntry_beside (vtep : Text × Text) {nic other : Nic} {isExist setEntry : NetlinkCmd}
    {Q : Except Thrown (Bool × Nic) → Store × Tables → Prop} (hn : nic.netlink = true)
    (hother : other.netlink = true) (hq : ∀ t, (execute isExist t).2 = t)
    (ha : adds isExist = false)
    (hs : ∀ t, (execute setEntry t).1 = true) (hnames : Names vtep setEntry)
    (h : ∀ ok nic u, nic.netlink = true → Beside vtep t u → Q (.ok (ok, nic)) (s, u)) :
    (nic.addEntry isExist setEntry other).Safe (serve E addsMayFail) Q (s, t) := by
  apply safe_addEntry hn hq ha hs
  · exact fun _ => h true other t hother (Beside.refl t)
  · exact fun _ => h true other _ hother (beside_execute hnames t)
  · exact h false nic t hn (Beside.refl t)

theorem safe_delEntry_beside (vtep : Text × Text) {nic other : Nic} {isExist setEntry : NetlinkCmd}
    {Q : Except Thrown (Bool × Nic) → Store × Tables → Prop} (hn : nic.netlink = true)
    (hother : other.netlink = true) (hq : ∀ t, (execute isExist t).2 = t)
    (ha : adds isExist = false)
    (hd : adds setEntry = false) (hs : ∀ t, (execute setEntry t).1 = true)
    (hnames : Names vtep setEntry)
    (h : ∀ ok nic u, nic.netlink = true → Beside vtep t u → Q (.ok (ok, nic)) (s, u)) :
    (nic.delEntry isExist setEntry other).Safe (serve E addsMayFail) Q (s, t) := by
  apply safe_delEntry hn hq ha hd hs
  · exact fun _ => h true nic t hn (Beside.refl t)
  · exact h true other _ hother (beside_execute hnames t)

theorem safe_addPeer_beside (hn : b.nic.netlink = true) :
    (Vxlan.addPeer name info vtep b).Safe (serve E addsMayFail)
      (PeerAdded s b (name, info) (Beside vtep t) (Beside vtep t)) (s, t) := by
  simp only [Vxlan.addPeer, Program.bind_eq, Program.safe_bind]
  apply safe_addEntry_beside vtep hn (by exact hn) (fun _ => rfl) rfl (fun _ => rfl) (by exact rfl)
  intro ok nic u hnic hu
  cases ok with
  | false => exact ⟨rfl, _, rfl, hnic, .inl ⟨rfl, hu⟩⟩
  | true =>
      simp only [Program.onward_ok, if_true, Program.safe_bind]
      apply safe_addEntry_beside vtep hnic (by exact hnic) (fun _ => rfl) rfl (fun _ => rfl)
        (by exact rfl)
      intro ok nic' u' hnic' hu'
      cases ok with
      | false =>
          simp only [Program.onward_ok, Bool.false_eq_true, if_false, Program.safe_bind]
          apply safe_delEntry_beside vtep hnic' (by exact hnic') (fun _ => rfl) rfl rfl
            (fun _ => rfl) (by exact rfl)
          intro _ nic v hnic hv
          exact ⟨rfl, _, rfl, hnic, .inl ⟨rfl, (hu.trans hu').trans hv⟩⟩
      | true =>
          simp only [Program.onward_ok, if_true, Program.safe_bind]
          apply safe_addEntry_beside vtep hnic' (by exact hnic') (fun _ => rfl) rfl (fun _ => rfl)
            (by exact rfl)
          intro ok nic v hnic hv
          cases ok with
          | true => exact ⟨rfl, _, rfl, hnic, .inr ⟨rfl, (hu.trans hu').trans hv⟩⟩
          | false =>
              simp only [Program.onward_ok, Bool.false_eq_true, if_false, Program.safe_bind]
              apply safe_delEntry_beside vtep hnic (by exact hnic) (fun _ => rfl) rfl rfl
                (fun _ => rfl) (by exact rfl)
              intro _ nic' v' hnic' hv'
              simp only [Program.onward_ok, Program.safe_bind]
              apply safe_delEntry_beside vtep hnic' (by exact hnic') (fun _ => rfl) rfl rfl
                (fun _ => rfl) (by exact rfl)
              intro _ nic x hnic hx
              exact ⟨rfl, _, rfl, hnic, .inl ⟨rfl, (((hu.trans hu').trans hv).trans hv').trans hx⟩⟩

/-- The peer itself: it is cached with its entries, or nothing is left of it. -/
theorem safe_addPeer_own (hn : b.nic.netlink = true) (h : NoEntries A M t) (hA : A vtep.1)
    (hM : M vtep.2) :
    (Vxlan.addPeer name info vtep b).Safe (serve E addsMayFail)
      (PeerAdded s b (name, info) (NoEntries A M) (EntriesOf A M info vtep)) (s, t) := by
  obtain ⟨hnoRoute, hroute⟩ := h.addRoute hA info.podCidr b.nic.netns .onlink
  obtain ⟨hnoNeigh, hneigh⟩ := hroute.addNeigh hA vtep.2 b.nic.netns
  obtain ⟨hnoFdb, hfdb⟩ := hneigh.addFdb hM info.internalIp b.nic.netns
  simp only [Vxlan.addPeer, Program.bind_eq, Program.safe_bind]
  apply safe_addEntry hn (fun _ => rfl) rfl (fun _ => rfl)
  · exact fun htaken => absurd (htaken.symm.trans hnoRoute) Bool.noConfusion
  · intro _
    simp only [Program.onward_ok, if_true, Program.safe_bind]
    apply safe_addEntry (by exact hn) (fun _ => rfl) rfl (fun _ => rfl)
    · exact fun htaken => absurd (htaken.symm.trans hnoNeigh) Bool.noConfusion
    · intro _
      simp only [Program.onward_ok, if_true, Program.safe_bind]
      apply safe_addEntry (by exact hn) (fun _ => rfl) rfl (fun _ => rfl)
      · exact fun htaken => absurd (htaken.symm.trans hnoFdb) Bool.noConfusion
      · exact fun _ => ⟨rfl, _, rfl, hn, .inr ⟨rfl, hfdb⟩⟩
      · -- the FDB entry failed: the route and the ARP entry go
        obtain ⟨hthere, hroute'⟩ := hneigh.delRoute hA (.inl rfl) b.nic.netns .none
        obtain ⟨hthere', hneigh'⟩ := hroute'.delNeigh hA b.nic.netns
        simp only [Program.onward_ok, Bool.false_eq_true, if_false, Program.safe_bind]
        apply safe_delEntry (by exact hn) (fun _ => rfl) rfl rfl (fun _ => rfl)
        · exact fun habsent => absurd (habsent.symm.trans hthere) Bool.noConfusion
        · simp only [Program.onward_ok, Program.safe_bind]
          apply safe_delEntry (by exact hn) (fun _ => rfl) rfl rfl (fun _ => rfl)
          · exact fun habsent => absurd (habsent.symm.trans hthere') Bool.noConfusion
          · exact ⟨rfl, _, rfl, hn, .inl ⟨rfl, hneigh'⟩⟩
    · obtain ⟨hthere, hroute'⟩ := hroute.delRoute hA (.inl rfl) b.nic.netns .none
      simp only [Program.onward_ok, Bool.false_eq_true, if_false, Program.safe_bind]
      apply safe_delEntry (by exact hn) (fun _ => rfl) rfl rfl (fun _ => rfl)
      · exact fun habsent => absurd (habsent.symm.trans hthere) Bool.noConfusion
      · exact ⟨rfl, _, rfl, hn, .inl ⟨rfl, hroute'⟩⟩
  · exact ⟨rfl, _, rfl, hn, .inl ⟨rfl, h⟩⟩

/-- The end of a step that forgets a peer. -/
def PeerDeleted (s : Store) (b : Backend) (name : Text) (left : Tables → Prop)
    (o : Except Thrown Backend) (w : Store × Tables) : Prop :=
  w.1 = s ∧ ∃ b', o = .ok b' ∧ b'.nic.netlink = true ∧
    b'.nodeCache = b.nodeCache.filter (·.1 ≠ name) ∧ left w.2

theorem safe_delPeer_beside (hn : b.nic.netlink = true) :
    (Vxlan.delPeer name info vtep b).Safe (serve E addsMayFail)
      (PeerDeleted s b name (Beside vtep t)) (s, t) := by
  simp only [Vxlan.delPeer, Program.bind_eq, Program.safe_bind]
  apply safe_delEntry_beside vtep hn (by exact hn) (fun _ => rfl) rfl rfl (fun _ => rfl)
    (by exact rfl)
  intro _ nic u hnic hu
  simp only [Program.onward_ok, Program.safe_bind]
  apply safe_delEntry_beside vtep hnic (by exact hnic) (fun _ => rfl) rfl rfl (fun _ => rfl)
    (by exact rfl)
  intro _ nic' u' hnic' hu'
  simp only [Program.onward_ok, Program.safe_bind]
  apply safe_delEntry_beside vtep hnic' (by exact hnic') (fun _ => rfl) rfl rfl (fun _ => rfl)
    (by exact rfl)
  intro _ nic v hnic hv
  exact ⟨rfl, _, rfl, hnic, rfl, (hu.trans hu').trans hv⟩

theorem safe_delPeer_own (hn : b.nic.netlink = true) (h : EntriesOf A M info vtep t) (hA : A vtep.1)
    (hM : M vtep.2) :
    (Vxlan.delPeer name info vtep b).Safe (serve E addsMayFail)
      (PeerDeleted s b name (NoEntries A M)) (s, t) := by
  obtain ⟨hthereRoute, hroute⟩ := h.delRoute hA (.inr rfl) b.nic.netns .none
  obtain ⟨hthereNeigh, hneigh⟩ := hroute.delNeigh hA b.nic.netns
  obtain ⟨hthereFdb, hfdb⟩ := hneigh.delFdb hM b.nic.netns
  simp only [Vxlan.delPeer, Program.bind_eq, Program.safe_bind]
  apply safe_delEntry hn (fun _ => rfl) rfl rfl (fun _ => rfl)
  · exact fun habsent => absurd (habsent.symm.trans hthereRoute) Bool.noConfusion
  · simp only [Program.onward_ok, Program.safe_bind]
    apply safe_delEntry (by exact hn) (fun _ => rfl) rfl rfl (fun _ => rfl)
    · exact fun habsent => absurd (habsent.symm.trans hthereNeigh) Bool.noConfusion
    · simp only [Program.onward_ok, Program.safe_bind]
      apply safe_delEntry (by exact hn) (fun _ => rfl) rfl rfl (fun _ => rfl)
      · exact fun habsent => absurd (habsent.symm.trans hthereFdb) Bool.noConfusion
      · exact ⟨rfl, _, rfl, hn, rfl, hfdb⟩

end Steps

/-! ### One poll of the vxlan backend -/

theorem cached_iff {b : Backend} {name : Text} :
    b.cached name = true ↔ ∃ e ∈ b.nodeCache, e.1 = name := by
  simp [Backend.cached]

/-- Peer `p` is cached with `info`, its entries being those of `info` and `vtep`,
or it has no entries. -/
structure Tracked (A M : Text → Prop) (p : Text) (info : NodeInfo) (vtep : Text × Text)
    (b : Backend) (t : Tables) : Prop where
  netlink : b.nic.netlink = true
  names : (b.nodeCache.map Prod.fst).Nodup
  listed : ∀ e ∈ b.nodeCache, e.1 = p → e.2 = info
  cached : b.cached p = true → EntriesOf A M info vtep t
  uncached : b.cached p = false → NoEntries A M t

/-- The record of `p` is there while it is cached. If the own record is not, it is
the one that `p` was cached with. -/
def Stays (s : Store) (current p : Text) (vtep : Text × Text) (b : Backend) : Prop :=
  b.cached p = true → (vtepOf s p).1 ≠ [] ∧ ((vtepOf s current).1 = [] → vtepOf s p = vtep)

/-- The VTEPs of the poll: `A` and `M` have those of `p` and of no other node. -/
structure VtepsOf (A M : Text → Prop) (p : Text) (s : Store) : Prop where
  own : (vtepOf s p).1 ≠ [] → A (vtepOf s p).1 ∧ M (vtepOf s p).2
  others : ∀ n, n ≠ p → ¬ A (vtepOf s n).1 ∧ ¬ M (vtepOf s n).2

section Loops
variable {A M : Text → Prop} {s : Store} {t : Tables} {b : Backend} {current p : Text}
variable {info : NodeInfo} {vtep : Text × Text}

/-- The end of a loop. A malformed record may end the process before. -/
def LoopEnd (A M : Text → Prop) (s : Store) (current p : Text) (info : NodeInfo)
    (vtep : Text × Text) (o : Except Thrown Backend) (w : Store × Tables) : Prop :=
  w.1 = s ∧ ∀ b, o = .ok b → Tracked A M p info vtep b w.2 ∧ Stays s current p vtep b

theorem LoopEnd.throw (A M : Text → Prop) (s : Store) (current p : Text) (info : NodeInfo)
    (vtep : Text × Text) (e : Thrown) (t : Tables) :
    LoopEnd A M s current p info vtep (.error e) (s, t) :=
  ⟨rfl, fun b hb => by cases hb⟩

/-- Another node enters the cache, or does not. -/
theorem Tracked.add_other (h : Tracked A M p info vtep b t) (hv : VtepsOf A M p s)
    (stays : Stays s current p vtep b) {e : Text × NodeInfo} (hne : e.1 ≠ p)
    (hc : b.cached e.1 = false) {o : Except Thrown Backend} {w : Store × Tables}
    (hend : PeerAdded s b e (Beside (vtepOf s e.1) t) (Beside (vtepOf s e.1) t) o w) :
    w.1 = s ∧ ∃ b', o = .ok b' ∧ Tracked A M p info vtep b' w.2 ∧ Stays s current p vtep b' ∧
      b'.cached p = b.cached p := by
  obtain ⟨hs, b', rfl, hn, hcache⟩ := hend
  obtain ⟨hA, hM⟩ := hv.others e.1 hne
  have hsame : b'.cached p = b.cached p := by
    rcases hcache with ⟨hcache, -⟩ | ⟨hcache, -⟩
    · rw [Backend.cached, hcache, Backend.cached]
    · simp [Backend.cached, hcache, hne]
  have hbeside : Beside (vtepOf s e.1) t w.2 := by
    rcases hcache with ⟨-, hb⟩ | ⟨-, hb⟩
    · exact hb
    · exact hb
  refine ⟨hs, b', rfl, ⟨hn, ?_, ?_, ?_, ?_⟩, ?_, hsame⟩
  · rcases hcache with ⟨hcache, -⟩ | ⟨hcache, -⟩
    · rw [hcache]
      exact h.names
    · rw [hcache]
      exact Backend.nodup_emplace h.names hc e.2
  · intro e' he' hp
    rcases hcache with ⟨hcache, -⟩ | ⟨hcache, -⟩
    · exact h.listed e' (hcache ▸ he') hp
    · rw [hcache, List.mem_append, List.mem_singleton] at he'
      rcases he' with he' | rfl
      · exact h.listed e' he' hp
      · exact absurd hp hne
  · intro hp
    exact (h.cached (hsame ▸ hp)).beside hbeside hA hM
  · intro hp
    exact (h.uncached (hsame ▸ hp)).beside hbeside hA hM
  · intro hp
    exact stays (hsame ▸ hp)

/-- The peer enters the cache, or does not. -/
theorem Tracked.add_own (h : Tracked A M p info vtep b t) (haddr : (vtepOf s p).1 ≠ [])
    (hcur : (vtepOf s current).1 ≠ []) (hc : b.cached p = false)
    {o : Except Thrown Backend} {w : Store × Tables}
    (hend : PeerAdded s b (p, info) (NoEntries A M) (EntriesOf A M info vtep) o w) :
    w.1 = s ∧ ∃ b', o = .ok b' ∧ Tracked A M p info vtep b' w.2 ∧ Stays s current p vtep b' := by
  obtain ⟨hs, b', rfl, hn, hcache⟩ := hend
  have hstays : Stays s current p vtep b' := fun _ => ⟨haddr, fun hnil => absurd hnil hcur⟩
  refine ⟨hs, b', rfl, ?_, hstays⟩
  rcases hcache with ⟨hcache, hnone⟩ | ⟨hcache, hentries⟩
  · have hc' : b'.cached p = false := by
      rw [Backend.cached, hcache]
      exact hc
    refine ⟨hn, hcache ▸ h.names, ?_, ?_, fun _ => hnone⟩
    · rw [hcache]
      exact h.listed
    · rw [hc']
      exact fun hp => absurd hp Bool.noConfusion
  · have hc' : b'.cached p = true := by simp [Backend.cached, hcache]
    refine ⟨hn, ?_, ?_, fun _ => hentries, ?_⟩
    · rw [hcache]
      exact Backend.nodup_emplace h.names hc info
    · intro e he hp
      rw [hcache, List.mem_append, List.mem_singleton] at he
      rcases he with he | rfl
      · exact h.listed e he hp
      · rfl
    · rw [hc']
      exact fun hp => absurd hp Bool.noConfusion

theorem safe_addNodes (hcur : (vtepOf s current).1 ≠ []) (hv : VtepsOf A M p s) (l : NodeMap)
    (hinfo : b.cached p = false → vtepOf s p = vtep ∧ ∀ e ∈ l, e.1 = p → e.2 = info)
    (h : Tracked A M p info vtep b t) (stays : Stays s current p vtep b) :
    (Vxlan.addNodes current l b).Safe (serve (Program.det Etcd.ok) addsMayFail)
      (LoopEnd A M s current p info vtep) (s, t) := by
  induction l generalizing b t with
  | nil =>
      refine ⟨rfl, ?_⟩
      intro b' hb'
      cases hb'
      exact ⟨h, stays⟩
  | cons e l ih =>
      obtain ⟨name, i⟩ := e
      have hinfo' : b.cached p = false → vtepOf s p = vtep ∧ ∀ e ∈ l, e.1 = p → e.2 = info :=
        fun hc => ⟨(hinfo hc).1, fun e he => (hinfo hc).2 e (List.mem_cons_of_mem _ he)⟩
      simp only [Vxlan.addNodes, Program.bind_eq]
      split_ifs with hname
      · exact ih hinfo' h stays
      · apply safe_getVtep
        · split_ifs with hnew
          · rw [Program.safe_bind]
            by_cases hp : name = p
            · subst hp
              obtain ⟨hvtep, hi⟩ := hinfo hnew.2
              have hi' : i = info := hi (name, i) (by simp) rfl
              subst hi'
              obtain ⟨hA, hM⟩ := hv.own hnew.1
              apply (safe_addPeer_own h.netlink (h.uncached hnew.2) hA hM).mono
              intro o w hend
              rw [hvtep] at hend
              obtain ⟨hs, b', rfl, h', stays'⟩ := h.add_own hnew.1 hcur hnew.2 hend
              obtain ⟨s', t'⟩ := w
              cases hs
              exact ih (fun hc => ⟨hvtep, (hinfo' hnew.2).2⟩) h' stays'
            · apply (safe_addPeer_beside h.netlink).mono
              intro o w hend
              obtain ⟨hs, b', rfl, h', stays', hsame⟩ := h.add_other hv stays hp hnew.2 hend
              obtain ⟨s', t'⟩ := w
              cases hs
              exact ih (fun hc => hinfo' (hsame ▸ hc)) h' stays'
          · exact ih hinfo' h stays
        · exact fun e => LoopEnd.throw A M s current p info vtep e t

theorem cached_filter {b b' : Backend} {name : Text}
    (hcache : b'.nodeCache = b.nodeCache.filter (·.1 ≠ name)) (n : Text) :
    b'.cached n = true ↔ b.cached n = true ∧ n ≠ name := by
  rw [cached_iff, cached_iff, hcache]
  constructor
  · intro ⟨e, he, hn⟩
    obtain ⟨he, hne⟩ := List.mem_filter.mp he
    exact ⟨⟨e, he, hn⟩, hn ▸ of_decide_eq_true hne⟩
  · intro ⟨⟨e, he, hn⟩, hne⟩
    exact ⟨e, List.mem_filter.mpr ⟨he, decide_eq_true (hn ▸ hne)⟩, hn⟩

/-- `p` itself was forgotten. -/
theorem Tracked.del_own (h : Tracked A M p info vtep b t) (current : Text)
    {o : Except Thrown Backend} {w : Store × Tables}
    (hend : PeerDeleted s b p (NoEntries A M) o w) :
    w.1 = s ∧ ∃ b', o = .ok b' ∧ b'.nodeCache = b.nodeCache.filter (·.1 ≠ p) ∧
      Tracked A M p info vtep b' w.2 ∧ Stays s current p vtep b' := by
  obtain ⟨hs, b', rfl, hn, hcache, hnone⟩ := hend
  have hc' : b'.cached p = false := by
    rw [Bool.eq_false_iff]
    exact fun hc' => ((cached_filter hcache p).mp hc').2 rfl
  refine ⟨hs, b', rfl, hcache, ⟨hn, ?_, ?_, ?_, fun _ => hnone⟩, ?_⟩
  · rw [hcache]
    exact h.names.sublist (List.filter_sublist.map _)
  · exact fun e he => h.listed e (List.mem_of_mem_filter (hcache ▸ he))
  · rw [hc']
    exact fun hp => absurd hp Bool.noConfusion
  · rw [Stays, hc']
    exact fun hp => absurd hp Bool.noConfusion

/-- Another peer was forgotten. -/
theorem Tracked.del_other (h : Tracked A M p info vtep b t) (hv : VtepsOf A M p s)
    (stays : Stays s current p vtep b) {name : Text} (hp : name ≠ p)
    {o : Except Thrown Backend} {w : Store × Tables}
    (hend : PeerDeleted s b name (Beside (vtepOf s name) t) o w) :
    w.1 = s ∧ ∃ b', o = .ok b' ∧ b'.nodeCache = b.nodeCache.filter (·.1 ≠ name) ∧
      Tracked A M p info vtep b' w.2 ∧ Stays s current p vtep b' := by
  obtain ⟨hA, hM⟩ := hv.others name hp
  obtain ⟨hs, b', rfl, hn, hcache, hbeside⟩ := hend
  have hiff : b'.cached p = true ↔ b.cached p = true := by
    rw [cached_filter hcache p]
    exact and_iff_left (Ne.symm hp)
  have hsame : b'.cached p = b.cached p := Bool.eq_iff_iff.mpr hiff
  refine ⟨hs, b', rfl, hcache, ⟨hn, ?_, ?_, ?_, ?_⟩, fun hc => stays (hsame ▸ hc)⟩
  · rw [hcache]
    exact h.names.sublist (List.filter_sublist.map _)
  · exact fun e he => h.listed e (List.mem_of_mem_filter (hcache ▸ he))
  · exact fun hc => (h.cached (hsame ▸ hc)).beside hbeside hA hM
  · exact fun hc => (h.uncached (hsame ▸ hc)).beside hbeside hA hM

theorem safe_delNodes (hv : VtepsOf A M p s) (l : NodeMap) (hl : ∀ e ∈ l, e ∈ b.nodeCache)
    (hd : (l.map Prod.fst).Nodup) (h : Tracked A M p info vtep b t)
    (stays : Stays s current p vtep b) :
    (Vxlan.delNodes (vtepOf s current).1 l b).Safe (serve (Program.det Etcd.ok) addsMayFail)
      (LoopEnd A M s current p info vtep) (s, t) := by
  induction l generalizing b t with
  | nil =>
      refine ⟨rfl, ?_⟩
      intro b' hb'
      cases hb'
      exact ⟨h, stays⟩
  | cons e l ih =>
      obtain ⟨name, i⟩ := e
      have he : (name, i) ∈ b.nodeCache := hl _ (List.mem_cons_self ..)
      have hl' : ∀ e ∈ l, e ∈ b.nodeCache := fun e he => hl e (List.mem_cons_of_mem _ he)
      simp only [List.map_cons, List.nodup_cons] at hd
      simp only [Vxlan.delNodes, Program.bind_eq]
      apply safe_getVtep
      · split_ifs with hgone
        · -- what remains of the cache when `name` is erased
          have hrest : ∀ b' : Backend, b'.nodeCache = b.nodeCache.filter (·.1 ≠ name) →
              ∀ e ∈ l, e ∈ b'.nodeCache := by
            intro b' hcache e hel
            have hne : e.1 ≠ name := fun heq => hd.1 (heq ▸ List.mem_map_of_mem hel)
            rw [hcache]
            simpa using ⟨hl' e hel, hne⟩
          rw [Program.safe_bind]
          by_cases hp : name = p
          · subst hp
            have hc : b.cached name = true := cached_iff.mpr ⟨_, he, rfl⟩
            obtain ⟨haddr, hsame⟩ := stays hc
            have hvtep := hsame (hgone.resolve_right haddr)
            have hi : i = info := h.listed _ he rfl
            obtain ⟨hA, hM⟩ := hv.own haddr
            rw [hvtep] at hA hM ⊢
            subst hi
            apply (safe_delPeer_own h.netlink (h.cached hc) hA hM).mono
            intro o w hend
            obtain ⟨hs, b', rfl, hcache, h', stays'⟩ := h.del_own current hend
            obtain ⟨s', t'⟩ := w
            cases hs
            exact ih (hrest b' hcache) hd.2 h' stays'
          · apply (safe_delPeer_beside h.netlink).mono
            intro o w hend
            obtain ⟨hs, b', rfl, hcache, h', stays'⟩ := h.del_other hv stays hp hend
            obtain ⟨s', t'⟩ := w
            cases hs
            exact ih (hrest b' hcache) hd.2 h' stays'
        · exact ih hl' hd.2 h stays
      · exact fun e => LoopEnd.throw A M s current p info vtep e t

theorem safe_eventHandler (o : VisitOrder) (cluster : NodeMap) (hv : VtepsOf A M p s)
    (hinfo : b.cached p = false → vtepOf s p = vtep ∧ ∀ e ∈ cluster, e.1 = p → e.2 = info)
    (h : Tracked A M p info vtep b t) (stays : Stays s current p vtep b) :
    (Vxlan.eventHandler o current cluster b).Safe (serve (Program.det Etcd.ok) addsMayFail)
      (LoopEnd A M s current p info vtep) (s, t) := by
  have hdel : ∀ (b : Backend) (t : Tables), Tracked A M p info vtep b t →
      Stays s current p vtep b →
      (Vxlan.delNodes (vtepOf s current).1 (o.order b.nodeCache) b).Safe
        (serve (Program.det Etcd.ok) addsMayFail) (LoopEnd A M s current p info vtep) (s, t) := by
    intro b t h stays
    have hnames : ((o.order b.nodeCache).map Prod.fst).Nodup :=
      ((o.perm _).map Prod.fst).nodup_iff.mpr h.names
    exact safe_delNodes hv _ (fun e he => (o.perm _).mem_iff.mp he) hnames h stays
  simp only [Vxlan.eventHandler, Program.bind_eq]
  apply safe_getVtep
  · split_ifs with hcur
    · rw [Program.safe_bind]
      apply (safe_addNodes hcur hv cluster hinfo h stays).mono
      intro out w hw
      obtain ⟨s', t'⟩ := w
      obtain ⟨hs, hw⟩ := hw
      cases hs
      cases out with
      | error e => exact LoopEnd.throw A M s' current p info vtep e t'
      | ok b' => exact hdel b' t' (hw b' rfl).1 (hw b' rfl).2
    · exact hdel b t h stays
  · exact fun e => LoopEnd.throw A M s current p info vtep e t

end Loops

end Ohno.PeerEntries
