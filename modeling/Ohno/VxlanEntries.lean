import Ohno.Backends
import Ohno.KernelTables

/-!
# The forwarding entries of the vxlan backend

The entries of the device ohnov belong to the cached peers. What a peer was
programmed with is remembered next to the run, because the handler itself keeps
no more than the node: to delete the entries of a peer it reads the VTEP again.
The ownership lemmas at the top are about lists over any two types.

Within a poll the store does not change, queries are truthful and a command
with the arguments it needs succeeds. Between polls anyone may remove entries.
-/
namespace Ohno.VxlanEntries
open CommandPrograms DelimitedLists AddressText EtcdClientShell Netlink Nics KernelTables Storage
open Backends

/-! ### Ownership -/

section Ownership
variable {α ε : Type} {own own' : α → Prop} {on : ε → Prop} {entry : α → ε} {xs ys : List ε} {a : α}

/-- Each item of the kind `on` is the entry of an owner. -/
def OwnedBy (own : α → Prop) (on : ε → Prop) (entry : α → ε) (xs : List ε) : Prop :=
  ∀ x ∈ xs, on x → ∃ a, own a ∧ x = entry a

theorem OwnedBy.mono (h : OwnedBy own on entry xs) (hown : ∀ a, own a → own' a) :
    OwnedBy own' on entry xs := by
  intro x hx hon
  obtain ⟨a, ha, hxa⟩ := h x hx hon
  exact ⟨a, hown a ha, hxa⟩

theorem OwnedBy.congr (other : α → ε) (h : OwnedBy own on entry xs)
    (he : ∀ a, own a → other a = entry a) : OwnedBy own on other xs := by
  intro x hx hon
  obtain ⟨a, ha, hxa⟩ := h x hx hon
  exact ⟨a, ha, hxa.trans (he a ha).symm⟩

theorem OwnedBy.subset (h : OwnedBy own on entry xs) (hy : ∀ x ∈ ys, on x → x ∈ xs) :
    OwnedBy own on entry ys :=
  fun x hx hon => h x (hy x hx hon) hon

theorem OwnedBy.add (h : OwnedBy own on entry xs) (hown : ∀ b, own b → own' b)
    (hy : ∀ x ∈ ys, x ∈ xs ∨ x = entry a ∧ own' a) : OwnedBy own' on entry ys := by
  intro x hx hon
  rcases hy x hx with hx | ⟨rfl, ha⟩
  · obtain ⟨b, hb, hxb⟩ := h x hx hon
    exact ⟨b, hown b hb, hxb⟩
  · exact ⟨a, ha, rfl⟩

/-- Once its entry is gone, `a` owns nothing. -/
theorem OwnedBy.remove (h : OwnedBy own on entry xs) (hy : ∀ x ∈ ys, x ∈ xs)
    (ha : own a → entry a ∉ ys) : OwnedBy (fun b => own b ∧ b ≠ a) on entry ys := by
  intro x hx hon
  obtain ⟨b, hb, rfl⟩ := h x (hy x hx) hon
  refine ⟨b, ⟨hb, ?_⟩, rfl⟩
  intro hba
  subst hba
  exact ha hb hx

end Ownership

/-! ### Commands that are carried out -/

section CarriedOut
variable {E : EtcdCmd → Store → Reply → Store → Prop} {nic : Nic} {w : Store × Tables}
variable {Q : Except Thrown (Bool × Nic) → Store × Tables → Prop}

theorem safe_addRoute (hn : nic.netlink = true) {r : Route} (hvia : r.via ≠ [])
    {flags : RouteNHFlags}
    (h : ∀ (other : Nic) (routes : List Route), other.netlink = true →
      (∀ x ∈ routes, x ∈ w.2.routes ∨ x = r) →
      Q (.ok (true, other)) (w.1, { w.2 with routes := routes })) :
    (nic.addRoute r flags).Safe (serve E carriesOut) Q w := by
  apply KernelTables.safe_addEntry hn (fun _ => rfl) (fun _ => rfl) rfl
  · exact h _ _ (by exact hn) fun x hx => .inl hx
  · intro _
    exact h _ _ (by exact hn) (by simp)
  · intro hw
    exact absurd hvia (by simpa [wellFormed] using hw)

theorem safe_delRoute (hn : nic.netlink = true) {dst via dev : Text} (hvia : via ≠ [])
    (h : ∀ (other : Nic) (routes : List Route), other.netlink = true →
      (∀ x ∈ routes, x ∈ w.2.routes ∧ routeMatches dst via dev x = false) →
      Q (.ok (true, other)) (w.1, { w.2 with routes := routes })) :
    (nic.delRoute dst via dev).Safe (serve E carriesOut) Q w := by
  apply KernelTables.safe_delEntry hn (fun _ => rfl) (fun _ => rfl) rfl
  · intro hnone
    have hnone : ∀ x ∈ w.2.routes, routeMatches dst via dev x = false := by
      simpa [execute] using hnone (by simpa [wellFormed] using hvia)
    exact h _ _ (by exact hn) fun x hx => ⟨hx, hnone x hx⟩
  · intro _
    exact h _ _ (by exact hn) (by simp)
  · intro hw
    exact absurd hvia (by simpa [wellFormed] using hw)

theorem safe_addNeigh (hn : nic.netlink = true) {n : Neigh}
    (h : ∀ (other : Nic) (neighs : List Neigh), other.netlink = true →
      (∀ x ∈ neighs, x ∈ w.2.neighs ∨ x = n ∧ n.mac ≠ []) →
      Q (.ok (true, other)) (w.1, { w.2 with neighs := neighs }))
    (hfail : Q (.ok (false, nic)) w) :
    (nic.addNeigh n).Safe (serve E carriesOut) Q w := by
  apply KernelTables.safe_addEntry hn (fun _ => rfl) (fun _ => rfl) rfl
  · exact h _ _ (by exact hn) fun x hx => .inl hx
  · intro hw
    have hmac : n.mac ≠ [] := by
      simp only [wellFormed, Bool.and_eq_true, decide_eq_true_eq] at hw
      exact hw.2
    exact h _ _ (by exact hn) (by simp [hmac])
  · exact fun _ => hfail

theorem safe_delNeigh (hn : nic.netlink = true) {addr mac dev : Text} (haddr : addr ≠ [])
    (h : ∀ (ok : Bool) (other : Nic) (neighs : List Neigh), other.netlink = true →
      (∀ x ∈ neighs, x ∈ w.2.neighs ∧ (mac ≠ [] → neighMatches addr dev x = false)) →
      Q (.ok (ok, other)) (w.1, { w.2 with neighs := neighs })) :
    (nic.delNeigh addr mac dev).Safe (serve E carriesOut) Q w := by
  apply KernelTables.safe_delEntry hn (fun _ => rfl) (fun _ => rfl) rfl
  · intro hnone
    have hnone : ∀ x ∈ w.2.neighs, neighMatches addr dev x = false := by
      simpa [execute] using hnone (by simpa [wellFormed] using haddr)
    exact h _ _ _ (by exact hn) fun x hx => ⟨hx, fun _ => hnone x hx⟩
  · intro _
    exact h _ _ _ (by exact hn) (by simp +contextual)
  · intro hw
    have hmac : mac = [] := by simpa [wellFormed, haddr] using hw
    exact h _ _ _ hn fun x hx => ⟨hx, fun hne => absurd hmac hne⟩

theorem safe_addFdb (hn : nic.netlink = true) {f : Fdb}
    (h : ∀ (other : Nic) (fdbs : List Fdb), other.netlink = true →
      (∀ x ∈ fdbs, x ∈ w.2.fdbs ∨ x = f ∧ f.mac ≠ [] ∧ f.underlayAddr ≠ []) →
      Q (.ok (true, other)) (w.1, { w.2 with fdbs := fdbs }))
    (hfail : Q (.ok (false, nic)) w) :
    (nic.addFdb f).Safe (serve E carriesOut) Q w := by
  apply KernelTables.safe_addEntry hn (fun _ => rfl) (fun _ => rfl) rfl
  · exact h _ _ (by exact hn) fun x hx => .inl hx
  · intro hw
    simp only [wellFormed, Bool.and_eq_true, decide_eq_true_eq] at hw
    exact h _ _ (by exact hn) (by simp [hw.1.1, hw.1.2])
  · exact fun _ => hfail

theorem safe_delFdb (hn : nic.netlink = true) {addr mac dev : Text}
    (h : ∀ (ok : Bool) (other : Nic) (fdbs : List Fdb), other.netlink = true →
      (∀ x ∈ fdbs, x ∈ w.2.fdbs ∧ (mac ≠ [] → addr ≠ [] → dev ≠ [] → x ≠ ⟨mac, addr, dev⟩)) →
      Q (.ok (ok, other)) (w.1, { w.2 with fdbs := fdbs })) :
    (nic.delFdb addr mac dev).Safe (serve E carriesOut) Q w := by
  apply KernelTables.safe_delEntry hn (fun _ => rfl) (fun _ => rfl) rfl
  · intro hnone
    refine h _ _ _ (by exact hn) fun x hx => ⟨hx, fun hm ha hd heq => ?_⟩
    have hnot := hnone (by simp [wellFormed, hm, ha, hd])
    rw [heq] at hx
    simp [execute, hx] at hnot
  · intro _
    exact h _ _ _ (by exact hn) (by simp +contextual)
  · intro hw
    refine h _ _ _ hn fun x hx => ⟨hx, fun hm ha hd => ?_⟩
    exact absurd (by simp [wellFormed, hm, ha, hd]) hw

end CarriedOut

/-! ### Peers and their entries -/

/-- VTEP address and MAC by node name, as they were read when the node was cached. -/
abbrev Programmed := Text → Text × Text

def routeOf (prog : Programmed) (e : Text × NodeInfo) : Route :=
  ⟨e.2.podCidr, (prog e.1).1, nameVxlan⟩

def neighOf (prog : Programmed) (e : Text × NodeInfo) : Neigh :=
  ⟨(prog e.1).1, (prog e.1).2, nameVxlan⟩

def fdbOf (prog : Programmed) (e : Text × NodeInfo) : Fdb :=
  ⟨(prog e.1).2, e.2.internalIp, nameVxlan⟩

/-- The entries of ohnov are those that some peer of `l` was programmed with.
Entries that lack an argument were never added. -/
structure Owned (l : NodeMap) (prog : Programmed) (t : Tables) : Prop where
  routes : OwnedBy (· ∈ l) (·.dev = nameVxlan) (routeOf prog) t.routes
  neighs : OwnedBy (fun e => e ∈ l ∧ (prog e.1).2 ≠ []) (·.dev = nameVxlan) (neighOf prog) t.neighs
  fdbs : OwnedBy (fun e => e ∈ l ∧ (prog e.1).2 ≠ [] ∧ e.2.internalIp ≠ []) (·.dev = nameVxlan)
    (fdbOf prog) t.fdbs

structure Agrees (prog : Programmed) (b : Backend) (t : Tables) : Prop where
  netlink : b.nic.netlink = true
  names : (b.nodeCache.map Prod.fst).Nodup
  owned : Owned b.nodeCache prog t

theorem nameVxlan_ne_nil : nameVxlan ≠ [] := by
  unfold nameVxlan
  decide

theorem routeMatches_routeOf (prog : Programmed) (e : Text × NodeInfo) {dev : Text}
    (hdev : dev = [] ∨ dev = nameVxlan) :
    routeMatches e.2.podCidr (prog e.1).1 dev (routeOf prog e) = true := by
  rcases hdev with rfl | rfl
  · simp [routeMatches, routeOf, onDevice]
  · simp [routeMatches, routeOf, onDevice]

theorem neighMatches_neighOf (prog : Programmed) (e : Text × NodeInfo) :
    neighMatches (prog e.1).1 nameVxlan (neighOf prog e) = true := by
  simp [neighMatches, neighOf, onDevice]

section Steps
variable {s : Store} {b : Backend} {t : Tables} {prog : Programmed} {e : Text × NodeInfo}

/-- Two distinct members of the cache have distinct names. -/
theorem Agrees.mem_erase (h : Agrees prog b t) (he : e ∈ b.nodeCache) {e' : Text × NodeInfo}
    (he' : e' ∈ b.nodeCache) (hne : e' ≠ e) : e' ∈ b.nodeCache.filter (·.1 ≠ e.1) := by
  have hname : e'.1 ≠ e.1 := fun heq => hne (List.inj_on_of_nodup_map h.names he' he heq)
  simpa using ⟨he', hname⟩

/-- The entries of a cached peer go with it when its VTEP is the programmed one. -/
theorem safe_delPeer (h : Agrees prog b t) (he : e ∈ b.nodeCache) (haddr : (prog e.1).1 ≠ [])
    {E : EtcdCmd → Store → Reply → Store → Prop} :
    (Vxlan.delPeer e.1 e.2 (prog e.1) b).Safe (serve E carriesOut)
      (fun o w => w.1 = s ∧ ∃ b', o = .ok b' ∧ b'.nodeCache = b.nodeCache.filter (·.1 ≠ e.1) ∧
        Agrees prog b' w.2) (s, t) := by
  simp only [Vxlan.delPeer, Program.bind_eq, Program.safe_bind]
  apply safe_delRoute h.netlink haddr
  intro nic routes hn hroutes
  simp only [Program.onward_ok, Program.safe_bind]
  apply safe_delNeigh hn haddr
  intro ok nic neighs hn hneighs
  simp only [Program.onward_ok, Program.safe_bind]
  apply safe_delFdb hn
  intro ok nic fdbs hn hfdbs
  refine ⟨rfl, _, rfl, rfl, hn, h.names.sublist (List.filter_sublist.map _), ?_⟩
  have hr := h.owned.routes.remove (fun x hx => (hroutes x hx).1) (a := e) fun _ hmem => by
    have hm := (hroutes _ hmem).2
    rw [routeMatches_routeOf prog e (.inr rfl)] at hm
    cases hm
  have hg := h.owned.neighs.remove (fun x hx => (hneighs x hx).1) (a := e) fun ha hmem => by
    have hm := (hneighs _ hmem).2 ha.2
    rw [neighMatches_neighOf] at hm
    cases hm
  have hf := h.owned.fdbs.remove (fun x hx => (hfdbs x hx).1) (a := e) fun ha hmem =>
    (hfdbs _ hmem).2 ha.2.1 ha.2.2 nameVxlan_ne_nil rfl
  constructor
  · exact hr.mono fun e' h' => h.mem_erase he h'.1 h'.2
  · exact hg.mono fun e' h' => ⟨h.mem_erase he h'.1.1 h'.2, h'.1.2⟩
  · exact hf.mono fun e' h' => ⟨h.mem_erase he h'.1.1 h'.2, h'.1.2⟩

/-- The outcome of adding a peer: it is cached with its entries, or nothing is
left of it. -/
def AddsPeer (s : Store) (prog : Programmed) (b : Backend) (e : Text × NodeInfo)
    (o : Except Thrown Backend) (w : Store × Tables) : Prop :=
  w.1 = s ∧ ∃ b', o = .ok b' ∧ Agrees prog b' w.2 ∧
    (b'.nodeCache = b.nodeCache ∨ b'.nodeCache = b.nodeCache ++ [e])

theorem safe_addPeer (h : Agrees prog b t) (hc : b.cached e.1 = false) (haddr : (prog e.1).1 ≠ [])
    {E : EtcdCmd → Store → Reply → Store → Prop} :
    (Vxlan.addPeer e.1 e.2 (prog e.1) b).Safe (serve E carriesOut)
      (AddsPeer s prog b e) (s, t) := by
  have hmem : ∀ e' ∈ b.nodeCache, e' ∈ b.nodeCache ++ [e] := fun e' => List.mem_append_left _
  have hback : ∀ e', e' ∈ b.nodeCache ++ [e] → e' ≠ e → e' ∈ b.nodeCache := by
    intro e' he' hne
    rcases List.mem_append.mp he' with he' | he'
    · exact he'
    · exact absurd (List.mem_singleton.mp he') hne
  simp only [Vxlan.addPeer, Program.bind_eq, Program.safe_bind]
  apply safe_addRoute h.netlink haddr
  intro nic routes hn hroutes
  have hr : OwnedBy (· ∈ b.nodeCache ++ [e]) (·.dev = nameVxlan) (routeOf prog) routes :=
    h.owned.routes.add hmem fun x hx => (hroutes x hx).imp_right fun hx => ⟨hx, by simp⟩
  -- taking the route back, whatever else was added
  have hundo : ∀ routes', (∀ x ∈ routes', x ∈ routes ∧
      routeMatches e.2.podCidr (prog e.1).1 [] x = false) →
      OwnedBy (· ∈ b.nodeCache) (·.dev = nameVxlan) (routeOf prog) routes' := by
    intro routes' h'
    have hr' := hr.remove (fun x hx => (h' x hx).1) (a := e) fun _ hmem => by
      have hm := (h' _ hmem).2
      rw [routeMatches_routeOf prog e (.inl rfl)] at hm
      cases hm
    exact hr'.mono fun e' he' => hback e' he'.1 he'.2
  simp only [Program.onward_ok, if_true, Program.safe_bind]
  apply safe_addNeigh hn
  · intro nic neighs hn hneighs
    have hg : OwnedBy (fun e' => e' ∈ b.nodeCache ++ [e] ∧ (prog e'.1).2 ≠ [])
        (·.dev = nameVxlan) (neighOf prog) neighs :=
      h.owned.neighs.add (fun e' he' => ⟨hmem e' he'.1, he'.2⟩) fun x hx =>
        (hneighs x hx).imp_right fun hx => ⟨hx.1, by simp, hx.2⟩
    simp only [Program.onward_ok, if_true, Program.safe_bind]
    apply safe_addFdb hn
    · intro nic fdbs hn hfdbs
      have hf : OwnedBy (fun e' => e' ∈ b.nodeCache ++ [e] ∧ (prog e'.1).2 ≠ [] ∧
          e'.2.internalIp ≠ []) (·.dev = nameVxlan) (fdbOf prog) fdbs :=
        h.owned.fdbs.add (fun e' he' => ⟨hmem e' he'.1, he'.2⟩) fun x hx =>
          (hfdbs x hx).imp_right fun hx => ⟨hx.1, by simp, hx.2⟩
      exact ⟨rfl, _, rfl, ⟨hn, Backend.nodup_emplace h.names hc e.2, hr, hg, hf⟩, .inr rfl⟩
    · simp only [Program.onward_ok, Program.safe_bind, Bool.false_eq_true, if_false]
      apply safe_delRoute hn haddr
      intro nic routes' hn hroutes'
      simp only [Program.onward_ok, Program.safe_bind]
      apply safe_delNeigh hn haddr
      intro ok nic neighs' hn hneighs'
      have hg' := hg.remove (fun x hx => (hneighs' x hx).1) (a := e) fun ha hmem => by
        have hm := (hneighs' _ hmem).2 ha.2
        rw [neighMatches_neighOf] at hm
        cases hm
      refine ⟨rfl, _, rfl, ⟨hn, h.names, hundo _ hroutes', ?_, h.owned.fdbs⟩, .inl rfl⟩
      exact hg'.mono fun e' he' => ⟨hback e' he'.1.1 he'.2, he'.1.2⟩
  · simp only [Program.onward_ok, Program.safe_bind, Bool.false_eq_true, if_false]
    apply safe_delRoute hn haddr
    intro nic routes' hn hroutes'
    exact ⟨rfl, _, rfl, ⟨hn, h.names, hundo _ hroutes', h.owned.neighs, h.owned.fdbs⟩, .inl rfl⟩

end Steps

/-! ### One poll -/

/-- The VTEP that the handler reads for a node. -/
def vtepOf (s : Store) (name : Text) : Text × Text :=
  match parseVtep (s.value (getVtepKey name)) with
  | .ok vtep => vtep
  | .error _ => ([], [])

section Poll
variable {s : Store} {b : Backend} {t : Tables} {prog : Programmed} {current : Text}

/-- A read of a malformed record ends the process. -/
theorem safe_getVtep {A : Type} {N : NetlinkCmd → Tables → Bool → Tables → Prop} {name : Text}
    {f : Text × Text → OhnoProgram A} {Q : Except Thrown A → Store × Tables → Prop}
    (h : (f (vtepOf s name)).Safe (serve (Program.det Etcd.ok) N) Q (s, t))
    (he : ∀ e, Q (.error e) (s, t)) :
    ((etcd (getVtep name)).bind f).Safe (serve (Program.det Etcd.ok) N) Q (s, t) := by
  rw [Program.safe_bind, safe_etcd, Program.safe_det]
  unfold vtepOf at h
  simp only [getVtep, Program.bind_eq, Program.run_bind, run_get, Program.Final.andThen_ok, if_true]
  cases hp : parseVtep (s.value (getVtepKey name)) with
  | ok vtep => simpa [hp] using h
  | error e => exact he e

/-- What the deletion loop reads for a cached peer is what it was programmed
with, and not empty, whenever the loop deletes. -/
def Told (s : Store) (cur : Text) (prog : Programmed) (l : NodeMap) : Prop :=
  ∀ e ∈ l, (vtepOf s e.1).1 ≠ [] ∧ (cur = [] → vtepOf s e.1 = prog e.1)

/-- The end of a loop. A malformed record may end the process before. -/
def LoopEnd (s : Store) (cur : Text) (prog : Programmed) (o : Except Thrown Backend)
    (w : Store × Tables) : Prop :=
  w.1 = s ∧ ∀ b, o = .ok b → Agrees prog b w.2 ∧ Told s cur prog b.nodeCache

theorem safe_addNodes (cur : Text) (hcur : cur ≠ []) (l : NodeMap)
    (hprog : ∀ n, b.cached n = false → prog n = vtepOf s n) (h : Agrees prog b t)
    (ht : Told s cur prog b.nodeCache) :
    (Vxlan.addNodes current l b).Safe (serve (Program.det Etcd.ok) carriesOut)
      (LoopEnd s cur prog) (s, t) := by
  induction l generalizing b t with
  | nil =>
      refine ⟨rfl, ?_⟩
      intro b' hb'
      cases hb'
      exact ⟨h, ht⟩
  | cons e l ih =>
      obtain ⟨name, info⟩ := e
      simp only [Vxlan.addNodes, Program.bind_eq]
      split_ifs with hname
      · exact ih hprog h ht
      · apply safe_getVtep
        · split_ifs with hnew
          · rw [Program.safe_bind]
            have hp := hprog name hnew.2
            have haddr : (prog name).1 ≠ [] := hp ▸ hnew.1
            rw [← hp]
            apply (safe_addPeer (e := (name, info)) h hnew.2 haddr).mono
            intro o w hw
            obtain ⟨hs, b', rfl, hb', hcache⟩ := hw
            obtain ⟨s', t'⟩ := w
            cases hs
            have hcached : ∀ n, b'.cached n = false → b.cached n = false := by
              intro n hn
              rcases hcache with hcache | hcache
              · simpa only [Backend.cached, hcache] using hn
              · simp only [Backend.cached, hcache, List.any_append, Bool.or_eq_false_iff] at hn
                exact hn.1
            apply ih (fun n hn => hprog n (hcached n hn)) hb'
            intro e he
            rcases hcache with hcache | hcache
            · exact ht e (hcache ▸ he)
            · rw [hcache, List.mem_append, List.mem_singleton] at he
              rcases he with he | rfl
              · exact ht e he
              · exact ⟨hnew.1, fun hnil => absurd hnil hcur⟩
          · exact ih hprog h ht
        · intro e
          exact ⟨rfl, fun b hb => by cases hb⟩

theorem safe_delNodes (cur : Text) (l : NodeMap) (hl : ∀ e ∈ l, e ∈ b.nodeCache)
    (hd : (l.map Prod.fst).Nodup) (h : Agrees prog b t) (ht : Told s cur prog b.nodeCache) :
    (Vxlan.delNodes cur l b).Safe (serve (Program.det Etcd.ok) carriesOut)
      (LoopEnd s cur prog) (s, t) := by
  induction l generalizing b t with
  | nil =>
      refine ⟨rfl, ?_⟩
      intro b' hb'
      cases hb'
      exact ⟨h, ht⟩
  | cons e l ih =>
      obtain ⟨name, info⟩ := e
      have he : (name, info) ∈ b.nodeCache := hl _ (List.mem_cons_self ..)
      have hl' : ∀ e ∈ l, e ∈ b.nodeCache := fun e he => hl e (List.mem_cons_of_mem _ he)
      simp only [List.map_cons, List.nodup_cons] at hd
      simp only [Vxlan.delNodes, Program.bind_eq]
      apply safe_getVtep
      · split_ifs with hgone
        · -- the peer's own record is there, so the own node has none
          obtain ⟨haddr, hsame⟩ := ht _ he
          have hcur := hgone.resolve_right haddr
          have hp := hsame hcur
          rw [hp] at haddr
          rw [Program.safe_bind, hp]
          apply (safe_delPeer (e := (name, info)) h he haddr).mono
          intro o w hw
          obtain ⟨hs, b', rfl, hcache, hb'⟩ := hw
          obtain ⟨s', t'⟩ := w
          cases hs
          apply ih _ hd.2 hb'
          · intro e he
            rw [hcache] at he
            exact ht e (List.mem_of_mem_filter he)
          · intro e hel
            have hne : e.1 ≠ name := fun heq => hd.1 (heq ▸ List.mem_map_of_mem hel)
            rw [hcache]
            simpa using ⟨hl' e hel, hne⟩
        · exact ih hl' hd.2 h ht
      · intro e
        exact ⟨rfl, fun b hb => by cases hb⟩

theorem safe_eventHandler (o : VisitOrder) (cluster : NodeMap)
    (hprog : ∀ n, b.cached n = false → prog n = vtepOf s n) (h : Agrees prog b t)
    (ht : Told s (vtepOf s current).1 prog b.nodeCache) :
    (Vxlan.eventHandler o current cluster b).Safe (serve (Program.det Etcd.ok) carriesOut)
      (LoopEnd s (vtepOf s current).1 prog) (s, t) := by
  have hdel : ∀ (b : Backend) (t : Tables), Agrees prog b t →
      Told s (vtepOf s current).1 prog b.nodeCache →
      (Vxlan.delNodes (vtepOf s current).1 (o.order b.nodeCache) b).Safe
        (serve (Program.det Etcd.ok) carriesOut) (LoopEnd s (vtepOf s current).1 prog) (s, t) := by
    intro b t hb ht
    have hnames : ((o.order b.nodeCache).map Prod.fst).Nodup :=
      ((o.perm _).map Prod.fst).nodup_iff.mpr hb.names
    exact safe_delNodes _ _ (fun e he => (o.perm _).mem_iff.mp he) hnames hb ht
  simp only [Vxlan.eventHandler, Program.bind_eq]
  apply safe_getVtep
  · split_ifs with hcur
    · rw [Program.safe_bind]
      apply (safe_addNodes _ hcur cluster hprog h ht).mono
      intro out w hw
      obtain ⟨s', t'⟩ := w
      obtain ⟨hs, hw⟩ := hw
      cases hs
      cases out with
      | error e => exact ⟨rfl, fun b hb => by cases hb⟩
      | ok b' => exact hdel b' t' (hw b' rfl).1 (hw b' rfl).2
    · exact hdel b t h ht
  · intro e
    exact ⟨rfl, fun b hb => by cases hb⟩

end Poll

/-! ### Runs -/

/-- What is remembered after a poll that starts with the cache of `b`. -/
def noted (prog : Programmed) (b : Backend) (s : Store) : Programmed :=
  fun n => if b.cached n then prog n else vtepOf s n

/-- Nothing of the device ohnov is in `u` that is not in `t`. -/
structure Remains (u t : Tables) : Prop where
  routes : ∀ r ∈ u.routes, r.dev = nameVxlan → r ∈ t.routes
  neighs : ∀ n ∈ u.neighs, n.dev = nameVxlan → n ∈ t.neighs
  fdbs : ∀ f ∈ u.fdbs, f.dev = nameVxlan → f ∈ t.fdbs

theorem Remains.refl (t : Tables) : Remains t t :=
  ⟨fun _ h _ => h, fun _ h _ => h, fun _ h _ => h⟩

/-- The polls of a daemon on `current`, each with a store that `may` be there. -/
inductive Polls (may : Store → Programmed → Backend → Prop) (current : Text) :
    Programmed → Backend → Tables → Prop where
  | start {prog : Programmed} {t : Tables} (none : Remains t {}) : Polls may current prog {} t
  | poll {prog : Programmed} {b b' : Backend} {t u v : Tables} {s s' : Store} (o : VisitOrder)
      (cluster : NodeMap) (past : Polls may current prog b t) (between : Remains u t)
      (stored : may s prog b)
      (now : (Vxlan.eventHandler o current cluster b).Exec
        (serve (Program.det Etcd.ok) carriesOut) (s, u) (.ok b') (s', v)) :
      Polls may current (noted prog b s) b' v

/-- The record of every cached peer is there. If the own record is not, it is
still the one that the peer was programmed with. -/
def RecordsKept (current : Text) (s : Store) (prog : Programmed) (b : Backend) : Prop :=
  Told s (vtepOf s current).1 prog b.nodeCache

/-- Each entry of ohnov is one that a cached peer was programmed with. -/
structure EntriesBelong (prog : Programmed) (b : Backend) (t : Tables) : Prop where
  routes : ∀ r ∈ t.routes, r.dev = nameVxlan → ∃ e ∈ b.nodeCache, r = routeOf prog e
  neighs : ∀ n ∈ t.neighs, n.dev = nameVxlan → ∃ e ∈ b.nodeCache, n = neighOf prog e
  fdbs : ∀ f ∈ t.fdbs, f.dev = nameVxlan → ∃ e ∈ b.nodeCache, f = fdbOf prog e

section Runs
variable {current : Text} {prog : Programmed} {b : Backend} {t u : Tables}

theorem noted_of_mem {s : Store} {e : Text × NodeInfo} (he : e ∈ b.nodeCache) :
    noted prog b s e.1 = prog e.1 := by
  have hc : b.cached e.1 = true := List.any_eq_true.mpr ⟨e, he, by simp⟩
  simp only [noted, hc, if_true]

/-- Between two polls entries may go, and the next poll remembers the cached peers alike. -/
theorem Agrees.next (h : Agrees prog b t) (hu : Remains u t) (s : Store) :
    Agrees (noted prog b s) b u := by
  refine ⟨h.netlink, h.names, ?_, ?_, ?_⟩
  · apply (h.owned.routes.subset hu.routes).congr (routeOf (noted prog b s))
    intro e he
    simp only [routeOf, noted_of_mem he]
  · have hg := (h.owned.neighs.subset hu.neighs).congr (neighOf (noted prog b s)) fun e he => by
      simp only [neighOf, noted_of_mem he.1]
    exact hg.mono fun e he => ⟨he.1, by rw [noted_of_mem he.1]; exact he.2⟩
  · have hf := (h.owned.fdbs.subset hu.fdbs).congr (fdbOf (noted prog b s)) fun e he => by
      simp only [fdbOf, noted_of_mem he.1]
    exact hf.mono fun e he => ⟨he.1, by rw [noted_of_mem he.1]; exact he.2⟩

theorem polls_agree (h : Polls (RecordsKept current) current prog b t) : Agrees prog b t := by
  induction h with
  | start none =>
      refine ⟨rfl, by simp, ?_, ?_, ?_⟩
      · intro r hr hon
        simpa using none.routes r hr hon
      · intro n hn hon
        simpa using none.neighs n hn hon
      · intro f hf hon
        simpa using none.fdbs f hf hon
  | @poll prog b b' t u v s s' o cluster past between stored now ih =>
      have hstart := ih.next between s
      have hnew : ∀ n, b.cached n = false → noted prog b s n = vtepOf s n := by
        intro n hn
        simp only [noted, hn, Bool.false_eq_true, if_false]
      have htold : Told s (vtepOf s current).1 (noted prog b s) b.nodeCache := by
        intro e he
        rw [noted_of_mem he]
        exact stored e he
      have hend := (safe_eventHandler o cluster hnew hstart htold).exec now
      exact (hend.2 b' rfl).1

/-- While the records of the cached peers are kept, no entry outlives its peer. -/
theorem entries_belong_to_cached (h : Polls (RecordsKept current) current prog b t) :
    EntriesBelong prog b t := by
  have ho := (polls_agree h).owned
  constructor
  · exact fun r hr hon => ho.routes r hr hon
  · intro n hn hon
    obtain ⟨e, he, hne⟩ := ho.neighs n hn hon
    exact ⟨e, he.1, hne⟩
  · intro f hf hon
    obtain ⟨e, he, hfe⟩ := ho.fdbs f hf hon
    exact ⟨e, he.1, hfe⟩

end Runs

/-! Node a, its peer b, and what etcd stores while both have a VTEP. -/

/-- Commands are carried out; a query that lacks an argument answers no. -/
def carryOut (c : NetlinkCmd) (t : Tables) : Bool × Tables :=
  if wellFormed c then execute c t else (false, t)

theorem carryOut_carriesOut (c : NetlinkCmd) (t : Tables) :
    carriesOut c t (carryOut c t).1 (carryOut c t).2 := by
  unfold carriesOut carryOut
  split_ifs
  · rfl
  · exact ⟨rfl, fun _ => rfl⟩

def vtepsStored : Store := fun k =>
  if k = getVtepKey ['a'] then some "10.0.0.0-02:00:00:00:00:0a".toList
  else if k = getVtepKey ['b'] then some "10.0.1.0-02:00:00:00:00:0b".toList
  else none

def pollA (s : Store) (b : Backend) (t : Tables) : Program.Final Thrown Backend (Store × Tables) :=
  (Vxlan.eventHandler .asListed ['a'] [(['b'], nodeB)] b).run
    (serveBy Etcd.ok carryOut) (s, t)

theorem polls_pollA {may : Store → Programmed → Backend → Prop} {prog : Programmed}
    {b b' : Backend} {t : Tables} {s : Store} (past : Polls may ['a'] prog b t)
    (stored : may s prog b) (hb : (pollA s b t).1 = .ok b') :
    Polls may ['a'] (noted prog b s) b' (pollA s b t).2.2 :=
  .poll _ _ past (Remains.refl t) stored
    (Program.exec_of_run (serveBy_serve (fun _ _ => rfl) carryOut_carriesOut) hb)

/-- The entries of node b. -/
def tablesB : Tables :=
  let addr := "10.0.1.0".toList
  let mac := "02:00:00:00:00:0b".toList
  ⟨[⟨nodeB.podCidr, addr, nameVxlan⟩], [⟨addr, mac, nameVxlan⟩],
    [⟨mac, nodeB.internalIp, nameVxlan⟩]⟩

/-- Node b cached, with its entries. -/
def backendB : Backend :=
  { nodeCache := [(['b'], nodeB)],
    nic := { netlink := true, routes := tablesB.routes, neighs := tablesB.neighs,
             fdbs := tablesB.fdbs } }

theorem first_pollA : (pollA vtepsStored {} {}).1 = .ok backendB ∧
    (pollA vtepsStored {} {}).2.2 = tablesB := by
  decide +kernel

def programmedB : Programmed := noted (fun _ => ([], [])) {} vtepsStored

theorem polls_first (may : Store → Programmed → Backend → Prop)
    (stored : ∀ prog, may vtepsStored prog {}) :
    Polls may ['a'] programmedB backendB tablesB := by
  rw [← first_pollA.2]
  exact polls_pollA (.start (Remains.refl _)) (stored _) first_pollA.1

def withoutB : Store := vtepsStored.erase (getVtepKey ['b'])

/-- The record of node b is deleted: the next poll drops the node and leaves its entries. -/
theorem dropped_peer_leaves_entries :
    Polls (fun _ _ _ => True) ['a'] (noted programmedB backendB withoutB) (backendB.erase ['b'])
        tablesB ∧
      ¬ EntriesBelong (noted programmedB backendB withoutB) (backendB.erase ['b']) tablesB := by
  have hnext : (pollA withoutB backendB tablesB).1 = .ok (backendB.erase ['b']) ∧
      (pollA withoutB backendB tablesB).2.2 = tablesB := by
    decide +kernel
  have hpolls := polls_pollA (polls_first (fun _ _ _ => True) fun _ => trivial) trivial hnext.1
  rw [hnext.2] at hpolls
  refine ⟨hpolls, ?_⟩
  intro h
  have hroute : (⟨nodeB.podCidr, "10.0.1.0".toList, nameVxlan⟩ : Route) ∈ tablesB.routes := by
    simp [tablesB]
  obtain ⟨e, he, -⟩ := h.routes _ hroute rfl
  simp [backendB, Backend.erase] at he

def withoutA : Store := vtepsStored.erase (getVtepKey ['a'])

/-- The record of node a is deleted: the next poll takes every entry away. -/
theorem entries_belong_to_cached_own_gone :
    EntriesBelong (noted programmedB backendB withoutA) {} {} := by
  have hnext : (pollA withoutA backendB tablesB).1 = .ok {} ∧
      (pollA withoutA backendB tablesB).2.2 = {} := by
    decide +kernel
  have hkept : RecordsKept ['a'] withoutA programmedB backendB := by
    intro e he
    rw [List.mem_singleton.mp he]
    constructor
    · decide +kernel
    · intro _
      decide +kernel
  have hfirst := polls_first (RecordsKept ['a']) fun prog e he => by cases he
  have hpolls := polls_pollA hfirst hkept hnext.1
  rw [hnext.2] at hpolls
  exact entries_belong_to_cached hpolls

end Ohno.VxlanEntries
