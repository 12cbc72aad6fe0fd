import Ohno.HostGwReconciliation
import Ohno.PeerEntries

/-!
# Peers whose data change

A backend looks at a peer when it enters the cache and not again before it
leaves it. So whatever the API server and etcd say of the peer in between, its
entries are those of the poll in which it was cached. In host-gw mode the polls
before may fail in any way; in vxlan mode they are those of `PeerEntries`.
-/
namespace Ohno.PeerChanges
open CommandPrograms DelimitedLists AddressText EtcdClientShell Ipam Netlink Nics KernelTables
open Storage
open Backends VxlanEntries PeerEntries

/-! ### What enters the cache -/

section Grows
variable {E : EtcdCmd → Store → Reply → Store → Prop}
variable {N : NetlinkCmd → Tables → Bool → Tables → Prop}
variable {nic other : Nic} {isExist setEntry : NetlinkCmd} {w : Store × Tables} {b b' : Backend}
variable {l : NodeMap}

/-- A new entry of the cache is one of `l`. -/
def Grows (l : NodeMap) (b : Backend) (o : Except Thrown Backend) : Prop :=
  ∀ b', o = .ok b' → ∀ e ∈ b'.nodeCache, e ∈ b.nodeCache ∨ b.cached e.1 = false ∧ e ∈ l

theorem Grows.of_subset (h : ∀ e ∈ b'.nodeCache, e ∈ b.nodeCache) : Grows l b (.ok b') := by
  intro b'' hb e he
  cases hb
  exact .inl (h e he)

theorem Grows.throw (e : Thrown) : Grows l b (.error e) := by
  intro b' hb
  cases hb

/-- What follows the visit of one node. -/
theorem Grows.cons {e : Text × NodeInfo} {o : Except Thrown Backend}
    (hcache : b'.nodeCache = b.nodeCache ∨
      b.cached e.1 = false ∧ b'.nodeCache = b.nodeCache ++ [e]) (h : Grows l b' o) :
    Grows (e :: l) b o := by
  intro b'' hb x hx
  rcases h b'' hb x hx with hx | ⟨hc, hx⟩
  · rcases hcache with hcache | ⟨hc, hcache⟩
    · exact .inl (hcache ▸ hx)
    · rw [hcache, List.mem_append, List.mem_singleton] at hx
      rcases hx with hx | rfl
      · exact .inl hx
      · exact .inr ⟨hc, List.mem_cons_self⟩
  · refine .inr ⟨?_, List.mem_cons_of_mem _ hx⟩
    rcases hcache with hcache | ⟨-, hcache⟩
    · rwa [Backend.cached, hcache] at hc
    · rw [Backend.cached, hcache, List.any_append, Bool.or_eq_false_iff] at hc
      exact hc.1

theorem safe_addEntry_any {Q : Except Thrown (Bool × Nic) → Store × Tables → Prop}
    (h : ∀ ret w, Q (.ok ret) w) : (nic.addEntry isExist setEntry other).Safe (serve E N) Q w := by
  by_cases hn : nic.netlink = true
  · exact Nic.safe_addEntry hn (fun _ _ => h _ _) (fun _ _ _ _ => h _ _) fun _ _ _ _ => h _ _
  · simp only [Nic.addEntry, if_neg hn]
    exact h _ _

theorem safe_delEntry_any {Q : Except Thrown (Bool × Nic) → Store × Tables → Prop}
    (h : ∀ ret w, Q (.ok ret) w) : (nic.delEntry isExist setEntry other).Safe (serve E N) Q w := by
  by_cases hn : nic.netlink = true
  · exact Nic.safe_delEntry hn (fun _ _ => h _ _) (fun _ _ _ _ => h _ _) fun _ _ _ _ => h _ _
  · simp only [Nic.delEntry, if_neg hn]
    exact h _ _

theorem safe_read_any {A : Type} {p : EtcdProgram A} {f : A → OhnoProgram Backend}
    (h : ∀ a w, (f a).Safe (serve E N) (fun o _ => Grows l b o) w) :
    ((etcd p).bind f).Safe (serve E N) (fun o _ => Grows l b o) w := by
  have hp : ∀ (p : EtcdProgram A) s, p.Safe E (fun o t => Program.onward (serve E N) f
      (fun o _ => Grows l b o) o (t, w.2)) s := by
    intro p
    induction p with
    | pure a => exact fun s => h a (s, w.2)
    | throw e => exact fun s => Grows.throw e
    | call c next ih => exact fun s r t _ => ih r t
  rw [Program.safe_bind, safe_etcd]
  exact hp p w.1

theorem grows_addNodes_hostGw (current : Text) (l : NodeMap) (b : Backend) (w : Store × Tables) :
    (HostGw.addNodes current l b).Safe (serve E N) (fun o _ => Grows l b o) w := by
  induction l generalizing b w with
  | nil => exact Grows.of_subset fun e he => he
  | cons e l ih =>
      obtain ⟨name, info⟩ := e
      have hskip : ∀ (b' : Backend) w, b'.nodeCache = b.nodeCache →
          (HostGw.addNodes current l b').Safe (serve E N)
            (fun o _ => Grows ((name, info) :: l) b o) w :=
        fun b' w hcache => (ih b' w).mono fun o _ ho => ho.cons (.inl hcache)
      simp only [HostGw.addNodes, Program.bind_eq]
      split_ifs with hname
      · exact hskip b w rfl
      · apply safe_read_any
        intro subnet w
        split_ifs with hnew
        · rw [Program.safe_bind]
          apply safe_addEntry_any
          intro ret w
          rw [Program.onward_ok]
          split_ifs
          · exact (ih _ w).mono fun o _ ho => ho.cons (.inr ⟨hnew.2, rfl⟩)
          · exact hskip _ w rfl
        · exact hskip b w rfl

theorem grows_delNodes_hostGw (subnetCur : Text) (l m : NodeMap) (b b₀ : Backend)
    (w : Store × Tables)
    (hb : Grows m b₀ (.ok b)) :
    (HostGw.delNodes subnetCur l b).Safe (serve E N) (fun o _ => Grows m b₀ o) w := by
  induction l generalizing b w with
  | nil => exact hb
  | cons e l ih =>
      obtain ⟨name, info⟩ := e
      simp only [HostGw.delNodes, Program.bind_eq]
      apply safe_read_any
      intro subnet w
      split_ifs
      · rw [Program.safe_bind]
        apply safe_delEntry_any
        intro ret w
        rw [Program.onward_ok]
        split_ifs
        · apply ih
          intro b' hb' e he
          cases hb'
          exact hb b rfl e (List.mem_of_mem_filter he)
        · apply ih
          intro b' hb' e he
          cases hb'
          exact hb b rfl e he
      · exact ih b w hb

theorem grows_hostGw (o : VisitOrder) (current : Text) (cluster : NodeMap) (b : Backend)
    (w : Store × Tables) :
    (HostGw.eventHandler o current cluster b).Safe (serve E N)
      (fun o _ => Grows cluster b o) w := by
  simp only [HostGw.eventHandler, Program.bind_eq]
  apply safe_read_any
  intro subnet w
  split_ifs
  · rw [Program.safe_bind]
    apply (grows_addNodes_hostGw current cluster b w).mono
    intro out w hout
    cases out with
    | error e => exact hout
    | ok b' => exact grows_delNodes_hostGw _ _ _ b' b w hout
  · exact grows_delNodes_hostGw _ _ _ b b w (Grows.of_subset fun e he => he)

/-- In vxlan mode a step for a peer adds the peer to the cache or nothing. -/
theorem grows_addPeer (e : Text × NodeInfo) (vtep : Text × Text) (b : Backend)
    (w : Store × Tables) :
    (Vxlan.addPeer e.1 e.2 vtep b).Safe (serve E N) (fun o _ => ∃ b', o = .ok b' ∧
      (b'.nodeCache = b.nodeCache ∨ b'.nodeCache = b.nodeCache ++ [e])) w := by
  simp only [Vxlan.addPeer, Program.bind_eq, Program.safe_bind]
  apply safe_addEntry_any
  intro ret w
  rw [Program.onward_ok]
  split_ifs
  · rw [Program.safe_bind]
    apply safe_addEntry_any
    intro ret w
    rw [Program.onward_ok]
    split_ifs
    · rw [Program.safe_bind]
      apply safe_addEntry_any
      intro ret w
      rw [Program.onward_ok]
      split_ifs
      · exact ⟨_, rfl, .inr rfl⟩
      · rw [Program.safe_bind]
        apply safe_delEntry_any
        intro ret w
        rw [Program.onward_ok, Program.safe_bind]
        apply safe_delEntry_any
        intro ret w
        exact ⟨_, rfl, .inl rfl⟩
    · rw [Program.safe_bind]
      apply safe_delEntry_any
      intro ret w
      exact ⟨_, rfl, .inl rfl⟩
  · exact ⟨_, rfl, .inl rfl⟩

theorem grows_addNodes_vxlan (current : Text) (l : NodeMap) (b : Backend) (w : Store × Tables) :
    (Vxlan.addNodes current l b).Safe (serve E N) (fun o _ => Grows l b o) w := by
  induction l generalizing b w with
  | nil => exact Grows.of_subset fun e he => he
  | cons e l ih =>
      obtain ⟨name, info⟩ := e
      simp only [Vxlan.addNodes, Program.bind_eq]
      split_ifs with hname
      · exact (ih b w).mono fun o _ ho => ho.cons (.inl rfl)
      · apply safe_read_any
        intro vtep w
        split_ifs with hnew
        · rw [Program.safe_bind]
          apply (grows_addPeer (name, info) vtep b w).mono
          intro o w hpost
          obtain ⟨b', ho, hcache⟩ := hpost
          subst ho
          rw [Program.onward_ok]
          exact (ih b' w).mono fun o _ ho => ho.cons (hcache.imp_right fun h => ⟨hnew.2, h⟩)
        · exact (ih b w).mono fun o _ ho => ho.cons (.inl rfl)

theorem grows_delPeer (name : Text) (info : NodeInfo) (vtep : Text × Text) (b : Backend)
    (w : Store × Tables) :
    (Vxlan.delPeer name info vtep b).Safe (serve E N) (fun o _ => ∃ b', o = .ok b' ∧
      b'.nodeCache = b.nodeCache.filter (·.1 ≠ name)) w := by
  simp only [Vxlan.delPeer, Program.bind_eq, Program.safe_bind]
  apply safe_delEntry_any
  intro ret w
  rw [Program.onward_ok, Program.safe_bind]
  apply safe_delEntry_any
  intro ret w
  rw [Program.onward_ok, Program.safe_bind]
  apply safe_delEntry_any
  intro ret w
  exact ⟨_, rfl, rfl⟩

theorem grows_delNodes_vxlan (cur : Text) (l m : NodeMap) (b b₀ : Backend) (w : Store × Tables)
    (hb : Grows m b₀ (.ok b)) :
    (Vxlan.delNodes cur l b).Safe (serve E N) (fun o _ => Grows m b₀ o) w := by
  induction l generalizing b w with
  | nil => exact hb
  | cons e l ih =>
      obtain ⟨name, info⟩ := e
      simp only [Vxlan.delNodes, Program.bind_eq]
      apply safe_read_any
      intro vtep w
      split_ifs
      · rw [Program.safe_bind]
        apply (grows_delPeer name info vtep b w).mono
        intro o w hpost
        obtain ⟨b', ho, hcache⟩ := hpost
        subst ho
        rw [Program.onward_ok]
        apply ih
        intro b'' hb'' e he
        cases hb''
        exact hb b rfl e (List.mem_of_mem_filter (hcache ▸ he))
      · exact ih b w hb

theorem grows_vxlan (o : VisitOrder) (current : Text) (cluster : NodeMap) (b : Backend)
    (w : Store × Tables) :
    (Vxlan.eventHandler o current cluster b).Safe (serve E N) (fun o _ => Grows cluster b o) w := by
  simp only [Vxlan.eventHandler, Program.bind_eq]
  apply safe_read_any
  intro vtep w
  split_ifs
  · rw [Program.safe_bind]
    apply (grows_addNodes_vxlan current cluster b w).mono
    intro out w hout
    cases out with
    | error e => exact hout
    | ok b' => exact grows_delNodes_vxlan _ _ _ b' b w hout
  · exact grows_delNodes_vxlan _ _ _ b b w (Grows.of_subset fun e he => he)

end Grows

/-! ### A poll in which everything succeeds -/

section Succeeds
variable {s : Store} {t : Tables} {b : Backend} {current p : Text}

theorem restrict_allSucceed {E : EtcdCmd → Store → Reply → Store → Prop} (c : Cmd)
    (w : Store × Tables) (r : Reply) (u : Store × Tables) (h : serve E allSucceed c w r u) :
    serve E addsMayFail c w r u := by
  cases c with
  | etcd c => exact h
  | netlink c =>
      obtain ⟨t, ht, hu⟩ := h
      exact ⟨t, .inl ht, hu⟩

/-- The end of a loop that leaves `p` cached. -/
def HasPeer (s : Store) (p : Text) (o : Except Thrown Backend) (w : Store × Tables) : Prop :=
  w.1 = s ∧ ∀ b, o = .ok b → b.nic.netlink = true ∧ b.cached p = true

theorem safe_addPeer_ok (e : Text × NodeInfo) (vtep : Text × Text) (hn : b.nic.netlink = true) :
    (Vxlan.addPeer e.1 e.2 vtep b).Safe (serve (Program.det Etcd.ok) allSucceed)
      (fun o w => w.1 = s ∧ ∃ b', o = .ok b' ∧ b'.nic.netlink = true ∧
        b'.nodeCache = b.nodeCache ++ [e]) (s, t) := by
  simp only [Vxlan.addPeer, Program.bind_eq, Program.safe_bind]
  apply HostGwReconciliation.safe_addEntry_ok hn (fun _ => rfl)
  intro t
  simp only [Program.onward_ok, if_true, Program.safe_bind]
  apply HostGwReconciliation.safe_addEntry_ok (by exact hn) (fun _ => rfl)
  intro t
  simp only [Program.onward_ok, if_true, Program.safe_bind]
  apply HostGwReconciliation.safe_addEntry_ok (by exact hn) (fun _ => rfl)
  intro t
  exact ⟨rfl, _, rfl, hn, rfl⟩

theorem hasPeer_addNodes (hp : p ≠ current) (haddr : (vtepOf s p).1 ≠ []) (l : NodeMap)
    (hn : b.nic.netlink = true) (hc : b.cached p = true ∨ p ∈ l.map Prod.fst) :
    (Vxlan.addNodes current l b).Safe (serve (Program.det Etcd.ok) allSucceed) (HasPeer s p)
      (s, t) := by
  induction l generalizing b t with
  | nil =>
      refine ⟨rfl, ?_⟩
      intro b' hb'
      cases hb'
      exact ⟨hn, hc.resolve_right (by simp)⟩
  | cons e l ih =>
      obtain ⟨name, info⟩ := e
      simp only [Vxlan.addNodes, Program.bind_eq]
      split_ifs with hname
      · apply ih hn
        apply hc.imp_right
        intro hmem
        rw [List.map_cons, List.mem_cons] at hmem
        exact hmem.resolve_left fun he => hp (he.trans hname.symm)
      · apply safe_getVtep
        · split_ifs with hnew
          · rw [Program.safe_bind]
            apply (safe_addPeer_ok (name, info) (vtepOf s name) hn).mono
            intro o w hpost
            obtain ⟨hs, b', ho, hn', hcache⟩ := hpost
            subst ho
            obtain ⟨s', t'⟩ := w
            cases hs
            apply ih hn'
            rw [cached_iff, hcache]
            rcases hc with hc | hc
            · obtain ⟨e, he, hep⟩ := cached_iff.mp hc
              exact .inl ⟨e, List.mem_append_left _ he, hep⟩
            · rw [List.map_cons, List.mem_cons] at hc
              rcases hc with rfl | hc
              · exact .inl ⟨(p, info), by simp, rfl⟩
              · exact .inr hc
          · apply ih hn
            rcases hc with hc | hc
            · exact .inl hc
            · rw [List.map_cons, List.mem_cons] at hc
              rcases hc with rfl | hc
              · exact .inl (by simpa [haddr] using hnew)
              · exact .inr hc
        · exact fun e => ⟨rfl, fun b hb => by cases hb⟩

theorem hasPeer_delNodes (hcur : (vtepOf s current).1 ≠ []) (haddr : (vtepOf s p).1 ≠ [])
    (l : NodeMap) (hn : b.nic.netlink = true) (hc : b.cached p = true) :
    (Vxlan.delNodes (vtepOf s current).1 l b).Safe (serve (Program.det Etcd.ok) allSucceed)
      (HasPeer s p) (s, t) := by
  induction l generalizing b t with
  | nil =>
      refine ⟨rfl, ?_⟩
      intro b' hb'
      cases hb'
      exact ⟨hn, hc⟩
  | cons e l ih =>
      obtain ⟨name, info⟩ := e
      simp only [Vxlan.delNodes, Program.bind_eq]
      apply safe_getVtep
      · split_ifs with hgone
        · have hne : p ≠ name := by
            rintro rfl
            exact haddr (hgone.resolve_left hcur)
          rw [Program.safe_bind]
          apply ((safe_delPeer_beside hn).restrict restrict_allSucceed).mono
          intro o w hpost
          obtain ⟨hs, b', ho, hn', hcache, _⟩ := hpost
          subst ho
          obtain ⟨s', t'⟩ := w
          cases hs
          exact ih hn' ((cached_filter hcache p).mpr ⟨hc, hne⟩)
        · exact ih hn hc
      · exact fun e => ⟨rfl, fun b hb => by cases hb⟩

/-- A registered peer of the snapshot is cached after the poll. -/
theorem hasPeer_eventHandler (o : VisitOrder) (cluster : NodeMap) (hp : p ≠ current)
    (hcur : (vtepOf s current).1 ≠ []) (haddr : (vtepOf s p).1 ≠ []) (hn : b.nic.netlink = true)
    (hc : b.cached p = true ∨ p ∈ cluster.map Prod.fst) :
    (Vxlan.eventHandler o current cluster b).Safe (serve (Program.det Etcd.ok) allSucceed)
      (HasPeer s p) (s, t) := by
  simp only [Vxlan.eventHandler, Program.bind_eq]
  apply safe_getVtep
  · rw [if_pos hcur, Program.safe_bind]
    apply (hasPeer_addNodes hp haddr cluster hn hc).mono
    intro out w hpost
    obtain ⟨hs, hout⟩ := hpost
    obtain ⟨s', t'⟩ := w
    cases hs
    cases out with
    | error e => exact ⟨rfl, fun b hb => by cases hb⟩
    | ok b' => exact hasPeer_delNodes hcur haddr _ (hout b' rfl).1 (hout b' rfl).2
  · exact fun e => ⟨rfl, fun b hb => by cases hb⟩

end Succeeds

/-! ### Runs -/

/-- What is remembered of the nodes after a poll that starts with the cache of `b`:
of a node that is cached then, what was read when it was cached. -/
def whenCached {α : Type} (prog : Text → α) (b : Backend) (now : Text → α) : Text → α :=
  fun n => if b.cached n then prog n else now n

/-- The polls of a host-gw daemon from the routing table `t₀`. -/
inductive HostGwPolls (known : Text × NodeInfo → Prop) (current : Text) (t₀ : Tables) :
    (Text → Option NodeInfo) → Backend → Tables → Prop where
  | start {prog : Text → Option NodeInfo} : HostGwPolls known current t₀ prog {} t₀
  | poll {prog : Text → Option NodeInfo} {b b' : Backend} {t t' : Tables} {s s' : Store}
      (o : VisitOrder) (cluster : NodeMap) (past : HostGwPolls known current t₀ prog b t)
      (listed : ∀ e ∈ cluster, known e) (unique : (cluster.map Prod.fst).Nodup)
      (now : (HostGw.eventHandler o current cluster b).Exec
        (serve HostGwReconciliation.anyReads mayFail) (s, t) (.ok b') (s', t')) :
      HostGwPolls known current t₀ (whenCached prog b fun n => cluster.lookup n) b' t'

/-- The polls of a vxlan daemon. The VTEPs of `p` are in `A` and `M` and those of
the other nodes are not, and the record of `p` stays while it is cached. -/
inductive VxlanPolls (A M : Text → Prop) (current p : Text) :
    (Text → Option NodeInfo × (Text × Text)) → Backend → Tables → Prop where
  | start {prog : Text → Option NodeInfo × (Text × Text)} {t : Tables} (none : Remains t {}) :
      VxlanPolls A M current p prog {} t
  | poll {prog : Text → Option NodeInfo × (Text × Text)} {b b' : Backend} {t t' : Tables}
      {s s' : Store} (o : VisitOrder) (cluster : NodeMap) (past : VxlanPolls A M current p prog b t)
      (unique : (cluster.map Prod.fst).Nodup) (vteps : VtepsOf A M p s)
      (stays : Stays s current p (prog p).2 b)
      (now : (Vxlan.eventHandler o current cluster b).Exec
        (serve (Program.det Etcd.ok) addsMayFail) (s, t) (.ok b') (s', t')) :
      VxlanPolls A M current p (whenCached prog b fun n => (cluster.lookup n, vtepOf s n)) b' t'

section Runs
variable {known : Text × NodeInfo → Prop} {current p : Text} {t₀ t t' : Tables} {b b' : Backend}
variable {A M : Text → Prop} {s s' : Store} {cluster : NodeMap}

theorem lookup_of_mem {l : NodeMap} (unique : (l.map Prod.fst).Nodup) {e : Text × NodeInfo}
    (he : e ∈ l) : l.lookup e.1 = some e.2 := by
  induction l with
  | nil => cases he
  | cons x l ih =>
      obtain ⟨hx, hl⟩ := List.nodup_cons.mp unique
      rcases List.mem_cons.mp he with rfl | he
      · exact List.lookup_cons_self
      · have hne : e.1 ≠ x.1 := fun heq => hx (heq ▸ List.mem_map_of_mem he)
        have hbeq : (e.1 == x.1) = false := by simp [hne]
        rw [List.lookup_cons, hbeq]
        exact ih hl he

/-- The cached nodes are the remembered ones. -/
theorem info_whenCached {α : Type} {prog now : Text → α} (info : α → Option NodeInfo)
    (unique : (cluster.map Prod.fst).Nodup) (hnow : ∀ n, info (now n) = cluster.lookup n)
    (hprog : ∀ e ∈ b.nodeCache, info (prog e.1) = some e.2) (h : Grows cluster b (.ok b')) :
    ∀ e ∈ b'.nodeCache, info (whenCached prog b now e.1) = some e.2 := by
  intro e he
  unfold whenCached
  rcases h b' rfl e he with he | ⟨hc, he⟩
  · rw [if_pos (cached_iff.mpr ⟨e, he, rfl⟩)]
    exact hprog e he
  · rw [hc, if_neg Bool.noConfusion, hnow]
    exact lookup_of_mem unique he

theorem HostGwPolls.agrees {prog : Text → Option NodeInfo}
    (nodes : HostGwReconciliation.Nodes known t₀) (h : HostGwPolls known current t₀ prog b t) :
    HostGwReconciliation.Agrees current t₀ known b t ∧ ∀ e ∈ b.nodeCache, prog e.1 = some e.2 := by
  induction h with
  | start => exact ⟨⟨rfl, by simp, by simp, by simp⟩, by simp⟩
  | poll o cluster past listed unique now ih =>
      obtain ⟨hagrees, hprog⟩ := ih
      obtain ⟨b', hb', h'⟩ :=
        (HostGwReconciliation.safe_eventHandler nodes o cluster listed hagrees).exec now
      cases hb'
      have hgrows := (grows_hostGw o current cluster _ _).exec now
      exact ⟨h', info_whenCached id unique (fun _ => rfl) hprog hgrows⟩

/-- One poll of the vxlan daemon. -/
theorem Tracked.poll {prog : Text → Option NodeInfo × (Text × Text)} {info : NodeInfo}
    (h : Tracked A M p info (prog p).2 b t)
    (hprog : ∀ e ∈ b.nodeCache, (prog e.1).1 = some e.2) (o : VisitOrder)
    (unique : (cluster.map Prod.fst).Nodup) (vteps : VtepsOf A M p s)
    (stays : Stays s current p (prog p).2 b)
    (now : (Vxlan.eventHandler o current cluster b).Exec
      (serve (Program.det Etcd.ok) addsMayFail) (s, t) (.ok b') (s', t')) :
    (∀ e ∈ b'.nodeCache,
      (whenCached prog b (fun n => (cluster.lookup n, vtepOf s n)) e.1).1 = some e.2) ∧
    ∃ info, Tracked A M p info
      (whenCached prog b (fun n => (cluster.lookup n, vtepOf s n)) p).2 b' t' := by
  have hgrows := (grows_vxlan o current cluster _ _).exec now
  refine ⟨info_whenCached Prod.fst unique (fun _ => rfl) hprog hgrows, ?_⟩
  cases hc : b.cached p with
  | true =>
      have hsame : (whenCached prog b (fun n => (cluster.lookup n, vtepOf s n)) p).2 =
          (prog p).2 := by
        simp only [whenCached, hc, if_true]
      have hnone : b.cached p = false → vtepOf s p = (prog p).2 ∧
          ∀ e ∈ cluster, e.1 = p → e.2 = info :=
        fun hf => absurd (hc.symm.trans hf) Bool.noConfusion
      have hend := (safe_eventHandler o cluster vteps hnone h stays).exec now
      exact ⟨info, hsame ▸ (hend.2 b' rfl).1⟩
  | false =>
      have hnew : (whenCached prog b (fun n => (cluster.lookup n, vtepOf s n)) p).2 =
          vtepOf s p := by
        simp only [whenCached, hc, Bool.false_eq_true, if_false]
      -- the node of the snapshot, if it is there
      obtain ⟨info', hinfo'⟩ : ∃ info', ∀ e ∈ cluster, e.1 = p → e.2 = info' := by
        cases hl : cluster.lookup p with
        | some i =>
            refine ⟨i, ?_⟩
            intro e he hp
            have hlookup := lookup_of_mem unique he
            rw [hp, hl] at hlookup
            exact (Option.some.inj hlookup).symm
        | none =>
            refine ⟨info, ?_⟩
            intro e he hp
            have hlookup := lookup_of_mem unique he
            rw [hp, hl] at hlookup
            cases hlookup
      have h' : Tracked A M p info' (vtepOf s p) b t := by
        refine ⟨h.netlink, h.names, ?_, ?_, h.uncached⟩
        · intro e he hp
          have hcached : b.cached p = true := cached_iff.mpr ⟨e, he, hp⟩
          exact absurd (hc.symm.trans hcached) Bool.noConfusion
        · exact fun hcached => absurd (hc.symm.trans hcached) Bool.noConfusion
      have stays' : Stays s current p (vtepOf s p) b :=
        fun hcached => absurd (hc.symm.trans hcached) Bool.noConfusion
      have hend := (safe_eventHandler o cluster vteps (fun _ => ⟨rfl, hinfo'⟩) h' stays').exec now
      exact ⟨info', hnew ▸ (hend.2 b' rfl).1⟩

theorem VxlanPolls.tracked {prog : Text → Option NodeInfo × (Text × Text)}
    (h : VxlanPolls A M current p prog b t) :
    (∀ e ∈ b.nodeCache, (prog e.1).1 = some e.2) ∧ ∃ info, Tracked A M p info (prog p).2 b t := by
  induction h with
  | start none =>
      refine ⟨by simp, ⟨[], [], []⟩, rfl, by simp, by simp, ?_, ?_⟩
      · exact fun hc => absurd hc (by simp [Backend.cached])
      · intro _
        constructor
        · exact fun r hdev _ => ⟨fun hr => by simpa using none.routes r hr hdev, False.elim⟩
        · exact fun n hdev _ => ⟨fun hn => by simpa using none.neighs n hn hdev, False.elim⟩
        · exact fun f hdev _ => ⟨fun hf => by simpa using none.fdbs f hf hdev, False.elim⟩
  | poll o cluster past unique vteps stays now ih =>
      obtain ⟨hprog, info, h⟩ := ih
      exact Tracked.poll h hprog o unique vteps stays now

end Runs

/-- After a poll in which everything succeeds the entries of the registered peers
are those computed from what was read in the poll that cached them. -/
theorem entries_of_caching_poll :
    (∀ (known : Text × NodeInfo → Prop) (current : Text) (t₀ : Tables)
      (prog : Text → Option NodeInfo) (b b' : Backend) (t t' : Tables) (s s' : Store)
      (o : VisitOrder) (cluster : NodeMap), HostGwReconciliation.Nodes known t₀ →
      HostGwPolls known current t₀ prog b t → (∀ e ∈ cluster, known e) →
      (cluster.map Prod.fst).Nodup →
      (HostGw.eventHandler o current cluster b).Exec (serve (Program.det Etcd.ok) allSucceed) (s, t)
        (.ok b') (s', t') →
      (∀ n, b'.cached n = true ↔ s.value (subnetKey current) ≠ [] ∧ s.value (subnetKey n) ≠ [] ∧
        (b.cached n = true ∨ n ∈ cluster.map Prod.fst ∧ n ≠ current)) ∧
      ∀ r, r ∈ t'.routes ↔ r ∈ t₀.routes ∨ ∃ n info, b'.cached n = true ∧
        whenCached prog b (fun n => cluster.lookup n) n = some info ∧
        r = HostGwReconciliation.routeOf info) ∧
    (∀ (A M : Text → Prop) (current p : Text) (prog : Text → Option NodeInfo × (Text × Text))
      (b b' : Backend) (t t' : Tables) (s s' : Store) (o : VisitOrder) (cluster : NodeMap),
      VxlanPolls A M current p prog b t → (cluster.map Prod.fst).Nodup → VtepsOf A M p s →
      Stays s current p (prog p).2 b → p ≠ current → (vtepOf s current).1 ≠ [] →
      (vtepOf s p).1 ≠ [] → (b.cached p = true ∨ p ∈ cluster.map Prod.fst) →
      (Vxlan.eventHandler o current cluster b).Exec (serve (Program.det Etcd.ok) allSucceed) (s, t)
        (.ok b') (s', t') →
      b'.cached p = true ∧ ∃ info vtep,
        whenCached prog b (fun n => (cluster.lookup n, vtepOf s n)) p = (some info, vtep) ∧
        EntriesOf A M info vtep t') := by
  constructor
  · intro known current t₀ prog b b' t t' s s' o cluster nodes past listed unique now
    have hpast : (HostGw.eventHandler o current cluster b).Exec
        (serve HostGwReconciliation.anyReads mayFail) (s, t) (.ok b') (s', t') := by
      apply Program.Exec.mono _ now
      intro c w r u hu
      cases c with
      | etcd c =>
          obtain ⟨s, -, hu⟩ := hu
          exact ⟨s, trivial, hu⟩
      | netlink c =>
          obtain ⟨t, ht, hu⟩ := hu
          exact ⟨t, .inl ht, hu⟩
    have hagrees := (past.agrees nodes).1
    obtain ⟨hagrees', hprog⟩ := (past.poll o cluster listed unique hpast).agrees nodes
    obtain ⟨-, b'', hb, -, hcached⟩ :=
      (HostGwReconciliation.eventHandler_names o cluster hagrees.netlink t).exec now
    cases hb
    refine ⟨hcached, ?_⟩
    intro r
    rw [hagrees'.routes r]
    apply or_congr_right
    constructor
    · intro ⟨e, he, hr⟩
      exact ⟨e.1, e.2, cached_iff.mpr ⟨e, he, rfl⟩, hprog e he, hr⟩
    · intro ⟨n, info, hn, hinfo, hr⟩
      obtain ⟨e, he, rfl⟩ := cached_iff.mp hn
      rw [hprog e he] at hinfo
      exact ⟨e, he, hr.trans (congrArg _ (Option.some.inj hinfo).symm)⟩
  · intro A M current p prog b b' t t' s s' o cluster past unique vteps stays hp hcur
      haddr hpeer now
    obtain ⟨hprog, info, h⟩ := past.tracked
    have hend := (hasPeer_eventHandler o cluster hp hcur haddr h.netlink hpeer).exec now
    have hc := (hend.2 b' rfl).2
    obtain ⟨hprog', info', h'⟩ :=
      Tracked.poll h hprog o unique vteps stays (now.mono restrict_allSucceed)
    obtain ⟨e, he, rfl⟩ := cached_iff.mp hc
    have hinfo := hprog' e he
    rw [h'.listed e he rfl] at hinfo
    exact ⟨hc, info', _, Prod.ext hinfo rfl, h'.cached hc⟩

/-! ### A peer that moves -/

/-- Node b with another internal IP. -/
def movedB : NodeInfo := { nodeB with internalIp := "192.168.0.3".toList }

def isB (e : Text × NodeInfo) : Prop := e = (['b'], nodeB) ∨ e = (['b'], movedB)

theorem nodes_isB : HostGwReconciliation.Nodes isB {} := by
  constructor
  · intro e e' he he' hne
    have hb : ∀ {e}, isB e → e.1 = ['b'] := by
      rintro e (rfl | rfl) <;> rfl
    exact absurd ((hb he).trans (hb he').symm) hne
  · intro e _ r hr
    cases hr

/-- A poll of node a that finds `info` for node b. -/
def pollHostGw (info : NodeInfo) (b : Backend) (t : Tables) :
    Program.Final Thrown Backend (Store × Tables) :=
  (HostGw.eventHandler .asListed ['a'] [(['b'], info)] b).run
    (serveBy Etcd.ok execute) (subnetsStored, t)

theorem exec_pollHostGw {info : NodeInfo} {b b' : Backend} {t : Tables}
    (h : (pollHostGw info b t).1 = .ok b') :
    (HostGw.eventHandler .asListed ['a'] [(['b'], info)] b).Exec
      (serve (Program.det Etcd.ok) allSucceed) (subnetsStored, t) (.ok b')
      (pollHostGw info b t).2 :=
  Program.exec_of_run (serveBy_serve (fun _ _ => rfl) fun _ _ => rfl) h

/-- The run before node b moves. -/
theorem polls_isB : HostGwPolls isB ['a'] {}
    (whenCached (fun _ => none) {} fun n => List.lookup n [(['b'], nodeB)])
    HostGwReconciliation.backendA ⟨[HostGwReconciliation.routeOf nodeB], [], []⟩ := by
  have hend : (pollHostGw nodeB {} {}).1 = .ok HostGwReconciliation.backendA ∧
      (pollHostGw nodeB {} {}).2.2 = ⟨[HostGwReconciliation.routeOf nodeB], [], []⟩ := by
    decide +kernel
  rw [← hend.2]
  have hexec : (HostGw.eventHandler .asListed ['a'] [(['b'], nodeB)] {}).Exec
      (serve HostGwReconciliation.anyReads mayFail) (subnetsStored, {})
      (.ok HostGwReconciliation.backendA) (pollHostGw nodeB {} {}).2 :=
    Program.exec_of_run (serveBy_serve (fun _ _ => trivial) mayFail_execute) hend.1
  exact .poll _ _ .start (by simp [isB]) (by simp) hexec

theorem pollHostGw_movedB :
    (pollHostGw movedB HostGwReconciliation.backendA
      ⟨[HostGwReconciliation.routeOf nodeB], [], []⟩).1 = .ok HostGwReconciliation.backendA ∧
    (pollHostGw movedB HostGwReconciliation.backendA
      ⟨[HostGwReconciliation.routeOf nodeB], [], []⟩).2.2.routes =
        [HostGwReconciliation.routeOf nodeB] := by
  decide +kernel

/-- The route of node b still leads to the old address after a poll that has read
the new one. -/
theorem moved_peer_keeps_route :
    ¬ ∀ (prog : Text → Option NodeInfo) (b b' : Backend) (t t' : Tables) (s s' : Store)
      (o : VisitOrder) (cluster : NodeMap), HostGwPolls isB ['a'] {} prog b t →
      (∀ e ∈ cluster, isB e) → (cluster.map Prod.fst).Nodup →
      (HostGw.eventHandler o ['a'] cluster b).Exec (serve (Program.det Etcd.ok) allSucceed) (s, t)
        (.ok b') (s', t') →
      s.value (subnetKey ['a']) ≠ [] → ∀ e ∈ cluster, e.1 ≠ ['a'] →
      s.value (subnetKey e.1) ≠ [] → HostGwReconciliation.routeOf e.2 ∈ t'.routes := by
  intro hall
  obtain ⟨hmoved, hroutes⟩ := pollHostGw_movedB
  have hroute := hall _ _ _ _ _ _ _ _ [(['b'], movedB)] polls_isB (by simp [isB]) (by simp)
    (exec_pollHostGw hmoved) (by decide +kernel) (['b'], movedB) (by simp) (by decide +kernel)
    (by decide +kernel)
  rw [hroutes] at hroute
  exact absurd hroute (by decide +kernel)

/-- What etcd stores after node b has got another MAC. -/
def vtepsMoved : Store :=
  vtepsStored.set (getVtepKey ['b']) "10.0.1.0-02:00:00:00:00:0c".toList

def addrsB (addr : Text) : Prop := addr = "10.0.1.0".toList

def macsB (mac : Text) : Prop := mac = "02:00:00:00:00:0b".toList ∨ mac = "02:00:00:00:00:0c".toList

theorem getVtepKey_injective {n m : Text} (h : getVtepKey n = getVtepKey m) : n = m := by
  simpa [getVtepKey, nodeKey] using h

theorem vtepsOf_stored {s : Store} (hs : s = vtepsStored ∨ s = vtepsMoved) :
    VtepsOf addrsB macsB ['b'] s := by
  constructor
  · intro _
    rcases hs with rfl | rfl
    · exact ⟨by unfold addrsB; decide +kernel, by unfold macsB; decide +kernel⟩
    · exact ⟨by unfold addrsB; decide +kernel, by unfold macsB; decide +kernel⟩
  · intro n hn
    have hb : getVtepKey n ≠ getVtepKey ['b'] := fun he => hn (getVtepKey_injective he)
    have hvalue : s (getVtepKey n) = vtepsStored (getVtepKey n) := by
      rcases hs with rfl | rfl
      · rfl
      · exact Function.update_of_ne hb _ _
    have hvtep : vtepOf s n = vtepOf vtepsStored n := by
      simp only [vtepOf, Store.value, Store.shown, hvalue]
    rw [hvtep]
    by_cases ha : n = ['a']
    · subst ha
      exact ⟨by unfold addrsB; decide +kernel, by unfold macsB; decide +kernel⟩
    · have hnone : vtepsStored (getVtepKey n) = none := by
        simp only [vtepsStored, if_neg hb, if_neg fun he => ha (getVtepKey_injective he)]
      have hnil : vtepOf vtepsStored n = ([], []) := by
        simp only [vtepOf, Store.value, Store.shown, hnone]
        rfl
      rw [hnil]
      exact ⟨by unfold addrsB; decide +kernel, by unfold macsB; decide +kernel⟩

/-- A poll of a vxlan daemon on node a that finds node b. -/
def pollVxlan (s : Store) (b : Backend) (t : Tables) :
    Program.Final Thrown Backend (Store × Tables) :=
  (Vxlan.eventHandler .asListed ['a'] [(['b'], nodeB)] b).run
    (serveBy Etcd.ok execute) (s, t)

theorem pollVxlan_b : ((pollVxlan vtepsStored {} {}).1 = .ok backendB ∧
      (pollVxlan vtepsStored {} {}).2.2 = tablesB) ∧
    ((pollVxlan vtepsMoved backendB tablesB).1 = .ok backendB ∧
      (pollVxlan vtepsMoved backendB tablesB).2.2 = tablesB) := by
  decide +kernel

theorem polls_b : VxlanPolls addrsB macsB ['a'] ['b']
    (whenCached (fun _ => (none, ([], []))) {} fun n =>
      (List.lookup n [(['b'], nodeB)], vtepOf vtepsStored n)) backendB tablesB := by
  obtain ⟨⟨hb, ht⟩, -⟩ := pollVxlan_b
  have hexec : (Vxlan.eventHandler .asListed ['a'] [(['b'], nodeB)] {}).Exec
      (serve (Program.det Etcd.ok) addsMayFail) (vtepsStored, {}) (.ok backendB)
      (pollVxlan vtepsStored {} {}).2 :=
    Program.exec_of_run (serveBy_serve (fun _ _ => rfl) fun _ _ => .inl rfl) hb
  rw [← ht]
  exact .poll _ _ (.start (Remains.refl _)) (by simp) (vtepsOf_stored (.inl rfl))
    (fun hc => absurd hc (by decide)) hexec

/-- In both modes a second poll that finds node b elsewhere changes nothing. -/
theorem entries_of_caching_poll_moved :
    HostGwReconciliation.routeOf nodeB ∈ (pollHostGw movedB HostGwReconciliation.backendA
      ⟨[HostGwReconciliation.routeOf nodeB], [], []⟩).2.2.routes ∧
    ∃ info vtep, vtep = vtepOf vtepsStored ['b'] ∧
      EntriesOf addrsB macsB info vtep (pollVxlan vtepsMoved backendB tablesB).2.2 := by
  constructor
  · obtain ⟨-, hroutes⟩ := entries_of_caching_poll.1 isB ['a'] {} _ _ _ _ _ _ _ _ [(['b'], movedB)]
      nodes_isB polls_isB (by simp [isB]) (by simp) (exec_pollHostGw pollHostGw_movedB.1)
    exact (hroutes _).mpr (.inr ⟨['b'], nodeB, by decide +kernel, by decide +kernel, rfl⟩)
  · have hexec : (Vxlan.eventHandler .asListed ['a'] [(['b'], nodeB)] backendB).Exec
        (serve (Program.det Etcd.ok) allSucceed) (vtepsMoved, tablesB) (.ok backendB)
        (pollVxlan vtepsMoved backendB tablesB).2 :=
      Program.exec_of_run (serveBy_serve (fun _ _ => rfl) fun _ _ => rfl) pollVxlan_b.2.1
    have hstays : Stays vtepsMoved ['a'] ['b'] (vtepOf vtepsStored ['b']) backendB :=
      fun _ => ⟨by decide +kernel, fun hnil => absurd hnil (by decide +kernel)⟩
    obtain ⟨-, info, vtep, hcaching, hentries⟩ :=
      entries_of_caching_poll.2 addrsB macsB ['a'] ['b'] _
      _ _ _ _ _ _ _ _ polls_b (by simp) (vtepsOf_stored (.inr rfl)) hstays (by decide)
      (by decide +kernel) (by decide +kernel) (.inl (by decide +kernel)) hexec
    have hvtep : vtepOf vtepsStored ['b'] = vtep := congrArg Prod.snd hcaching
    exact ⟨info, vtep, hvtep.symm, hentries⟩

end Ohno.PeerChanges
