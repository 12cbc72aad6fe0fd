import Ohno.Backends
import Ohno.KernelTables

/-!
# The routes of the host-gw backend

In every run of polls the routes that the daemon has added are the routes of
the nodes it has cached. What is read from etcd may be anything, and a route
command may fail. The run starts with an empty cache and any routing table in
which no route of a node of the snapshots occurs.
-/
namespace Ohno.HostGwReconciliation
open CommandPrograms DelimitedLists AddressText EtcdClientShell Ipam Netlink Nics KernelTables
open Backends

/-- Reads answer anything, and the store may change. -/
def anyReads (_ : EtcdCmd) (_ : Store) (_ : Reply) (_ : Store) : Prop := True

/-- The route that is kept for a node. -/
def routeOf (info : NodeInfo) : Route := ⟨info.podCidr, info.internalIp, []⟩

/-- The polls of a daemon on `current` from the routing table `t₀`. -/
inductive Polls (current : Text) (t₀ : Tables) : List NodeMap → Backend → Tables → Prop where
  | start : Polls current t₀ [] {} t₀
  | poll {seen : List NodeMap} {b b' : Backend} {t t' : Tables} {s s' : Store} (o : VisitOrder)
      (cluster : NodeMap) (past : Polls current t₀ seen b t)
      (now : (HostGw.eventHandler o current cluster b).Exec (serve anyReads mayFail) (s, t)
        (.ok b') (s', t')) :
      Polls current t₀ (seen ++ [cluster]) b' t'

/-- The nodes of a run: two names never share pod CIDR and internal IP, and no
route of a node is there at the start. -/
structure Nodes (known : Text × NodeInfo → Prop) (t₀ : Tables) : Prop where
  distinct : ∀ e e', known e → known e' → e.1 ≠ e'.1 → routeOf e.2 ≠ routeOf e'.2
  fresh : ∀ e, known e → ∀ r ∈ t₀.routes, ¬ routeMatches e.2.podCidr e.2.internalIp [] r

variable {current : Text} {t₀ : Tables} {known : Text × NodeInfo → Prop}

/-- Routing table and cache agree. -/
structure Agrees (current : Text) (t₀ : Tables) (known : Text × NodeInfo → Prop) (b : Backend)
    (t : Tables) : Prop where
  netlink : b.nic.netlink = true
  names : (b.nodeCache.map Prod.fst).Nodup
  others : ∀ e ∈ b.nodeCache, known e ∧ e.1 ≠ current
  routes : ∀ r, r ∈ t.routes ↔ r ∈ t₀.routes ∨ ∃ e ∈ b.nodeCache, r = routeOf e.2

theorem routeMatches_nil (info : NodeInfo) (r : Route) :
    routeMatches info.podCidr info.internalIp [] r = true ↔
      r.dest = info.podCidr ∧ r.via = info.internalIp := by
  simp [routeMatches, onDevice]

theorem routeMatches_routeOf (info info' : NodeInfo) :
    routeMatches info.podCidr info.internalIp [] (routeOf info') = true ↔
      routeOf info = routeOf info' := by
  rw [routeMatches_nil]
  simp [routeOf, eq_comm]

/-! ### One node -/

section Steps
variable {b : Backend} {t : Tables}

/-- No route matches a node that is not cached. -/
theorem Agrees.absent (h : Agrees current t₀ known b t) (hn : Nodes known t₀) {e : Text × NodeInfo}
    (he : known e) (hc : b.cached e.1 = false) :
    t.routes.any (routeMatches e.2.podCidr e.2.internalIp []) = false := by
  rw [List.any_eq_false]
  intro r hr hm
  rcases (h.routes r).mp hr with hr | ⟨e', he', rfl⟩
  · exact hn.fresh e he r hr hm
  · rw [routeMatches_routeOf] at hm
    have hne : e.1 ≠ e'.1 := by
      intro heq
      simp only [Backend.cached, List.any_eq_false, decide_eq_true_eq] at hc
      exact hc e' he' heq.symm
    exact hn.distinct e e' he (h.others e' he').1 hne hm

theorem Agrees.add (h : Agrees current t₀ known b t) {e : Text × NodeInfo} (he : known e)
    (hcur : e.1 ≠ current) (hc : b.cached e.1 = false) {nic : Nic} (hnic : nic.netlink = true) :
    Agrees current t₀ known ({ b with nic := nic }.emplace e.1 e.2)
      { t with routes := t.routes ++ [routeOf e.2] } where
  netlink := hnic
  names := Backend.nodup_emplace h.names hc e.2
  others := by
    intro e' he'
    rcases List.mem_append.mp he' with he' | he'
    · exact h.others e' he'
    · rw [List.mem_singleton.mp he']
      exact ⟨he, hcur⟩
  routes := by
    intro r
    simp only [Backend.emplace, List.mem_append, List.mem_singleton, h.routes r]
    constructor
    · rintro ((hr | ⟨e', he', hr⟩) | hr)
      · exact .inl hr
      · exact .inr ⟨e', .inl he', hr⟩
      · exact .inr ⟨_, .inr rfl, hr⟩
    · rintro (hr | ⟨e', he' | rfl, hr⟩)
      · exact .inl (.inl hr)
      · exact .inl (.inr ⟨e', he', hr⟩)
      · exact .inr hr

theorem Agrees.del (h : Agrees current t₀ known b t) (hn : Nodes known t₀) {e : Text × NodeInfo}
    (he : e ∈ b.nodeCache) {nic : Nic} (hnic : nic.netlink = true) :
    Agrees current t₀ known ({ b with nic := nic }.erase e.1)
      { t with routes := t.routes.filter (!routeMatches e.2.podCidr e.2.internalIp [] ·) } where
  netlink := hnic
  names := (h.names.sublist (List.filter_sublist.map _))
  others := fun e' he' => h.others e' (List.mem_of_mem_filter he')
  routes := by
    intro r
    simp only [Backend.erase, List.mem_filter, Bool.not_eq_true', h.routes r, decide_eq_true_eq]
    constructor
    · rintro ⟨hr | ⟨e', he', rfl⟩, hm⟩
      · exact .inl hr
      · refine .inr ⟨e', ⟨he', fun heq => ?_⟩, rfl⟩
        rw [List.inj_on_of_nodup_map h.names he' he heq] at hm
        exact Bool.eq_false_iff.mp hm ((routeMatches_routeOf e.2 e.2).mpr rfl)
    · rintro (hr | ⟨e', ⟨he', hne⟩, rfl⟩)
      · refine ⟨.inl hr, ?_⟩
        simpa using hn.fresh e (h.others e he).1 r hr
      · refine ⟨.inr ⟨e', he', rfl⟩, ?_⟩
        have hd := hn.distinct e e' (h.others e he).1 (h.others e' he').1 (Ne.symm hne)
        exact Bool.eq_false_iff.mpr fun hm => hd ((routeMatches_routeOf e.2 e'.2).mp hm)

end Steps

/-! ### One poll -/

section Loops
variable {s : Store}

/-- A loop ends with routing table and cache in agreement. -/
def AgreeAtEnd (current : Text) (t₀ : Tables) (known : Text × NodeInfo → Prop)
    (o : Except Thrown Backend) (w : Store × Tables) : Prop :=
  ∃ b, o = .ok b ∧ Agrees current t₀ known b w.2

theorem safe_read {A : Type} {N : NetlinkCmd → Tables → Bool → Tables → Prop} (name : Text)
    (f : Bool × Text → OhnoProgram A) (Q : Except Thrown A → Store × Tables → Prop)
    (w : Store × Tables) (h : ∀ ret s, (f ret).Safe (serve anyReads N) Q (s, w.2)) :
    ((etcd (getSubnet name)).bind f).Safe (serve anyReads N) Q w := by
  simp only [Program.safe_bind, safe_etcd, getSubnet, EtcdClientShell.get, Program.bind_eq,
    Program.safe_request, Program.onward_ok, Program.pure_eq, Program.safe_pure]
  exact fun r s _ => h _ s

theorem safe_addNodes (hn : Nodes known t₀) (l : NodeMap) (hl : ∀ e ∈ l, known e) {b : Backend}
    {t : Tables} (h : Agrees current t₀ known b t) :
    (HostGw.addNodes current l b).Safe (serve anyReads mayFail) (AgreeAtEnd current t₀ known)
      (s, t) := by
  induction l generalizing b t s with
  | nil => exact ⟨b, rfl, h⟩
  | cons e l ih =>
      obtain ⟨name, info⟩ := e
      have he : known (name, info) := hl _ (List.mem_cons_self ..)
      have hl' : ∀ e ∈ l, known e := fun e he => hl e (List.mem_cons_of_mem _ he)
      simp only [HostGw.addNodes]
      split_ifs with hcur
      · exact ih hl' h
      · refine safe_read name _ _ _ fun ret s => ?_
        split_ifs with hnew
        · have hq := h.absent hn he hnew.2
          simp only [Program.bind_eq, Program.safe_bind]
          refine Nic.safe_addEntry h.netlink ?_ ?_ ?_
          · intro u hu
            simp [hq] at hu
          · intro u v hu hv
            obtain ⟨-, rfl⟩ := mayFail_routeIsExist.mp hu
            obtain ⟨-, rfl⟩ | ⟨hf, -⟩ := mayFail_addRoute.mp hv
            · exact ih hl' (h.add he (Ne.symm hcur) hnew.2 h.netlink)
            · simp at hf
          · intro u v hu hv
            obtain ⟨-, rfl⟩ := mayFail_routeIsExist.mp hu
            obtain ⟨hf, -⟩ | ⟨-, rfl⟩ := mayFail_addRoute.mp hv
            · simp at hf
            · exact ih hl' h
        · exact ih hl' h

theorem safe_delNodes (hn : Nodes known t₀) (subnetCur : Text) (l : NodeMap) {b : Backend}
    {t : Tables} (hl : ∀ e ∈ l, e ∈ b.nodeCache) (hd : (l.map Prod.fst).Nodup)
    (h : Agrees current t₀ known b t) :
    (HostGw.delNodes subnetCur l b).Safe (serve anyReads mayFail) (AgreeAtEnd current t₀ known)
      (s, t) := by
  induction l generalizing b t s with
  | nil => exact ⟨b, rfl, h⟩
  | cons e l ih =>
      obtain ⟨name, info⟩ := e
      have he : (name, info) ∈ b.nodeCache := hl _ (List.mem_cons_self ..)
      have hl' : ∀ e ∈ l, e ∈ b.nodeCache := fun e he => hl e (List.mem_cons_of_mem _ he)
      simp only [List.map_cons, List.nodup_cons] at hd
      have hkept : ∀ e ∈ l, e ∈ b.nodeCache.filter (·.1 ≠ name) := by
        intro e hel
        refine List.mem_filter.mpr ⟨hl' e hel, ?_⟩
        simpa using fun heq : e.1 = name => hd.1 (heq ▸ List.mem_map_of_mem hel)
      simp only [HostGw.delNodes]
      refine safe_read name _ _ _ fun ret s => ?_
      split_ifs with hgone
      · simp only [Program.bind_eq, Program.safe_bind]
        refine Nic.safe_delEntry h.netlink ?_ ?_ ?_
        · have hq : t.routes.any (routeMatches info.podCidr info.internalIp []) = true := by
            rw [List.any_eq_true]
            exact ⟨routeOf info, (h.routes _).mpr (.inr ⟨_, he, rfl⟩),
              (routeMatches_routeOf info info).mpr rfl⟩
          intro u hu
          simp [hq] at hu
        · intro u v hu hv
          obtain ⟨-, rfl⟩ := mayFail_routeIsExist.mp hu
          obtain ⟨-, rfl⟩ | ⟨hf, -⟩ := mayFail_delRoute.mp hv
          · exact ih hkept hd.2 (h.del hn he h.netlink)
          · simp at hf
        · intro u v hu hv
          obtain ⟨-, rfl⟩ := mayFail_routeIsExist.mp hu
          obtain ⟨hf, -⟩ | ⟨-, rfl⟩ := mayFail_delRoute.mp hv
          · simp at hf
          · exact ih hl' hd.2 h
      · exact ih hl' hd.2 h

theorem safe_eventHandler (hn : Nodes known t₀) (o : VisitOrder) (cluster : NodeMap)
    (hk : ∀ e ∈ cluster, known e) {b : Backend} {t : Tables} (h : Agrees current t₀ known b t) :
    (HostGw.eventHandler o current cluster b).Safe (serve anyReads mayFail)
      (AgreeAtEnd current t₀ known) (s, t) := by
  have hdel : ∀ (b : Backend) (w : Store × Tables) (subnetCur : Text),
      Agrees current t₀ known b w.2 →
        (HostGw.delNodes subnetCur (o.order b.nodeCache) b).Safe (serve anyReads mayFail)
          (AgreeAtEnd current t₀ known) w := by
    intro b w subnetCur hb
    refine safe_delNodes hn subnetCur _ (fun e he => (o.perm _).mem_iff.mp he) ?_ hb
    exact ((o.perm _).map Prod.fst).nodup_iff.mpr hb.names
  simp only [HostGw.eventHandler]
  refine safe_read current _ _ _ fun ret s => ?_
  split_ifs with hcur
  · simp only [Program.bind_eq, Program.safe_bind]
    refine (safe_addNodes hn cluster hk h).mono ?_
    rintro _ w ⟨b, rfl, hb⟩
    exact hdel b w ret.2 hb
  · exact hdel b _ ret.2 h

end Loops

/-! ### The cached names when nothing fails -/

section Names
variable {s : Store} {N : NetlinkCmd → Tables → Bool → Tables → Prop}

theorem safe_read_ok {A : Type} (name : Text) (f : Bool × Text → OhnoProgram A)
    (Q : Except Thrown A → Store × Tables → Prop) (t : Tables) :
    ((etcd (getSubnet name)).bind f).Safe (serve (Program.det Etcd.ok) N) Q (s, t) ↔
      (f (decide (s.value (subnetKey name) ≠ []), s.value (subnetKey name))).Safe
        (serve (Program.det Etcd.ok) N) Q (s, t) := by
  rw [Program.safe_bind, safe_etcd, Program.safe_det, run_getSubnet, Program.onward_ok]

theorem safe_addEntry_ok {nic other : Nic} {isExist setEntry : NetlinkCmd}
    (hn : nic.netlink = true) (hs : ∀ t, (execute setEntry t).1 = true)
    {Q : Except Thrown (Bool × Nic) → Store × Tables → Prop} {w : Store × Tables}
    (h : ∀ t, Q (.ok (true, other)) (w.1, t)) :
    (nic.addEntry isExist setEntry other).Safe (serve (Program.det Etcd.ok) allSucceed) Q w := by
  refine Nic.safe_addEntry hn (fun t _ => h t) (fun _ u _ _ => h u) fun t u _ hu => ?_
  have := hs t
  rw [← hu] at this
  simp at this

theorem safe_delEntry_ok {nic other : Nic} {isExist setEntry : NetlinkCmd}
    (hn : nic.netlink = true) (hs : ∀ t, (execute setEntry t).1 = true)
    {Q : Except Thrown (Bool × Nic) → Store × Tables → Prop} {w : Store × Tables}
    (h : ∀ t, Q (.ok (true, other)) (w.1, t)) (h' : ∀ t, Q (.ok (true, nic)) (w.1, t)) :
    (nic.delEntry isExist setEntry other).Safe (serve (Program.det Etcd.ok) allSucceed) Q w := by
  refine Nic.safe_delEntry hn (fun t _ => h' t) (fun _ u _ _ => h u) fun t u _ hu => ?_
  have := hs t
  rw [← hu] at this
  simp at this

/-- The end of a loop that leaves the store alone and caches the names `p`. -/
def Caches (s : Store) (p : Text → Prop) (o : Except Thrown Backend) (w : Store × Tables) : Prop :=
  w.1 = s ∧ ∃ b, o = .ok b ∧ b.nic.netlink = true ∧ ∀ n, b.cached n = true ↔ p n

theorem addNodes_names (l : NodeMap) {b : Backend} (hb : b.nic.netlink = true) (t : Tables) :
    (HostGw.addNodes current l b).Safe (serve (Program.det Etcd.ok) allSucceed)
      (Caches s fun n => b.cached n = true ∨
        n ∈ l.map Prod.fst ∧ n ≠ current ∧ s.value (subnetKey n) ≠ []) (s, t) := by
  induction l generalizing b t with
  | nil => exact ⟨rfl, b, rfl, hb, fun n => by simp⟩
  | cons e l ih =>
      obtain ⟨name, info⟩ := e
      -- the rest of the loop, from a cache that may already have the name
      have hrest : ∀ (b' : Backend) (t : Tables), b'.nic.netlink = true →
          (∀ n, b'.cached n = true ↔ b.cached n = true ∨
            n = name ∧ n ≠ current ∧ s.value (subnetKey n) ≠ []) →
          (HostGw.addNodes current l b').Safe (serve (Program.det Etcd.ok) allSucceed)
            (Caches s fun n => b.cached n = true ∨
              n ∈ ((name, info) :: l).map Prod.fst ∧ n ≠ current ∧ s.value (subnetKey n) ≠ [])
            (s, t) := by
        intro b' t hb' hc
        refine (ih hb' t).mono ?_
        rintro o w ⟨hw, b'', rfl, hb'', hn⟩
        refine ⟨hw, b'', rfl, hb'', fun n => (hn n).trans ?_⟩
        simp only [hc n, List.map_cons, List.mem_cons]
        tauto
      simp only [HostGw.addNodes]
      split_ifs with hcur
      · refine hrest b t hb fun n => ⟨.inl, ?_⟩
        rintro (h | ⟨rfl, h, -⟩)
        · exact h
        · exact absurd hcur.symm h
      · rw [Program.bind_eq, safe_read_ok]
        split_ifs with hnew
        · simp only [Program.bind_eq, Program.safe_bind]
          refine safe_addEntry_ok hb (fun _ => rfl) fun t => hrest _ t hb fun n => ?_
          rw [Backend.cached_emplace]
          constructor
          · rintro (h | rfl)
            · exact .inl h
            · exact .inr ⟨rfl, Ne.symm hcur, hnew.1⟩
          · rintro (h | ⟨rfl, -, -⟩)
            · exact .inl h
            · exact .inr rfl
        · refine hrest b t hb fun n => ⟨.inl, ?_⟩
          rintro (h | ⟨rfl, -, h⟩)
          · exact h
          · simpa [h] using hnew

theorem delNodes_names (subnetCur : Text) (l : NodeMap) {b : Backend} (hb : b.nic.netlink = true)
    (t : Tables) :
    (HostGw.delNodes subnetCur l b).Safe (serve (Program.det Etcd.ok) allSucceed)
      (Caches s fun n => b.cached n = true ∧
        ¬ (n ∈ l.map Prod.fst ∧ (subnetCur = [] ∨ s.value (subnetKey n) = []))) (s, t) := by
  induction l generalizing b t with
  | nil => exact ⟨rfl, b, rfl, hb, fun n => by simp⟩
  | cons e l ih =>
      obtain ⟨name, info⟩ := e
      have hrest : ∀ (b' : Backend) (t : Tables), b'.nic.netlink = true →
          (∀ n, b'.cached n = true ↔ b.cached n = true ∧
            ¬ (n = name ∧ (subnetCur = [] ∨ s.value (subnetKey n) = []))) →
          (HostGw.delNodes subnetCur l b').Safe (serve (Program.det Etcd.ok) allSucceed)
            (Caches s fun n => b.cached n = true ∧ ¬ (n ∈ ((name, info) :: l).map Prod.fst ∧
              (subnetCur = [] ∨ s.value (subnetKey n) = []))) (s, t) := by
        intro b' t hb' hc
        refine (ih hb' t).mono ?_
        rintro o w ⟨hw, b'', rfl, hb'', hn⟩
        refine ⟨hw, b'', rfl, hb'', fun n => (hn n).trans ?_⟩
        simp only [hc n, List.map_cons, List.mem_cons]
        tauto
      simp only [HostGw.delNodes]
      rw [Program.bind_eq, safe_read_ok]
      split_ifs with hgone
      · simp only [Program.bind_eq, Program.safe_bind]
        have herase : ∀ nic : Nic, nic.netlink = true → ∀ n,
            (({ b with nic := nic } : Backend).erase name).cached n = true ↔ b.cached n = true ∧
              ¬ (n = name ∧ (subnetCur = [] ∨ s.value (subnetKey n) = [])) := by
          intro nic _ n
          rw [Backend.cached_erase]
          constructor
          · exact fun h => ⟨h.1, fun hn => h.2 hn.1⟩
          · exact fun h => ⟨h.1, fun hn => h.2 ⟨hn, hn ▸ hgone⟩⟩
        refine safe_delEntry_ok hb (fun _ => rfl) (fun t => ?_) fun t => ?_
        · exact hrest _ t hb (herase _ hb)
        · exact hrest _ t hb (herase _ hb)
      · refine hrest b t hb fun n => ⟨fun h => ⟨h, ?_⟩, And.left⟩
        rintro ⟨rfl, h⟩
        exact hgone h

theorem eventHandler_names (o : VisitOrder) (cluster : NodeMap) {b : Backend}
    (hb : b.nic.netlink = true) (t : Tables) :
    (HostGw.eventHandler o current cluster b).Safe (serve (Program.det Etcd.ok) allSucceed)
      (Caches s fun n => s.value (subnetKey current) ≠ [] ∧ s.value (subnetKey n) ≠ [] ∧
        (b.cached n = true ∨ n ∈ cluster.map Prod.fst ∧ n ≠ current)) (s, t) := by
  have hcached : ∀ (b : Backend) (n : Text),
      n ∈ (o.order b.nodeCache).map Prod.fst ↔ b.cached n = true := by
    intro b n
    rw [((o.perm b.nodeCache).map Prod.fst).mem_iff]
    simp [Backend.cached]
  simp only [HostGw.eventHandler]
  rw [Program.bind_eq, safe_read_ok]
  split_ifs with hcur
  · simp only [Program.bind_eq, Program.safe_bind]
    refine (addNodes_names cluster hb t).mono ?_
    rintro _ ⟨s', t'⟩ ⟨rfl, b', rfl, hb', hn'⟩
    refine (delNodes_names _ _ hb' t').mono ?_
    rintro _ w ⟨hw, b'', rfl, hb'', hn''⟩
    refine ⟨hw, b'', rfl, hb'', fun n => (hn'' n).trans ?_⟩
    simp only [hcached, hn' n]
    tauto
  · refine (delNodes_names _ _ hb t).mono ?_
    rintro _ w ⟨hw, b', rfl, hb', hn'⟩
    refine ⟨hw, b', rfl, hb', fun n => (hn' n).trans ?_⟩
    simp only [ne_eq, not_not] at hcur
    simp only [hcached, hcur]
    tauto

end Names

/-! ### Runs -/

theorem polls_agree {seen : List NodeMap} {b : Backend} {t : Tables} (hn : Nodes known t₀)
    (h : Polls current t₀ seen b t) (hk : ∀ m ∈ seen, ∀ e ∈ m, known e) :
    Agrees current t₀ known b t := by
  induction h with
  | start => exact ⟨rfl, by simp, by simp, by simp⟩
  | poll o cluster past now ih =>
      have hb := ih fun m hm => hk m (List.mem_append_left _ hm)
      have hc : ∀ e ∈ cluster, known e := hk cluster (by simp)
      obtain ⟨b', hb', h'⟩ := (safe_eventHandler hn o cluster hc hb).exec now
      cases hb'
      exact h'

/-- The nodes of the snapshots of a run. -/
def listed (seen : List NodeMap) (e : Text × NodeInfo) : Prop := ∃ m ∈ seen, e ∈ m

theorem routes_match_cache {seen : List NodeMap} {b : Backend} {t : Tables}
    (h : Polls current t₀ seen b t) (hn : Nodes (listed seen) t₀) :
    (∀ r, r ∈ t.routes ↔ r ∈ t₀.routes ∨ ∃ e ∈ b.nodeCache, r = routeOf e.2) ∧
      b.cached current = false ∧
      ∀ (o : VisitOrder) (cluster : NodeMap) (s : Store),
        (HostGw.eventHandler o current cluster b).Safe (serve (Program.det Etcd.ok) allSucceed)
          (Caches s fun n => s.value (subnetKey current) ≠ [] ∧ s.value (subnetKey n) ≠ [] ∧
            (b.cached n = true ∨ n ∈ cluster.map Prod.fst ∧ n ≠ current)) (s, t) := by
  have ha := polls_agree hn h fun m hm e he => ⟨m, hm, he⟩
  refine ⟨ha.routes, ?_, fun o cluster s => eventHandler_names o cluster ha.netlink t⟩
  simp only [Backend.cached, List.any_eq_false, decide_eq_true_eq]
  exact fun e he => (ha.others e he).2

/-- A poll on node a in which nothing fails. -/
def pollA (b : Backend) (s : Store) (t : Tables) : Program.Final Thrown Backend (Store × Tables) :=
  (HostGw.eventHandler .asListed ['a'] [(['b'], nodeB)] b).run (serveBy Etcd.ok execute) (s, t)

theorem polls_pollA {seen : List NodeMap} {b b' : Backend} {s : Store} {t : Tables}
    (past : Polls ['a'] t₀ seen b t) (h : (pollA b s t).1 = .ok b') :
    Polls ['a'] t₀ (seen ++ [[(['b'], nodeB)]]) b' (pollA b s t).2.2 :=
  .poll _ _ past (Program.exec_of_run (serveBy_serve (fun _ _ => trivial) mayFail_execute) h)

def ownRoute : Route := ⟨"default".toList, "192.168.0.254".toList, "eth0".toList⟩

def tablesA : Tables := { routes := [ownRoute] }

/-- The subnet of node b is not there. -/
def subnetGone : Store := fun k => if k = subnetKey ['b'] then none else subnetsStored k

def backendA : Backend :=
  { nodeCache := [(['b'], nodeB)], nic := { netlink := true, routes := [routeOf nodeB] } }

def addedA : Tables := (pollA {} subnetsStored tablesA).2.2

def removedA : Tables := (pollA backendA subnetGone addedA).2.2

/-- The first poll adds the route of node b, and the second one takes it away; the
route of the host stays. -/
theorem routes_match_cache_one_peer : routeOf nodeB ∈ addedA.routes ∧
    routeOf nodeB ∉ removedA.routes ∧ ownRoute ∈ removedA.routes := by
  have hseen : ∀ e, e = (['b'], nodeB) → ∀ r ∈ tablesA.routes,
      ¬ routeMatches e.2.podCidr e.2.internalIp [] r := by
    intro e he
    subst he
    decide +kernel
  have hn : ∀ seen : List NodeMap, (∀ m ∈ seen, m = [(['b'], nodeB)]) →
      Nodes (listed seen) tablesA := by
    intro seen hm
    have hlisted : ∀ e, listed seen e → e = (['b'], nodeB) := by
      intro e he
      obtain ⟨m, hmem, hem⟩ := he
      rw [hm m hmem] at hem
      exact List.mem_singleton.mp hem
    constructor
    · intro e e' he he' hne
      rw [hlisted e he, hlisted e' he'] at hne
      exact absurd rfl hne
    · exact fun e he => hseen e (hlisted e he)
  have hadded : (pollA {} subnetsStored tablesA).1 = .ok backendA := by decide +kernel
  have hremoved : (pollA backendA subnetGone addedA).1 = .ok { nic := { netlink := true } } := by
    decide +kernel
  have hfirst := polls_pollA .start hadded
  have hsecond := polls_pollA hfirst hremoved
  obtain ⟨hr, -⟩ := routes_match_cache hfirst (hn _ (by simp))
  obtain ⟨hr', -⟩ := routes_match_cache hsecond (hn _ (by simp))
  refine ⟨(hr _).mpr (.inr ⟨(['b'], nodeB), by decide, rfl⟩), ?_, (hr' _).mpr (.inl (by decide))⟩
  intro hmem
  rcases (hr' _).mp hmem with h | ⟨e, he, -⟩
  · exact absurd h (by decide +kernel)
  · cases he

end Ohno.HostGwReconciliation
