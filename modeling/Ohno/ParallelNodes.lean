import Ohno.ClusterRoutes
import Ohno.OwnRecords

/-!
# Nodes that work at the same time

The runtime of a node starts the plugin for one container after the other, but no
node waits for another one: the commands of all of them reach etcd in any order.
Still each node goes through a history of its own, as if the others were not there.
Only the list of the subnets, which belongs to all nodes, may lose what one of them
writes while another one is about to.

So what the histories of one node keep holds on every node that is between two
calls: the addresses of a cluster stay apart, and a poll of a host-gw daemon finds
the records it needs.
-/
namespace Ohno.ParallelNodes
open CommandPrograms CommandTraces AlikePrograms DelimitedLists AddressText EtcdClientShell Subnets
open Ipam Netlink Nics Storage CniPlugin KernelTables Records Conducts NodeStates NodeHistories
open NodeLifecycle RegistryHistories Backends HostGwReconciliation ClusterHistories ClusterAddresses
open ClusterRoutes OwnRecords IpamSequential

/-! ### What etcd does to one node -/

section Etcd
variable {node key : Text} {c : EtcdCmd} {s t : Store}

theorem ok_off (h : key ≠ keyOf c) : (Etcd.ok c s).2 key = s key := by
  cases c with
  | get k => rfl
  | put k v => exact Function.update_of_ne h _ _
  | del k => exact Function.update_of_ne h _ _

theorem ok_reply (h : s (keyOf c) = t (keyOf c)) : (Etcd.ok c s).1 = (Etcd.ok c t).1 := by
  cases c with
  | get k =>
      change s k = t k at h
      simp only [Etcd.ok, Store.shown, h]
  | put k v => rfl
  | del k => rfl

theorem ok_congr (h : s key = t key) : (Etcd.ok c s).2 key = (Etcd.ok c t).2 key := by
  by_cases hk : key = keyOf c
  · cases c with
    | get k => exact h
    | put k v =>
        change Function.update s k (some v) key = Function.update t k (some v) key
        rw [hk, keyOf, Function.update_self, Function.update_self]
    | del k =>
        change Function.update s k none key = Function.update t k none key
        rw [hk, keyOf, Function.update_self, Function.update_self]
  · rw [ok_off hk, ok_off hk, h]

/-- A program that looks at the records of a node finds the same in both stores. -/
theorem run_congr {A : Type} {p : EtcdProgram A} (hp : Only (OwnEtcd node) p)
    (h : ∀ key, Own node key → s key = t key) : (p.run Etcd.ok s).1 = (p.run Etcd.ok t).1 := by
  induction p generalizing s t with
  | pure a => rfl
  | throw e => rfl
  | call c next ih =>
      rw [Program.run, Program.run, ok_reply (h _ hp.1)]
      apply ih _ (hp.2 _)
      intro key hkey
      exact ok_congr (h key hkey)

end Etcd

/-- The records of the node, the network commands of its process, and no failure. -/
structure SameRecords (node : Text) (w v : World) : Prop where
  own : ∀ key, Own node key → w.store key = v.store key
  log : w.log = v.log
  fault : w.fault = none ∧ v.fault = none

theorem handle_obliging {c : Cmd} {w u : World} {r : Reply} :
    Conduct.obliging.handle c w r u ↔ match c with
      | .etcd e => r = (Etcd.ok e w.store).1 ∧ u = { w with store := (Etcd.ok e w.store).2 }
      | .netlink n => (isQuery n = false → r.ok = true) ∧
          u = { w with log := w.log ++ [(n, r.ok)] } := by
  constructor
  · intro h
    rcases h with h | ⟨-, hf, -⟩
    · cases c <;> exact h
    · exact hf.elim
  · intro h
    left
    cases c <;> exact h

theorem view_obliging (node : Text) :
    View Conduct.obliging.handle (OwnCmd node) SharedCmd SameOk (SameRecords node) where
  same := by
    intro c w v r u hc h hr
    rw [handle_obliging] at hr
    cases c with
    | etcd e =>
        obtain ⟨rfl, rfl⟩ := hr
        refine ⟨_, handle_obliging.mpr ⟨ok_reply (h.own _ hc), rfl⟩, ?_, h.log, h.fault⟩
        intro key hkey
        exact ok_congr (h.own key hkey)
    | netlink n =>
        obtain ⟨hok, rfl⟩ := hr
        refine ⟨_, handle_obliging.mpr ⟨hok, rfl⟩, h.own, ?_, h.fault⟩
        exact congrArg (· ++ [(n, r.ok)]) h.log
  each := by
    intro c c' w v r u hc hc' h hr
    rw [handle_obliging] at hr
    cases c with
    | netlink n => exact hc.elim
    | etcd e =>
        cases c' with
        | netlink n => exact hc'.elim
        | etcd e' =>
            obtain ⟨rfl, rfl⟩ := hr
            have hok : ∀ (c : EtcdCmd) (s : Store), (Etcd.ok c s).1.ok = true := by
              intro c s
              cases c <;> rfl
            refine ⟨_, _, handle_obliging.mpr ⟨rfl, rfl⟩, (hok e _).trans (hok e' _).symm, ?_,
              h.log, h.fault⟩
            intro key hkey
            have he : key ≠ keyOf e := hc.symm ▸ hkey.ne_shared
            have he' : key ≠ keyOf e' := hc'.symm ▸ hkey.ne_shared
            exact (ok_off he).trans ((h.own key hkey).trans (ok_off he').symm)

/-! ### The cluster -/

/-- Between two calls, or in one with `rest` left to do. -/
inductive Phase where
  | idle
  | busy (call : Call) (rest : OhnoProgram (Option CniResult)) (log : Log)

/-- The store, and for each node what it is doing and what it has done. -/
structure Stage where
  store : Store
  phase : Text → Phase
  events : Text → List NodeHistories.Event

/-- Each node calls its plugin again and again. The commands of the nodes may come
in any order, and all succeed. -/
inductive Parallel (k : Cluster) (s₀ : Store) : Stage → Prop where
  | init : Parallel k s₀ ⟨s₀, fun _ => .idle, fun _ => []⟩
  | start {g : Stage} {m : Member} (h : Parallel k s₀ g) (mem : m ∈ k.members)
      (idle : g.phase m.node = .idle) (call : Call) :
      Parallel k s₀
        { g with phase := Function.update g.phase m.node (.busy call (call.program m.cni) []) }
  | command {g : Stage} {m : Member} {call : Call} {c : Cmd} {log : Log} {r : Reply} {u : World}
      {next : Reply → OhnoProgram (Option CniResult)} (h : Parallel k s₀ g) (mem : m ∈ k.members)
      (busy : g.phase m.node = .busy call (.call c next) log)
      (hr : Conduct.obliging.handle c ⟨g.store, log, none⟩ r u) :
      Parallel k s₀
        { g with store := u.store,
                 phase := Function.update g.phase m.node (.busy call (next r) u.log) }
  | finish {g : Stage} {m : Member} {call : Call} {o : Outcome} {log : Log} (h : Parallel k s₀ g)
      (mem : m ∈ k.members) (busy : g.phase m.node = .busy call (Program.ofExcept o) log) :
      Parallel k s₀
        { g with phase := Function.update g.phase m.node .idle,
                 events := Function.update g.events m.node (g.events m.node ++ [(call, o)]) }

/-- Any call may come next. -/
def anyCall (_ : List NodeHistories.Event) (_ : Store) (_ : Call) : Prop := True

/-- The node is where a history of its own is. -/
def Tracks (s₀ : Store) (g : Stage) (m : Member) : Prop :=
  ∃ s, History m.cni anyCall s₀ (g.events m.node) s ∧
    match g.phase m.node with
    | .idle => ∀ key, Own m.node key → g.store key = s key
    | .busy call rest log => ∃ rest' v,
        Steps Conduct.obliging.handle (call.program m.cni) ⟨s, [], none⟩ rest' v ∧
        Alike (OwnCmd m.node) SharedCmd SameOk (· = ·) rest rest' ∧
        SameRecords m.node ⟨g.store, log, none⟩ v

section Runs
variable {k : Cluster} {s₀ : Store} {g g' : Stage} {m n : Member}

theorem steady_program (cni : Cni) (call : Call) : Steady cni.node (call.program cni) := by
  obtain ⟨op, c, mac, uniqueId⟩ := call
  have hadd := steady_add (process cni mac uniqueId) c.id (netnsPath c.netns) c.nic
  have hdel := steady_del (process cni mac uniqueId) c.id c.nic
  cases op with
  | add => exact Alike.after hadd fun _ => .pure rfl
  | del => exact Alike.after hdel fun _ => .pure rfl

/-- Only the records of the node matter to where it is. -/
theorem Tracks.of_eq (h : Tracks s₀ g m) (phase : g'.phase m.node = g.phase m.node)
    (events : g'.events m.node = g.events m.node)
    (own : ∀ key, Own m.node key → g'.store key = g.store key) : Tracks s₀ g' m := by
  obtain ⟨s, hs, hm⟩ := h
  refine ⟨s, events ▸ hs, ?_⟩
  rw [phase]
  cases hp : g.phase m.node with
  | idle =>
      rw [hp] at hm
      intro key hkey
      rw [own key hkey, hm key hkey]
  | busy call rest log =>
      rw [hp] at hm
      obtain ⟨rest', v, hsteps, halike, hsame⟩ := hm
      refine ⟨rest', v, hsteps, halike, ?_, hsame.log, hsame.fault⟩
      intro key hkey
      rw [← hsame.own key hkey]
      exact own key hkey

theorem Tracks.start (h : Tracks s₀ g m) (idle : g.phase m.node = .idle) (call : Call) :
    Tracks s₀
      { g with phase := Function.update g.phase m.node (.busy call (call.program m.cni) []) }
      m := by
  obtain ⟨s, hs, hm⟩ := h
  rw [idle] at hm
  refine ⟨s, hs, ?_⟩
  simp only [Function.update_self]
  exact ⟨_, _, .refl, steady_program m.cni call, hm, rfl, rfl, rfl⟩

theorem Tracks.command {call : Call} {c : Cmd} {log : Log} {r : Reply} {u : World}
    {next : Reply → OhnoProgram (Option CniResult)} (h : Tracks s₀ g m)
    (busy : g.phase m.node = .busy call (.call c next) log)
    (hr : Conduct.obliging.handle c ⟨g.store, log, none⟩ r u) :
    Tracks s₀
      { g with store := u.store,
               phase := Function.update g.phase m.node (.busy call (next r) u.log) } m := by
  obtain ⟨s, hs, hm⟩ := h
  rw [busy] at hm
  obtain ⟨rest', v, hsteps, halike, hsame⟩ := hm
  obtain ⟨rest'', v', hsteps', halike', hsame'⟩ :=
    halike.command (view_obliging m.node) hsame hsteps hr
  refine ⟨s, hs, ?_⟩
  simp only [Function.update_self]
  exact ⟨rest'', v', hsteps', halike', hsame'.own, hsame'.log, rfl, hsame'.fault.2⟩

theorem Tracks.finish {call : Call} {o : Outcome} {log : Log} (h : Tracks s₀ g m)
    (busy : g.phase m.node = .busy call (Program.ofExcept o) log) :
    Tracks s₀
      { g with phase := Function.update g.phase m.node .idle,
               events := Function.update g.events m.node (g.events m.node ++ [(call, o)]) } m := by
  obtain ⟨s, hs, hm⟩ := h
  rw [busy] at hm
  obtain ⟨rest', v, hsteps, halike, hsame⟩ := hm
  obtain rfl := halike.eq_of_ofExcept
  refine ⟨v.store, ?_, ?_⟩
  · simp only [Function.update_self]
    exact hs.call trivial hsteps.exec_ofExcept
  · simp only [Function.update_self]
    exact hsame.own

/-- A command of a node is one on its records, or on the list of all. -/
theorem Tracks.head {call : Call} {c : Cmd} {log : Log}
    {next : Reply → OhnoProgram (Option CniResult)} (h : Tracks s₀ g m)
    (busy : g.phase m.node = .busy call (.call c next) log) : OwnCmd m.node c ∨ SharedCmd c := by
  obtain ⟨s, -, hm⟩ := h
  rw [busy] at hm
  obtain ⟨rest', v, -, halike, -⟩ := hm
  exact halike.head

/-- Such a command leaves every other key alone. -/
theorem store_off {c : Cmd} {w u : World} {r : Reply} {node key : Text}
    (hc : OwnCmd node c ∨ SharedCmd c) (hr : Conduct.obliging.handle c w r u)
    (own : ¬ Own node key) (shared : key ≠ etcdKeySubnet) : u.store key = w.store key := by
  rw [handle_obliging] at hr
  cases c with
  | netlink n => rw [hr.2]
  | etcd e =>
      rw [hr.2]
      apply ok_off
      rintro rfl
      rcases hc with hc | hc
      · exact own hc
      · exact shared hc

theorem tracks_of_parallel (h : Parallel k s₀ g) (hm : m ∈ k.members) : Tracks s₀ g m := by
  induction h generalizing m with
  | init => exact ⟨s₀, .start, fun _ _ => rfl⟩
  | @start g n h mem idle call ih =>
      by_cases hne : m = n
      · subst hne
        exact (ih hm).start idle call
      · have hnode : m.node ≠ n.node := fun he => hne (Cluster.eq_of_node hm mem he)
        apply (ih hm).of_eq
        · exact Function.update_of_ne hnode _ _
        · rfl
        · exact fun _ _ => rfl
  | @command g n call c log r u next h mem busy hr ih =>
      by_cases hne : m = n
      · subst hne
        exact (ih hm).command busy hr
      · have hnode : m.node ≠ n.node := fun he => hne (Cluster.eq_of_node hm mem he)
        apply (ih hm).of_eq
        · exact Function.update_of_ne hnode _ _
        · rfl
        · intro key hkey
          apply store_off ((ih mem).head busy) hr _ hkey.ne_shared
          exact fun hn => hnode (own_injective m.slash n.slash hkey hn)
  | @finish g n call o log h mem busy ih =>
      by_cases hne : m = n
      · subst hne
        exact (ih hm).finish busy
      · have hnode : m.node ≠ n.node := fun he => hne (Cluster.eq_of_node hm mem he)
        apply (ih hm).of_eq
        · exact Function.update_of_ne hnode _ _
        · exact Function.update_of_ne hnode _ _
        · exact fun _ _ => rfl

theorem store_of_nobody (h : Parallel k s₀ g) {key : Text} (shared : key ≠ etcdKeySubnet)
    (own : ∀ m ∈ k.members, ¬ Own m.node key) : g.store key = s₀ key := by
  induction h with
  | init => rfl
  | start h mem idle call ih => exact ih
  | command h mem busy hr ih =>
      rw [← ih]
      exact store_off ((tracks_of_parallel h mem).head busy) hr (own _ mem) shared
  | finish h mem busy ih => exact ih

/-- A node may come to the end of its call while the others wait. -/
theorem Parallel.exec {call : Call} {rest : OhnoProgram (Option CniResult)} {log : Log}
    {o : Outcome} {w : World} (h : Parallel k s₀ g) (mem : m ∈ k.members)
    (busy : g.phase m.node = .busy call rest log)
    (x : rest.Exec Conduct.obliging.handle ⟨g.store, log, none⟩ o w) :
    Parallel k s₀ ⟨w.store, Function.update g.phase m.node .idle,
      Function.update g.events m.node (g.events m.node ++ [(call, o)])⟩ := by
  induction rest generalizing g log with
  | pure a =>
      obtain ⟨rfl, rfl⟩ := x
      exact .finish (o := .ok a) h mem busy
  | throw e =>
      obtain ⟨rfl, rfl⟩ := x
      exact .finish (o := .error e) h mem busy
  | call c next ih =>
      obtain ⟨r, u, hr, x⟩ := x
      have hfault : u = ⟨u.store, u.log, none⟩ := by
        have hu := handle_obliging.mp hr
        cases c with
        | etcd e => rw [hu.2]
        | netlink n => rw [hu.2]
      rw [hfault] at x
      have hnext := ih r (h.command mem busy hr) (Function.update_self ..) x
      simpa only [Function.update_idem] using hnext

/-- Whatever the other nodes do, the records of a node between two calls are those
of a history of this node alone, in which its calls ended as they did. -/
theorem isolated (h : Parallel k s₀ g) :
    (∀ m ∈ k.members, g.phase m.node = .idle → ∃ s, History m.cni anyCall s₀ (g.events m.node) s ∧
      ∀ key, Own m.node key → g.store key = s key) ∧
    ∀ key, key ≠ etcdKeySubnet → (∀ m ∈ k.members, ¬ Own m.node key) → g.store key = s₀ key := by
  refine ⟨?_, fun key => store_of_nobody h⟩
  intro m hm idle
  obtain ⟨s, hs, hown⟩ := tracks_of_parallel h hm
  rw [idle] at hown
  exact ⟨s, hs, hown⟩

end Runs

/-! ### What all nodes keep -/

section Cluster
variable {k : Cluster} {others : List Text} {s₀ s : Store} {g : Stage} {m n : Member}
variable {p i x : Text}

/-- A cluster of one node. -/
def alone (m : Member) : Cluster where
  members := [m]
  names := List.nodup_singleton _
  apart := List.pairwise_singleton _ _

theorem history_single {log : List NodeHistories.Event} (h : History m.cni anyCall s₀ log s) :
    ∃ log', ClusterHistory (alone m) s₀ log' s := by
  induction h with
  | start => exact ⟨[], .start⟩
  | call h allowed x ih =>
      obtain ⟨log', hlog⟩ := ih
      exact ⟨_, hlog.call (List.mem_singleton_self m) x⟩

theorem reads_of_own {node : Text} {R : Registry} {t : Store} (h : Reads node R s)
    (own : ∀ key, Own node key → t key = s key) : Reads node R t where
  subnet := by
    rw [← h.subnet, Store.value, Store.value, Store.shown, Store.shown, own _ own_subnetKey]
  pods := by
    rw [← h.pods, ask, ask, run_congr only_getAllPods own]
  addrs := by
    intro p i hp hi
    rw [← h.addrs hp hi, ask, ask, run_congr only_getAllAddrs own]

/-- A node between two calls has its records in order. -/
theorem seen_of_parallel (unrecorded : Unrecorded m.node s₀) (ho : ∀ x ∈ others, Store.Item x)
    (hothers : s₀ etcdKeySubnet = encode others) (hfree : m.net.text ∉ others)
    (h : Parallel k s₀ g) (hm : m ∈ k.members) (idle : g.phase m.node = .idle) :
    Seen m g.store := by
  obtain ⟨s, hs, hown⟩ := (isolated h).1 m hm idle
  obtain ⟨log, hlog⟩ := history_single hs
  have hone : ∀ n ∈ (alone m).members, n = m := fun n hn => List.mem_singleton.mp hn
  obtain ⟨up, hup⟩ := stored_of_history invariant_distinct (fun n hn => hone n hn ▸ unrecorded) ho
    hothers (fun n hn => hone n hn ▸ hfree) hlog
  obtain ⟨R, hR, -, hI, -⟩ := hup.node m (List.mem_singleton_self m)
  exact ⟨R, hI, reads_of_own (reads_of_eq hR) hown⟩

/-- However the nodes work at the same time, once two nodes are between two calls
and have a container each, a poll of a host-gw daemon on the one in which nothing
fails leads every address of a container of the other one there. -/
theorem container_reached (unrecorded : ∀ m ∈ k.members, Unrecorded m.node s₀)
    (ho : ∀ x ∈ others, Store.Item x) (hothers : s₀ etcdKeySubnet = encode others)
    (hfree : ∀ m ∈ k.members, m.net.text ∉ others) (h : Parallel k s₀ g) {ip : Member → Text}
    {t₀ t t' : Tables} {b b' : Backend} {seen : List NodeMap} {cluster : NodeMap} {w : Store}
    (o : VisitOrder) (members : ∀ l ∈ seen ++ [cluster], ∀ e ∈ l, ∃ n ∈ k.members, e = entry ip n)
    (complete : ∀ n ∈ k.members, entry ip n ∈ cluster)
    (foreign : ∀ n ∈ k.members, ∀ r ∈ t₀.routes, r.dest ≠ n.net.text)
    (past : Polls m.node t₀ seen b t)
    (now : (HostGw.eventHandler o m.node cluster b).Exec (serve (Program.det Etcd.ok) allSucceed)
      (g.store, t) (.ok b') (w, t'))
    (hm : m ∈ k.members) (hn : n ∈ k.members) (hne : n ≠ m) (idle : g.phase m.node = .idle)
    (idle' : g.phase n.node = .idle) {c : Text} (hc : c ∈ ask (getAllPods m.node) g.store)
    (hp : p ∈ ask (getAllPods n.node) g.store) (hslash : '/' ∉ p) (hi : '/' ∉ i)
    (hx : x ∈ ask (getAllAddrs n.node p i) g.store) :
    ∃ a l, x = cidr a l ∧ Reaches t₀ t' (ip n) a := by
  have hms := seen_of_parallel (unrecorded m hm) ho hothers (hfree m hm) h hm idle
  have hns := seen_of_parallel (unrecorded n hn) ho hothers (hfree n hn) h hn idle'
  exact reached_of_seen hms hns o members complete foreign past now hm hn hne hc hp hslash hi hx

end Cluster

/-! ### Two nodes -/

/-- Nodes a and b have a container each. -/
def storedBoth : Store := (addA.finish cniA (addA.finish cniB noRecords).2).2

theorem Parallel.next {k : Cluster} {s₀ : Store} {g : Stage} {m : Member} {call : Call}
    (h : Parallel k s₀ g) (mem : m ∈ k.members)
    (busy : g.phase m.node = .busy call (call.program m.cni) []) :
    Parallel k s₀ ⟨(call.finish m.cni g.store).2, Function.update g.phase m.node .idle,
      Function.update g.events m.node
        (g.events m.node ++ [(call, (call.finish m.cni g.store).1)])⟩ :=
  h.exec mem busy (Program.exec_run (Conduct.handle_comply fun _ _ => rfl) _ _)

/-- Both nodes have begun before the one and then the other comes to its end. -/
theorem parallel_AB : ∃ g, Parallel clusterAB noRecords g ∧ g.store = storedBoth ∧
    g.phase memberA.node = .idle ∧ g.phase memberB.node = .idle := by
  have hA : memberA ∈ clusterAB.members := List.mem_cons_self
  have hB : memberB ∈ clusterAB.members := List.mem_cons_of_mem _ List.mem_cons_self
  have hne : memberB.node ≠ memberA.node := by decide +kernel
  obtain ⟨⟨s, phase, events⟩, h, hs, busyA, busyB⟩ : ∃ g, Parallel clusterAB noRecords g ∧
      g.store = noRecords ∧ g.phase memberA.node = .busy addA (addA.program memberA.cni) [] ∧
      g.phase memberB.node = .busy addA (addA.program memberB.cni) [] := by
    refine ⟨_, (Parallel.init.start hA rfl addA).start hB ?_ addA, rfl, ?_, ?_⟩
    · simp only [Function.update_of_ne hne]
    · simp only [Function.update_of_ne hne.symm, Function.update_self]
    · simp only [Function.update_self]
  have hfirst := h.next hB busyB
  have hbusy : Function.update phase memberB.node .idle memberA.node =
      .busy addA (addA.program memberA.cni) [] := (Function.update_of_ne hne.symm _ _).trans busyA
  refine ⟨_, hfirst.next hA hbusy, ?_, ?_, ?_⟩
  · exact hs ▸ rfl
  · simp only [Function.update_self]
  · simp only [Function.update_of_ne hne, Function.update_self]

/-- Node a finds its subnet as if node b were not there. -/
theorem isolated_AB : ∃ log s, History memberA.cni anyCall noRecords log s ∧
    storedBoth (subnetKey memberA.node) = s (subnetKey memberA.node) := by
  obtain ⟨g, h, hg, idle, -⟩ := parallel_AB
  obtain ⟨s, hs, hown⟩ := (isolated h).1 memberA List.mem_cons_self idle
  exact ⟨_, s, hs, hg ▸ hown _ own_subnetKey⟩

def ipAB (m : Member) : Text :=
  if m.node = ['a'] then "192.168.0.1".toList else "192.168.0.2".toList

/-- The first poll of node a. -/
def pollAB : Program.Final Thrown Backend (Store × Tables) :=
  (HostGw.eventHandler .asListed memberA.node [entry ipAB memberA, entry ipAB memberB] {}).run
    (serveBy Etcd.ok execute) (storedBoth, {})

/-- The container of node b is reached from node a. -/
theorem container_reached_AB : ∃ a l, hostText netB 2 = cidr a l ∧
    Reaches {} pollAB.2.2 "192.168.0.2".toList a := by
  have hA : memberA ∈ clusterAB.members := List.mem_cons_self
  have hB : memberB ∈ clusterAB.members := List.mem_cons_of_mem _ List.mem_cons_self
  obtain ⟨⟨s, phase, events⟩, h, rfl, idleA, idleB⟩ := parallel_AB
  have hok : pollAB.1.isOk = true := by decide +kernel
  obtain ⟨b', hb⟩ : ∃ b', pollAB.1 = .ok b' := by
    cases hp : pollAB.1 with
    | error e => simp [hp, Except.isOk, Except.toBool] at hok
    | ok b' => exact ⟨b', rfl⟩
  have now := Program.exec_of_run (serveBy_serve (E := Program.det Etcd.ok) (N := allSucceed)
    (fun _ _ => rfl) fun _ _ => rfl) hb
  have hip : ipAB memberB = "192.168.0.2".toList := by decide +kernel
  rw [← hip]
  have hpodA : containerA.id ∈ ask (getAllPods memberA.node) storedBoth := by decide +kernel
  have hpodB : containerA.id ∈ ask (getAllPods memberB.node) storedBoth := by decide +kernel
  have haddr : hostText netB 2 ∈ ask (getAllAddrs memberB.node containerA.id containerA.nic)
      storedBoth := by decide +kernel
  refine container_reached (fun m _ => unrecorded_noRecords m.node) items_nil rfl
    (fun _ _ => List.not_mem_nil) h .asListed ?_ ?_ (by simp) .start now hA hB ?_ idleA idleB
    hpodA hpodB containerA.name_id.slash containerA.name_nic.slash haddr
  · intro l hl e he
    rw [List.nil_append, List.mem_singleton] at hl
    subst hl
    rcases List.mem_cons.mp he with rfl | he
    · exact ⟨memberA, hA, rfl⟩
    · exact ⟨memberB, hB, List.mem_singleton.mp he⟩
  · intro n hn
    rcases List.mem_cons.mp hn with rfl | hn
    · exact List.mem_cons_self
    · exact List.mem_singleton.mp hn ▸ List.mem_cons_of_mem _ List.mem_cons_self
  · intro he
    have hnode : memberB.node = memberA.node := congrArg Member.node he
    revert hnode
    decide +kernel

end Ohno.ParallelNodes
