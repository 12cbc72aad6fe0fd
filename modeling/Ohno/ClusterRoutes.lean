import Ohno.ClusterAddresses
import Ohno.HostGwReconciliation

/-!
# From the records of a cluster to its routes

The plugin writes the records of a node and the daemons of the other nodes read
them. Where the records are in order, one poll of a host-gw daemon in which nothing
fails leads every address of a listed container to the node that has it, whatever
the polls before have seen.
-/
namespace Ohno.ClusterRoutes
open CommandPrograms DelimitedLists AddressText EtcdClientShell Subnets Ipam Netlink Nics
open KernelTables Storage Records Conducts AddRecords NodeStates NodeHistories NodeLifecycle
open RegistryHistories IpamSequential Backends HostGwReconciliation ClusterHistories
open ClusterAddresses

/-- How the API server lists a node. -/
def entry (ip : Member → Text) (m : Member) : Text × NodeInfo :=
  (m.node, ⟨m.node, ip m, m.net.text⟩)

/-- A route leads to the address by way of `via`, and no route that was added
since `t₀` leads it anywhere else. -/
structure Reaches (t₀ t : Tables) (via : Text) (a : BitVec 32) : Prop where
  route : ∃ r ∈ t.routes, r.via = via ∧ ∃ net : NetworkV4, r.dest = net.text ∧ Contains net a
  only : ∀ r ∈ t.routes, r ∉ t₀.routes → ∀ net : NetworkV4, r.dest = net.text → Contains net a →
    r.via = via

section Cluster
variable {k : Cluster} {s : Store} {ip : Member → Text} {m n : Member}
variable {t₀ t t' : Tables} {b b' : Backend} {seen : List NodeMap} {cluster : NodeMap} {w : Store}

/-- The routes of the members are apart from each other and from those before. -/
theorem nodes_of_members (members : ∀ l ∈ seen, ∀ e ∈ l, ∃ n ∈ k.members, e = entry ip n)
    (foreign : ∀ n ∈ k.members, ∀ r ∈ t₀.routes, r.dest ≠ n.net.text) : Nodes (listed seen) t₀ where
  distinct := by
    intro e e' he he' hne heq
    obtain ⟨l, hl, hel⟩ := he
    obtain ⟨l', hl', hel'⟩ := he'
    obtain ⟨n, hn, rfl⟩ := members l hl e hel
    obtain ⟨n', hn', rfl⟩ := members l' hl' e' hel'
    have hnn : n ≠ n' := by
      intro h
      exact hne (by rw [h])
    exact Cluster.text_ne hn hn' hnn (congrArg Route.dest heq)
  fresh := by
    intro e he r hr hmatch
    obtain ⟨l, hl, hel⟩ := he
    obtain ⟨n, hn, rfl⟩ := members l hl e hel
    rw [routeMatches_nil] at hmatch
    exact foreign n hn r hr hmatch.1

/-- A poll in which nothing fails is one of the polls in which anything may. -/
theorem polls_concat (o : VisitOrder) (past : Polls m.node t₀ seen b t)
    (now : (HostGw.eventHandler o m.node cluster b).Exec (serve (Program.det Etcd.ok) allSucceed)
      (s, t) (.ok b') (w, t')) : Polls m.node t₀ (seen ++ [cluster]) b' t' := by
  apply Polls.poll o cluster past
  apply Program.Exec.mono _ now
  intro c v r u h
  cases c with
  | etcd c =>
      obtain ⟨s', -, hu⟩ := h
      exact ⟨s', trivial, hu⟩
  | netlink c =>
      obtain ⟨u', hexec, hu⟩ := h
      exact ⟨u', .inl hexec, hu⟩

/-- After the poll the nodes with a route are those that are set up. -/
theorem route_iff_cached (o : VisitOrder)
    (members : ∀ l ∈ seen ++ [cluster], ∀ e ∈ l, ∃ n ∈ k.members, e = entry ip n)
    (foreign : ∀ n ∈ k.members, ∀ r ∈ t₀.routes, r.dest ≠ n.net.text)
    (past : Polls m.node t₀ seen b t)
    (now : (HostGw.eventHandler o m.node cluster b).Exec (serve (Program.det Etcd.ok) allSucceed)
      (s, t) (.ok b') (w, t')) :
    (∀ r, r ∈ t'.routes ↔ r ∈ t₀.routes ∨
      ∃ n ∈ k.members, b'.cached n.node = true ∧ r = routeOf (entry ip n).2) ∧
    ∀ name, b'.cached name = true ↔
      s.value (subnetKey m.node) ≠ [] ∧ s.value (subnetKey name) ≠ [] ∧
      (b.cached name = true ∨ name ∈ cluster.map Prod.fst ∧ name ≠ m.node) := by
  have hmembers : ∀ l ∈ seen, ∀ e ∈ l, ∃ n ∈ k.members, e = entry ip n :=
    fun l hl => members l (List.mem_append_left _ hl)
  have hpast := polls_agree (nodes_of_members hmembers foreign) past fun l hl e he => ⟨l, hl, he⟩
  obtain ⟨-, b'', hb, -, hcached⟩ := (eventHandler_names o cluster hpast.netlink t).exec now
  cases hb
  have hafter := polls_concat o past now
  have hnodes := nodes_of_members members foreign
  have hagrees := polls_agree hnodes hafter fun l hl e he => ⟨l, hl, he⟩
  refine ⟨?_, hcached⟩
  intro r
  rw [hagrees.routes r]
  apply or_congr_right
  constructor
  · intro h
    obtain ⟨e, he, hr⟩ := h
    obtain ⟨l, hl, hel⟩ := (hagrees.others e he).1
    obtain ⟨n, hn, rfl⟩ := members l hl e hel
    refine ⟨n, hn, ?_, hr⟩
    exact List.any_eq_true.mpr ⟨_, he, decide_eq_true rfl⟩
  · intro h
    obtain ⟨n, hn, hc, hr⟩ := h
    obtain ⟨e, he, hname⟩ := List.any_eq_true.mp hc
    obtain ⟨l, hl, hel⟩ := (hagrees.others e he).1
    obtain ⟨n', hn', rfl⟩ := members l hl e hel
    have hnn : n' = n := Cluster.eq_of_node hn' hn (of_decide_eq_true hname)
    exact ⟨_, he, hnn ▸ hr⟩

/-- The daemon of a node with a container leads every address of a container of
another node there. -/
theorem reached_of_seen (hms : Seen m s) (hns : Seen n s) (o : VisitOrder)
    (members : ∀ l ∈ seen ++ [cluster], ∀ e ∈ l, ∃ n ∈ k.members, e = entry ip n)
    (complete : ∀ n ∈ k.members, entry ip n ∈ cluster)
    (foreign : ∀ n ∈ k.members, ∀ r ∈ t₀.routes, r.dest ≠ n.net.text)
    (past : Polls m.node t₀ seen b t)
    (now : (HostGw.eventHandler o m.node cluster b).Exec (serve (Program.det Etcd.ok) allSucceed)
      (s, t) (.ok b') (w, t'))
    (hm : m ∈ k.members) (hn : n ∈ k.members) (hne : n ≠ m) {c p i x : Text}
    (hc : c ∈ ask (getAllPods m.node) s) (hp : p ∈ ask (getAllPods n.node) s) (hslash : '/' ∉ p)
    (hi : '/' ∉ i) (hx : x ∈ ask (getAllAddrs n.node p i) s) :
    ∃ a l, x = cidr a l ∧ Reaches t₀ t' (ip n) a := by
  obtain ⟨a, l, hxa, hcontains⟩ := hns.inside hslash hi hx
  obtain ⟨hroutes, hcached⟩ := route_iff_cached o members foreign past now
  have hnode : n.node ≠ m.node := fun he => hne (Cluster.eq_of_node hn hm he)
  have hcn : b'.cached n.node = true := by
    rw [hcached]
    refine ⟨hms.subnet hc, hns.subnet hp, .inr ⟨?_, hnode⟩⟩
    exact List.mem_map_of_mem (complete n hn)
  refine ⟨a, l, hxa, ?_, ?_⟩
  · exact ⟨_, (hroutes _).mpr (.inr ⟨n, hn, hcn, rfl⟩), rfl, n.net, rfl, hcontains⟩
  · intro r hr hr₀ net hdest hin
    rcases (hroutes r).mp hr with hr | hr
    · exact absurd hr hr₀
    · obtain ⟨n', hn', -, rfl⟩ := hr
      by_cases he : n' = n
      · rw [he]
        rfl
      · have hnet : n'.net = net := text_injective hdest
        exact absurd ⟨hnet ▸ hin, hcontains⟩ (Cluster.apart_of_ne hn' hn he a)

end Cluster
end Ohno.ClusterRoutes
