import Ohno.VxlanEntries

/-!
# Taking back a new vxlan peer

When the ARP or the FDB entry of a new peer cannot be added, the handler deletes
what it added for the peer before. The route was added with the device ohnov
and is deleted without naming a device. That takes routes of any device out of
the kernel and none out of the list, which compares the device, so every failed
attempt leaves one more route in the list.
-/
namespace Ohno.PeerRollback
open CommandPrograms AddressText EtcdClientShell Netlink Nics KernelTables Backends VxlanEntries

/-- The command for a new peer that fails. -/
inductive Refused where
  | arp
  | fdb
deriving Repr, DecidableEq

def Refused.refuses : Refused → NetlinkCmd → Bool
  | .arp, .neighSetEntry _ _ true _ _ => true
  | .fdb, .fdbSetEntry _ _ _ true _ => true
  | _, _ => false

/-- That command fails without effect and every other one is carried out. -/
def refusing (f : Refused) (c : NetlinkCmd) (t : Tables) : Bool × Tables :=
  if f.refuses c then (false, t) else execute c t

/-- The kernel has no such entry, so that the command is issued. -/
def Issued (f : Refused) (info : NodeInfo) (vtep : Text × Text) (t : Tables) : Prop :=
  match f with
  | .arp => t.neighs.any (neighMatches vtep.1 nameVxlan) = false
  | .fdb => ⟨vtep.2, info.internalIp, nameVxlan⟩ ∉ t.fdbs

instance (f : Refused) (info : NodeInfo) (vtep : Text × Text) (t : Tables) :
    Decidable (Issued f info vtep t) := by
  unfold Issued
  split <;> infer_instance

/-- The peer is new in each of a number of polls. -/
def attempts (name : Text) (info : NodeInfo) (vtep : Text × Text) :
    ℕ → Backend → OhnoProgram Backend
  | 0, b => pure b
  | n + 1, b => do
      let b ← Vxlan.addPeer name info vtep b
      attempts name info vtep n b

/-- The tables and the lists are as they were. -/
structure RolledBack (b : Backend) (t : Tables) (b' : Backend) (t' : Tables) : Prop where
  tables : t' = t
  routes : b'.nic.routes = b.nic.routes
  neighs : b'.nic.neighs = b.nic.neighs
  fdbs : b'.nic.fdbs = b.nic.fdbs

section Attempt
variable {f : Refused} {s : Store} {t : Tables} {nic : Nic} {info : NodeInfo} {vtep : Text × Text}

/-- The route gets onto the list, whether the kernel had it before or not. -/
theorem run_addRoute (hn : nic.netlink = true) (r : Route) (flags : RouteNHFlags) :
    ∃ nic' t', (nic.addRoute r flags).run (serveBy Etcd.ok (refusing f)) (s, t) =
        (.ok (true, nic'), s, t') ∧
      nic'.netlink = true ∧ nic'.routes = nic.routes ++ [r] ∧
      t'.neighs = t.neighs ∧ t'.fdbs = t.fdbs := by
  have hset : ∀ u, refusing f (.routeSetEntry r.dest r.via true r.dev nic.netns flags) u =
      (true, { u with routes := u.routes ++ [⟨r.dest, r.via, r.dev⟩] }) := by
    intro u
    cases f <;> rfl
  have hask : refusing f (.routeIsExist r.dest r.via r.dev nic.netns) t =
      (t.routes.any (routeMatches r.dest r.via r.dev), t) := by cases f <;> rfl
  rw [Nic.addRoute, Nic.run_addEntry hn, hask]
  cases t.routes.any (routeMatches r.dest r.via r.dev) with
  | true => exact ⟨_, t, rfl, hn, rfl, rfl, rfl⟩
  | false =>
      simp only [Bool.false_eq_true, if_false, hset, if_true]
      exact ⟨_, _, rfl, hn, rfl, rfl, rfl⟩

/-- The ARP entry is refused. -/
theorem run_addNeigh_refused (hn : nic.netlink = true) (hi : Issued .arp info vtep t) (s : Store) :
    (nic.addNeigh ⟨vtep.1, vtep.2, nameVxlan⟩).run (serveBy Etcd.ok (refusing .arp)) (s, t) =
      (.ok (false, nic), s, t) := by
  have hask : refusing .arp (.neighIsExist vtep.1 nameVxlan nic.netns) t = (false, t) :=
    congrArg (fun b => (b, t)) hi
  rw [Nic.addNeigh, Nic.run_addEntry hn, hask]
  rfl

/-- The FDB entry is refused after the ARP entry was added. -/
theorem run_addNeigh (hn : nic.netlink = true) (e : Neigh) (s : Store) (t : Tables) :
    ∃ nic' t', (nic.addNeigh e).run (serveBy Etcd.ok (refusing .fdb)) (s, t) =
        (.ok (true, nic'), s, t') ∧
      nic'.netlink = true ∧ nic'.routes = nic.routes ∧ t'.fdbs = t.fdbs := by
  have hask : refusing .fdb (.neighIsExist e.addr e.dev nic.netns) t =
      (t.neighs.any (neighMatches e.addr e.dev), t) := rfl
  rw [Nic.addNeigh, Nic.run_addEntry hn, hask]
  cases t.neighs.any (neighMatches e.addr e.dev) with
  | true => exact ⟨_, _, rfl, hn, rfl, rfl⟩
  | false => exact ⟨_, _, rfl, hn, rfl, rfl⟩

theorem run_addFdb_refused (hn : nic.netlink = true) (hi : Issued .fdb info vtep t) (s : Store) :
    (nic.addFdb ⟨vtep.2, info.internalIp, nameVxlan⟩).run (serveBy Etcd.ok (refusing .fdb)) (s, t) =
      (.ok (false, nic), s, t) := by
  have hask : refusing .fdb (.fdbIsExist vtep.2 info.internalIp nameVxlan nic.netns) t =
      (false, t) := congrArg (fun b => (b, t)) (decide_eq_false hi)
  rw [Nic.addFdb, Nic.run_addEntry hn, hask]
  rfl

/-- The route of the peer, as it is added. -/
def peerRoute (info : NodeInfo) (vtep : Text × Text) : Route := ⟨info.podCidr, vtep.1, nameVxlan⟩

theorem count_kept (info : NodeInfo) (vtep : Text × Text) (routes : List Route) :
    (routes.filter (· ≠ ⟨info.podCidr, vtep.1, []⟩)).count (peerRoute info vtep) =
      routes.count (peerRoute info vtep) := by
  apply List.count_filter
  simp [peerRoute, nameVxlan_ne_nil]

/-- Deleting the route without a device leaves the one with the device on the list. -/
theorem run_delRoute (hn : nic.netlink = true) (info : NodeInfo) (vtep : Text × Text) (s : Store)
    (t : Tables) :
    ∃ ok nic' t', (nic.delRoute info.podCidr vtep.1 []).run (serveBy Etcd.ok (refusing f)) (s, t) =
        (.ok (ok, nic'), s, t') ∧
      nic'.netlink = true ∧
      nic'.routes.count (peerRoute info vtep) = nic.routes.count (peerRoute info vtep) ∧
      t'.neighs = t.neighs ∧ t'.fdbs = t.fdbs := by
  have hset : refusing f (.routeSetEntry info.podCidr vtep.1 false [] nic.netns .none) t =
      (true, { t with routes := t.routes.filter (!routeMatches info.podCidr vtep.1 [] ·) }) := by
    cases f <;> rfl
  have hask : refusing f (.routeIsExist info.podCidr vtep.1 [] nic.netns) t =
      (t.routes.any (routeMatches info.podCidr vtep.1 []), t) := by cases f <;> rfl
  rw [Nic.delRoute, Nic.run_delEntry hn, hask]
  cases t.routes.any (routeMatches info.podCidr vtep.1 []) with
  | false => exact ⟨_, _, _, rfl, hn, rfl, rfl, rfl⟩
  | true =>
      simp only [if_true, hset]
      exact ⟨_, _, _, rfl, hn, count_kept info vtep nic.routes, rfl, rfl⟩

theorem run_delNeigh (hn : nic.netlink = true) (addr mac dev : Text) (s : Store) (t : Tables) :
    ∃ ok nic' t', (nic.delNeigh addr mac dev).run (serveBy Etcd.ok (refusing f)) (s, t) =
        (.ok (ok, nic'), s, t') ∧
      nic'.netlink = true ∧ nic'.routes = nic.routes ∧ t'.fdbs = t.fdbs := by
  have hset : refusing f (.neighSetEntry addr mac false dev nic.netns) t =
      (true, { t with neighs := t.neighs.filter (!neighMatches addr dev ·) }) := by cases f <;> rfl
  have hask : refusing f (.neighIsExist addr dev nic.netns) t =
      (t.neighs.any (neighMatches addr dev), t) := by cases f <;> rfl
  rw [Nic.delNeigh, Nic.run_delEntry hn, hask]
  cases t.neighs.any (neighMatches addr dev) with
  | false => exact ⟨_, _, _, rfl, hn, rfl, rfl⟩
  | true =>
      simp only [if_true, hset]
      exact ⟨_, _, _, rfl, hn, rfl, rfl⟩

/-- What one failed attempt leaves: the peer's route is on the list once more. -/
structure Leaves (f : Refused) (info : NodeInfo) (vtep : Text × Text) (b b' : Backend)
    (t' : Tables) (n : ℕ) : Prop where
  netlink : b'.nic.netlink = true
  issued : Issued f info vtep t'
  routes : b'.nic.routes.count (peerRoute info vtep) = b.nic.routes.count (peerRoute info vtep) + n

theorem run_addPeer_arp {b : Backend} (hn : b.nic.netlink = true) (hi : Issued .arp info vtep t)
    (name : Text) (s : Store) :
    ∃ b' t', (Vxlan.addPeer name info vtep b).run (serveBy Etcd.ok (refusing .arp)) (s, t) =
        (.ok b', s, t') ∧ Leaves .arp info vtep b b' t' 1 := by
  obtain ⟨nic₁, t₁, hroute, hn₁, hroutes₁, hneighs₁, -⟩ :=
    run_addRoute (f := .arp) (s := s) (t := t) hn (peerRoute info vtep) .onlink
  have hi₁ : Issued .arp info vtep t₁ := by
    unfold Issued at hi ⊢
    rwa [hneighs₁]
  have hneigh := run_addNeigh_refused hn₁ hi₁ s
  obtain ⟨ok, nic₂, t₂, hdel, hn₂, hcount₂, hneighs₂, -⟩ :=
    run_delRoute (f := .arp) hn₁ info vtep s t₁
  simp only [peerRoute] at hroute
  refine ⟨{ b with nic := nic₂ }, t₂, ?_, hn₂, ?_, ?_⟩
  · simp [Vxlan.addPeer, hroute, hneigh, hdel]
  · unfold Issued at hi₁ ⊢
    rwa [hneighs₂]
  · rw [hcount₂, hroutes₁]
    simp

theorem run_addPeer_fdb {b : Backend} (hn : b.nic.netlink = true) (hi : Issued .fdb info vtep t)
    (name : Text) (s : Store) :
    ∃ b' t', (Vxlan.addPeer name info vtep b).run (serveBy Etcd.ok (refusing .fdb)) (s, t) =
        (.ok b', s, t') ∧ Leaves .fdb info vtep b b' t' 1 := by
  obtain ⟨nic₁, t₁, hroute, hn₁, hroutes₁, -, hfdbs₁⟩ :=
    run_addRoute (f := .fdb) (s := s) (t := t) hn (peerRoute info vtep) .onlink
  obtain ⟨nic₂, t₂, hneigh, hn₂, hroutes₂, hfdbs₂⟩ :=
    run_addNeigh hn₁ ⟨vtep.1, vtep.2, nameVxlan⟩ s t₁
  have hi₂ : Issued .fdb info vtep t₂ := by
    unfold Issued at hi ⊢
    rwa [hfdbs₂, hfdbs₁]
  have hfdb := run_addFdb_refused hn₂ hi₂ s
  obtain ⟨ok, nic₃, t₃, hdel, hn₃, hcount₃, -, hfdbs₃⟩ :=
    run_delRoute (f := .fdb) hn₂ info vtep s t₂
  obtain ⟨ok', nic₄, t₄, hdel', hn₄, hroutes₄, hfdbs₄⟩ :=
    run_delNeigh (f := .fdb) hn₃ vtep.1 vtep.2 nameVxlan s t₃
  simp only [peerRoute] at hroute
  refine ⟨{ b with nic := nic₄ }, t₄, ?_, hn₄, ?_, ?_⟩
  · simp [Vxlan.addPeer, hroute, hneigh, hfdb, hdel, hdel']
  · unfold Issued at hi₂ ⊢
    rwa [hfdbs₄, hfdbs₃]
  · rw [hroutes₄, hcount₃, hroutes₂, hroutes₁]
    simp

theorem run_addPeer {b : Backend} (hn : b.nic.netlink = true) (hi : Issued f info vtep t)
    (name : Text) (s : Store) :
    ∃ b' t', (Vxlan.addPeer name info vtep b).run (serveBy Etcd.ok (refusing f)) (s, t) =
        (.ok b', s, t') ∧ Leaves f info vtep b b' t' 1 := by
  cases f with
  | arp => exact run_addPeer_arp hn hi name s
  | fdb => exact run_addPeer_fdb hn hi name s

/-- Each attempt adds one. -/
theorem run_attempts {b : Backend} (hn : b.nic.netlink = true) (hi : Issued f info vtep t)
    (name : Text) (s : Store) (n : ℕ) :
    ∃ b' t', (attempts name info vtep n b).run (serveBy Etcd.ok (refusing f)) (s, t) =
        (.ok b', s, t') ∧ Leaves f info vtep b b' t' n := by
  induction n generalizing b t with
  | zero => exact ⟨b, t, rfl, hn, hi, rfl⟩
  | succ n ih =>
      obtain ⟨b₁, t₁, hfirst, hleaves⟩ := run_addPeer hn hi name s
      obtain ⟨b', t', hrest, hend⟩ := ih hleaves.netlink hleaves.issued
      refine ⟨b', t', ?_, hend.netlink, hend.issued, ?_⟩
      · simp only [attempts, Program.bind_eq, Program.run_bind, hfirst, Program.Final.andThen_ok,
          hrest]
      · rw [hend.routes, hleaves.routes]
        omega

/-- Whatever the tables and the lists are, after any number of attempts in which
the ARP or the FDB entry is refused they are not as before: the list of routes
has the route of the peer once more for each attempt. -/
theorem not_rolledBack (f : Refused) (name : Text) (info : NodeInfo) (vtep : Text × Text)
    (b : Backend) (hn : b.nic.netlink = true) (s : Store) (t : Tables)
    (hi : Issued f info vtep t) (n : ℕ) (hpos : 0 < n) :
    ∃ b' t', (attempts name info vtep n b).run (serveBy Etcd.ok (refusing f)) (s, t) =
        (.ok b', s, t') ∧ ¬ RolledBack b t b' t' := by
  obtain ⟨b', t', hrun, hleaves⟩ := run_attempts hn hi name s n
  refine ⟨b', t', hrun, fun hback => ?_⟩
  have hcount := hleaves.routes
  rw [hback.routes] at hcount
  omega

end Attempt

/-! ### The peer b -/

def vtepB : Text × Text := ("10.0.1.0".toList, "02:00:00:00:00:02".toList)

theorem not_rolledBack_b :
    ∃ b' t', (attempts ['b'] nodeB vtepB 2 {}).run (serveBy Etcd.ok (refusing .fdb))
        (fun _ => none, {}) = (.ok b', fun _ => none, t') ∧ ¬ RolledBack {} {} b' t' :=
  not_rolledBack .fdb ['b'] nodeB vtepB {} rfl (fun _ => none) {} (by decide +kernel) 2 (by decide)

/-- The kernel had the route before, and the ARP entry is refused: the kernel
has lost the route, and the list has it instead. -/
theorem route_swapped :
    ((attempts ['b'] nodeB vtepB 1 {}).run (serveBy Etcd.ok (refusing .arp))
        (fun _ => none, { routes := [peerRoute nodeB vtepB] })).2.2 = {} ∧
      ∃ b', ((attempts ['b'] nodeB vtepB 1 {}).run (serveBy Etcd.ok (refusing .arp))
        (fun _ => none, { routes := [peerRoute nodeB vtepB] })).1 = .ok b' ∧
          b'.nic.routes = [peerRoute nodeB vtepB] ∧
          ¬ RolledBack {} { routes := [peerRoute nodeB vtepB] } b' {} := by
  refine ⟨by decide +kernel, { nic := { netlink := true, routes := [peerRoute nodeB vtepB] } },
    by decide +kernel, rfl, fun h => ?_⟩
  exact absurd h.tables (by decide +kernel)

end Ohno.PeerRollback
