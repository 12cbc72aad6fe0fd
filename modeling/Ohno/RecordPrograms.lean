import Ohno.Records

/-!
# Storage and Ipam on registries

One equation for each function: what it returns and which registry it leaves
when every etcdctl command succeeds. From here on a proof about the plugin
speaks of registries, and texts of keys do not occur in it.
-/
namespace Ohno.RecordPrograms
open CommandPrograms DelimitedLists AddressText EtcdClientShell Subnets FirstFit Ipam Storage Nics
open Records Records.Registry

variable {node : Text} {base : Store} {R : Registry} {pod nic netns simple : Text}

section Namespaces

theorem run_addNetns (hp : '/' ∉ pod) (hn : '\n' ∉ netns) :
    (addNetns node pod netns).run Etcd.ok (R.store node base) =
      (.ok true, (R.assign (.netns pod) netns hn).store node base) := by
  rw [addNetns, run_put]
  exact congrArg _ (set_store _ _ _ (j := .netns pod) hp hn)

theorem run_delNetns (hp : '/' ∉ pod) :
    (delNetns node pod).run Etcd.ok (R.store node base) =
      (.ok true, (R.clear (.netns pod)).store node base) := by
  rw [delNetns, run_del]
  exact congrArg _ (erase_store _ _ _ (j := .netns pod) hp)

theorem run_getNetns (hp : '/' ∉ pod) :
    (getNetns node pod).run Etcd.ok (R.store node base) =
      (.ok ((R.value (.netns pod)).getD []), R.store node base) := by
  simp only [getNetns, Program.bind_eq, Program.run_bind, run_get, Program.Final.andThen_ok,
    Program.pure_eq, Program.run_pure]
  rw [← value_store R node base (j := .netns pod) hp]
  rfl

theorem run_addPod (hs : simpleNetns netns = .ok simple) (hp : Store.Item pod) :
    (addPod node netns pod).run Etcd.ok (R.store node base) =
      (.ok true, ((R.assign (.podOf simple) pod hp.line).push .pods pod hp).store node base) := by
  have hset := set_store R node base (j := .podOf simple) trivial hp.line
  simp only [ValueKey.text] at hset
  simp only [addPod, getSinglePodKey, hs, bind, Except.bind, pure, Except.pure,
    Program.ofExcept_ok, Program.bind, Program.run_bind, run_put, Program.Final.andThen_ok, if_true,
    run_append, hset]
  exact congrArg _ (append_store _ _ _ (l := .pods) trivial hp)

theorem run_delPod (hs : simpleNetns netns = .ok simple) :
    (delPod node netns).run Etcd.ok (R.store node base) =
      (.ok true, ((R.clear (.podOf simple)).prune .pods
        ((R.value (.podOf simple)).getD [])).store node base) := by
  have hval := value_store R node base (j := .podOf simple) trivial
  have herase := erase_store R node base (j := .podOf simple) trivial
  simp only [ValueKey.text] at hval herase
  simp only [delPod, getSinglePodKey, hs, bind, Except.bind, pure, Except.pure,
    Program.ofExcept_ok, Program.bind, Program.run_bind, run_get, Program.Final.andThen_ok, if_true,
    run_del, run_delValue, hval, herase]
  exact congrArg _ (delValue_store _ _ _ (l := .pods) trivial)

theorem run_getPod (hs : simpleNetns netns = .ok simple) :
    (getPod node netns).run Etcd.ok (R.store node base) =
      (.ok ((R.value (.podOf simple)).getD []), R.store node base) := by
  have hval := value_store R node base (j := .podOf simple) trivial
  simp only [ValueKey.text] at hval
  simp only [getPod, getSinglePodKey, hs, bind, Except.bind, pure, Except.pure,
    Program.ofExcept_ok, Program.bind, Program.run_bind, run_get, Program.Final.andThen_ok,
    Program.run_pure, hval]

end Namespaces

section Lists

theorem run_listOrEmpty {l : ListKey} (hl : l.Sound) :
    (listOrEmpty (l.text node)).run Etcd.ok (R.store node base) =
      (.ok (R.list l), R.store node base) := by
  simp [listOrEmpty, values_store R node base hl]

theorem run_getAllPods : (getAllPods node).run Etcd.ok (R.store node base) =
    (.ok (R.list .pods), R.store node base) := run_listOrEmpty (l := .pods) trivial

theorem run_getAllNic (hp : '/' ∉ pod) : (getAllNic node pod).run Etcd.ok (R.store node base) =
    (.ok (R.list (.nics pod)), R.store node base) := run_listOrEmpty (l := .nics pod) hp

theorem run_addNic (hp : '/' ∉ pod) (hi : Store.Item nic) :
    (addNic node pod nic).run Etcd.ok (R.store node base) =
      (.ok true, (R.push (.nics pod) nic hi).store node base) := by
  rw [addNic, run_append]
  exact congrArg _ (append_store _ _ _ (l := .nics pod) hp hi)

theorem run_delNic (hp : '/' ∉ pod) :
    (delNic node pod nic).run Etcd.ok (R.store node base) =
      (.ok true, (R.prune (.nics pod) nic).store node base) := by
  rw [delNic, run_delValue]
  exact congrArg _ (delValue_store _ _ _ (l := .nics pod) hp)

theorem run_getAllAddrs (hp : '/' ∉ pod) (hn : '/' ∉ nic) :
    (getAllAddrs node pod nic).run Etcd.ok (R.store node base) =
      (.ok (R.list (.addrs pod nic)), R.store node base) :=
  run_listOrEmpty (l := .addrs pod nic) ⟨hp, hn⟩

theorem run_addAddr (hp : '/' ∉ pod) (hn : '/' ∉ nic) {addr : Addr} {text : Text}
    (ha : addr.getAddrCidr = .ok text) (hi : Store.Item text) :
    (addAddr node pod nic addr).run Etcd.ok (R.store node base) =
      (.ok true, (R.push (.addrs pod nic) text hi).store node base) := by
  rw [addAddr, ha, Program.ofExcept_ok, Program.bind_eq, Program.pure_bind, run_append]
  exact congrArg _ (append_store _ _ _ (l := .addrs pod nic) ⟨hp, hn⟩ hi)

theorem run_delAddr (hp : '/' ∉ pod) (hn : '/' ∉ nic) :
    (delAddr node pod nic).run Etcd.ok (R.store node base) =
      (.ok true, (R.clearList (.addrs pod nic)).store node base) := by
  rw [delAddr, run_del]
  exact congrArg _ (erase_list_store _ _ _ (l := .addrs pod nic) ⟨hp, hn⟩)

theorem run_getAllRoutes (hp : '/' ∉ pod) (hn : '/' ∉ nic) {routes : List Route}
    (hr : (R.list (.routes pod nic)).mapM parseRoute = .ok routes) :
    (getAllRoutes node pod nic).run Etcd.ok (R.store node base) =
      (.ok routes, R.store node base) := by
  have h : (listOrEmpty (getRouteKey node pod nic)).run Etcd.ok (R.store node base) =
      (.ok (R.list (.routes pod nic)), R.store node base) :=
    run_listOrEmpty (l := .routes pod nic) ⟨hp, hn⟩
  simp only [getAllRoutes, Program.bind_eq, Program.run_bind, h, Program.Final.andThen_ok, hr,
    Program.ofExcept_ok, Program.run_pure]

theorem run_addRoute (hp : '/' ∉ pod) (hn : '/' ∉ nic) {r : Route}
    (hi : Store.Item (getRouteValue r.dest r.via r.dev)) :
    (addRoute node pod nic r).run Etcd.ok (R.store node base) =
      (.ok true, (R.push (.routes pod nic) _ hi).store node base) := by
  rw [addRoute, run_append]
  exact congrArg _ (append_store _ _ _ (l := .routes pod nic) ⟨hp, hn⟩ hi)

theorem run_delRoute (hp : '/' ∉ pod) (hn : '/' ∉ nic) :
    (delRoute node pod nic).run Etcd.ok (R.store node base) =
      (.ok true, (R.clearList (.routes pod nic)).store node base) := by
  rw [delRoute, run_del]
  exact congrArg _ (erase_list_store _ _ _ (l := .routes pod nic) ⟨hp, hn⟩)

end Lists

section Vtep

theorem run_addVtep {addr mac : Text} (hv : '\n' ∉ getVtepValue addr mac) :
    (addVtep node addr mac).run Etcd.ok (R.store node base) =
      (.ok true, (R.assign .vtep _ hv).store node base) := by
  rw [addVtep, run_put]
  exact congrArg _ (set_store _ _ _ (j := .vtep) trivial hv)

theorem run_delVtep : (delVtep node).run Etcd.ok (R.store node base) =
    (.ok true, (R.clear .vtep).store node base) := by
  rw [delVtep, run_del]
  exact congrArg _ (erase_store _ _ _ (j := .vtep) trivial)

theorem run_getVtep : (getVtep node).run Etcd.ok (R.store node base) =
    (parseVtep ((R.value .vtep).getD []), R.store node base) := by
  have hval := value_store R node base (j := .vtep) trivial
  simp only [ValueKey.text] at hval
  simp only [getVtep, Program.bind_eq, Program.run_bind, run_get, Program.Final.andThen_ok, if_true,
    hval]
  cases parseVtep ((R.value .vtep).getD []) <;> rfl

end Vtep

section Addresses

theorem run_getSubnet_store : (getSubnet node).run Etcd.ok (R.store node base) =
    (.ok (decide ((R.value .subnet).getD [] ≠ []), (R.value .subnet).getD []),
      R.store node base) := by
  have hval := value_store R node base (j := .subnet) trivial
  simp only [ValueKey.text] at hval
  rw [run_getSubnet, hval]

theorem run_allocateSubnet {podCidr : Text} (hs : R.value .subnet = none)
    (hc : Store.Item podCidr) :
    (allocateSubnet node podCidr).run Etcd.ok (R.store node base) =
      (.ok (true, podCidr),
        ((R.push .subnets podCidr hc).assign .subnet podCidr hc.line).store node base) := by
  have hpush := append_store R node base (l := .subnets) trivial hc
  have hset := set_store (R.push .subnets podCidr hc) node base
    (j := .subnet) trivial hc.line
  simp only [ListKey.text] at hpush
  simp only [ValueKey.text] at hset
  simp only [allocateSubnet, Program.bind_eq, Program.run_bind, run_getSubnet_store, hs,
    Option.getD_none, ne_eq, not_true_eq_false, decide_false, Program.Final.andThen_ok,
    Bool.false_eq_true, if_false, run_append, if_true, run_put, hpush, hset, Program.pure_eq,
    Program.run_pure]

theorem run_releaseSubnet {subnet : Text} :
    (releaseSubnet node subnet).run Etcd.ok (R.store node base) =
      (.ok true, ((R.clear .subnet).prune .subnets subnet).store node base) := by
  have herase := erase_store R node base (j := .subnet) trivial
  simp only [ValueKey.text] at herase
  simp only [releaseSubnet, Program.bind_eq, Program.run_bind, run_del, Program.Final.andThen_ok,
    if_true, run_delValue, herase]
  exact congrArg _ (delValue_store _ _ _ (l := .subnets) trivial)

theorem run_releaseIp_store {ip : Text} :
    (releaseIp node ip).run Etcd.ok (R.store node base) =
      (.ok true, (R.prune .addresses ip).store node base) := by
  rw [run_releaseIp]
  exact congrArg _ (delValue_store _ _ _ (l := .addresses) trivial)

/-- The result of `allocateIp` on a list of addresses. -/
def takeIp (R : Registry) (net : NetworkV4) : (Bool × Text) × Registry :=
  match firstFree (hostText net) (hostCount net) (R.list .addresses) with
  | some j => ((true, hostText net j), R.push .addresses (hostText net j) (item_hostText net j))
  | none => ((false, []), R)

theorem takeIp_some {net : NetworkV4} {j : ℕ}
    (h : firstFree (hostText net) (hostCount net) (R.list .addresses) = some j) :
    takeIp R net =
      ((true, hostText net j), R.push .addresses (hostText net j) (item_hostText net j)) := by
  simp only [takeIp, h]

theorem takeIp_none {net : NetworkV4}
    (h : firstFree (hostText net) (hostCount net) (R.list .addresses) = none) :
    takeIp R net = ((false, []), R) := by
  simp only [takeIp, h]

theorem run_allocateIp_store (boost : Boost) {net : NetworkV4}
    (hs : Subnet.init boost ((R.value .subnet).getD []) = .ok ⟨net, .ipv4⟩)
    (hp : net.prefixLength < 32) :
    (allocateIp boost node).run Etcd.ok (R.store node base) =
      (.ok (takeIp R net).1, (takeIp R net).2.store node base) := by
  have hval := value_store R node base (j := .subnet) trivial
  have hvals := values_store R node base (l := .addresses) trivial
  simp only [ValueKey.text] at hval
  simp only [ListKey.text] at hvals
  rw [run_allocateIp boost _ (hval ▸ hs) hp, hvals, takeIp]
  cases firstFree (hostText net) (hostCount net) (R.list .addresses) with
  | none => rfl
  | some j => exact congrArg _ (append_store _ _ _ (l := .addresses) trivial (item_hostText net j))

end Addresses
end Ohno.RecordPrograms
