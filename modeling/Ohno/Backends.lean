import Ohno.Ipam
import Ohno.Storage

/-!
# The host-gw and vxlan backends

The daemon calls `eventHandler` again and again. A poll compares the nodes that
the API server lists with the records that etcd stores and keeps entries in
the system for each other node that has one: a route in host-gw mode; a route,
an ARP entry and an FDB entry of the device ohnov in vxlan mode.

The snapshot of the API server is an argument, in the order in which the first
loop visits it. The cache is a list without two entries of one name, and
`VisitOrder` is the order in which the second loop visits it, which the source
leaves open. Each loop is a recursion over what is left to visit.
-/
namespace Ohno.Backends
open CommandPrograms DelimitedLists AddressText EtcdClientShell Ipam Netlink Nics Storage

structure NodeInfo where
  name : Text
  internalIp : Text
  podCidr : Text
deriving Repr, DecidableEq

/-- Nodes by name, as `std::unordered_map` holds them. -/
abbrev NodeMap := List (Text × NodeInfo)

/-- The order in which a map is visited. -/
structure VisitOrder where
  order : NodeMap → NodeMap
  perm : ∀ m, (order m).Perm m

/-- The map is visited as it is listed. -/
def VisitOrder.asListed : VisitOrder := ⟨id, List.Perm.refl⟩

/-- What a backend keeps from poll to poll. -/
structure Backend where
  nodeCache : NodeMap := []
  nic : Nic := { netlink := true }
deriving Repr, DecidableEq

def Backend.cached (b : Backend) (name : Text) : Bool := b.nodeCache.any (·.1 = name)

def Backend.emplace (b : Backend) (name : Text) (info : NodeInfo) : Backend :=
  { b with nodeCache := b.nodeCache ++ [(name, info)] }

def Backend.erase (b : Backend) (name : Text) : Backend :=
  { b with nodeCache := b.nodeCache.filter (·.1 ≠ name) }

theorem Backend.nodup_emplace {b : Backend} {name : Text} (h : (b.nodeCache.map Prod.fst).Nodup)
    (hc : b.cached name = false) (info : NodeInfo) :
    ((b.nodeCache ++ [(name, info)]).map Prod.fst).Nodup := by
  simp only [Backend.cached, List.any_eq_false, decide_eq_true_eq] at hc
  simp only [List.map_append, List.map_cons, List.map_nil]
  apply FirstFit.nodup_concat h
  intro hm
  obtain ⟨e, he, heq⟩ := List.mem_map.mp hm
  exact hc e he heq

@[simp] theorem Backend.cached_emplace (b : Backend) (nic : Nic) (name n : Text) (info : NodeInfo) :
    ({ b with nic := nic }.emplace name info).cached n = true ↔ b.cached n = true ∨ n = name := by
  simp only [Backend.cached, Backend.emplace, List.any_append, List.any_cons, List.any_nil,
    Bool.or_false, Bool.or_eq_true, decide_eq_true_eq]
  exact or_congr_right eq_comm

@[simp] theorem Backend.cached_erase (b : Backend) (nic : Nic) (name n : Text) :
    ({ b with nic := nic }.erase name).cached n = true ↔ b.cached n = true ∧ n ≠ name := by
  simp only [Backend.cached, Backend.erase, List.any_eq_true, List.mem_filter, decide_eq_true_eq]
  constructor
  · rintro ⟨e, ⟨he, hne⟩, rfl⟩
    exact ⟨⟨e, he, rfl⟩, hne⟩
  · rintro ⟨⟨e, he, rfl⟩, hne⟩
    exact ⟨e, ⟨he, hne⟩, rfl⟩

namespace HostGw

/-- The loop over the snapshot. -/
def addNodes (currentNode : Text) : NodeMap → Backend → OhnoProgram Backend
  | [], b => pure b
  | (name, info) :: rest, b => do
      if currentNode = name then
        addNodes currentNode rest b
      else
        let subnet ← etcd (getSubnet name)
        if subnet.2 ≠ [] ∧ b.cached name = false then
          let ret ← b.nic.addRoute ⟨info.podCidr, info.internalIp, []⟩ .none
          if ret.1 then
            addNodes currentNode rest ({ b with nic := ret.2 }.emplace name info)
          else
            addNodes currentNode rest { b with nic := ret.2 }
        else
          addNodes currentNode rest b

/-- The loop over the cache, which erases from the map it visits. -/
def delNodes (subnetCur : Text) : NodeMap → Backend → OhnoProgram Backend
  | [], b => pure b
  | (name, info) :: rest, b => do
      let subnet ← etcd (getSubnet name)
      if subnetCur = [] ∨ subnet.2 = [] then
        let ret ← b.nic.delRoute info.podCidr info.internalIp []
        if ret.1 then
          delNodes subnetCur rest ({ b with nic := ret.2 }.erase name)
        else
          delNodes subnetCur rest { b with nic := ret.2 }
      else
        delNodes subnetCur rest b

def eventHandler (o : VisitOrder) (currentNode : Text) (cluster : NodeMap) (b : Backend) :
    OhnoProgram Backend := do
  let subnetCur ← etcd (getSubnet currentNode)
  let b ← if subnetCur.2 ≠ [] then addNodes currentNode cluster b else pure b
  delNodes subnetCur.2 (o.order b.nodeCache) b

end HostGw

namespace Vxlan

/-- One new peer. What was added for it is taken back when a later step fails;
the route is then deleted without naming the device. -/
def addPeer (name : Text) (info : NodeInfo) (vtep : Text × Text) (b : Backend) :
    OhnoProgram Backend := do
  let ret ← b.nic.addRoute ⟨info.podCidr, vtep.1, nameVxlan⟩ .onlink
  if ret.1 then
    let ret ← ret.2.addNeigh ⟨vtep.1, vtep.2, nameVxlan⟩
    if ret.1 then
      let ret ← ret.2.addFdb ⟨vtep.2, info.internalIp, nameVxlan⟩
      if ret.1 then
        pure ({ b with nic := ret.2 }.emplace name info)
      else
        let ret ← ret.2.delRoute info.podCidr vtep.1 []
        let ret ← ret.2.delNeigh vtep.1 vtep.2 nameVxlan
        pure { b with nic := ret.2 }
    else
      let ret ← ret.2.delRoute info.podCidr vtep.1 []
      pure { b with nic := ret.2 }
  else
    pure { b with nic := ret.2 }

/-- The loop over the snapshot. -/
def addNodes (currentNode : Text) : NodeMap → Backend → OhnoProgram Backend
  | [], b => pure b
  | (name, info) :: rest, b => do
      if currentNode = name then
        addNodes currentNode rest b
      else
        let vtep ← etcd (getVtep name)
        if vtep.1 ≠ [] ∧ b.cached name = false then
          let b ← addPeer name info vtep b
          addNodes currentNode rest b
        else
          addNodes currentNode rest b

/-- One peer to forget. The entry leaves the cache whatever the deletions say. -/
def delPeer (name : Text) (info : NodeInfo) (vtep : Text × Text) (b : Backend) :
    OhnoProgram Backend := do
  let ret ← b.nic.delRoute info.podCidr vtep.1 nameVxlan
  let ret ← ret.2.delNeigh vtep.1 vtep.2 nameVxlan
  let ret ← ret.2.delFdb info.internalIp vtep.2 nameVxlan
  pure ({ b with nic := ret.2 }.erase name)

/-- The loop over the cache, which erases from the map it visits. -/
def delNodes (currentVtepAddr : Text) : NodeMap → Backend → OhnoProgram Backend
  | [], b => pure b
  | (name, info) :: rest, b => do
      let vtep ← etcd (getVtep name)
      if currentVtepAddr = [] ∨ vtep.1 = [] then
        let b ← delPeer name info vtep b
        delNodes currentVtepAddr rest b
      else
        delNodes currentVtepAddr rest b

def eventHandler (o : VisitOrder) (currentNode : Text) (cluster : NodeMap) (b : Backend) :
    OhnoProgram Backend := do
  let currentVtep ← etcd (getVtep currentNode)
  let b ← if currentVtep.1 ≠ [] then addNodes currentNode cluster b else pure b
  delNodes currentVtep.1 (o.order b.nodeCache) b

end Vxlan

/-- The commands that add an entry. -/
def adds : NetlinkCmd → Bool
  | .routeSetEntry _ _ add _ _ _ => add
  | .neighSetEntry _ _ add _ _ => add
  | .fdbSetEntry _ _ _ add _ => add
  | _ => false

/-! Node a and its peer b, for the runs below that are on fixed inputs. -/

def nodeB : NodeInfo := ⟨['b'], "192.168.0.2".toList, "10.0.1.0/24".toList⟩

def subnetsStored : Store := fun k =>
  if k = subnetKey ['a'] then some "10.0.0.0/24".toList
  else if k = subnetKey ['b'] then some nodeB.podCidr
  else none

end Ohno.Backends
