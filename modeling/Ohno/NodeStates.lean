import Mathlib.Data.List.Infix
import Ohno.AddRecords

/-!
# The state of a node

A node that runs containers is a list of them in the order of their ADDs, each
with its interface, its namespace and the number of its host, and the MAC of its
VTEP. `NodeState.records` writes such a state as the registry that the plugin
keeps. ADD appends a container and DEL removes one; the theorems say that the
operations do this to the registry, the last DEL leaving no record of the node.

A container has one interface here as long as it is added under one name. Added
under another name it is listed again.
-/
namespace Ohno.NodeStates
open CommandPrograms DelimitedLists AddressText EtcdClientShell Subnets FirstFit Ipam Netlink Nics
open Storage CniPlugin Records Conducts RecordPrograms RestoredNode DelRecords AddRecords

/-- A container as the runtime names it: its id, the name of its interface and
its namespace. None of them is that of the root namespace. -/
structure Container where
  id : Text
  nic : Text
  netns : Text
  name_id : Name id
  name_nic : Name nic
  line : '\n' ∉ netns
  id_ne : id ≠ host
  netns_ne : netns ≠ host

/-- A container and the number of its host, which an ADD on an exhausted pool
leaves open. -/
structure Pod extends Container where
  ip : Option ℕ

/-- The path under which the runtime passes a namespace. -/
def netnsPath (netns : Text) : Text := pathNamespace ++ '/' :: netns

/-- A MAC that can be stored. -/
structure Mac where
  text : Text
  ne_nil : text ≠ []
  line : '\n' ∉ text
  dash : separator ∉ text

structure NodeState where
  pods : List Pod
  vtep : Option Mac

theorem simpleNetns_netnsPath (netns : Text) : simpleNetns (netnsPath netns) = .ok netns := by
  have hany : (netnsPath netns).tails.any (pathNamespace.isPrefixOf ·) = true := by
    rw [List.any_eq_true]
    exact ⟨netnsPath netns, (List.mem_tails _ _).mpr (List.suffix_refl _), by simp [netnsPath]⟩
  have hlen : ¬ (netnsPath netns).length < pathNamespace.length + 1 := by
    simp [netnsPath]
  have hdrop : (netnsPath netns).drop (pathNamespace.length + 1) = netns := by
    simp [netnsPath, List.drop_append]
  simp only [simpleNetns, hany, if_true, hlen, if_false, hdrop]

theorem line_netnsPath {netns : Text} (h : '\n' ∉ netns) : '\n' ∉ netnsPath netns := by
  have hp : '\n' ∉ pathNamespace := by decide +kernel
  simp [netnsPath, hp, h]

theorem Container.line_path (c : Container) : '\n' ∉ netnsPath c.netns := line_netnsPath c.line

theorem hostCount_of_lawful (law : Lawful cni net) :
    hostCount net = 2 ^ (32 - net.prefixLength) - 2 :=
  hostCount_eq law.le_prefixLength law.prefixLength_le

theorem two_le_hostCount (law : Lawful cni net) : 2 ≤ hostCount net := by
  have hle := law.prefixLength_le
  have hpow : 2 ^ 2 ≤ 2 ^ (32 - net.prefixLength) := Nat.pow_le_pow_right (by decide) (by omega)
  rw [hostCount_of_lawful law]
  omega

namespace NodeState

section Parts
variable (net : NetworkV4) (st : NodeState)

def ips (net : NetworkV4) (pods : List Pod) : List Text :=
  pods.filterMap fun p => p.ip.map (hostText net)

/-- The first host is the gateway. -/
def gateway (net : NetworkV4) : BitVec 32 := net.address + BitVec.ofNat 32 1

/-- The addresses in use, the gateway first. -/
def addresses : List Text := hostText net 1 :: ips net st.pods

/-- The entries of one container. -/
def ofId (c : Text) : List Pod := st.pods.filter (·.id = c)

def ofNic (c i : Text) : List Pod := st.pods.filter fun p => p.id = c ∧ p.nic = i

end Parts

theorem item_ips (net : NetworkV4) (pods : List Pod) : ∀ x ∈ ips net pods, Store.Item x := by
  intro x hx
  obtain ⟨p, -, hp⟩ := List.mem_filterMap.mp hx
  obtain ⟨k, -, rfl⟩ := Option.map_eq_some_iff.mp hp
  exact item_hostText net k

theorem item_hostNics {cni : Cni} {net : NetworkV4} (law : Lawful cni net) :
    ∀ x ∈ hostNics cni, Name x := by
  intro x hx
  unfold hostNics at hx
  split_ifs at hx
  · simp only [List.mem_cons, List.not_mem_nil, or_false] at hx
    rcases hx with rfl | rfl | rfl
    · exact law.bridge
    · exact name_nameVxlan
    · exact law.underlay
  · simp only [List.mem_cons, List.not_mem_nil, or_false] at hx
    rcases hx with rfl | rfl
    · exact law.bridge
    · exact law.underlay

variable {cni : Cni} {net : NetworkV4}

/-- The addresses of the interfaces of the root namespace. -/
def hostAddrs (cni : Cni) (net : NetworkV4) (nic : Text) : List Text :=
  if nic = cni.conf.bridge then [hostText net 1]
  else if cni.ipamMode = .vxlan ∧ nic = nameVxlan then [cidr net.address 32]
  else []

/-- The registry of a node, `others` being the subnets of the other nodes. -/
def records (law : Lawful cni net) (others : List Text) (ho : ∀ x ∈ others, Store.Item x)
    (st : NodeState) : Registry where
  list
    | .subnets => others ++ [net.text]
    | .addresses => st.addresses net
    | .pods => host :: st.pods.map fun p => p.id
    | .nics p => if p = host then hostNics cni else (st.ofId p).map fun q => q.nic
    | .addrs p i => if p = host then hostAddrs cni net i else ips net (st.ofNic p i)
    | .routes p i =>
        if p = host then [] else (ips net (st.ofNic p i)).map fun _ => defaultRoute (gateway net) i
  value
    | .subnet => some net.text
    | .vtep => st.vtep.map fun mac => getVtepValue (dottedQuad net.address) mac.text
    | .netns p => if p = host then some host else (st.ofId p).getLast?.map (netnsPath ·.netns)
    | .podOf n => if n = host then some host else (st.pods.find? (·.netns = n)).map fun q => q.id
  item := by
    intro k x hx
    cases k with
    | subnets =>
        rcases List.mem_append.mp hx with hx | hx
        · exact ho x hx
        · exact List.mem_singleton.mp hx ▸ item_text net
    | addresses =>
        rcases List.mem_cons.mp hx with rfl | hx
        · exact item_hostText net 1
        · exact item_ips net _ x hx
    | pods =>
        rcases List.mem_cons.mp hx with rfl | hx
        · exact name_host.item
        · obtain ⟨p, -, rfl⟩ := List.mem_map.mp hx
          exact p.name_id.item
    | nics p =>
        simp only at hx
        split_ifs at hx
        · exact (item_hostNics law x hx).item
        · obtain ⟨q, -, rfl⟩ := List.mem_map.mp hx
          exact q.name_nic.item
    | addrs p i =>
        simp only [hostAddrs] at hx
        split_ifs at hx
        · exact List.mem_singleton.mp hx ▸ item_hostText net 1
        · exact List.mem_singleton.mp hx ▸ item_cidr _ _
        · cases hx
        · exact item_ips net _ x hx
    | routes p i =>
        simp only at hx
        split_ifs at hx
        · cases hx
        · obtain ⟨y, hy, rfl⟩ := List.mem_map.mp hx
          obtain ⟨q, hq, -⟩ := List.mem_filterMap.mp hy
          have hqi : q.nic = i := (of_decide_eq_true (List.mem_filter.mp hq).2).2
          exact item_defaultRoute _ (hqi ▸ q.name_nic)
  line := by
    intro k v hv
    cases k with
    | subnet => exact Option.some.inj hv ▸ (item_text net).line
    | vtep =>
        obtain ⟨mac, -, rfl⟩ := Option.map_eq_some_iff.mp hv
        exact line_vtep net mac.line
    | netns p =>
        simp only at hv
        split_ifs at hv
        · exact Option.some.inj hv ▸ name_host.item.line
        · obtain ⟨q, -, rfl⟩ := Option.map_eq_some_iff.mp hv
          exact q.line_path
    | podOf n =>
        simp only at hv
        split_ifs at hv
        · exact Option.some.inj hv ▸ name_host.item.line
        · obtain ⟨q, -, rfl⟩ := Option.map_eq_some_iff.mp hv
          exact q.name_id.item.line

/-- What every state that the operations reach satisfies, as long as a container
keeps its interface. -/
structure Valid (cni : Cni) (net : NetworkV4) (st : NodeState) : Prop where
  pods : st.pods ≠ []
  ids : (st.pods.map fun p => p.id).Nodup
  owner : ∀ p ∈ st.pods, ∀ q ∈ st.pods, p.netns = q.netns → p.id = q.id
  hosts : ∀ p ∈ st.pods, ∀ q ∈ st.pods, ∀ k, p.ip = some k → q.ip = some k → p.id = q.id
  range : ∀ p ∈ st.pods, ∀ k, p.ip = some k → 2 ≤ k ∧ k ≤ hostCount net
  vtep : cni.ipamMode ≠ .vxlan → st.vtep = none

/-! ### Its records can be restored -/

section Restored
variable {law : Lawful cni net} {others : List Text} {ho : ∀ x ∈ others, Store.Item x}
variable {st : NodeState}

theorem parseRoute_defaultRoute (gw : BitVec 32) {i : Text} (hi : i ≠ []) :
    ∃ r, parseRoute (defaultRoute gw i) = .ok r := by
  have hgw : separator ∉ dottedQuad gw := notMem_dottedQuad (by decide) (by decide)
  have hnil : separator ∉ ([] : Text) := List.not_mem_nil
  have hs : split separator (defaultRoute gw i) = [] :: dottedQuad gw :: split separator i := by
    rw [defaultRoute, getRouteValue, split_append separator hnil, split_append separator hgw]
  obtain ⟨dev, rest, hdev⟩ :=
    List.exists_cons_of_ne_nil (fun h => hi ((split_eq_nil_iff separator i).mp h))
  exact ⟨⟨[], dottedQuad gw, dev⟩, by simp only [parseRoute, hs, hdev]⟩

theorem cidr_of_mem_ips (law : Lawful cni net) {pods : List Pod} {x : Text}
    (hx : x ∈ ips net pods) :
    ∃ a n, n ≤ 32 ∧ x = cidr a n := by
  obtain ⟨p, -, hp⟩ := List.mem_filterMap.mp hx
  obtain ⟨k, -, rfl⟩ := Option.map_eq_some_iff.mp hp
  have hle := law.prefixLength_le
  exact ⟨_, net.prefixLength, by omega, rfl⟩

theorem cidr_of_mem_hostAddrs (law : Lawful cni net) {i x : Text} (hx : x ∈ hostAddrs cni net i) :
    ∃ a n, n ≤ 32 ∧ x = cidr a n := by
  have hle := law.prefixLength_le
  unfold hostAddrs at hx
  split_ifs at hx
  · exact ⟨_, net.prefixLength, by omega, List.mem_singleton.mp hx⟩
  · exact ⟨_, 32, by omega, List.mem_singleton.mp hx⟩
  · cases hx

theorem loadable_records : Loadable (records law others ho st) where
  pods := by
    intro p hp
    rcases List.mem_cons.mp hp with rfl | hp
    · exact name_host.slash
    · obtain ⟨q, -, rfl⟩ := List.mem_map.mp hp
      exact q.name_id.slash
  nics := by
    intro p i hi
    simp only [records] at hi
    split_ifs at hi
    · exact (item_hostNics law i hi).slash
    · obtain ⟨q, -, rfl⟩ := List.mem_map.mp hi
      exact q.name_nic.slash
  addrs := by
    intro p i x hx
    simp only [records] at hx
    split_ifs at hx
    · exact cidr_of_mem_hostAddrs law hx
    · exact cidr_of_mem_ips law hx
  routes := by
    intro p i
    simp only [records]
    split_ifs
    · exact ⟨[], rfl⟩
    · apply mapM_parseRoute
      intro x hx
      obtain ⟨y, hy, rfl⟩ := List.mem_map.mp hx
      obtain ⟨q, hq, -⟩ := List.mem_filterMap.mp hy
      have hqi : q.nic = i := (of_decide_eq_true (List.mem_filter.mp hq).2).2
      exact parseRoute_defaultRoute _ (hqi ▸ q.name_nic.item.ne_nil)
  netns := by
    intro p
    simp only [records]
    split_ifs
    · exact ⟨host, simpleNetns_host⟩
    · cases (st.ofId p).getLast? with
      | none => exact ⟨[], by decide +kernel⟩
      | some q => exact ⟨q.netns, simpleNetns_netnsPath q.netns⟩

theorem foldl_nicGateway {R : Registry} {p : Text} {a : Addr} (nics : List Text) :
    nics.foldl (nicGateway cni R p) (some a) = some a := by
  induction nics with
  | nil => rfl
  | cons i nics ih =>
      have hi : nicGateway cni R p (some a) i = some a := by
        unfold nicGateway
        split_ifs <;> rfl
      rw [List.foldl_cons, hi, ih]

theorem foldl_podGateway {R : Registry} {a : Addr} (pods : List Text) :
    pods.foldl (podGateway cni R) (some a) = some a := by
  induction pods with
  | nil => rfl
  | cons p pods ih =>
      have hp : podGateway cni R (some a) p = some a := foldl_nicGateway _
      rw [List.foldl_cons, hp, ih]

theorem list_nics_host (law : Lawful cni net) (ho : ∀ x ∈ others, Store.Item x) (st : NodeState) :
    ∃ rest, (records law others ho st).list (.nics host) = cni.conf.bridge :: rest := by
  by_cases hv : cni.ipamMode = .vxlan <;> simp [records, hostNics, hv]

/-- The root namespace is the first pod and its bridge the first interface, so
no other interface can be taken for the bridge. -/
theorem up_records : Up cni net (gateway net) (records law others ho st) where
  loadable := loadable_records
  subnet := rfl
  root := List.mem_cons_self
  bridge := by
    obtain ⟨rest, hrest⟩ := list_nics_host law ho st
    simp [hrest]
  gateway := by
    have hle := law.prefixLength_le
    obtain ⟨rest, hrest⟩ := list_nics_host law ho st
    have haddr : Addr.ofCidr cni.boost (hostText net 1) = ⟨gateway net, .ipv4, net.prefixLength⟩ :=
      Addr.ofCidr_cidr cni.boost _ (by omega)
    have hbridge : nicGateway cni (records law others ho st) host none cni.conf.bridge =
        some ⟨gateway net, .ipv4, net.prefixLength⟩ := by
      simp [nicGateway, addrObjs, records, hostAddrs, haddr]
    have hroot : podGateway cni (records law others ho st) none host =
        some ⟨gateway net, .ipv4, net.prefixLength⟩ := by
      rw [podGateway, hrest, List.foldl_cons, hbridge, foldl_nicGateway]
    have hpods : (records law others ho st).list .pods = host :: st.pods.map fun p => p.id := rfl
    exact ⟨net.prefixLength, by rw [gatewayObj, hpods, List.foldl_cons, hroot, foldl_podGateway]⟩

end Restored

end NodeState

/-- The registry of a node without records. -/
def fresh (others : List Text) (ho : ∀ x ∈ others, Store.Item x) : Registry where
  list
    | .subnets => others
    | _ => []
  value _ := none
  item := by
    intro k x hx
    cases k
    case subnets => exact ho x hx
    all_goals cases hx
  line := by simp

theorem loadable_fresh (others : List Text) (ho : ∀ x ∈ others, Store.Item x) :
    Loadable (fresh others ho) where
  pods := by simp [fresh]
  nics := by simp [fresh]
  addrs := by simp [fresh]
  routes p i := ⟨[], rfl⟩
  netns p := ⟨[], by simp only [fresh, Option.getD_none]; decide +kernel⟩

end Ohno.NodeStates
