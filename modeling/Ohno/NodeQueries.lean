import Ohno.Backends
import Ohno.KeyedLists
import Ohno.KubeNodes

/-!
# The two queries for nodes

`Center::getNodes` serves the query for one node and the query for all of them.
The CNI plugin stores the pod CIDR from the first, the daemon routes by that
from the second. Both ask the same request, and whatever goes wrong with it
leaves the results as they were.
-/
namespace Ohno.NodeQueries
open AddressText EtcdClientShell Backends KubeNodes KeyedLists

structure HttpRequest where
  uri : Text
  token : Text
  caPath : Text
deriving Repr, DecidableEq

/-- `HttpClient::httpRequest` turns what is thrown in it into a code and a text. -/
structure HttpReply where
  code : ℕ
  body : Text
deriving Repr, DecidableEq

/-- What answers and reads a request: the API server behind `libcurl`, and the
JSON parser, which throws on a text that is none. -/
structure Outside where
  http : HttpRequest → HttpReply
  parse : Text → Option Json

structure Center where
  apiServer : Text
  ssl : Bool
  token : Text
  caPath : Text
deriving Repr, DecidableEq

def kubeApiNodes : Text := "api/v1/nodes".toList

/-- `HttpCode::Ok` -/
def httpOk : ℕ := 200

namespace Center
variable (center : Center) (outside : Outside)

def getHttpResponse (uri : Text) : HttpReply :=
  outside.http ⟨uri, center.token, if center.ssl then center.caPath else []⟩

/-- The part of `getNodes` that can throw, all before its loop. -/
def nodes : Except Thrown KubeApiv1Nodes :=
  let reply := center.getHttpResponse outside (center.apiServer ++ '/' :: kubeApiNodes)
  if reply.code ≠ httpOk then
    .error (.exception ("HTTP req failed with code: " ++ toString reply.code ++ " and \"" ++
      String.ofList reply.body ++ "\""))
  else
    match outside.parse reply.body with
    | none => .error .standard
    | some json => KubeApiv1Nodes.fromJson json

/-- The inner loop, which ends at the first internal address. -/
def findInternalIp (info : NodeInfo) : List Address → NodeInfo
  | [] => info
  | addr :: addresses =>
      if addr.type = .internalIP then { info with internalIp := addr.address }
      else findInternalIp info addresses

/-- The outer loop. For a single node it passes by other names and ends at the
first of its own. -/
def visit (isAll : Bool) : List Item → NodeInfo → NodeMap → NodeInfo × NodeMap
  | [], single, all => (single, all)
  | item :: items, single, all =>
      let info : NodeInfo := ⟨item.metadata.name, [], item.spec.podCidr⟩
      if !isAll && single.name ≠ info.name then
        visit isAll items single all
      else
        let info := findInternalIp info item.status.addresses
        if !isAll then (info, all) else visit isAll items single (assign all info.name info)

def getNodes (isAll : Bool) (single : NodeInfo) (all : NodeMap) : NodeInfo × NodeMap :=
  match center.nodes outside with
  | .ok nodes => visit isAll nodes.items single all
  | .error _ => (single, all)

def getKubernetesData (nodeName : Text) : NodeInfo :=
  (center.getNodes outside false ⟨nodeName, [], []⟩ []).1

/-- `getKubernetesData` without a name. -/
def getAllKubernetesData : NodeMap :=
  (center.getNodes outside true ⟨[], [], []⟩ []).2

end Center

/-! ### The loop in its two modes -/

/-- The record of one node. -/
def nodeInfo (item : Item) : NodeInfo :=
  Center.findInternalIp ⟨item.metadata.name, [], item.spec.podCidr⟩ item.status.addresses

@[simp] theorem name_findInternalIp (info : NodeInfo) (addresses : List Address) :
    (Center.findInternalIp info addresses).name = info.name := by
  induction addresses with
  | nil => rfl
  | cons addr addresses ih =>
      rw [Center.findInternalIp]
      split
      · rfl
      · exact ih

@[simp] theorem name_nodeInfo (item : Item) : (nodeInfo item).name = item.metadata.name :=
  name_findInternalIp ..

/-- For one node the loop returns its first record. -/
theorem visit_single (items : List Item) (single : NodeInfo) (all : NodeMap) :
    (Center.visit false items single all).1 =
      ((items.find? fun item => item.metadata.name = single.name).map nodeInfo).getD single := by
  induction items with
  | nil => rfl
  | cons item items ih =>
      by_cases h : item.metadata.name = single.name
      · simp [Center.visit, h, nodeInfo]
      · have hname : single.name ≠ item.metadata.name := fun he => h he.symm
        simp [Center.visit, h, hname, ih]

/-- For all nodes it returns the last record of each name. -/
theorem visit_all (items : List Item) (single : NodeInfo) (all : NodeMap) (n : Text) :
    (Center.visit true items single all).2.lookup n =
      ((items.reverse.find? fun item => item.metadata.name = n).map nodeInfo).or
        (all.lookup n) := by
  induction items generalizing all with
  | nil => rfl
  | cons item items ih =>
      have hvisit : Center.visit true (item :: items) single all =
          Center.visit true items single (assign all item.metadata.name (nodeInfo item)) := by
        simp [Center.visit, nodeInfo]
      rw [hvisit, ih, lookup_assign, List.reverse_cons, List.find?_append]
      by_cases h : n = item.metadata.name
      · cases items.reverse.find? fun item => item.metadata.name = n <;> simp [h]
      · have hname : item.metadata.name ≠ n := fun he => h he.symm
        cases items.reverse.find? fun item => item.metadata.name = n <;> simp [h, hname]

/-- With distinct names there is no first and last. -/
theorem find?_reverse {items : List Item} (h : (items.map fun item => item.metadata.name).Nodup)
    (n : Text) :
    (items.reverse.find? fun item => item.metadata.name = n) =
      items.find? fun item => item.metadata.name = n := by
  induction items with
  | nil => rfl
  | cons item items ih =>
      rw [List.map_cons, List.nodup_cons] at h
      rw [List.reverse_cons, List.find?_append, ih h.2, List.find?_cons]
      by_cases hn : item.metadata.name = n
      · have hnone : (items.find? fun item => item.metadata.name = n) = none := by
          rw [List.find?_eq_none]
          intro other hother he
          have hsame : other.metadata.name = n := by simpa using he
          exact h.1 (hn ▸ hsame ▸ List.mem_map_of_mem hother)
        simp [hnone, hn]
      · simp [hn]

/-- The query for one node gives the entry of the query for all, and a record
with no more than the name if there is none. -/
theorem getKubernetesData_eq (center : Center) (outside : Outside)
    (distinct : ∀ nodes, center.nodes outside = .ok nodes →
      (nodes.items.map fun item => item.metadata.name).Nodup) (n : Text) :
    center.getKubernetesData outside n =
      ((center.getAllKubernetesData outside).lookup n).getD ⟨n, [], []⟩ := by
  rw [Center.getKubernetesData, Center.getAllKubernetesData, Center.getNodes, Center.getNodes]
  cases h : center.nodes outside with
  | error _ => rfl
  | ok nodes =>
      simp only
      rw [visit_single, visit_all, find?_reverse (distinct nodes h)]
      simp

/-- Two nodes, the second without an address. -/
def twoNodes : Json :=
  .object [(jkeyKubeNodesItems, .array
    [.object [(jkeyKubeItemMd, .object [(jkeyKubeMetadataName, .string ['a'])]),
      (jkeyKubeItemSpec, .object [(jkeyKubeSpecPodcidr, .string "10.1.0.0/24".toList)]),
      (jkeyKubeItemStatus, .object [(jkeyKubeStatusAddr, .array
        [.object [(jkeyKubeAddressType, .string "Hostname".toList)],
          .object [(jkeyKubeAddressType, .string "InternalIP".toList),
            (jkeyKubeAddressAddr, .string "192.168.0.1".toList)]])])],
      .object [(jkeyKubeItemMd, .object [(jkeyKubeMetadataName, .string ['b'])])]])]

/-- An API server with these nodes, under any text. -/
def twoOutside : Outside := ⟨fun _ => ⟨httpOk, []⟩, fun _ => some twoNodes⟩

def centerA : Center := ⟨"https://192.168.0.1:6443".toList, true, ['t'], ['c']⟩

theorem getKubernetesData_eq_two : centerA.getKubernetesData twoOutside ['a'] =
    ((centerA.getAllKubernetesData twoOutside).lookup ['a']).getD ⟨['a'], [], []⟩ := by
  have hnodes : centerA.nodes twoOutside = .ok { items :=
      [⟨⟨['a']⟩, ⟨[⟨.hostname, []⟩, ⟨.internalIP, "192.168.0.1".toList⟩]⟩, ⟨"10.1.0.0/24".toList⟩⟩,
        ⟨⟨['b']⟩, ⟨[]⟩, ⟨[]⟩⟩] } := by rfl
  apply getKubernetesData_eq centerA twoOutside
  intro nodes h
  rw [hnodes] at h
  cases h
  decide

example : centerA.getKubernetesData twoOutside ['a'] =
    ⟨['a'], "192.168.0.1".toList, "10.1.0.0/24".toList⟩ := by rfl

end Ohno.NodeQueries
