import Ohno.EtcdClientShell

/-!
# The node list of the API server

The types of `api/v1/nodes` and how they are read from JSON. A member that is
missing leaves its default, and so does a value that is no object; a member of
the wrong kind throws. `nlohmann::json` parses the text and is not part of the
repository.
-/
namespace Ohno.KubeNodes
open AddressText EtcdClientShell

/-- A parsed text. Nothing reads null, a boolean or a number. -/
inductive Json where
  | scalar
  | string (text : Text)
  | array (elems : List Json)
  | object (members : List (Text × Json))

namespace Json

def contains (json : Json) (key : Text) : Bool :=
  match json with
  | object members => (members.lookup key).isSome
  | _ => false

/-- `json.at(key)` -/
def atKey (json : Json) (key : Text) : Except Thrown Json :=
  match json with
  | object members =>
      match members.lookup key with
      | some value => .ok value
      | none => .error .standard
  | _ => .error .standard

/-- `get<std::string>` -/
def getString : Json → Except Thrown Text
  | string text => .ok text
  | _ => .error .standard

/-- `get<std::vector<A>>`, with the reader of one element. -/
def getVector {A : Type} (fromJson : Json → Except Thrown A) : Json → Except Thrown (List A)
  | array elems => elems.mapM fromJson
  | _ => .error .standard

/-- `if (json.contains(key)) field = json.at(key).get<A>()` for a field with its default. -/
def readField {A : Type} (json : Json) (key : Text) (default : A)
    (get : Json → Except Thrown A) : Except Thrown A :=
  if json.contains key then (json.atKey key).bind get else .ok default

end Json

def jkeyKubeMetadataName : Text := "name".toList
def jkeyKubeAddressType : Text := "type".toList
def jkeyKubeAddressAddr : Text := "address".toList
def jkeyKubeStatusAddr : Text := "addresses".toList
def jkeyKubeSpecPodcidr : Text := "podCIDR".toList
def jkeyKubeItemMd : Text := "metadata".toList
def jkeyKubeItemStatus : Text := "status".toList
def jkeyKubeItemSpec : Text := "spec".toList
def jkeyKubeNodesItems : Text := "items".toList

inductive AddressType where
  | reserved
  | internalIP
  | hostname
deriving Repr, DecidableEq

/-- `stringEnum`, by the names of the enumerators. -/
def AddressType.ofString (str : Text) : Option AddressType :=
  if str = "Reserved".toList then some .reserved
  else if str = "InternalIP".toList then some .internalIP
  else if str = "Hostname".toList then some .hostname
  else none

/-! ### The types and their readers -/

structure Metadata where
  name : Text := []
deriving Repr, DecidableEq

structure Address where
  type : AddressType := .reserved
  address : Text := []
deriving Repr, DecidableEq

structure Status where
  addresses : List Address := []
deriving Repr, DecidableEq

structure Spec where
  podCidr : Text := []
deriving Repr, DecidableEq

structure Item where
  metadata : Metadata := {}
  status : Status := {}
  spec : Spec := {}
deriving Repr, DecidableEq

structure KubeApiv1Nodes where
  items : List Item := []
deriving Repr, DecidableEq

def Metadata.fromJson (json : Json) : Except Thrown Metadata := do
  let name ← json.readField jkeyKubeMetadataName [] Json.getString
  pure { name }

/-- The type of an address; a name that is none is reserved. -/
def AddressType.fromJson (json : Json) : Except Thrown AddressType := do
  let str ← json.getString
  pure ((AddressType.ofString str).getD .reserved)

def Address.fromJson (json : Json) : Except Thrown Address := do
  let type ← json.readField jkeyKubeAddressType .reserved AddressType.fromJson
  let address ← json.readField jkeyKubeAddressAddr [] Json.getString
  pure { type, address }

def Status.fromJson (json : Json) : Except Thrown Status := do
  let addresses ← json.readField jkeyKubeStatusAddr [] (Json.getVector Address.fromJson)
  pure { addresses }

def Spec.fromJson (json : Json) : Except Thrown Spec := do
  let podCidr ← json.readField jkeyKubeSpecPodcidr [] Json.getString
  pure { podCidr }

def Item.fromJson (json : Json) : Except Thrown Item := do
  let metadata ← json.readField jkeyKubeItemMd {} Metadata.fromJson
  let spec ← json.readField jkeyKubeItemSpec {} Spec.fromJson
  let status ← json.readField jkeyKubeItemStatus {} Status.fromJson
  pure { metadata, status, spec }

def KubeApiv1Nodes.fromJson (json : Json) : Except Thrown KubeApiv1Nodes := do
  let items ← json.readField jkeyKubeNodesItems [] (Json.getVector Item.fromJson)
  pure { items }

end Ohno.KubeNodes
