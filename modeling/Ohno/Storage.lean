import Ohno.Nics

/-!
# The persisted network state

`Storage` keeps under `/ohno/node/<node>` what the plugin needs to rebuild its
objects. The functions are programs over the etcdctl commands, named as in the
source; a key is written as slash-separated parts behind the node. Splitting a
stored value and reading past its last part ends the process, as does any
other access out of bounds.
-/
namespace Ohno.Storage
open CommandPrograms DelimitedLists AddressText EtcdClientShell Subnets Nics

@[irreducible] def etcdKeyPrefixNode : Text := "/ohno/node".toList
@[irreducible] def partPod : Text := "pod".toList
@[irreducible] def partNetns : Text := "netns".toList
@[irreducible] def partNic : Text := "nic".toList
@[irreducible] def partAddr : Text := "addr".toList
@[irreducible] def partRoute : Text := "route".toList
@[irreducible] def partVtep : Text := "vtep".toList

/-- `SEPARATOR` -/
def separator : Char := '-'

/-! ### Keys -/

def nodeKey (node : Text) (parts : List Text) : Text :=
  etcdKeyPrefixNode ++ '/' :: (node ++ '/' :: join '/' parts)

def getNetnsKey (node pod : Text) : Text := nodeKey node [partPod, pod, partNetns]

/-- The key of a namespace that is already simple. -/
def singlePodKey (node simple : Text) : Text := nodeKey node [partNetns, simple, partPod]

def getSinglePodKey (node netns : Text) : Except Thrown Text := do
  let simple ← simpleNetns netns
  pure (singlePodKey node simple)

def getAllPodsKey (node : Text) : Text := nodeKey node [partPod]
def getNicKey (node pod : Text) : Text := nodeKey node [partPod, pod, partNic]
def getAddrKey (node pod nic : Text) : Text := nodeKey node [partPod, pod, partNic, nic, partAddr]
def getRouteKey (node pod nic : Text) : Text :=
  nodeKey node [partPod, pod, partNic, nic, partRoute]
def getVtepKey (node : Text) : Text := nodeKey node [partVtep]

def getRouteValue (dest via dev : Text) : Text := dest ++ separator :: (via ++ separator :: dev)
def getVtepValue (addr mac : Text) : Text := addr ++ separator :: mac

/-! ### Programs -/

def addNetns (node pod netns : Text) : EtcdProgram Bool := put (getNetnsKey node pod) netns

def delNetns (node pod : Text) : EtcdProgram Bool := del (getNetnsKey node pod)

/-- Also what a failed `get` left behind. -/
def getNetns (node pod : Text) : EtcdProgram Text := do
  let ret ← get (getNetnsKey node pod)
  pure ret.out

def addPod (node netns pod : Text) : EtcdProgram Bool := do
  let key ← Program.ofExcept (getSinglePodKey node netns)
  if ← put key pod then append (getAllPodsKey node) pod else pure false

def delPod (node netns : Text) : EtcdProgram Bool := do
  let key ← Program.ofExcept (getSinglePodKey node netns)
  let ret ← get key
  if ret.ok then
    if ← del key then delValue (getAllPodsKey node) ret.out else pure false
  else
    pure false

def getPod (node netns : Text) : EtcdProgram Text := do
  let key ← Program.ofExcept (getSinglePodKey node netns)
  let ret ← get key
  pure ret.out

/-- A list that cannot be read is empty. -/
def listOrEmpty (key : Text) : EtcdProgram (List Text) := do
  let ret ← list key
  pure (ret.getD [])

def getAllPods (node : Text) : EtcdProgram (List Text) := listOrEmpty (getAllPodsKey node)

def addNic (node pod nic : Text) : EtcdProgram Bool := append (getNicKey node pod) nic
def delNic (node pod nic : Text) : EtcdProgram Bool := delValue (getNicKey node pod) nic
def getAllNic (node pod : Text) : EtcdProgram (List Text) := listOrEmpty (getNicKey node pod)

def addAddr (node pod nic : Text) (addr : Addr) : EtcdProgram Bool := do
  let addrStr ← Program.ofExcept addr.getAddrCidr
  append (getAddrKey node pod nic) addrStr

def delAddr (node pod nic : Text) : EtcdProgram Bool := del (getAddrKey node pod nic)

def getAllAddrs (node pod nic : Text) : EtcdProgram (List Text) :=
  listOrEmpty (getAddrKey node pod nic)

def addRoute (node pod nic : Text) (r : Route) : EtcdProgram Bool :=
  append (getRouteKey node pod nic) (getRouteValue r.dest r.via r.dev)

def delRoute (node pod nic : Text) : EtcdProgram Bool := del (getRouteKey node pod nic)

/-- One stored route: destination, next hop and device. -/
def parseRoute (item : Text) : Except Thrown Route :=
  match split separator item with
  | dest :: via :: dev :: _ => .ok ⟨dest, via, dev⟩
  | _ => .error .segfault

def getAllRoutes (node pod nic : Text) : EtcdProgram (List Route) := do
  let items ← listOrEmpty (getRouteKey node pod nic)
  Program.ofExcept (items.mapM parseRoute)

def addVtep (node addr mac : Text) : EtcdProgram Bool :=
  put (getVtepKey node) (getVtepValue addr mac)

def delVtep (node : Text) : EtcdProgram Bool := del (getVtepKey node)

/-- Address and MAC of a stored VTEP, both empty for an empty text. -/
def parseVtep (value : Text) : Except Thrown (Text × Text) :=
  match split separator value with
  | [] => .ok ([], [])
  | addr :: mac :: _ => .ok (addr, mac)
  | [_] => .error .segfault

def getVtep (node : Text) : EtcdProgram (Text × Text) := do
  let ret ← get (getVtepKey node)
  if ret.ok then Program.ofExcept (parseVtep ret.out) else pure ([], [])

end Ohno.Storage
