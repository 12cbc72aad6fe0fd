import Ohno.Ipam
import Ohno.Storage

/-!
# The CNI plugin

Each invocation of the plugin is a process of its own: it rebuilds the objects
of the node from what `Storage` has persisted, acts on them, and exits. `Cni`
is what the process knows besides: its configuration, the node it runs on, the
pod CIDR that the API server has for that node, the MAC of ohnov, and a random
text. The objects are values, and a function that changes one returns it.

`ipam_->dump`, which feeds the log, is left out. An assertion only logs.
-/
namespace Ohno.CniPlugin
open CommandPrograms DelimitedLists AddressText EtcdClientShell Subnets Ipam Netlink Nics

/-- `CniConfigIpam::Mode` -/
inductive Mode where
  | reserved
  | hostGw
  | vxlan
  | evpn
deriving Repr, DecidableEq

structure CniConfig where
  cniVersion : Text
  type : Text
  bridge : Text
  subnet : Text
  mode : Mode
deriving Repr, DecidableEq

@[irreducible] def defaultConfPluginsName : Text := "ohno".toList
@[irreducible] def host : Text := "host".toList
@[irreducible] def unknownAddrV4 : Text := "0.0.0.0/32".toList

def str (t : Text) : String := String.ofList t

def cniErrcodeOhno : ℕ := 278

/-- The IPAM mode that is in force, unless the configuration is refused. That of
another plugin is not looked at and leaves the mode as it was, which is unset. -/
def parseConfig (conf : CniConfig) (unset : Mode) : Except Thrown Mode :=
  if conf.type = defaultConfPluginsName then
    if conf.bridge = [] then .error (.cniError 7 "Bridge name is empty")
    else if Storage.separator ∈ conf.bridge then
      .error (.cniError 7 "Bridge name can't contain '-'")
    else if conf.mode = .reserved then .error (.cniError 7 "Invalid IPAM mode")
    else .ok conf.mode
  else
    .ok unset

/-! ### Device names -/

/-- FNV-1a on 32 bits, over the bytes of the text. -/
def shortHash (input : Text) : BitVec 32 :=
  input.foldl (fun hash c => (hash ^^^ BitVec.ofNat 32 (c.toNat % 256)) * 16777619#32)
    2166136261#32

/-- At most 15 characters: the text itself or six hexadecimal digits. -/
def getShortHash (longName : Text) : Text :=
  if longName.length ≤ 15 then longName
  else
    let digits := Nat.toDigits 16 (shortHash longName).toNat
    (List.replicate (6 - digits.length) '0' ++ digits).take 6

@[irreducible] def prefixVeth : Text := "veth_".toList
@[irreducible] def prefixOhno : Text := "ohno_".toList

/-! ### The object graph -/

section Maps
variable {V : Type}

/-- `std::unordered_map::emplace`: a key that is there keeps its value. -/
def emplace (m : List (Text × V)) (k : Text) (v : V) : List (Text × V) :=
  if (m.lookup k).isSome then m else m ++ [(k, v)]

def remove (m : List (Text × V)) (k : Text) : List (Text × V) := m.filter (·.1 ≠ k)

/-- The object behind a pointer that the map holds has changed. -/
def replace (m : List (Text × V)) (k : Text) (v : V) : List (Text × V) :=
  m.map fun e => if e.1 = k then (k, v) else e

end Maps

/-- `ipam::Netns`, a pod with its interfaces. -/
structure Netns where
  name : Text := []
  nics : List (Text × Nic) := []
deriving Repr, DecidableEq

def Netns.addNic (pod : Netns) (nic : Nic) : Netns :=
  { pod with nics := emplace pod.nics nic.name nic }

def Netns.delNic (pod : Netns) (name : Text) : Netns := { pod with nics := remove pod.nics name }

structure Node where
  subnet : Option Subnet := none
  netns : List (Text × Netns) := []
deriving Repr, DecidableEq

/-- `Node::getSubnet` -/
def Node.getSubnet (node : Node) : Except Thrown Text :=
  match node.subnet with
  | none => .ok []
  | some s => s.getSubnet

/-- What a process has loaded: `cluster_` and `gateway_`. -/
structure Loaded where
  cluster : List (Text × Node) := []
  gateway : Option Addr := none
deriving Repr, DecidableEq

structure CniResult where
  cniVersion : Text
  address : Text
  gateway : Text
  name : Text
  sandbox : Text
deriving Repr, DecidableEq

structure Cni where
  conf : CniConfig
  ipamMode : Mode
  boost : Boost
  /-- Whether `getNodeInfo` found the next three. -/
  nodeInfo : Bool := true
  node : Text
  underlayDev : Text
  underlayAddr : Text
  podCidr : Text
  /-- Empty when it could not be read. -/
  vxlanMac : Text
  uniqueId : Text := []

namespace Cni
variable (cni : Cni)

def fail {A : Type} (code : ℕ) (details : String) : OhnoProgram A :=
  .throw (.cniError code details)

/-! ### Restoring the objects -/

/-- `none` when the interface cannot be set up. -/
def getStorageNic (pod nic : Text) : OhnoProgram (Option Nic) := do
  let kind :=
    if pod = host ∧ nic = cni.underlayDev then NicKind.underlay
    else if nic = cni.conf.bridge then .bridge
    else .nic
  let ret ← Nic.setup { kind, name := nic }
  pure (if ret.1 then some ret.2 else none)

/-- Whether the interface could be moved is not looked at. -/
def enterNetns (pod : Text) (obj : Nic) : OhnoProgram Nic := do
  if pod = host then
    pure obj
  else
    let netns ← etcd (Storage.getNetns cni.node pod)
    let ret ← obj.setNetns netns
    pure ret.2

/-- The first address of the bridge becomes the gateway. -/
def restoreAddrs (nic : Text) : List Text → Nic → Option Addr → OhnoProgram (Nic × Option Addr)
  | [], obj, gateway => pure (obj, gateway)
  | cidr :: rest, obj, gateway => do
      let addr := Addr.ofCidr cni.boost cidr
      let gateway := if gateway = none ∧ nic = cni.conf.bridge then some addr else gateway
      let ret ← obj.addAddr addr
      restoreAddrs nic rest ret.2 gateway

def restoreRoutes : List Route → Nic → OhnoProgram Nic
  | [], obj => pure obj
  | r :: rest, obj => do
      let ret ← obj.addRoute r .none
      restoreRoutes rest ret.2

def restoreNic (pod nic : Text) (gateway : Option Addr) :
    OhnoProgram (Option Nic × Option Addr) := do
  match ← cni.getStorageNic pod nic with
  | none => pure (none, gateway)
  | some obj => do
      let obj ← cni.enterNetns pod obj
      let addrs ← etcd (Storage.getAllAddrs cni.node pod nic)
      let ret ← cni.restoreAddrs nic addrs obj gateway
      let routes ← etcd (Storage.getAllRoutes cni.node pod nic)
      let obj ← restoreRoutes routes ret.1
      pure (some obj, ret.2)

def restoreNics (pod : Text) : List Text → Netns → Option Addr →
    OhnoProgram (Netns × Option Addr)
  | [], obj, gateway => pure (obj, gateway)
  | nic :: rest, obj, gateway => do
      let ret ← cni.restoreNic pod nic gateway
      match ret.1 with
      | none => restoreNics pod rest obj ret.2
      | some nicObj => restoreNics pod rest (obj.addNic nicObj) ret.2

def restorePods : List Text → Node → Option Addr → OhnoProgram (Node × Option Addr)
  | [], node, gateway => pure (node, gateway)
  | pod :: rest, node, gateway => do
      let nics ← etcd (Storage.getAllNic cni.node pod)
      let ret ← cni.restoreNics pod nics { name := pod } gateway
      restorePods rest { node with netns := emplace node.netns pod ret.1 } ret.2

/-- `initKubernetesNode`; name and underlay of the node object are never read. -/
def initKubernetesNode (node : Node) (subnet : Text) : Except Thrown Node := do
  let s ← Subnet.init cni.boost subnet
  pure { node with subnet := some s }

def getKubernetesCluster : OhnoProgram Loaded := do
  let ret ← etcd (getSubnet cni.node)
  if ret.1 then
    let node ← Program.ofExcept (cni.initKubernetesNode {} ret.2)
    let pods ← etcd (Storage.getAllPods cni.node)
    let restored ← cni.restorePods pods node none
    pure { cluster := emplace [] cni.node restored.1, gateway := restored.2 }
  else
    pure {}

/-! ### Creating the node -/

/-- What the system did not take is not recorded. -/
def storeAddr (nic : Text) (addr : Addr) (added : Bool) : OhnoProgram Bool :=
  if added then etcd (Storage.addAddr cni.node host nic addr) else pure true

def getBridge (bridgeAddr : Text) : OhnoProgram Nic := do
  if ← etcd (Storage.addNic cni.node host cni.conf.bridge) then
    let ret ← Nic.setup { kind := .bridge, name := cni.conf.bridge }
    if ret.1 then
      let addr := Addr.ofCidr cni.boost bridgeAddr
      let added ← ret.2.addAddr addr
      if ← cni.storeAddr cni.conf.bridge addr added.1 then
        let _ ← added.2.setStatus .up
        pure added.2
      else
        fail cniErrcodeOhno (s!"Failed to store bridge:{str cni.conf.bridge} " ++
          s!"gateway:{str bridgeAddr} on node:{str cni.node}")
    else
      fail 7 s!"Failed to create Kubernetes node:{str cni.node} bridge object"
  else
    fail cniErrcodeOhno
      s!"Failed to store bridge:{str cni.conf.bridge} on node:{str cni.node}"

/-- `Vxlan::Vxlan` keeps the underlay address without its prefix if it can. -/
def vxlanKind : NicKind :=
  match (Addr.ofCidr cni.boost cni.underlayAddr).getAddr with
  | .ok addr => .vxlan addr cni.underlayDev
  | .error _ => .vxlan cni.underlayAddr cni.underlayDev

def getVxlan (nodeSubnet : Text) : OhnoProgram Nic := do
  if ← etcd (Storage.addNic cni.node host nameVxlan) then
    let ret ← Nic.setup { kind := cni.vxlanKind, name := nameVxlan }
    if ret.1 then
      let subnet ← Program.ofExcept (Subnet.init cni.boost nodeSubnet)
      let vxlanAddr ← Program.ofExcept subnet.extractAddr
      let addr := Addr.ofCidr cni.boost vxlanAddr
      let added ← ret.2.addAddr addr
      if ← cni.storeAddr nameVxlan addr added.1 then
        let _ ← added.2.setStatus .up
        if cni.vxlanMac = [] then
          fail 7 s!"Failed to get vxlan:{str nameVxlan} mac on node:{str cni.node}"
        else if ← etcd (Storage.addVtep cni.node vxlanAddr cni.vxlanMac) then
          pure added.2
        else
          fail cniErrcodeOhno (s!"Failed to store vxlan:{str nameVxlan} addr:{str vxlanAddr} " ++
            s!"mac:{str cni.vxlanMac} on node:{str cni.node}")
      else
        fail cniErrcodeOhno s!"Failed to store vxlan:{str vxlanAddr} on node:{str cni.node}"
    else
      fail 7 s!"Failed to create Kubernetes node:{str cni.node} vxlan object"
  else
    fail cniErrcodeOhno s!"Failed to store vxlan:{str nameVxlan} on node:{str cni.node}"

def createVxlan (nodeSubnet : Text) : OhnoProgram (Option Nic) :=
  if cni.ipamMode = .vxlan then do
    let nic ← cni.getVxlan nodeSubnet
    pure (some nic)
  else
    pure none

def rootPod (bridge : Nic) (vxlan : Option Nic) (underlay : Nic) : Netns :=
  let pod := Netns.addNic {} bridge
  let pod := match cni.ipamMode, vxlan with
    | .vxlan, some nic => pod.addNic nic
    | _, _ => pod
  { pod.addNic underlay with name := host }

/-- The first namespace of a node is the root namespace. -/
def getRootPod (node : Node) (bridge : Nic) (vxlan : Option Nic) (underlay : Nic) :
    OhnoProgram Node := do
  let node := { node with netns := emplace node.netns host (cni.rootPod bridge vxlan underlay) }
  if ← etcd (Storage.addNetns cni.node host host) then
    if ← etcd (Storage.addPod cni.node host host) then
      pure node
    else
      fail cniErrcodeOhno "Failed to store root namespace"
  else
    fail cniErrcodeOhno s!"Failed to add root namespace:{str host}"

/-- The branch of `getKubernetesNode` that creates the node. -/
def createNode (loaded : Loaded) : OhnoProgram (Node × Loaded) := do
  let subnet ← etcd (allocateSubnet cni.node cni.podCidr)
  if subnet.1 then
    let gateway ← etcd (allocateIp cni.boost cni.node)
    if gateway.1 then
      let bridge ← cni.getBridge gateway.2
      let vxlan ← cni.createVxlan subnet.2
      if ← etcd (Storage.addNic cni.node host cni.underlayDev) then
        let node ← cni.getRootPod {} bridge vxlan { kind := .underlay, name := cni.underlayDev }
        let node ← Program.ofExcept (cni.initKubernetesNode node subnet.2)
        pure (node, { cluster := emplace loaded.cluster cni.node node,
                      gateway := some (Addr.ofCidr cni.boost gateway.2) })
      else
        fail cniErrcodeOhno
          s!"Failed to store underlay dev:{str cni.underlayDev} on node:{str cni.node}"
    else
      fail 7 (s!"Failed to reserve gateway:{str gateway.2} for node:{str cni.node}, " ++
        "the gateway had been used")
  else
    fail 7 s!"Failed to allocate subnet for node:{str cni.node}"

/-- `getKubernetesNode` with the permission to create. -/
def getKubernetesNode (loaded : Loaded) : OhnoProgram (Node × Loaded) :=
  match loaded.cluster.lookup cni.node with
  | some node => pure (node, loaded)
  | none => cni.createNode loaded

theorem getKubernetesNode_found {loaded : Loaded} {node : Node}
    (h : loaded.cluster.lookup cni.node = some node) :
    cni.getKubernetesNode loaded = pure (node, loaded) := by
  simp only [getKubernetesNode, h]

/-! ### Pods and their interfaces -/

/-- A pod that is missing is an error unless it may be created. -/
def getKubernetesPod (node : Node) (podName : Text) (create : Bool) : OhnoProgram (Netns × Node) :=
  match node.netns.lookup podName with
  | some pod => pure (pod, node)
  | none =>
      if create then
        let pod := { name := podName }
        pure (pod, { node with netns := emplace node.netns podName pod })
      else
        fail 7 s!"No this pod:{str podName}, but you do not to create?"

/-- A pod without a namespace is not looked for on the list of pods. -/
def delListedPod (netnsName : Text) : OhnoProgram Bool :=
  if netnsName = [] then pure true else etcd (Storage.delPod cni.node netnsName)

def delKubernetesPod (node : Node) (podName : Text) : OhnoProgram Node := do
  let netnsName ← etcd (Storage.getNetns cni.node podName)
  if ← etcd (Storage.delNetns cni.node podName) then
    if ← cni.delListedPod netnsName then
      pure { node with netns := remove node.netns podName }
    else
      fail cniErrcodeOhno s!"Failed to add container id:{str netnsName}"
  else
    fail cniErrcodeOhno s!"Failed to add namespace of pod:{str podName}"

def nicPluginBridge (loaded : Loaded) (nicName : Text) : OhnoProgram Unit := do
  match loaded.cluster.lookup cni.node with
  | none => fail cniErrcodeOhno s!"Failed to get Kubernetes node {str cni.node}"
  | some node => do
      let pod ← getKubernetesPod node host false
      match pod.1.nics.lookup cni.conf.bridge with
      | some nic =>
          if nic.kind = .bridge then
            if ← nic.setMaster nicName then
              pure ()
            else
              fail 7 s!"Failed to set bridge master of veth on node:{str cni.node}"
          else
            fail 7 s!"Failed to get bridge in host netns on node:{str cni.node}"
      | none => fail 7 s!"Failed to get bridge in host netns on node:{str cni.node}"

/-- Formatting the last two messages throws another exception, because the
format strings name an argument that is not given. -/
def configPodNetwork (gateway : Option Addr) (nic : Nic) (nicName containerId : Text) :
    OhnoProgram Nic := do
  let podAddr ← etcd (allocateIp cni.boost cni.node)
  if podAddr.1 then
    let addr := Addr.ofCidr cni.boost podAddr.2
    let added ← nic.addAddr addr
    if added.1 then
      if ← etcd (Storage.addAddr cni.node containerId nicName addr) then
        match gateway with
        | none => .throw .segfault
        | some gw => do
            let via ← Program.ofExcept gw.getAddr
            let routed ← added.2.addRoute ⟨[], via, nicName⟩ .none
            if routed.1 then
              if ← etcd (Storage.addRoute cni.node containerId nicName ⟨[], via, nicName⟩) then
                pure routed.2
              else
                .throw .standard
            else
              .throw .standard
      else
        fail cniErrcodeOhno
          s!"Failed to store nic:{str nicName} addr:{str podAddr.2} on node:{str cni.node}"
    else
      fail 7 s!"Failed to add IP address:{str podAddr.2} to veth on node:{str cni.node}"
  else
    fail 7 s!"Failed to allocate IP address on node:{str cni.node}"

/-- The branch of `getKubernetesNic` that creates the interface. -/
def createNic (loaded : Loaded) (pod : Netns) (nicName vethPeer netns : Text) :
    OhnoProgram Nic := do
  let cid ← etcd (Storage.getPod cni.node netns)
  if cid ≠ [] ∧ cid ≠ pod.name then
    fail 7 (s!"CRI error: Pod:{str cid} and Pod:{str pod.name} " ++
      s!"belongs to one namespace:{str netns}")
  else if ← etcd (Storage.addPod cni.node netns pod.name) then
    if ← etcd (Storage.addNetns cni.node pod.name netns) then
      if ← etcd (Storage.addNic cni.node pod.name nicName) then
        let ret ← Nic.setup
          { kind := .veth vethPeer, name := prefixOhno ++ getShortHash cni.uniqueId }
        if ret.1 then
          let entered ← ret.2.setNetns netns
          if entered.1 then
            let renamed ← entered.2.rename nicName
            let _ ← renamed.2.setStatus .up
            cni.nicPluginBridge loaded vethPeer
            cni.configPodNetwork loaded.gateway renamed.2 nicName pod.name
          else
            fail 7 s!"Failed to set iface {str nicName} netns"
        else
          fail 7 s!"Failed to create iface pair {str nicName}--{str vethPeer}"
      else
        fail cniErrcodeOhno s!"Failed to store nic:{str nicName} on node:{str cni.node}"
    else
      fail cniErrcodeOhno s!"Failed to add namespace:{str netns} to pod:{str pod.name}"
  else
    fail cniErrcodeOhno s!"Failed to add container:{str pod.name} to namespace:{str netns}"

/-- The first address of an interface, as text. -/
def addrText (nic : Nic) (unknown : Text) : Except Thrown Text :=
  match nic.getAddr with
  | some addr => addr.getAddrCidr
  | none => .ok unknown

/-- The underlay device keeps its address. -/
def releaseNicIp (pod : Netns) (iface : Nic) (podAddr : Text) : OhnoProgram Bool :=
  if pod.name = host ∧ iface.name = cni.underlayDev then pure true
  else etcd (releaseIp cni.node podAddr)

def delNicVtep : OhnoProgram Bool :=
  if cni.ipamMode = .vxlan then etcd (Storage.delVtep cni.node) else pure true

/-- An interface that the pod does not have is left alone. -/
def delKubernetesNic (pod : Netns) (nicName : Text) : OhnoProgram Netns := do
  match pod.nics.lookup nicName with
  | none => pure pod
  | some iface => do
      let podAddr ← Program.ofExcept (addrText iface [])
      iface.cleanup
      let _ ← cni.releaseNicIp pod iface podAddr
      if ← etcd (Storage.delAddr cni.node pod.name nicName) then
        if ← etcd (Storage.delRoute cni.node pod.name nicName) then
          if ← etcd (Storage.delNic cni.node pod.name nicName) then
            if ← cni.delNicVtep then
              pure (pod.delNic nicName)
            else
              fail cniErrcodeOhno s!"Failed to delete vtep on node:{str cni.node}"
          else
            fail cniErrcodeOhno s!"Failed to delete nic:{str nicName} on node:{str cni.node}"
        else
          fail cniErrcodeOhno
            s!"Failed to delete route of nic:{str nicName} on node:{str cni.node}"
      else
        fail cniErrcodeOhno s!"Failed to delete addr of nic:{str nicName} on node:{str cni.node}"

/-! ### The operations -/

/-- The message for an address outside the configured subnet. -/
def outsideSubnet (cidr : Text) : String :=
  s!"CNI interfaces subnet:{str cidr} is not CNI configuration subnet of {str cni.conf.subnet}"

/-- The interface of a pod that has it already. -/
def reuseNic (nic : Nic) (vethPod : Text) : OhnoProgram Nic := do
  match nic.getAddr with
  | none => fail 7 s!"Failed to get veth address:{str vethPod}"
  | some addr => do
      let cidr ← Program.ofExcept addr.getAddrCidr
      let subnet ← Program.ofExcept (Subnet.init cni.boost cidr)
      if ← Program.ofExcept (subnet.isSubnetOf cni.boost cni.conf.subnet) then
        if ← nic.isExist then
          pure nic
        else
          let ret ← nic.rename vethPod
          if ret.1 then
            pure ret.2
          else
            fail 7 s!"Failed to rename veth:{str ret.2.name} to veth:{str vethPod}"
      else
        fail 7 (cni.outsideSubnet cidr)

/-- The interface of a pod: the one it has, or a new one. -/
def getPodNic (loaded : Loaded) (pod : Netns) (nicName vethHost netns : Text) : OhnoProgram Nic :=
  match pod.nics.lookup nicName with
  | some nic => cni.reuseNic nic nicName
  | none => cni.createNic loaded pod nicName vethHost netns

/-- What `add` reports. -/
def result (loaded : Loaded) (nic : Nic) (nicName netns : Text) : Except Thrown CniResult := do
  let podAddr ← addrText nic unknownAddrV4
  match loaded.gateway with
  | none => .error .segfault
  | some gw => do
      let gateway ← gw.getAddr
      pure ⟨cni.conf.cniVersion, podAddr, gateway, nicName, netns⟩

def add (containerId netns nicName : Text) : OhnoProgram CniResult := do
  if cni.nodeInfo then
    let loaded ← cni.getKubernetesCluster
    let ret ← cni.getKubernetesNode loaded
    let found ← getKubernetesPod ret.1 containerId true
    let loaded := { ret.2 with cluster := replace ret.2.cluster cni.node found.2 }
    let vethHost := prefixVeth ++ getShortHash containerId
    let nic ← cni.getPodNic loaded found.1 nicName vethHost netns
    Program.ofExcept (cni.result loaded nic nicName netns)
  else
    fail cniErrcodeOhno "Failed to get current node info"

/-- What `del` does when only the root namespace is left. -/
def tearDown (node : Node) : OhnoProgram Unit := do
  let found ← getKubernetesPod node host false
  let pod ← cni.delKubernetesNic found.1 cni.conf.bridge
  let pod ← cni.delKubernetesNic pod nameVxlan
  let _ ← cni.delKubernetesNic pod cni.underlayDev
  let node ← cni.delKubernetesPod node host
  let subnet ← Program.ofExcept node.getSubnet
  if subnet = [] then
    pure ()
  else
    let _ ← etcd (releaseSubnet cni.node subnet)
    pure ()

/-- The body of `del`. -/
def delBody (containerId nicName : Text) : OhnoProgram Unit := do
  if cni.nodeInfo then
    let loaded ← cni.getKubernetesCluster
    match loaded.cluster.lookup cni.node with
    | none => fail cniErrcodeOhno s!"Failed to get Kubernetes node:{str cni.node}"
    | some node => do
        let found ← getKubernetesPod node containerId false
        let _ ← cni.delKubernetesNic found.1 nicName
        let node ← cni.delKubernetesPod node containerId
        if node.netns.length = 1 then cni.tearDown node else pure ()
  else
    fail cniErrcodeOhno "Failed to get current node info"

/-- Whatever is thrown is logged. A null pointer ends the process all the same. -/
def del (containerId nicName : Text) : OhnoProgram Unit :=
  (cni.delBody containerId nicName).catch_ fun e =>
    if e = .segfault then .throw .segfault else .pure ()

end Cni
end Ohno.CniPlugin
