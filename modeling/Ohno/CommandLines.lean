import Ohno.IpCommands
import Ohno.ShellWords

/-!
# The command lines

What `EtcdClientShell` and `NetlinkIpCmd` hand to the shell: `parts` lists the
arguments of a format string in its order, and `line` is the text. `readArgs` is how
the tools take an argument vector back to the command. A command is `Complete`
when no argument that the tools insist on is empty.
-/
namespace Ohno.CommandLines
open AddressText EtcdClientShell Netlink Nics IpCommands ShellWords

/-- `EtcdData` -/
structure EtcdData where
  endpoints : Text
  caCert : Text
  cert : Text
  key : Text

/-- The commands of the two classes; the last three are only used by the EVPN
backend. The bridge mode `reserved` is that of `bridgeSetStatus`. -/
inductive Line where
  | etcd (c : EtcdCmd)
  | ip (c : IpCmd)
  | vrfCreate (name : Text) (table : ℕ)
  | bridgeSetNone (name bridge netns : Text)
  | vxlanSetSlave (name : Text) (neighSuppress learning : Bool) (netns : Text)

def vxlanVni : ℕ := 42
def portVxlan : ℕ := 4789

/-! ### The format strings -/

/-- `command_prefix_`, which ends in a blank. -/
def commandPrefix (d : EtcdData) : List Text :=
  ["etcdctl".toList, "--endpoints=".toList ++ d.endpoints, "--cacert=".toList ++ d.caCert,
    "--cert=".toList ++ d.cert, "--key=".toList ++ d.key, []]

def etcdParts (d : EtcdData) : EtcdCmd → List Text
  | .get key => commandPrefix d ++ ["get".toList, key, "--print-value-only".toList]
  | .put key value => commandPrefix d ++ ["put".toList, "--".toList, key, value]
  | .del key => commandPrefix d ++ ["del".toList, key]

def addNetns (netns : Text) (command : List Text) : List Text :=
  if netns = [] then command
  else "ip".toList :: "netns".toList :: "exec".toList :: netns :: command

/-- `dev {}`, or nothing. -/
def device (dev : Text) : List Text := if dev = [] then [[]] else ["dev".toList, dev]

def action (add : Bool) : Text := if add then "add".toList else "del".toList

def onOff (b : Bool) : Text := if b then "on".toList else "off".toList

/-- The blank in front of the action is one of the source. -/
def statusParts : LinkStatus → List Text
  | .up => [[], "up".toList]
  | .down => [[], "down".toList]

def nhflagsText : RouteNHFlags → Text
  | .none => []
  | .onlink => "onlink".toList

def linkParts : NetlinkCmd → List Text
  | .linkDestory name netns =>
      addNetns netns ["ip".toList, "link".toList, "del".toList, "dev".toList, name]
  | .linkExist name netns => addNetns netns ["ip".toList, "link".toList, "show".toList, name]
  | .linkSetStatus name status netns =>
      addNetns netns (["ip".toList, "link".toList, "set".toList, "dev".toList, name] ++
        statusParts status)
  | .linkIsInNetns name netns =>
      addNetns netns ["ip".toList, "link".toList, "show".toList, "dev".toList, name]
  | .linkToNetns name netns =>
      ["ip".toList, "link".toList, "set".toList, "dev".toList, name, "netns".toList, netns]
  | .linkRename name newName netns =>
      addNetns netns
        ["ip".toList, "link".toList, "set".toList, "dev".toList, name, "name".toList, newName]
  | .vethCreate name₁ name₂ =>
      ["ip".toList, "link".toList, "add".toList, "dev".toList, name₁, "type".toList,
        "veth".toList, "peer".toList, name₂]
  | .bridgeCreate name =>
      ["ip".toList, "link".toList, "add".toList, "dev".toList, name, "type".toList,
        "bridge".toList]
  | .vxlanCreate name underlayAddr underlayDev =>
      ["ip".toList, "link".toList, "add".toList, "dev".toList, name, "type".toList,
        "vxlan".toList, "id".toList, decimal vxlanVni, "dstport".toList, decimal portVxlan,
        "local".toList, underlayAddr, "dev".toList, underlayDev, "nolearning".toList,
        "proxy".toList]
  | .bridgeSetStatus name master bridge netns =>
      addNetns netns ["ip".toList, "link".toList, "set".toList, "dev".toList, name,
        if master then "master".toList else "nomaster".toList, bridge, []]
  | .neighIsExist addr dev netns =>
      addNetns netns (["ip".toList, "neigh".toList, "show".toList, addr] ++ device dev)
  | .neighSetEntry addr mac add dev netns =>
      addNetns netns (["ip".toList, "neigh".toList, action add, addr, "lladdr".toList, mac] ++
        device dev)
  | .fdbIsExist mac underlayAddr dev netns =>
      addNetns netns ["bridge".toList, "fdb".toList, "show".toList, "dev".toList, dev, bar,
        "grep".toList, mac, bar, "grep".toList, underlayAddr]
  | .fdbSetEntry mac underlayAddr dev add netns =>
      addNetns netns ["bridge".toList, "fdb".toList, action add, mac, "dev".toList, dev,
        "dst".toList, underlayAddr]
  | _ => []

def ipParts : IpCmd → List Text
  | .addrShow name netns =>
      addNetns netns ["ip".toList, "addr".toList, "show".toList, "dev".toList, name]
  | .addrSet add addr name netns =>
      addNetns netns ["ip".toList, "addr".toList, action add, addr, "dev".toList, name]
  | .routeShow dest via dev netns =>
      addNetns netns (["ip".toList, "route".toList, "show".toList, dest, "via".toList, via] ++
        device dev)
  | .routeSet add dest via dev nhflags netns =>
      addNetns netns (["ip".toList, "route".toList, action add, dest, "via".toList, via] ++
        device dev ++ [nhflagsText nhflags])
  | .other c => linkParts c

def parts (d : EtcdData) : Line → List Text
  | .etcd c => etcdParts d c
  | .ip c => ipParts c
  | .vrfCreate name table =>
      ["ip".toList, "link".toList, "add".toList, "name".toList, name, "type".toList, "vrf".toList,
        "table".toList, decimal table]
  | .bridgeSetNone name bridge netns =>
      addNetns netns ["ip".toList, "link".toList, "set".toList, "dev".toList, name,
        "master".toList, bridge, "addrgenmode".toList, "none".toList]
  | .vxlanSetSlave name neighSuppress learning netns =>
      addNetns netns ["ip".toList, "link".toList, "set".toList, name, "type".toList,
        "bridge_slave".toList, "neigh_suppress".toList, onOff neighSuppress, "learning".toList,
        onOff learning]

/-- The text for the shell. -/
def line (d : EtcdData) (c : Line) : Text := unwords (parts d c)

/-! ### The tools -/

def readAction : String → Option Bool
  | "add" => some true
  | "del" => some false
  | _ => none

def readOnOff : String → Option Bool
  | "on" => some true
  | "off" => some false
  | _ => none

def readEtcd : List String → Option Line
  | ["get", key, "--print-value-only"] => some (.etcd (.get key.toList))
  | ["put", "--", key, value] => some (.etcd (.put key.toList value.toList))
  | ["del", key] => some (.etcd (.del key.toList))
  | _ => none

def readAdd : List String → Option Line
  | ["dev", n, "type", "veth", "peer", m] => some (.ip (.other (.vethCreate n.toList m.toList)))
  | ["dev", n, "type", "bridge"] => some (.ip (.other (.bridgeCreate n.toList)))
  | ["dev", n, "type", "vxlan", "id", "42", "dstport", "4789", "local", a, "dev", d, "nolearning",
      "proxy"] => some (.ip (.other (.vxlanCreate n.toList a.toList d.toList)))
  | ["name", n, "type", "vrf", "table", t] =>
      some (.vrfCreate n.toList (Nat.ofDigitChars 10 t.toList 0))
  | _ => none

def readSet (netns : Text) : List String → Option Line
  | ["dev", n, "up"] => some (.ip (.other (.linkSetStatus n.toList .up netns)))
  | ["dev", n, "down"] => some (.ip (.other (.linkSetStatus n.toList .down netns)))
  | ["dev", n, "netns", m] => some (.ip (.other (.linkToNetns n.toList m.toList)))
  | ["dev", n, "name", m] => some (.ip (.other (.linkRename n.toList m.toList netns)))
  | ["dev", n, "master", b] => some (.ip (.other (.bridgeSetStatus n.toList true b.toList netns)))
  | ["dev", n, "master", b, "addrgenmode", "none"] => some (.bridgeSetNone n.toList b.toList netns)
  | [n, "type", "bridge_slave", "neigh_suppress", a, "learning", b] => do
      let a ← readOnOff a
      let b ← readOnOff b
      some (.vxlanSetSlave n.toList a b netns)
  | _ => none

/-- Flags of addresses. `ip` looks for them in all listings, with `-` for their
opposite. -/
def showFlags : List Text :=
  ["permanent".toList, "dynamic".toList, "secondary".toList, "primary".toList,
    "temporary".toList, "deprecated".toList, "tentative".toList, "optimistic".toList,
    "dadfailed".toList, "nodad".toList, "home".toList, "mngtmpaddr".toList,
    "noprefixroute".toList, "autojoin".toList, "stable-privacy".toList]

/-- What `ip link show` does not take for the name of a device. It shares its
arguments with `ip addr show`, and `help` may be cut short. -/
def showWords : List Text :=
  ["dev".toList, "to".toList, "scope".toList, "label".toList, "group".toList, "up".toList,
    "master".toList, "vrf".toList, "type".toList, "nomaster".toList, "novf".toList,
    "proto".toList, "h".toList, "he".toList, "hel".toList, "help".toList] ++
    showFlags ++ showFlags.map ('-' :: ·)

def readLink (netns : Text) : List String → Option Line
  | "add" :: rest => readAdd rest
  | "set" :: rest => readSet netns rest
  | ["del", "dev", n] => some (.ip (.other (.linkDestory n.toList netns)))
  | ["show", n] =>
      if showWords.any (· = n.toList) then none else some (.ip (.other (.linkExist n.toList netns)))
  | ["show", "dev", n] => some (.ip (.other (.linkIsInNetns n.toList netns)))
  | _ => none

def readAddr (netns : Text) : List String → Option Line
  | ["show", "dev", n] => some (.ip (.addrShow n.toList netns))
  | [a, addr, "dev", n] => do
      let add ← readAction a
      some (.ip (.addrSet add addr.toList n.toList netns))
  | _ => none

def readRoute (netns : Text) : List String → Option Line
  | ["show", d, "via", v] => some (.ip (.routeShow d.toList v.toList [] netns))
  | ["show", d, "via", v, "dev", x] => some (.ip (.routeShow d.toList v.toList x.toList netns))
  | [a, d, "via", v] => do
      let add ← readAction a
      some (.ip (.routeSet add d.toList v.toList [] .none netns))
  | [a, d, "via", v, "onlink"] => do
      let add ← readAction a
      some (.ip (.routeSet add d.toList v.toList [] .onlink netns))
  | [a, d, "via", v, "dev", x] => do
      let add ← readAction a
      some (.ip (.routeSet add d.toList v.toList x.toList .none netns))
  | [a, d, "via", v, "dev", x, "onlink"] => do
      let add ← readAction a
      some (.ip (.routeSet add d.toList v.toList x.toList .onlink netns))
  | _ => none

def readNeigh (netns : Text) : List String → Option Line
  | ["show", a] => some (.ip (.other (.neighIsExist a.toList [] netns)))
  | ["show", a, "dev", x] => some (.ip (.other (.neighIsExist a.toList x.toList netns)))
  | [act, a, "lladdr", m] => do
      let add ← readAction act
      some (.ip (.other (.neighSetEntry a.toList m.toList add [] netns)))
  | [act, a, "lladdr", m, "dev", x] => do
      let add ← readAction act
      some (.ip (.other (.neighSetEntry a.toList m.toList add x.toList netns)))
  | _ => none

def readFdb (netns : Text) : List String → Option Line
  | ["show", "dev", d, "|", "grep", m, "|", "grep", u] =>
      some (.ip (.other (.fdbIsExist m.toList u.toList d.toList netns)))
  | [act, m, "dev", d, "dst", u] => do
      let add ← readAction act
      some (.ip (.other (.fdbSetEntry m.toList u.toList d.toList add netns)))
  | _ => none

def readTool (netns : Text) : List String → Option Line
  | "ip" :: "link" :: rest => readLink netns rest
  | "ip" :: "addr" :: rest => readAddr netns rest
  | "ip" :: "route" :: rest => readRoute netns rest
  | "ip" :: "neigh" :: rest => readNeigh netns rest
  | "bridge" :: "fdb" :: rest => readFdb netns rest
  | _ => none

/-- What an argument vector means. -/
def readArgs : List String → Option Line
  | "etcdctl" :: _ :: _ :: _ :: _ :: rest => readEtcd rest
  | "ip" :: "netns" :: "exec" :: netns :: rest => readTool netns.toList rest
  | rest => readTool [] rest

/-- What the tools make of a command line. -/
def understand (t : Text) : Option Line := (lex t).bind fun ws => readArgs (ws.map String.ofList)

/-- The arguments that a tool insists on, unless the tool does not take the command
as it is meant: a port is never taken out of a named bridge. -/
def required : Line → Option (List Text)
  | .etcd (.get key) => some [key]
  | .etcd (.put key value) => some [key, value]
  | .etcd (.del key) => some [key]
  | .ip (.addrShow name _) => some [name]
  | .ip (.addrSet _ addr name _) => some [addr, name]
  | .ip (.routeShow dest via _ _) => some [dest, via]
  | .ip (.routeSet _ dest via _ _ _) => some [dest, via]
  | .ip (.other c) =>
      match c with
      | .linkDestory name _ => some [name]
      | .linkExist name _ => if showWords.any (· = name) then none else some [name]
      | .linkSetStatus name _ _ => some [name]
      | .linkIsInNetns name _ => some [name]
      | .linkToNetns name netns => some [name, netns]
      | .linkRename name newName _ => some [name, newName]
      | .vethCreate name₁ name₂ => some [name₁, name₂]
      | .bridgeCreate name => some [name]
      | .vxlanCreate name underlayAddr underlayDev => some [name, underlayAddr, underlayDev]
      | .bridgeSetStatus name master bridge _ => if master then some [name, bridge] else none
      | .neighIsExist addr _ _ => some [addr]
      | .neighSetEntry addr mac _ _ _ => some [addr, mac]
      | .fdbIsExist mac underlayAddr dev _ => some [mac, underlayAddr, dev]
      | .fdbSetEntry mac underlayAddr dev _ _ => some [mac, underlayAddr, dev]
      | _ => none
  | .vrfCreate name _ => some [name]
  | .bridgeSetNone name bridge _ => some [name, bridge]
  | .vxlanSetSlave name _ _ _ => some [name]

def Complete (c : Line) : Prop := ∃ l, required c = some l ∧ ∀ t ∈ l, t ≠ []

section Read
variable (d : EtcdData) (netns dev : Text)

def argv (ts : List Text) : List String := (ts.filter (· ≠ [])).map String.ofList

@[simp] theorem argv_nil : argv [] = [] := rfl

@[simp] theorem argv_cons (t : Text) (ts : List Text) :
    argv (t :: ts) = if t = [] then argv ts else String.ofList t :: argv ts := by
  by_cases h : t = []
  · simp [argv, h]
  · simp [argv, h]

theorem read_link (ts : List Text) :
    readArgs (argv (addNetns netns ("ip".toList :: "link".toList :: ts))) =
      readLink netns (argv ts) := by
  by_cases h : netns = []
  · simp [addNetns, h, readArgs, readTool]
  · simp [addNetns, h, readArgs, readTool]

theorem read_addr (ts : List Text) :
    readArgs (argv (addNetns netns ("ip".toList :: "addr".toList :: ts))) =
      readAddr netns (argv ts) := by
  by_cases h : netns = []
  · simp [addNetns, h, readArgs, readTool]
  · simp [addNetns, h, readArgs, readTool]

theorem read_route (ts : List Text) :
    readArgs (argv (addNetns netns ("ip".toList :: "route".toList :: ts))) =
      readRoute netns (argv ts) := by
  by_cases h : netns = []
  · simp [addNetns, h, readArgs, readTool]
  · simp [addNetns, h, readArgs, readTool]

theorem read_neigh (ts : List Text) :
    readArgs (argv (addNetns netns ("ip".toList :: "neigh".toList :: ts))) =
      readNeigh netns (argv ts) := by
  by_cases h : netns = []
  · simp [addNetns, h, readArgs, readTool]
  · simp [addNetns, h, readArgs, readTool]

theorem read_fdb (ts : List Text) :
    readArgs (argv (addNetns netns ("bridge".toList :: "fdb".toList :: ts))) =
      readFdb netns (argv ts) := by
  by_cases h : netns = []
  · simp [addNetns, h, readArgs, readTool]
  · simp [addNetns, h, readArgs, readTool]

theorem read_etcd (ts : List Text) :
    readArgs (argv (commandPrefix d ++ ts)) = readEtcd (argv ts) := by
  simp [commandPrefix, readArgs]

theorem vxlan_numbers : decimal vxlanVni = "42".toList ∧ decimal portVxlan = "4789".toList := by
  decide +kernel

theorem read_etcdParts {c : EtcdCmd} (h : Complete (.etcd c)) :
    readArgs (argv (etcdParts d c)) = some (.etcd c) := by
  obtain ⟨l, hl, hne⟩ := h
  cases c with
  | get key =>
      obtain rfl := Option.some.inj hl
      have hkey : key ≠ [] := hne key (by simp)
      rw [etcdParts, read_etcd]
      simp [readEtcd, hkey]
  | put key value =>
      obtain rfl := Option.some.inj hl
      have hkey : key ≠ [] := hne key (by simp)
      have hvalue : value ≠ [] := hne value (by simp)
      rw [etcdParts, read_etcd]
      simp [readEtcd, hkey, hvalue]
  | del key =>
      obtain rfl := Option.some.inj hl
      have hkey : key ≠ [] := hne key (by simp)
      rw [etcdParts, read_etcd]
      simp [readEtcd, hkey]

section LinkLines
variable {netns name newName bridge addr mac dev : Text}

theorem read_link_root (ts : List Text) :
    readArgs (argv ("ip".toList :: "link".toList :: ts)) = readLink [] (argv ts) := by
  have hread := read_link [] ts
  rwa [addNetns, if_pos rfl] at hread

attribute [local simp] linkParts readLink readSet readAdd readNeigh readFdb readAction

theorem read_linkDestory (hname : name ≠ []) :
    readArgs (argv (linkParts (.linkDestory name netns))) =
      some (.ip (.other (.linkDestory name netns))) := by
  rw [linkParts, read_link]
  simp [hname]

theorem read_linkExist (hname : name ≠ []) (hshow : showWords.any (· = name) = false) :
    readArgs (argv (linkParts (.linkExist name netns))) =
      some (.ip (.other (.linkExist name netns))) := by
  rw [linkParts, read_link]
  simp [hname, hshow]

theorem read_linkSetStatus (hname : name ≠ []) (status : LinkStatus) :
    readArgs (argv (linkParts (.linkSetStatus name status netns))) =
      some (.ip (.other (.linkSetStatus name status netns))) := by
  rw [linkParts, List.cons_append, List.cons_append, read_link]
  cases status with
  | up => simp [statusParts, hname]
  | down => simp [statusParts, hname]

theorem read_linkIsInNetns (hname : name ≠ []) :
    readArgs (argv (linkParts (.linkIsInNetns name netns))) =
      some (.ip (.other (.linkIsInNetns name netns))) := by
  rw [linkParts, read_link]
  simp [hname]

theorem read_linkToNetns (hname : name ≠ []) (hnetns : netns ≠ []) :
    readArgs (argv (linkParts (.linkToNetns name netns))) =
      some (.ip (.other (.linkToNetns name netns))) := by
  rw [linkParts, read_link_root]
  simp [hname, hnetns]

theorem read_linkRename (hname : name ≠ []) (hnew : newName ≠ []) :
    readArgs (argv (linkParts (.linkRename name newName netns))) =
      some (.ip (.other (.linkRename name newName netns))) := by
  rw [linkParts, read_link]
  simp [hname, hnew]

theorem read_vethCreate (hname : name ≠ []) (hnew : newName ≠ []) :
    readArgs (argv (linkParts (.vethCreate name newName))) =
      some (.ip (.other (.vethCreate name newName))) := by
  rw [linkParts, read_link_root]
  simp [hname, hnew]

theorem read_bridgeCreate (hname : name ≠ []) :
    readArgs (argv (linkParts (.bridgeCreate name))) =
      some (.ip (.other (.bridgeCreate name))) := by
  rw [linkParts, read_link_root]
  simp [hname]

theorem read_vxlanCreate (hname : name ≠ []) (haddr : addr ≠ []) (hdev : dev ≠ []) :
    readArgs (argv (linkParts (.vxlanCreate name addr dev))) =
      some (.ip (.other (.vxlanCreate name addr dev))) := by
  rw [linkParts, vxlan_numbers.1, vxlan_numbers.2, read_link_root]
  simp [hname, haddr, hdev]

theorem read_bridgeSetStatus (hname : name ≠ []) (hbridge : bridge ≠ []) :
    readArgs (argv (linkParts (.bridgeSetStatus name true bridge netns))) =
      some (.ip (.other (.bridgeSetStatus name true bridge netns))) := by
  rw [linkParts, read_link]
  simp [hname, hbridge]

theorem read_neighIsExist (haddr : addr ≠ []) :
    readArgs (argv (linkParts (.neighIsExist addr dev netns))) =
      some (.ip (.other (.neighIsExist addr dev netns))) := by
  rw [linkParts, List.cons_append, List.cons_append, read_neigh]
  by_cases hdev : dev = []
  · simp [device, haddr, hdev]
  · simp [device, haddr, hdev]

theorem read_neighSetEntry (haddr : addr ≠ []) (hmac : mac ≠ []) (add : Bool) :
    readArgs (argv (linkParts (.neighSetEntry addr mac add dev netns))) =
      some (.ip (.other (.neighSetEntry addr mac add dev netns))) := by
  rw [linkParts, List.cons_append, List.cons_append, read_neigh]
  by_cases hdev : dev = []
  · cases add <;> simp [device, action, haddr, hmac, hdev]
  · cases add <;> simp [device, action, haddr, hmac, hdev]

theorem read_fdbIsExist (hmac : mac ≠ []) (haddr : addr ≠ []) (hdev : dev ≠ []) :
    readArgs (argv (linkParts (.fdbIsExist mac addr dev netns))) =
      some (.ip (.other (.fdbIsExist mac addr dev netns))) := by
  rw [linkParts, read_fdb]
  simp [bar, hmac, haddr, hdev]

theorem read_fdbSetEntry (hmac : mac ≠ []) (haddr : addr ≠ []) (hdev : dev ≠ []) (add : Bool) :
    readArgs (argv (linkParts (.fdbSetEntry mac addr dev add netns))) =
      some (.ip (.other (.fdbSetEntry mac addr dev add netns))) := by
  rw [linkParts, read_fdb]
  cases add <;> simp [action, hmac, haddr, hdev]

end LinkLines

theorem read_linkParts {c : NetlinkCmd} (h : Complete (.ip (.other c))) :
    readArgs (argv (linkParts c)) = some (.ip (.other c)) := by
  obtain ⟨l, hl, hne⟩ := h
  cases c with
  | linkDestory name netns =>
      obtain rfl := Option.some.inj hl
      exact read_linkDestory (hne name (by simp))
  | linkExist name netns =>
      cases hshow : showWords.any (· = name) with
      | true => simp [required, hshow] at hl
      | false =>
          have hlist : [name] = l := by simpa [required, hshow] using hl
          exact read_linkExist (hne name (by simp [← hlist])) hshow
  | linkSetStatus name status netns =>
      obtain rfl := Option.some.inj hl
      exact read_linkSetStatus (hne name (by simp)) status
  | linkIsInNetns name netns =>
      obtain rfl := Option.some.inj hl
      exact read_linkIsInNetns (hne name (by simp))
  | linkToNetns name netns =>
      obtain rfl := Option.some.inj hl
      exact read_linkToNetns (hne name (by simp)) (hne netns (by simp))
  | linkRename name newName netns =>
      obtain rfl := Option.some.inj hl
      exact read_linkRename (hne name (by simp)) (hne newName (by simp))
  | vethCreate name₁ name₂ =>
      obtain rfl := Option.some.inj hl
      exact read_vethCreate (hne name₁ (by simp)) (hne name₂ (by simp))
  | bridgeCreate name =>
      obtain rfl := Option.some.inj hl
      exact read_bridgeCreate (hne name (by simp))
  | vxlanCreate name addr dev =>
      obtain rfl := Option.some.inj hl
      exact read_vxlanCreate (hne name (by simp)) (hne addr (by simp)) (hne dev (by simp))
  | bridgeSetStatus name master bridge netns =>
      cases master with
      | false => cases hl
      | true =>
          obtain rfl := Option.some.inj hl
          exact read_bridgeSetStatus (hne name (by simp)) (hne bridge (by simp))
  | neighIsExist addr dev netns =>
      obtain rfl := Option.some.inj hl
      exact read_neighIsExist (hne addr (by simp))
  | neighSetEntry addr mac add dev netns =>
      obtain rfl := Option.some.inj hl
      exact read_neighSetEntry (hne addr (by simp)) (hne mac (by simp)) add
  | fdbIsExist mac addr dev netns =>
      obtain rfl := Option.some.inj hl
      exact read_fdbIsExist (hne mac (by simp)) (hne addr (by simp)) (hne dev (by simp))
  | fdbSetEntry mac addr dev add netns =>
      obtain rfl := Option.some.inj hl
      exact read_fdbSetEntry (hne mac (by simp)) (hne addr (by simp)) (hne dev (by simp)) add
  | addressIsExist name addr netns => cases hl
  | addressSetEntry name addr add netns => cases hl
  | routeIsExist dst via dev netns => cases hl
  | routeSetEntry dst via add dev netns nhflags => cases hl

theorem read_ipParts {c : IpCmd} (h : Complete (.ip c)) :
    readArgs (argv (ipParts c)) = some (.ip c) := by
  cases c with
  | addrShow name netns =>
      obtain ⟨l, hl, hne⟩ := h
      obtain rfl := Option.some.inj hl
      have hname : name ≠ [] := hne name (by simp)
      rw [ipParts, read_addr]
      simp [readAddr, hname]
  | addrSet add addr name netns =>
      obtain ⟨l, hl, hne⟩ := h
      obtain rfl := Option.some.inj hl
      have haddr : addr ≠ [] := hne addr (by simp)
      have hname : name ≠ [] := hne name (by simp)
      rw [ipParts, read_addr]
      cases add <;> simp [action, readAction, readAddr, haddr, hname]
  | routeShow dest via dev netns =>
      obtain ⟨l, hl, hne⟩ := h
      obtain rfl := Option.some.inj hl
      have hdest : dest ≠ [] := hne dest (by simp)
      have hvia : via ≠ [] := hne via (by simp)
      rw [ipParts, List.cons_append, List.cons_append, read_route]
      by_cases hdev : dev = []
      · simp [device, readRoute, hdest, hvia, hdev]
      · simp [device, readRoute, hdest, hvia, hdev]
  | routeSet add dest via dev nhflags netns =>
      obtain ⟨l, hl, hne⟩ := h
      obtain rfl := Option.some.inj hl
      have hdest : dest ≠ [] := hne dest (by simp)
      have hvia : via ≠ [] := hne via (by simp)
      rw [ipParts, List.cons_append, List.cons_append, List.cons_append, List.cons_append,
        read_route]
      by_cases hdev : dev = []
      · cases nhflags <;> cases add <;>
          simp [device, nhflagsText, action, readAction, readRoute, hdest, hvia, hdev]
      · cases nhflags <;> cases add <;>
          simp [device, nhflagsText, action, readAction, readRoute, hdest, hvia, hdev]
  | other c => exact read_linkParts h

/-- The command that is understood is the one that was meant. -/
theorem read_parts {c : Line} (h : Complete c) : readArgs (argv (parts d c)) = some c := by
  cases c with
  | etcd c => exact read_etcdParts d h
  | ip c => exact read_ipParts h
  | vrfCreate name table =>
      obtain ⟨l, hl, hne⟩ := h
      obtain rfl := Option.some.inj hl
      have hname : name ≠ [] := hne name (by simp)
      have htable : Nat.ofDigitChars 10 (decimal table) 0 = table := Nat.ofDigitChars_ten_toDigits
      rw [parts, read_link_root]
      simp [readLink, readAdd, hname, decimal_ne_nil, htable]
  | bridgeSetNone name bridge netns =>
      obtain ⟨l, hl, hne⟩ := h
      obtain rfl := Option.some.inj hl
      have hname : name ≠ [] := hne name (by simp)
      have hbridge : bridge ≠ [] := hne bridge (by simp)
      rw [parts, read_link]
      simp [readLink, readSet, hname, hbridge]
  | vxlanSetSlave name neighSuppress learning netns =>
      obtain ⟨l, hl, hne⟩ := h
      obtain rfl := Option.some.inj hl
      have hname : name ≠ [] := hne name (by simp)
      rw [parts, read_link]
      cases neighSuppress <;> cases learning <;> simp [onOff, readOnOff, readLink, readSet, hname]

end Read

/-! ### Plain arguments -/

/-- The texts of a command. -/
def arguments : Line → List Text
  | .etcd (.get key) => [key]
  | .etcd (.put key value) => [key, value]
  | .etcd (.del key) => [key]
  | .ip (.addrShow name netns) => [name, netns]
  | .ip (.addrSet _ addr name netns) => [addr, name, netns]
  | .ip (.routeShow dest via dev netns) => [dest, via, dev, netns]
  | .ip (.routeSet _ dest via dev _ netns) => [dest, via, dev, netns]
  | .ip (.other c) =>
      match c with
      | .linkDestory name netns => [name, netns]
      | .linkExist name netns => [name, netns]
      | .linkSetStatus name _ netns => [name, netns]
      | .linkIsInNetns name netns => [name, netns]
      | .linkToNetns name netns => [name, netns]
      | .linkRename name newName netns => [name, newName, netns]
      | .vethCreate name₁ name₂ => [name₁, name₂]
      | .bridgeCreate name => [name]
      | .vxlanCreate name underlayAddr underlayDev => [name, underlayAddr, underlayDev]
      | .bridgeSetStatus name _ bridge netns => [name, bridge, netns]
      | .neighIsExist addr dev netns => [addr, dev, netns]
      | .neighSetEntry addr mac _ dev netns => [addr, mac, dev, netns]
      | .fdbIsExist mac underlayAddr dev netns => [mac, underlayAddr, dev, netns]
      | .fdbSetEntry mac underlayAddr dev _ netns => [mac, underlayAddr, dev, netns]
      | _ => []
  | .vrfCreate name _ => [name]
  | .bridgeSetNone name bridge netns => [name, bridge, netns]
  | .vxlanSetSlave name _ _ netns => [name, netns]

structure EtcdData.Plain (d : EtcdData) : Prop where
  endpoints : ShellWords.Plain d.endpoints
  caCert : ShellWords.Plain d.caCert
  cert : ShellWords.Plain d.cert
  key : ShellWords.Plain d.key

theorem plain_decimal (n : ℕ) : Plain (decimal n) := by
  intro c hc
  simp [plainChar, Char.isAlphanum, isDigit_of_mem_decimal hc]

section Parts
variable {netns dev : Text} {ts : List Text}

theorem token_addNetns (hn : Plain netns) (h : ∀ t ∈ ts, Token t) :
    ∀ t ∈ addNetns netns ts, Token t := by
  unfold addNetns
  split_ifs
  · exact h
  · simp only [List.forall_mem_cons]
    exact ⟨.inl (by simp [plainChar]), .inl (by simp [plainChar]), .inl (by simp [plainChar]),
      .inl hn, h⟩

theorem token_device (h : Plain dev) : ∀ t ∈ device dev, Token t := by
  unfold device
  split_ifs
  · simp [Token]
  · simp [Token, plainChar, h]

theorem token_action (add : Bool) : Token (action add) := by
  cases add <;> simp [action, Token, plainChar]

theorem plain_commandPrefix {d : EtcdData} (hd : d.Plain) : ∀ t ∈ commandPrefix d, Plain t := by
  simp [commandPrefix, plainChar, hd.endpoints, hd.caCert, hd.cert, hd.key]

theorem plain_etcdParts {d : EtcdData} (hd : d.Plain) {c : EtcdCmd}
    (h : ∀ t ∈ arguments (.etcd c), Plain t) : ∀ t ∈ etcdParts d c, Plain t := by
  cases c with
  | get key =>
      simp only [arguments, List.forall_mem_cons] at h
      rw [etcdParts, List.forall_mem_append]
      exact ⟨plain_commandPrefix hd, by simp [plainChar, h]⟩
  | put key value =>
      simp only [arguments, List.forall_mem_cons] at h
      rw [etcdParts, List.forall_mem_append]
      exact ⟨plain_commandPrefix hd, by simp [plainChar, h]⟩
  | del key =>
      simp only [arguments, List.forall_mem_cons] at h
      rw [etcdParts, List.forall_mem_append]
      exact ⟨plain_commandPrefix hd, by simp [plainChar, h]⟩

theorem token_linkParts {c : NetlinkCmd} (h : ∀ t ∈ arguments (.ip (.other c)), Plain t) :
    ∀ t ∈ linkParts c, Token t := by
  cases c with
  | linkDestory name netns =>
      simp only [arguments, List.forall_mem_cons] at h
      exact token_addNetns h.2.1 (by simp [Token, plainChar, h])
  | linkExist name netns =>
      simp only [arguments, List.forall_mem_cons] at h
      exact token_addNetns h.2.1 (by simp [Token, plainChar, h])
  | linkSetStatus name status netns =>
      simp only [arguments, List.forall_mem_cons] at h
      cases status with
      | up => exact token_addNetns h.2.1 (by simp [statusParts, Token, plainChar, h])
      | down => exact token_addNetns h.2.1 (by simp [statusParts, Token, plainChar, h])
  | linkIsInNetns name netns =>
      simp only [arguments, List.forall_mem_cons] at h
      exact token_addNetns h.2.1 (by simp [Token, plainChar, h])
  | linkToNetns name netns =>
      simp only [arguments, List.forall_mem_cons] at h
      simp [linkParts, Token, plainChar, h]
  | linkRename name newName netns =>
      simp only [arguments, List.forall_mem_cons] at h
      exact token_addNetns h.2.2.1 (by simp [Token, plainChar, h])
  | vethCreate name₁ name₂ =>
      simp only [arguments, List.forall_mem_cons] at h
      simp [linkParts, Token, plainChar, h]
  | bridgeCreate name =>
      simp only [arguments, List.forall_mem_cons] at h
      simp [linkParts, Token, plainChar, h]
  | vxlanCreate name underlayAddr underlayDev =>
      simp only [arguments, List.forall_mem_cons] at h
      simp [linkParts, Token, plainChar, plain_decimal, h]
  | bridgeSetStatus name master bridge netns =>
      simp only [arguments, List.forall_mem_cons] at h
      cases master with
      | true => exact token_addNetns h.2.2.1 (by simp [Token, plainChar, h])
      | false => exact token_addNetns h.2.2.1 (by simp [Token, plainChar, h])
  | neighIsExist addr dev netns =>
      simp only [arguments, List.forall_mem_cons] at h
      apply token_addNetns h.2.2.1
      rw [List.forall_mem_append]
      exact ⟨by simp [Token, plainChar, h], token_device h.2.1⟩
  | neighSetEntry addr mac add dev netns =>
      simp only [arguments, List.forall_mem_cons] at h
      apply token_addNetns h.2.2.2.1
      rw [List.forall_mem_append]
      exact ⟨by cases add <;> simp [action, Token, plainChar, h], token_device h.2.2.1⟩
  | fdbIsExist mac underlayAddr dev netns =>
      simp only [arguments, List.forall_mem_cons] at h
      exact token_addNetns h.2.2.2.1 (by simp [Token, plainChar, bar, h])
  | fdbSetEntry mac underlayAddr dev add netns =>
      simp only [arguments, List.forall_mem_cons] at h
      exact token_addNetns h.2.2.2.1 (by cases add <;> simp [action, Token, plainChar, h])
  | addressIsExist name addr netns => simp [linkParts]
  | addressSetEntry name addr add netns => simp [linkParts]
  | routeIsExist dst via dev netns => simp [linkParts]
  | routeSetEntry dst via add dev netns nhflags => simp [linkParts]

theorem token_ipParts {c : IpCmd} (h : ∀ t ∈ arguments (.ip c), Plain t) :
    ∀ t ∈ ipParts c, Token t := by
  cases c with
  | addrShow name netns =>
      simp only [arguments, List.forall_mem_cons] at h
      exact token_addNetns h.2.1 (by simp [Token, plainChar, h])
  | addrSet add addr name netns =>
      simp only [arguments, List.forall_mem_cons] at h
      exact token_addNetns h.2.2.1 (by cases add <;> simp [action, Token, plainChar, h])
  | routeShow dest via dev netns =>
      simp only [arguments, List.forall_mem_cons] at h
      apply token_addNetns h.2.2.2.1
      rw [List.forall_mem_append]
      exact ⟨by simp [Token, plainChar, h], token_device h.2.2.1⟩
  | routeSet add dest via dev nhflags netns =>
      simp only [arguments, List.forall_mem_cons] at h
      apply token_addNetns h.2.2.2.1
      rw [List.forall_mem_append, List.forall_mem_append]
      have hflags : Plain (nhflagsText nhflags) := by
        cases nhflags <;> simp [nhflagsText, plainChar]
      exact ⟨⟨by cases add <;> simp [action, Token, plainChar, h], token_device h.2.2.1⟩,
        by simp [Token, hflags]⟩
  | other c => exact token_linkParts h

theorem token_parts {d : EtcdData} (hd : d.Plain) {c : Line} (h : ∀ t ∈ arguments c, Plain t) :
    ∀ t ∈ parts d c, Token t := by
  cases c with
  | etcd c => exact fun t ht => .inl (plain_etcdParts hd h t ht)
  | ip c => exact token_ipParts h
  | vrfCreate name table =>
      simp only [arguments, List.forall_mem_cons] at h
      simp [parts, Token, plainChar, plain_decimal, h]
  | bridgeSetNone name bridge netns =>
      simp only [arguments, List.forall_mem_cons] at h
      exact token_addNetns h.2.2.1 (by simp [Token, plainChar, h])
  | vxlanSetSlave name neighSuppress learning netns =>
      simp only [arguments, List.forall_mem_cons] at h
      apply token_addNetns h.2.1
      cases neighSuppress <;> cases learning <;> simp [onOff, Token, plainChar, h]

end Parts

/-- The tools see the arguments that are not empty. -/
theorem lex_line {d : EtcdData} (hd : d.Plain) {c : Line} (h : ∀ t ∈ arguments c, Plain t) :
    lex (line d c) = some ((parts d c).filter (· ≠ [])) := lex_unwords (token_parts hd h)

/-- A command with plain arguments is understood as it was meant. -/
theorem understand_line {d : EtcdData} (hd : d.Plain) {c : Line} (h : ∀ t ∈ arguments c, Plain t)
    (hc : Complete c) : understand (line d c) = some c := by
  rw [understand, lex_line hd h, Option.bind_some]
  exact read_parts d hc

/-- The client of a cluster as `kubeadm` sets it up. -/
def dataA : EtcdData where
  endpoints := "https://10.0.0.1:2379".toList
  caCert := "/etc/etcd/ca.crt".toList
  cert := "/etc/etcd/client.crt".toList
  key := "/etc/etcd/client.key".toList

theorem plain_dataA : dataA.Plain := by
  constructor <;> exact List.all_eq_true.mp (by decide)

end Ohno.CommandLines
