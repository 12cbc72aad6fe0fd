import Ohno.CniPlugin
import Ohno.CommandTraces
import Ohno.LinkTables

/-!
# The EVPN backend

In EVPN mode the daemon runs no thread. `start` wires four links together: a
VRF, a bridge in it with the VTEP as its port, and the bridge of the pods, which
belongs to the plugin; `stop` takes the first three away. A command that fails
while a link is created throws; later ones are only logged.

The daemon may be killed and started again, its commands may fail, and others
may change the links. `wired_after_lives` says that one start in which nothing
fails wires what it finds. It creates what is missing and plugs everything in,
but it checks no link that is there: a VTEP keeps its address and device, and
links with the daemon's names have to be of its kinds (`Suited`, `Elsewhere`).
-/
namespace Ohno.EvpnBackend
open CommandPrograms CommandTraces AddressText EtcdClientShell Subnets Netlink Nics LinkTables

/-! ### The code -/

inductive BridgeAddrGenMode where
  | reserved
  | none
deriving Repr, DecidableEq

/-- The commands of the daemon in this mode. The last three are those of
`Center::getNodeInfo`. -/
inductive EvpnCmd where
  | plain (c : Cmd)
  | vrfCreate (name : Text) (table : ℕ)
  | bridgeSetStatus (name : Text) (master : Bool) (bridge : Text) (mode : BridgeAddrGenMode)
      (netns : Text)
  | vxlanSetSlave (name : Text) (neighSuppress learning : Bool) (netns : Text)
  | hostname
  | defaultDevice
  | deviceAddress (dev : Text)
deriving Repr, DecidableEq

abbrev EvpnProgram (A : Type) := Program EvpnCmd Reply Thrown A

@[irreducible] def bgpEvpnVrf : Text := "ohnovrf".toList
@[irreducible] def bgpEvpnBr : Text := "ohnol3svi".toList
@[irreducible] def bgpEvpnVtep : Text := "ohnol3vni".toList

def vrfTable : ℕ := 1100

/-- A function of `Nic`. -/
def nicCall {A : Type} (p : OhnoProgram A) : EvpnProgram A := p.embed .plain

/-- `net::Vrf`, a bridge with a routing table. -/
structure Vrf where
  nic : Nic
  table : ℕ := vrfTable
deriving Repr, DecidableEq

def Vrf.setup (vrf : Vrf) : EvpnProgram (Bool × Vrf) := do
  let linked : Vrf := { vrf with nic := { vrf.nic with netlink := true } }
  if ← nicCall (Netlink.netlink (.linkExist vrf.nic.name [])) then
    pure (true, linked)
  else
    let ret ← Program.request (.vrfCreate vrf.nic.name vrf.table)
    pure (ret.ok, linked)

/-- `Bridge::setImpl` -/
def setImpl (bridge : Nic) (nicName : Text) (master : Bool) (mode : BridgeAddrGenMode) :
    EvpnProgram Bool := do
  if bridge.netlink then
    let ret ← Program.request (.bridgeSetStatus nicName master bridge.name mode bridge.netns)
    pure ret.ok
  else
    pure false

def setMaster (bridge : Nic) (nicName : Text) (mode : BridgeAddrGenMode) : EvpnProgram Bool :=
  setImpl bridge nicName true mode

/-- `Vxlan::setSlave` -/
def setSlave (vxlan : Nic) (neighSuppress learning : Bool) : EvpnProgram Bool := do
  if vxlan.netlink then
    let ret ← Program.request (.vxlanSetSlave vxlan.name neighSuppress learning vxlan.netns)
    pure ret.ok
  else
    pure false

/-- `Vxlan::Vxlan` -/
def vxlanKind (boost : Boost) (underlayAddr underlayDev : Text) : NicKind :=
  match (Addr.ofCidr boost underlayAddr).getAddr with
  | .ok addr => .vxlan addr underlayDev
  | .error _ => .vxlan underlayAddr underlayDev

/-- `Center::getNodeInfo`: the name, the underlay device and its address. -/
def getNodeInfo : EvpnProgram (Option (Text × Text × Text)) := do
  let name ← Program.request .hostname
  if name.ok && name.out ≠ [] then
    let dev ← Program.request .defaultDevice
    if dev.ok && dev.out ≠ [] then
      let addr ← Program.request (.deviceAddress dev.out)
      if addr.ok && addr.out ≠ [] then
        pure (some (name.out, dev.out, addr.out))
      else
        pure none
    else
      pure none
  else
    pure none

structure Evpn where
  vrf : Vrf
  bridgeL3 : Nic
  bridgeL2 : Nic
  vxlan : Nic
deriving Repr, DecidableEq

/-- `if (!nic->setup(netlink_)) throw` -/
def orThrow {A : Type} (msg : String) (ret : Bool × A) : EvpnProgram A :=
  if ret.1 then .pure ret.2 else .throw (.exception msg)

/-- `StrategyClient::getEvpn` -/
def getEvpn (boost : Boost) (l2svi : Text) : EvpnProgram Evpn := do
  let ret ← Vrf.setup { nic := { kind := .bridge, name := bgpEvpnVrf } }
  let vrf ← orThrow "Create Vrf device meets error: invalid Netlink" ret
  let ret ← nicCall (Nic.setup { kind := .bridge, name := bgpEvpnBr })
  let bridgeL3 ← orThrow "Create L3 Bridge device meets error: invalid Netlink" ret
  let ret ← nicCall (Nic.setup { kind := .bridge, name := l2svi })
  let bridgeL2 ← orThrow "Create L2 Bridge device meets error: invalid Netlink" ret
  match ← getNodeInfo with
  | none => .throw (.exception "Cannot get current Kubernetes node infos")
  | some info =>
      let ret ← nicCall (Nic.setup
        { kind := vxlanKind boost info.2.2 info.2.1, name := bgpEvpnVtep })
      let vxlan ← orThrow "Create Vxlan device meets error: invalid Netlink" ret
      pure ⟨vrf, bridgeL3, bridgeL2, vxlan⟩

/-- Whatever fails is logged. -/
def Evpn.envSetup (e : Evpn) : EvpnProgram Unit := do
  let _ ← nicCall (e.vrf.nic.setStatus .up)
  let _ ← nicCall (e.bridgeL3.setStatus .up)
  let _ ← nicCall (e.bridgeL2.setStatus .up)
  let _ ← setMaster e.vrf.nic e.bridgeL3.name .none
  let _ ← setMaster e.vrf.nic e.bridgeL2.name .none
  let _ ← nicCall (e.vxlan.setStatus .up)
  let _ ← setMaster e.bridgeL3 e.vxlan.name .reserved
  let _ ← setSlave e.vxlan true false
  pure ()

/-- The bridge of the pods stays. -/
def Evpn.envCleanup (e : Evpn) : EvpnProgram Unit :=
  (do
    nicCall e.vrf.nic.cleanup
    nicCall e.bridgeL3.cleanup
    nicCall e.vxlan.cleanup).catch_ fun _ => .pure ()

/-- `StrategyClient::executeStrategy` with mode `evpn`; `healthy` is what
`Center::test` returns. -/
def launch (boost : Boost) (l2svi : Text) (healthy : Bool) : EvpnProgram Evpn := do
  let e ← getEvpn boost l2svi
  if healthy then
    e.envSetup
    pure e
  else
    .throw (.exception "Kubernetes api server is unhealthy")

/-! ### The system -/

inductive LinkKind where
  | vrf (table : ℕ)
  | bridge
  | vxlan (underlayAddr underlayDev : Text)
  | other
deriving Repr, DecidableEq

abbrev Table := Links Text LinkKind

/-- What the shell commands print. -/
structure Host where
  name : Text
  dev : Text
  addr : Text

/-- Bridges and VRFs have ports. -/
def takesPorts (k : Table) (n : Text) : Bool :=
  match k n with
  | some l =>
      match l.kind with
      | .bridge => true
      | .vrf _ => true
      | _ => false
  | none => false

/-- A command that succeeds if it can. The daemon issues no other ones. -/
def execute (host : Host) : EvpnCmd → Table → Reply × Table
  | .plain (.netlink (.linkExist n _)), k => (⟨(k n).isSome, []⟩, k)
  | .plain (.netlink (.bridgeCreate n)), k => (⟨(k n).isNone, []⟩, k.ensure n .bridge)
  | .plain (.netlink (.vxlanCreate n addr dev)), k =>
      (⟨(k n).isNone, []⟩, k.ensure n (.vxlan addr dev))
  | .vrfCreate n table, k => (⟨(k n).isNone, []⟩, k.ensure n (.vrf table))
  | .plain (.netlink (.linkSetStatus n status _)), k =>
      (⟨(k n).isSome, []⟩, k.modify n fun l => { l with up := status = .up })
  | .plain (.netlink (.linkDestory n _)), k =>
      if (k n).isSome then (⟨true, []⟩, k.destroy n) else (⟨false, []⟩, k)
  | .bridgeSetStatus n true bridge mode _, k =>
      if takesPorts k bridge then
        (⟨(k n).isSome, []⟩, k.modify n (Link.plug bridge (mode = .none)))
      else (⟨false, []⟩, k)
  | .vxlanSetSlave n neighSuppress learning _, k =>
      (⟨((k n).bind Link.port).isSome, []⟩, k.modify n (Link.setPort neighSuppress learning))
  | .hostname, k => (⟨true, host.name⟩, k)
  | .defaultDevice, k => (⟨true, host.dev⟩, k)
  | .deviceAddress dev, k => (⟨true, if dev = host.dev then host.addr else []⟩, k)
  | _, k => (⟨false, []⟩, k)

/-- Any command may fail, and then it does nothing. -/
def mayFail (host : Host) (c : EvpnCmd) (k : Table) (r : Reply) (k' : Table) : Prop :=
  (r, k') = execute host c k ∨ r.ok = false ∧ k' = k

/-! ### A start in which nothing fails -/

/-- The objects that a start makes. -/
def made (l2svi addr dev : Text) : Evpn where
  vrf := { nic := { kind := .bridge, netlink := true, name := bgpEvpnVrf } }
  bridgeL3 := { kind := .bridge, netlink := true, name := bgpEvpnBr }
  bridgeL2 := { kind := .bridge, netlink := true, name := l2svi }
  vxlan := { kind := .vxlan addr dev, netlink := true, name := bgpEvpnVtep }

theorem vxlanKind_eq (boost : Boost) (addr dev : Text) :
    ∃ addr', vxlanKind boost addr dev = .vxlan addr' dev := by
  unfold vxlanKind
  split
  · exact ⟨_, rfl⟩
  · exact ⟨_, rfl⟩

section Run
variable {host : Host} {k : Table}

theorem run_vrfSetup (n : Text) (table : ℕ) :
    (Vrf.setup { nic := { kind := .bridge, name := n }, table }).run (execute host) k =
      (.ok (true, { nic := { kind := .bridge, netlink := true, name := n }, table }),
        k.ensure n (.vrf table)) := by
  cases h : k n with
  | none =>
      simp [Vrf.setup, nicCall, Netlink.netlink, Program.request, Program.embed, Program.bind,
        Program.run, execute, h]
  | some l =>
      simp [Vrf.setup, nicCall, Netlink.netlink, Program.request, Program.embed, Program.bind,
        Program.run, execute, h, Links.ensure]

theorem run_bridgeSetup (n : Text) :
    (nicCall (Nic.setup { kind := .bridge, name := n })).run (execute host) k =
      (.ok (true, { kind := .bridge, netlink := true, name := n }), k.ensure n .bridge) := by
  cases h : k n with
  | none =>
      simp [Nic.setup, nicCall, Netlink.netlink, Program.request, Program.embed, Program.bind,
        Program.run, execute, h]
  | some l =>
      simp [Nic.setup, nicCall, Netlink.netlink, Program.request, Program.embed, Program.bind,
        Program.run, execute, h, Links.ensure]

theorem run_vxlanSetup (n addr dev : Text) :
    (nicCall (Nic.setup { kind := .vxlan addr dev, name := n })).run (execute host) k =
      (.ok (true, { kind := .vxlan addr dev, netlink := true, name := n }),
        k.ensure n (.vxlan addr dev)) := by
  cases h : k n with
  | none =>
      simp [Nic.setup, nicCall, Netlink.netlink, Program.request, Program.embed, Program.bind,
        Program.run, execute, h]
  | some l =>
      simp [Nic.setup, nicCall, Netlink.netlink, Program.request, Program.embed, Program.bind,
        Program.run, execute, h, Links.ensure]

/-- The host has a name and an underlay device with an address. -/
structure Host.Ready (host : Host) : Prop where
  name : host.name ≠ []
  dev : host.dev ≠ []
  addr : host.addr ≠ []

theorem run_getNodeInfo (ready : host.Ready) :
    getNodeInfo.run (execute host) k = (.ok (some (host.name, host.dev, host.addr)), k) := by
  simp [getNodeInfo, Program.request, Program.bind, Program.run, execute, ready.name, ready.dev,
    ready.addr]

/-- The four links. -/
def ensured (l2svi addr dev : Text) (k : Table) : Table :=
  (((k.ensure bgpEvpnVrf (.vrf vrfTable)).ensure bgpEvpnBr .bridge).ensure l2svi .bridge).ensure
    bgpEvpnVtep (.vxlan addr dev)

theorem run_getEvpn (boost : Boost) (l2svi : Text) (ready : host.Ready) :
    ∃ addr, vxlanKind boost host.addr host.dev = .vxlan addr host.dev ∧
      (getEvpn boost l2svi).run (execute host) k =
        (.ok (made l2svi addr host.dev), ensured l2svi addr host.dev k) := by
  obtain ⟨addr, haddr⟩ := vxlanKind_eq boost host.addr host.dev
  refine ⟨addr, haddr, ?_⟩
  simp [getEvpn, run_vrfSetup, run_bridgeSetup, run_vxlanSetup, run_getNodeInfo ready, orThrow,
    haddr, made, ensured]

/-- What a command makes of the links. -/
def effect (host : Host) (c : EvpnCmd) (k : Table) : Table := (execute host c k).2

/-- The commands of `envSetup`. -/
def wiring (l2svi : Text) : List EvpnCmd :=
  [.plain (.netlink (.linkSetStatus bgpEvpnVrf .up [])),
    .plain (.netlink (.linkSetStatus bgpEvpnBr .up [])),
    .plain (.netlink (.linkSetStatus l2svi .up [])),
    .bridgeSetStatus bgpEvpnBr true bgpEvpnVrf .none [],
    .bridgeSetStatus l2svi true bgpEvpnVrf .none [],
    .plain (.netlink (.linkSetStatus bgpEvpnVtep .up [])),
    .bridgeSetStatus bgpEvpnVtep true bgpEvpnBr .reserved [],
    .vxlanSetSlave bgpEvpnVtep true false []]

theorem run_envSetup (l2svi addr dev : Text) :
    (made l2svi addr dev).envSetup.run (execute host) k =
      (.ok (), (wiring l2svi).foldl (fun k c => effect host c k) k) := rfl

end Run

theorem names_ne : bgpEvpnBr ≠ bgpEvpnVrf ∧ bgpEvpnVtep ≠ bgpEvpnVrf ∧ bgpEvpnVtep ≠ bgpEvpnBr := by
  simp [bgpEvpnVrf, bgpEvpnBr, bgpEvpnVtep]

/-- The bridge of the pods has a name of its own. -/
structure Named (l2svi : Text) : Prop where
  vrf : l2svi ≠ bgpEvpnVrf
  br : l2svi ≠ bgpEvpnBr
  vtep : l2svi ≠ bgpEvpnVtep

/-- What the daemon may find under a name. -/
def Fits (l2svi n : Text) (kind : LinkKind) : Prop :=
  (n = bgpEvpnVrf → kind = .vrf vrfTable) ∧ (n = bgpEvpnBr → kind = .bridge) ∧
    (n = l2svi → kind = .bridge) ∧ (n = bgpEvpnVtep → ∃ addr dev, kind = .vxlan addr dev)

section Fits
variable {l2svi : Text}

theorem fits_vrf (named : Named l2svi) : Fits l2svi bgpEvpnVrf (.vrf vrfTable) :=
  ⟨fun _ => rfl, fun h => absurd h.symm names_ne.1, fun h => absurd h.symm named.vrf,
    fun h => absurd h.symm names_ne.2.1⟩

theorem fits_br : Fits l2svi bgpEvpnBr .bridge :=
  ⟨fun h => absurd h names_ne.1, fun _ => rfl, fun _ => rfl, fun h => absurd h.symm names_ne.2.2⟩

theorem fits_l2svi (named : Named l2svi) : Fits l2svi l2svi .bridge :=
  ⟨fun h => absurd h named.vrf, fun _ => rfl, fun _ => rfl, fun h => absurd h named.vtep⟩

theorem fits_vtep (named : Named l2svi) (addr dev : Text) :
    Fits l2svi bgpEvpnVtep (.vxlan addr dev) :=
  ⟨fun h => absurd h names_ne.2.1, fun h => absurd h names_ne.2.2,
    fun h => absurd h.symm named.vtep, fun _ => ⟨addr, dev, rfl⟩⟩

end Fits

/-- Links with the names of the daemon's are of its kinds. -/
def Suited (l2svi : Text) (k : Table) : Prop := ∀ n l, k n = some l → Fits l2svi n l.kind

/-- The links are there, up and plugged into each other. -/
structure Wired (l2svi : Text) (k : Table) : Prop where
  vrf : ∃ l, k bgpEvpnVrf = some l ∧ l.kind = .vrf vrfTable ∧ l.up = true
  br : ∃ l, k bgpEvpnBr = some l ∧ l.kind = .bridge ∧ l.up = true ∧
    l.port.map Port.master = some bgpEvpnVrf ∧ l.addrGen = false
  pods : ∃ l, k l2svi = some l ∧ l.kind = .bridge ∧ l.up = true ∧
    l.port.map Port.master = some bgpEvpnVrf ∧ l.addrGen = false
  vtep : ∃ l addr dev, k bgpEvpnVtep = some l ∧ l.kind = .vxlan addr dev ∧ l.up = true ∧
    l.port = some ⟨bgpEvpnBr, true, false⟩

/-- A VTEP that was there keeps its address and its device. A new one has those of
the host. -/
structure VtepFrom (boost : Boost) (host : Host) (k k' : Table) : Prop where
  found : ∀ l, k bgpEvpnVtep = some l → ∃ l', k' bgpEvpnVtep = some l' ∧ l'.kind = l.kind
  made : k bgpEvpnVtep = none → ∃ l' addr, k' bgpEvpnVtep = some l' ∧
    vxlanKind boost host.addr host.dev = .vxlan addr host.dev ∧ l'.kind = .vxlan addr host.dev

section Wiring
variable {l2svi addr dev : Text} {host : Host} {k rest : Table}
variable {v b p x : Link Text LinkKind} {f : Link Text LinkKind → Link Text LinkKind}

def Foreign (l2svi n : Text) : Prop :=
  n ≠ bgpEvpnVrf ∧ n ≠ bgpEvpnBr ∧ n ≠ l2svi ∧ n ≠ bgpEvpnVtep

/-- The four links, and that all others are as in `rest`. -/
structure Slots (l2svi : Text) (rest : Table) (v b p x : Link Text LinkKind) (k : Table) :
    Prop where
  vrf : k bgpEvpnVrf = some v
  br : k bgpEvpnBr = some b
  pods : k l2svi = some p
  vtep : k bgpEvpnVtep = some x
  others : ∀ n, Foreign l2svi n → k n = rest n

theorem Slots.modifyVrf (named : Named l2svi) (h : Slots l2svi rest v b p x k) :
    Slots l2svi rest (f v) b p x (k.modify bgpEvpnVrf f) where
  vrf := by rw [Links.at_modify_self, h.vrf, Option.map_some]
  br := by rw [Links.at_modify_of_ne names_ne.1, h.br]
  pods := by rw [Links.at_modify_of_ne named.vrf, h.pods]
  vtep := by rw [Links.at_modify_of_ne names_ne.2.1, h.vtep]
  others n hn := by rw [Links.at_modify_of_ne hn.1, h.others n hn]

theorem Slots.modifyBr (named : Named l2svi) (h : Slots l2svi rest v b p x k) :
    Slots l2svi rest v (f b) p x (k.modify bgpEvpnBr f) where
  vrf := by rw [Links.at_modify_of_ne names_ne.1.symm, h.vrf]
  br := by rw [Links.at_modify_self, h.br, Option.map_some]
  pods := by rw [Links.at_modify_of_ne named.br, h.pods]
  vtep := by rw [Links.at_modify_of_ne names_ne.2.2, h.vtep]
  others n hn := by rw [Links.at_modify_of_ne hn.2.1, h.others n hn]

theorem Slots.modifyL2svi (named : Named l2svi) (h : Slots l2svi rest v b p x k) :
    Slots l2svi rest v b (f p) x (k.modify l2svi f) where
  vrf := by rw [Links.at_modify_of_ne named.vrf.symm, h.vrf]
  br := by rw [Links.at_modify_of_ne named.br.symm, h.br]
  pods := by rw [Links.at_modify_self, h.pods, Option.map_some]
  vtep := by rw [Links.at_modify_of_ne named.vtep.symm, h.vtep]
  others n hn := by rw [Links.at_modify_of_ne hn.2.2.1, h.others n hn]

theorem Slots.modifyVtep (named : Named l2svi) (h : Slots l2svi rest v b p x k) :
    Slots l2svi rest v b p (f x) (k.modify bgpEvpnVtep f) where
  vrf := by rw [Links.at_modify_of_ne names_ne.2.1.symm, h.vrf]
  br := by rw [Links.at_modify_of_ne names_ne.2.2.symm, h.br]
  pods := by rw [Links.at_modify_of_ne named.vtep, h.pods]
  vtep := by rw [Links.at_modify_self, h.vtep, Option.map_some]
  others n hn := by rw [Links.at_modify_of_ne hn.2.2.2, h.others n hn]

def raise (l : Link Text LinkKind) : Link Text LinkKind := { l with up := true }

@[simp] theorem raise_kind (l : Link Text LinkKind) : (raise l).kind = l.kind := rfl

theorem effect_up (n : Text) :
    effect host (.plain (.netlink (.linkSetStatus n .up []))) k = k.modify n raise := by
  simp only [effect, execute, decide_true]
  rfl

theorem takesPorts_of {m : Text} {l : Link Text LinkKind} (h : k m = some l)
    (hk : l.kind = .bridge ∨ l.kind = .vrf vrfTable) : takesPorts k m = true := by
  rcases hk with hk | hk <;> simp [takesPorts, h, hk]

theorem effect_master_none {n m : Text} (h : takesPorts k m = true) :
    effect host (.bridgeSetStatus n true m .none []) k = k.modify n (Link.plug m true) := by
  simp [effect, execute, h]

theorem effect_master_reserved {n m : Text} (h : takesPorts k m = true) :
    effect host (.bridgeSetStatus n true m .reserved []) k = k.modify n (Link.plug m false) := by
  simp [effect, execute, h]

theorem effect_slave (n : Text) :
    effect host (.vxlanSetSlave n true false []) k = k.modify n (Link.setPort true false) := by
  simp only [effect, execute]

theorem foldl_wiring : (wiring l2svi).foldl (fun k c => effect host c k) k =
    effect host (.vxlanSetSlave bgpEvpnVtep true false [])
      (effect host (.bridgeSetStatus bgpEvpnVtep true bgpEvpnBr .reserved [])
        (effect host (.plain (.netlink (.linkSetStatus bgpEvpnVtep .up [])))
          (effect host (.bridgeSetStatus l2svi true bgpEvpnVrf .none [])
            (effect host (.bridgeSetStatus bgpEvpnBr true bgpEvpnVrf .none [])
              (effect host (.plain (.netlink (.linkSetStatus l2svi .up [])))
                (effect host (.plain (.netlink (.linkSetStatus bgpEvpnBr .up [])))
                  (effect host (.plain (.netlink (.linkSetStatus bgpEvpnVrf .up []))) k))))))) := by
  rfl

/-- What the commands of `envSetup` make of the four links, whatever they were
plugged into before. -/
theorem slots_wiring (host : Host) (named : Named l2svi) (h : Slots l2svi rest v b p x k)
    (hv : v.kind = .vrf vrfTable) (hb : b.kind = .bridge) :
    Slots l2svi rest (raise v) ((raise b).plug bgpEvpnVrf true) ((raise p).plug bgpEvpnVrf true)
      (((raise x).plug bgpEvpnBr false).setPort true false)
      ((wiring l2svi).foldl (fun k c => effect host c k) k) := by
  rw [foldl_wiring, effect_up, effect_up, effect_up, effect_up, effect_slave]
  have h₃ := ((h.modifyVrf named (f := raise)).modifyBr named (f := raise)).modifyL2svi named
    (f := raise)
  rw [effect_master_none (takesPorts_of h₃.vrf (.inr hv))]
  have h₄ := h₃.modifyBr named (f := Link.plug bgpEvpnVrf true)
  rw [effect_master_none (takesPorts_of h₄.vrf (.inr hv))]
  have h₆ := (h₄.modifyL2svi named (f := Link.plug bgpEvpnVrf true)).modifyVtep named (f := raise)
  rw [effect_master_reserved (takesPorts_of h₆.br (.inl hb))]
  have h₇ := h₆.modifyVtep named (f := Link.plug bgpEvpnBr false)
  exact h₇.modifyVtep named (f := Link.setPort true false)

/-- Afterwards there are the four links, of the kinds that they should have. -/
theorem slots_ensured (named : Named l2svi) (suited : Suited l2svi k) (addr dev : Text) :
    ∃ v b p x, Slots l2svi k v b p x (ensured l2svi addr dev k) ∧ v.kind = .vrf vrfTable ∧
      b.kind = .bridge ∧ p.kind = .bridge ∧ (∃ addr dev, x.kind = .vxlan addr dev) ∧
        x = (k bgpEvpnVtep).getD { kind := .vxlan addr dev } := by
  obtain ⟨h₁, h₂, h₃⟩ := names_ne
  have hfit : ∀ n kind, Fits l2svi n kind → Fits l2svi n ((k n).getD { kind }).kind := by
    intro n kind hkind
    cases hl : k n with
    | none => exact hkind
    | some l => exact suited n l hl
  refine ⟨(k bgpEvpnVrf).getD { kind := .vrf vrfTable }, (k bgpEvpnBr).getD { kind := .bridge },
    (k l2svi).getD { kind := .bridge }, (k bgpEvpnVtep).getD { kind := .vxlan addr dev }, ?_,
    ?_, ?_, ?_, ?_, rfl⟩
  · constructor
    · rw [ensured, Links.at_ensure_of_ne h₂.symm, Links.at_ensure_of_ne named.vrf.symm,
        Links.at_ensure_of_ne h₁.symm, Links.at_ensure_self]
    · rw [ensured, Links.at_ensure_of_ne h₃.symm, Links.at_ensure_of_ne named.br.symm,
        Links.at_ensure_self, Links.at_ensure_of_ne h₁]
    · rw [ensured, Links.at_ensure_of_ne named.vtep, Links.at_ensure_self,
        Links.at_ensure_of_ne named.br, Links.at_ensure_of_ne named.vrf]
    · rw [ensured, Links.at_ensure_self, Links.at_ensure_of_ne named.vtep.symm,
        Links.at_ensure_of_ne h₃, Links.at_ensure_of_ne h₂]
    · intro n hn
      rw [ensured, Links.at_ensure_of_ne hn.2.2.2, Links.at_ensure_of_ne hn.2.2.1,
        Links.at_ensure_of_ne hn.2.1, Links.at_ensure_of_ne hn.1]
  · exact (hfit bgpEvpnVrf _ (fits_vrf named)).1 rfl
  · exact (hfit bgpEvpnBr _ fits_br).2.1 rfl
  · exact (hfit l2svi _ (fits_l2svi named)).2.2.1 rfl
  · exact (hfit bgpEvpnVtep _ (fits_vtep named addr dev)).2.2.2 rfl

/-- One start in which nothing fails wires the links, and touches no other one. -/
theorem run_launch (boost : Boost) (named : Named l2svi) (suited : Suited l2svi k)
    (ready : host.Ready) :
    ∃ addr k', (launch boost l2svi true).run (execute host) k =
        (.ok (made l2svi addr host.dev), k') ∧ Wired l2svi k' ∧ VtepFrom boost host k k' ∧
      ∀ n, Foreign l2svi n → k' n = k n := by
  obtain ⟨addr, haddr, hget⟩ := run_getEvpn (k := k) boost l2svi ready
  obtain ⟨v, b, p, x, hslots, hv, hb, hp, hvxlan, hfrom⟩ :=
    slots_ensured named suited addr host.dev
  obtain ⟨a, d, hx⟩ := hvxlan
  have hwired := slots_wiring host named hslots hv hb
  have hkind : (((raise x).plug bgpEvpnBr false).setPort true false).kind = x.kind := by simp
  refine ⟨addr, (wiring l2svi).foldl (fun k c => effect host c k) (ensured l2svi addr host.dev k),
    ?_, ?_, ?_, hwired.others⟩
  · simp only [launch, Program.bind_eq, Program.run_bind, hget, Program.Final.andThen_ok, if_true,
      run_envSetup, Program.pure_eq, Program.run_pure]
  · constructor
    · exact ⟨_, hwired.vrf, hv, rfl⟩
    · exact ⟨_, hwired.br, hb, rfl, Link.plug_master _ _ _, by simp⟩
    · exact ⟨_, hwired.pods, hp, rfl, Link.plug_master _ _ _, by simp⟩
    · refine ⟨_, a, d, hwired.vtep, hx, rfl, ?_⟩
      have hmaster := Link.plug_master bgpEvpnBr false (raise x)
      obtain ⟨q, hq, hqm⟩ := Option.map_eq_some_iff.mp hmaster
      simp only [Link.setPort, hq, Option.map_some, Option.some.injEq]
      rw [← hqm]
  · constructor
    · intro l hl
      rw [hl, Option.getD_some] at hfrom
      exact ⟨_, hwired.vtep, by rw [hkind, hfrom]⟩
    · intro hnone
      rw [hnone, Option.getD_none] at hfrom
      exact ⟨_, addr, hwired.vtep, haddr, by rw [hkind, hfrom]⟩

theorem Wired.suited (h : Wired l2svi k) : Suited l2svi k := by
  obtain ⟨v, hv, hvrf, -⟩ := h.vrf
  obtain ⟨b, hb, hbr, -⟩ := h.br
  obtain ⟨p, hp, hpods, -⟩ := h.pods
  obtain ⟨x, a, d, hx, hvtep, -⟩ := h.vtep
  intro n l hl
  refine ⟨?_, ?_, ?_, ?_⟩
  · intro hn
    rw [hn, hv] at hl
    cases hl
    exact hvrf
  · intro hn
    rw [hn, hb] at hl
    cases hl
    exact hbr
  · intro hn
    rw [hn, hp] at hl
    cases hl
    exact hpods
  · intro hn
    rw [hn, hx] at hl
    cases hl
    exact ⟨a, d, hvtep⟩

/-- A start finds nothing to do where another one was. -/
theorem launch_again (boost : Boost) (named : Named l2svi) (h : Wired l2svi k)
    (ready : host.Ready) :
    ∃ e, (launch boost l2svi true).run (execute host) k = (.ok e, k) := by
  obtain ⟨v, hv, hvrf, hvup⟩ := h.vrf
  obtain ⟨b, hb, hbr, hbup, hbport, hbaddr⟩ := h.br
  obtain ⟨p, hp, -, hpup, hpport, hpaddr⟩ := h.pods
  obtain ⟨x, a, d, hx, -, hxup, hxport⟩ := h.vtep
  obtain ⟨addr, -, hget⟩ := run_getEvpn (k := k) boost l2svi ready
  have hensured : ensured l2svi addr host.dev k = k := by
    rw [ensured, Links.ensure_of_some hv, Links.ensure_of_some hb, Links.ensure_of_some hp,
      Links.ensure_of_some hx]
  have hraise : ∀ l : Link Text LinkKind, l.up = true → raise l = l := by
    intro l hl
    obtain ⟨kind, up, port, addrGen⟩ := l
    obtain rfl : up = true := hl
    rfl
  have hslots : Slots l2svi k v b p x k := ⟨hv, hb, hp, hx, fun _ _ => rfl⟩
  have hwired := slots_wiring host named hslots hvrf hbr
  rw [hraise v hvup, hraise b hbup, hraise p hpup, hraise x hxup,
    Link.plug_of_master hbport fun _ => hbaddr, Link.plug_of_master hpport fun _ => hpaddr,
    Link.plug_of_master (by rw [hxport]; rfl) (by simp), Link.setPort_of_port hxport] at hwired
  have hsame : (wiring l2svi).foldl (fun k c => effect host c k) k = k := by
    funext n
    by_cases h₁ : n = bgpEvpnVrf
    · rw [h₁, hwired.vrf, hv]
    by_cases h₂ : n = bgpEvpnBr
    · rw [h₂, hwired.br, hb]
    by_cases h₃ : n = l2svi
    · rw [h₃, hwired.pods, hp]
    by_cases h₄ : n = bgpEvpnVtep
    · rw [h₄, hwired.vtep, hx]
    exact hwired.others n ⟨h₁, h₂, h₃, h₄⟩
  refine ⟨made l2svi addr host.dev, ?_⟩
  simp only [launch, Program.bind_eq, Program.run_bind, hget, hensured, Program.Final.andThen_ok,
    if_true, run_envSetup, hsame, Program.pure_eq, Program.run_pure]

end Wiring

/-! ### A stop in which nothing fails -/

section Stop
variable {l2svi addr dev : Text} {host : Host} {k : Table}

/-- The three links that are the daemon's own. -/
def Mine (n : Text) : Prop := n = bgpEvpnVrf ∨ n = bgpEvpnBr ∨ n = bgpEvpnVtep

def unplugMine (l : Link Text LinkKind) : Link Text LinkKind :=
  ((l.unplug bgpEvpnVrf).unplug bgpEvpnBr).unplug bgpEvpnVtep

def destroyMine (k : Table) : Table :=
  ((k.destroy bgpEvpnVrf).destroy bgpEvpnBr).destroy bgpEvpnVtep

theorem run_cleanup {nic : Nic} (hnic : nic.netlink = true) (hk : nic.kind ≠ .underlay)
    (hroutes : nic.routes = []) (haddrs : nic.addrs = []) (h : (k nic.name).isSome = true) :
    (nicCall nic.cleanup).run (execute host) k = (.ok (), k.destroy nic.name) := by
  simp [Nic.cleanup, Nic.cleanupRoutes, Nic.cleanupAddrs, nicCall, Netlink.netlink,
    Program.request, Program.embed, Program.bind, Program.run, execute, hnic, hk, hroutes, haddrs,
    h]

theorem at_destroyMine (n : Text) (hn : ¬ Mine n) :
    destroyMine k n = (k n).map unplugMine := by
  obtain ⟨h₁, h₂, h₃⟩ : n ≠ bgpEvpnVrf ∧ n ≠ bgpEvpnBr ∧ n ≠ bgpEvpnVtep := by
    refine ⟨?_, ?_, ?_⟩
    · exact fun h => hn (.inl h)
    · exact fun h => hn (.inr (.inl h))
    · exact fun h => hn (.inr (.inr h))
  simp only [destroyMine, Links.at_destroy, if_neg h₁, if_neg h₂, if_neg h₃, Option.map_map]
  rfl

/-- The start and the stop after it. -/
theorem run_envCleanup (h : Wired l2svi k) :
    (made l2svi addr dev).envCleanup.run (execute host) k = (.ok (), destroyMine k) := by
  obtain ⟨h₁, h₂, h₃⟩ := names_ne
  obtain ⟨b, hb, -⟩ := h.br
  obtain ⟨v, hv, -⟩ := h.vrf
  obtain ⟨x, -, -, hx, -⟩ := h.vtep
  have hb' : ((k.destroy bgpEvpnVrf) bgpEvpnBr).isSome = true := by
    rw [Links.at_destroy, if_neg h₁, hb]
    rfl
  have hx' : (((k.destroy bgpEvpnVrf).destroy bgpEvpnBr) bgpEvpnVtep).isSome = true := by
    rw [Links.at_destroy, if_neg h₃, Links.at_destroy, if_neg h₂, hx]
    rfl
  have hclean : ∀ (n : Text) (kind : NicKind) (k : Table), kind ≠ .underlay →
      (k n).isSome = true →
      (nicCall ({ kind, netlink := true, name := n } : Nic).cleanup).run (execute host) k =
        (.ok (), k.destroy n) := fun n kind k hk hn => run_cleanup rfl hk rfl rfl hn
  have hrun : (((nicCall (made l2svi addr dev).vrf.nic.cleanup).bind fun _ =>
      (nicCall (made l2svi addr dev).bridgeL3.cleanup).bind fun _ =>
        nicCall (made l2svi addr dev).vxlan.cleanup).run (execute host) k) =
      (.ok (), destroyMine k) := by
    rw [Program.run_bind]
    simp only [made]
    rw [hclean bgpEvpnVrf .bridge k (by decide) (by rw [hv]; rfl), Program.Final.andThen_ok,
      Program.run_bind, hclean bgpEvpnBr .bridge _ (by decide) hb', Program.Final.andThen_ok,
      hclean bgpEvpnVtep _ _ (by simp) hx', destroyMine]
  exact Program.run_catch_ok hrun

end Stop

/-! ### Lives -/

/-- A start and a stop. Both may be interrupted. -/
def life (boost : Boost) (l2svi : Text) (healthy : Bool) : EvpnProgram Unit := do
  let e ← launch boost l2svi healthy
  e.envCleanup

/-- The commands of a life. -/
def Own (l2svi : Text) : EvpnCmd → Prop
  | .plain (.netlink (.linkExist _ _)) => True
  | .plain (.netlink (.bridgeCreate n)) => n = bgpEvpnBr ∨ n = l2svi
  | .plain (.netlink (.vxlanCreate n _ _)) => n = bgpEvpnVtep
  | .vrfCreate n table => n = bgpEvpnVrf ∧ table = vrfTable
  | .plain (.netlink (.linkSetStatus n status _)) => (Mine n ∨ n = l2svi) ∧ status = .up
  | .plain (.netlink (.linkDestory n _)) => Mine n
  | .bridgeSetStatus n true _ _ _ => n = bgpEvpnBr ∨ n = l2svi ∨ n = bgpEvpnVtep
  | .vxlanSetSlave n _ _ _ => n = bgpEvpnVtep
  | .hostname => True
  | .defaultDevice => True
  | .deviceAddress _ => True
  | _ => False

section Issued
variable {l2svi : Text}

theorem issues_vrfSetup :
    Issues (Own l2svi) (fun _ _ => True)
      (fun r => r.2 = { nic := { kind := .bridge, netlink := true, name := bgpEvpnVrf } })
      (Vrf.setup { nic := { kind := .bridge, name := bgpEvpnVrf } }) := by
  simp only [Vrf.setup, nicCall, Netlink.netlink, Program.request, Program.embed, Program.bind,
    Program.bind_eq, Program.pure_eq, issues_call, Own, true_and, forall_const]
  intro r
  cases r.ok <;> simp [Own]

theorem issues_bridgeSetup {n : Text} (hn : n = bgpEvpnBr ∨ n = l2svi) :
    Issues (Own l2svi) (fun _ _ => True)
      (fun r => r.2 = { kind := .bridge, netlink := true, name := n })
      (nicCall (Nic.setup { kind := .bridge, name := n })) := by
  simp only [Nic.setup, nicCall, Netlink.netlink, Program.request, Program.embed, Program.bind,
    Program.bind_eq, Program.pure_eq, issues_call, Own, true_and, forall_const]
  intro r
  cases r.ok <;> simp [Program.embed, Own, hn]

theorem issues_vxlanSetup (kind : NicKind) (hk : ∃ addr dev, kind = .vxlan addr dev) :
    Issues (Own l2svi) (fun _ _ => True)
      (fun r => r.2 = { kind, netlink := true, name := bgpEvpnVtep })
      (nicCall (Nic.setup { kind, name := bgpEvpnVtep })) := by
  obtain ⟨addr, dev, rfl⟩ := hk
  simp only [Nic.setup, nicCall, Netlink.netlink, Program.request, Program.embed, Program.bind,
    Program.bind_eq, Program.pure_eq, issues_call, Own, true_and, forall_const]
  intro r
  cases r.ok <;> simp [Program.embed, Own]

theorem issues_getNodeInfo : Issues (Own l2svi) (fun _ _ => True) (fun _ => True) getNodeInfo := by
  simp only [getNodeInfo, Program.bind_eq, Program.pure_eq, issues_request_bind, Own, true_and,
    forall_const]
  intro name
  split
  · simp only [issues_request_bind, Own, true_and, forall_const]
    intro dev
    split
    · simp only [issues_request_bind, Own, true_and, forall_const]
      intro addr
      split <;> trivial
    · trivial
  · trivial

theorem issues_orThrow {A : Type} {P : A → Prop} (msg : String) (ret : Bool × A) (h : P ret.2) :
    Issues (Own l2svi) (fun _ _ => True) P (orThrow msg ret) := by
  unfold orThrow
  split
  · exact h
  · trivial

theorem issues_getEvpn (boost : Boost) :
    Issues (Own l2svi) (fun _ _ => True) (fun e => ∃ addr dev, e = made l2svi addr dev)
      (getEvpn boost l2svi) := by
  apply issues_vrfSetup.bind
  intro ret hret
  apply (issues_orThrow (P := fun v => v = _) _ ret hret).bind
  intro vrf hvrf
  apply (issues_bridgeSetup (.inl rfl)).bind
  intro ret hret
  apply (issues_orThrow (P := fun v => v = _) _ ret hret).bind
  intro bridgeL3 hL3
  apply (issues_bridgeSetup (.inr rfl)).bind
  intro ret hret
  apply (issues_orThrow (P := fun v => v = _) _ ret hret).bind
  intro bridgeL2 hL2
  apply issues_getNodeInfo.bind
  intro info _
  cases info with
  | none => trivial
  | some info =>
      obtain ⟨addr, haddr⟩ := vxlanKind_eq boost info.2.2 info.2.1
      apply (issues_vxlanSetup _ ⟨addr, _, haddr⟩).bind
      intro ret hret
      apply (issues_orThrow (P := fun v => v = _) _ ret hret).bind
      intro vxlan hvxlan
      refine ⟨addr, info.2.1, ?_⟩
      rw [hvrf, hL3, hL2, hvxlan, haddr, made]

theorem issues_envSetup (addr dev : Text) :
    Issues (Own l2svi) (fun _ _ => True) (fun _ => True) (made l2svi addr dev).envSetup := by
  simp [Evpn.envSetup, made, Nic.setStatus, setMaster, setImpl, setSlave, nicCall, Netlink.netlink,
    Program.request, Program.embed, Program.bind, Own, Mine]

theorem issues_envCleanup (addr dev : Text) :
    Issues (Own l2svi) (fun _ _ => True) (fun _ => True) (made l2svi addr dev).envCleanup := by
  apply Issues.catch_
  · simp [made, Nic.cleanup, Nic.cleanupRoutes, Nic.cleanupAddrs, nicCall, Netlink.netlink,
      Program.request, Program.embed, Program.bind, Own, Mine]
  · intro e
    trivial

theorem issues_life (boost : Boost) (healthy : Bool) :
    Issues (Own l2svi) (fun _ _ => True) (fun _ => True) (life boost l2svi healthy) := by
  have hlaunch : Issues (Own l2svi) (fun _ _ => True) (fun e => ∃ addr dev, e = made l2svi addr dev)
      (launch boost l2svi healthy) := by
    apply (issues_getEvpn boost).bind
    intro e he
    obtain ⟨addr, dev, rfl⟩ := he
    cases healthy with
    | false => trivial
    | true =>
        apply (issues_envSetup addr dev).bind
        intro _ _
        exact ⟨addr, dev, rfl⟩
  apply hlaunch.bind
  intro e he
  obtain ⟨addr, dev, rfl⟩ := he
  exact issues_envCleanup addr dev

end Issued

section Killed

def podBridge : Text := "ohnobr".toList

def hostA : Host := ⟨"ohno-1".toList, "eth0".toList, "172.18.0.2/16".toList⟩

theorem named_podBridge : Named podBridge :=
  ⟨by simp [podBridge, bgpEvpnVrf], by simp [podBridge, bgpEvpnBr],
    by simp [podBridge, bgpEvpnVtep]⟩

theorem ready_hostA : hostA.Ready := ⟨by simp [hostA], by simp [hostA], by simp [hostA]⟩

def oldAddr : Text := "172.18.0.9".toList

def podLink : Text := "veth1".toList

/-- The bridge of the pods with a pod, and a VTEP from when the host had another
address. -/
def podLinks : Table := fun n =>
  if n = podBridge then some { kind := .bridge, up := true }
  else if n = bgpEvpnVtep then some { kind := .vxlan oldAddr hostA.dev }
  else if n = podLink then some { kind := .other, up := true, port := some { master := podBridge } }
  else none

theorem podLinks_vtep : podLinks bgpEvpnVtep = some { kind := .vxlan oldAddr hostA.dev } := by
  rw [podLinks, if_neg named_podBridge.vtep.symm, if_pos rfl]

theorem podLinks_vrf : podLinks bgpEvpnVrf = none := by
  have hpod : bgpEvpnVrf ≠ podLink := by simp [bgpEvpnVrf, podLink]
  rw [podLinks, if_neg named_podBridge.vrf.symm, if_neg names_ne.2.1.symm, if_neg hpod]

theorem suited_podLinks : Suited podBridge podLinks := by
  intro n l hl
  unfold podLinks at hl
  split at hl
  · rename_i hn
    cases hl
    rw [hn]
    exact fits_l2svi named_podBridge
  · rename_i hbridge
    split at hl
    · rename_i hn
      cases hl
      rw [hn]
      exact fits_vtep named_podBridge oldAddr hostA.dev
    · rename_i hvtep
      split at hl
      · rename_i hn
        have hne : podLink ≠ bgpEvpnVrf ∧ podLink ≠ bgpEvpnBr := by
          simp [podLink, bgpEvpnVrf, bgpEvpnBr]
        refine ⟨fun h => absurd (hn.symm.trans h) hne.1, fun h => absurd (hn.symm.trans h) hne.2,
          fun h => absurd h hbridge, fun h => absurd h hvtep⟩
      · cases hl

/-- The daemon is killed when it has made the VRF. -/
theorem killed : Stops (mayFail hostA) (life Boost.reference podBridge true) podLinks
    (podLinks.ensure bgpEvpnVrf (.vrf vrfTable)) := by
  have hexist : execute hostA (.plain (.netlink (.linkExist bgpEvpnVrf []))) podLinks =
      (⟨false, []⟩, podLinks) := by
    simp [execute, podLinks_vrf]
  have hcreate : execute hostA (.vrfCreate bgpEvpnVrf vrfTable) podLinks =
      (⟨true, []⟩, podLinks.ensure bgpEvpnVrf (.vrf vrfTable)) := by
    simp [execute, podLinks_vrf]
  exact .inr ⟨_, _, .inl hexist.symm, .inr ⟨_, _, .inl hcreate.symm, .inl rfl⟩⟩

end Killed

section Lives
variable {boost : Boost} {l2svi : Text} {host : Host} {healthy : Bool} {k k' k₁ k₂ : Table}
variable {c : EvpnCmd} {r : Reply}

/-- What one command of a life can do. -/
inductive Change (l2svi : Text) (k : Table) : Table → Prop
  | same : Change l2svi k k
  | ensure (n : Text) (kind : LinkKind) :
      Mine n ∨ n = l2svi → Fits l2svi n kind → Change l2svi k (k.ensure n kind)
  | modify (n : Text) (f : Link Text LinkKind → Link Text LinkKind) :
      Mine n ∨ n = l2svi → (∀ l, (f l).kind = l.kind ∧ (l.up = true → (f l).up = true)) →
      Change l2svi k (k.modify n f)
  | destroy (n : Text) : Mine n → Change l2svi k (k.destroy n)

theorem change_of_own (named : Named l2svi) (hc : Own l2svi c) :
    Change l2svi k (execute host c k).2 := by
  fun_cases execute host c k
  case case2 n =>
    rcases hc with rfl | rfl
    · exact .ensure _ _ (.inl (.inr (.inl rfl))) fits_br
    · exact .ensure _ _ (.inr rfl) (fits_l2svi named)
  case case3 n addr dev =>
    obtain rfl := hc
    exact .ensure _ _ (.inl (.inr (.inr rfl))) (fits_vtep named addr dev)
  case case4 n table =>
    obtain ⟨rfl, rfl⟩ := hc
    exact .ensure _ _ (.inl (.inl rfl)) (fits_vrf named)
  case case5 n status _ =>
    obtain ⟨hn, rfl⟩ := hc
    exact .modify n _ hn fun l => ⟨rfl, fun _ => rfl⟩
  case case6 n _ _ => exact .destroy n hc
  case case8 n bridge mode _ _ =>
    have hn : Mine n ∨ n = l2svi := by
      rcases hc with rfl | rfl | rfl
      · exact .inl (.inr (.inl rfl))
      · exact .inr rfl
      · exact .inl (.inr (.inr rfl))
    exact .modify n _ hn fun l => ⟨rfl, id⟩
  case case10 n _ _ _ =>
    obtain rfl := hc
    exact .modify _ _ (.inl (.inr (.inr rfl))) fun l => ⟨rfl, id⟩
  all_goals exact .same

theorem change_of_mayFail (named : Named l2svi) (hc : Own l2svi c) (h : mayFail host c k r k') :
    Change l2svi k k' := by
  rcases h with h | ⟨-, rfl⟩
  · rw [(Prod.mk.inj h).2]
    exact change_of_own named hc
  · exact .same

theorem Change.suited (h : Change l2svi k k') (suited : Suited l2svi k) : Suited l2svi k' := by
  cases h with
  | same => exact suited
  | ensure n kind _ hfit => exact Links.kind_ensure k n kind hfit suited
  | modify n f _ hf => exact Links.kind_modify k n f (fun l => (hf l).1) suited
  | destroy n _ => exact Links.kind_destroy k n suited

/-- What a life leaves alone. A link that was a port of one of the three may be
taken out of it. -/
structure Kept (l2svi : Text) (k k' : Table) : Prop where
  foreign : ∀ n, Foreign l2svi n → k' n = k n ∨
    ∃ l m, k n = some l ∧ Mine m ∧ l.port.map Port.master = some m ∧
      k' n = some { l with port := none }
  pods : ∀ l, k l2svi = some l →
    ∃ l', k' l2svi = some l' ∧ l'.kind = l.kind ∧ (l.up = true → l'.up = true)

theorem Foreign.not_four {n m : Text} (hn : Foreign l2svi n) (hm : Mine m ∨ m = l2svi) : n ≠ m := by
  intro h
  subst h
  rcases hm with (h | h | h) | h
  · exact hn.1 h
  · exact hn.2.1 h
  · exact hn.2.2.2 h
  · exact hn.2.2.1 h

theorem Named.not_mine {n : Text} (named : Named l2svi) (hn : Mine n) : l2svi ≠ n := by
  intro h
  subst h
  rcases hn with h | h | h
  · exact named.vrf h
  · exact named.br h
  · exact named.vtep h

theorem Kept.refl (l2svi : Text) (k : Table) : Kept l2svi k k :=
  ⟨fun _ _ => .inl rfl, fun l hl => ⟨l, hl, rfl, id⟩⟩

theorem Kept.trans (h : Kept l2svi k k₁) (h₁ : Kept l2svi k₁ k₂) : Kept l2svi k k₂ := by
  constructor
  · intro n hn
    rcases h.foreign n hn with h | ⟨l, m, hl, hm, hport, h⟩
    · rw [← h]
      exact h₁.foreign n hn
    · right
      refine ⟨l, m, hl, hm, hport, ?_⟩
      rcases h₁.foreign n hn with h₁ | ⟨l₁, m₁, hl₁, -, hport₁, -⟩
      · rw [h₁, h]
      · rw [h, Option.some.injEq] at hl₁
        rw [← hl₁] at hport₁
        cases hport₁
  · intro l hl
    obtain ⟨l', hl', hkind, hup⟩ := h.pods l hl
    obtain ⟨l'', hl'', hkind', hup'⟩ := h₁.pods l' hl'
    exact ⟨l'', hl'', hkind'.trans hkind, fun h => hup' (hup h)⟩

theorem Change.kept (named : Named l2svi) (h : Change l2svi k k') : Kept l2svi k k' := by
  cases h with
  | same => exact Kept.refl l2svi k
  | ensure n kind hn _ =>
      constructor
      · intro m hm
        exact .inl (Links.at_ensure_of_ne (hm.not_four hn))
      · intro l hl
        by_cases h : l2svi = n
        · subst h
          refine ⟨l, ?_, rfl, id⟩
          rw [Links.at_ensure_self, hl, Option.getD_some]
        · exact ⟨l, (Links.at_ensure_of_ne h).trans hl, rfl, id⟩
  | modify n f hn hf =>
      constructor
      · intro m hm
        exact .inl (Links.at_modify_of_ne (hm.not_four hn))
      · intro l hl
        by_cases h : l2svi = n
        · subst h
          refine ⟨f l, ?_, (hf l).1, (hf l).2⟩
          rw [Links.at_modify_self, hl, Option.map_some]
        · exact ⟨l, (Links.at_modify_of_ne h).trans hl, rfl, id⟩
  | destroy n hn =>
      constructor
      · intro m hm
        rw [Links.at_destroy, if_neg (hm.not_four (.inl hn))]
        cases hl : k m with
        | none => exact .inl rfl
        | some l =>
            by_cases hport : l.port.map Port.master = some n
            · right
              refine ⟨l, n, rfl, hn, hport, ?_⟩
              rw [Option.map_some, Link.unplug, if_pos hport]
            · left
              rw [Option.map_some, Link.unplug, if_neg hport]
      · intro l hl
        refine ⟨l.unplug n, ?_, Link.unplug_kind n l, fun h => ?_⟩
        · rw [Links.at_destroy, if_neg (named.not_mine hn), hl, Option.map_some]
        · rw [Link.unplug_up]
          exact h

/-- Others may do anything, but a link with a name of the daemon's is of its kind. -/
def Elsewhere (l2svi : Text) (k k' : Table) : Prop :=
  ∀ n l', k' n = some l' → (∃ l, k n = some l ∧ l.kind = l'.kind) ∨ Fits l2svi n l'.kind

/-- Lives of the daemon, one after the other, and what others do between them. -/
inductive Lives (l2svi : Text) (k : Table) : Table → Prop
  | none : Lives l2svi k k
  | life {k₁ k₂ : Table} (boost : Boost) (host : Host) (healthy : Bool) : Lives l2svi k k₁ →
      Stops (mayFail host) (life boost l2svi healthy) k₁ k₂ → Lives l2svi k k₂
  | others {k₁ k₂ : Table} : Lives l2svi k k₁ → Elsewhere l2svi k₁ k₂ → Lives l2svi k k₂

theorem Lives.suited (named : Named l2svi) (suited : Suited l2svi k) (h : Lives l2svi k k') :
    Suited l2svi k' := by
  induction h with
  | none => exact suited
  | life boost host healthy _ hlife ih =>
      apply (issues_life boost healthy).stops _ ih hlife
      intro c k₁ r k₂ hc hstep hsuited
      exact ⟨trivial, (change_of_mayFail named hc hstep).suited hsuited⟩
  | others _ helse ih =>
      intro n l' hl'
      rcases helse n l' hl' with ⟨l, hl, hkind⟩ | hfit
      · rw [← hkind]
        exact ih n l hl
      · exact hfit

/-- The plugin takes the pod away after that. -/
theorem lives_killed : Lives podBridge podLinks
    ((podLinks.ensure bgpEvpnVrf (.vrf vrfTable)).destroy podLink) := by
  apply Lives.others (Lives.none.life Boost.reference hostA true killed)
  intro n l' hl'
  rw [Links.at_destroy] at hl'
  split at hl'
  · cases hl'
  · obtain ⟨l, hl, hunplug⟩ := Option.map_eq_some_iff.mp hl'
    exact .inl ⟨l, hl, by rw [← hunplug, Link.unplug_kind]⟩

/-- The next start in which nothing fails wires the links and leaves the others
alone; the VTEP is the one it found, or else has the address of the host. The
start after it has nothing to do. -/
theorem wired_after_lives (boost : Boost) (named : Named l2svi) (suited : Suited l2svi k)
    (lives : Lives l2svi k k₁) (ready : host.Ready) :
    ∃ e k₂, (launch boost l2svi true).run (execute host) k₁ = (.ok e, k₂) ∧ Wired l2svi k₂ ∧
      VtepFrom boost host k₁ k₂ ∧ (∀ n, Foreign l2svi n → k₂ n = k₁ n) ∧
      ∃ e', (launch boost l2svi true).run (execute host) k₂ = (.ok e', k₂) := by
  obtain ⟨addr, k₂, hrun, hwired, hvtep, hforeign⟩ :=
    run_launch boost named (lives.suited named suited) ready
  exact ⟨_, k₂, hrun, hwired, hvtep, hforeign, launch_again boost named hwired ready⟩

/-- The VTEP has the old address still. -/
theorem wired_killed : ∃ e k, (launch Boost.reference podBridge true).run (execute hostA)
    ((podLinks.ensure bgpEvpnVrf (.vrf vrfTable)).destroy podLink) = (.ok e, k) ∧
      Wired podBridge k ∧ ∃ l, k bgpEvpnVtep = some l ∧ l.kind = .vxlan oldAddr hostA.dev := by
  obtain ⟨e, k, hrun, hwired, hvtep, -⟩ :=
    wired_after_lives Boost.reference named_podBridge suited_podLinks lives_killed ready_hostA
  have hne : bgpEvpnVtep ≠ podLink := by simp [bgpEvpnVtep, podLink]
  obtain ⟨l, hl, hkind⟩ := hvtep.found _ (by
    rw [Links.at_destroy, if_neg hne, Links.at_ensure_of_ne names_ne.2.1, podLinks_vtep]
    rfl)
  exact ⟨e, k, hrun, hwired, l, hl, by rw [hkind, Link.unplug_kind]⟩

end Lives

end Ohno.EvpnBackend
