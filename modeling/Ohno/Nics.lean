import Mathlib.Data.List.TakeWhile
import Ohno.Netlink
import Ohno.Subnets

/-!
# Addresses and network interfaces

`Addr` and `Nic` are values, and a member function that changes its object
returns the changed one. `Nic` remembers what it added in four lists; whether
it has a `Netlink` object is the field `netlink`. The subclasses differ in
`setup` and in what `setStatus` does, and are told apart by `kind`.
-/
namespace Ohno.Nics
open CommandPrograms DelimitedLists AddressText EtcdClientShell Subnets Netlink

/-! ### Addresses -/

/-- The leading part of a text, and what follows its first slash if it has one. -/
def cutSlash (t : Text) : Text × Option Text :=
  match t.dropWhile (· ≠ '/') with
  | [] => (t, none)
  | _ :: rest => (t.takeWhile (· ≠ '/'), some rest)

/-- What C skips in front of a number: a blank, or one of tab to carriage return. -/
def isSpace (c : Char) : Bool := c = ' ' || ('\t' ≤ c && c ≤ '\r')

/-- `std::stoi` as an unsigned number: blanks, a sign, digits, and then anything. -/
def stoi (t : Text) : Option ℕ :=
  let t := t.dropWhile isSpace
  let (neg, t) := match t with
    | '-' :: t => (true, t)
    | '+' :: t => (false, t)
    | t => (false, t)
  let ds := t.takeWhile Char.isDigit
  let n := Nat.ofDigitChars 10 ds 0
  if ds = [] then none
  else if neg then (if n ≤ 2 ^ 31 then some ((2 ^ 32 - n) % 2 ^ 32) else none)
  else if n < 2 ^ 31 then some n else none

/-- `reserved` marks an address that could not be parsed. Its numbers are what
the constructor had set by then, zero standing for a prefix never set. -/
structure Addr where
  addressV4 : BitVec 32 := 0
  ipVersion : IpVersion := .reserved
  prefixLength : ℕ := 0
deriving Repr, DecidableEq

namespace Addr

/-- The constructor, which catches what it throws. -/
def ofCidr (boost : Boost) (cidr : Text) : Addr :=
  let parse (addr full : Text) (p : ℕ) : Addr :=
    if matchesIpv4 full then
      match boost.makeAddressV4 addr with
      | some a => ⟨a, .ipv4, p⟩
      | none => ⟨0, .reserved, p⟩
    else if boost.makeAddressV6 addr then ⟨0, .ipv6, p⟩ else ⟨0, .reserved, p⟩
  if cidr = [] then {}
  else match cutSlash cidr with
    | (addr, none) => parse addr (addr ++ '/' :: decimal maxPrefixIpv4) maxPrefixIpv4
    | (addr, some len) =>
        match stoi len with
        | none => {}
        | some p => parse addr cidr p

def getAddr (a : Addr) : Except Thrown Text :=
  if a.ipVersion = .ipv6 then .error (.exception "IPv6 not supported yet")
  else .ok (dottedQuad a.addressV4)

def getAddrCidr (a : Addr) : Except Thrown Text := do
  let addr ← a.getAddr
  pure (addr ++ '/' :: decimal a.prefixLength)

theorem cutSlash_append {t : Text} (h : '/' ∉ t) (rest : Text) :
    cutSlash (t ++ '/' :: rest) = (t, some rest) := by
  have hall : ∀ c ∈ t, decide (c ≠ '/') = true := by
    intro c hc
    simpa using fun he : c = '/' => h (he ▸ hc)
  rw [cutSlash, List.dropWhile_append_of_pos hall, List.takeWhile_append_of_pos hall]
  simp

theorem cutSlash_self {t : Text} (h : '/' ∉ t) : cutSlash t = (t, none) := by
  have hall : ∀ c ∈ t, decide (c ≠ '/') = true := by
    intro c hc
    simpa using fun he : c = '/' => h (he ▸ hc)
  have hd : t.dropWhile (fun c => decide (c ≠ '/')) = [] := List.dropWhile_eq_nil_iff.mpr hall
  unfold cutSlash
  rw [hd]

theorem isSpace_of_isDigit {c : Char} (h : c.isDigit) : isSpace c = false := by
  have hz : 48 ≤ c.toNat := (Char.isDigit_iff_toNat.mp h).1
  have hs : c ≠ ' ' := by
    intro hs
    simp [hs] at h
  have hr : ¬ c ≤ '\r' := by
    intro hr
    have hn : c.toNat ≤ 13 := hr
    omega
  simp [isSpace, hs, hr]

/-- Digits alone are read as the number they write, as far as an `int` holds it. -/
theorem stoi_isDigits {t : Text} (h : isDigits t) :
    stoi t = if Nat.ofDigitChars 10 t 0 < 2 ^ 31 then some (Nat.ofDigitChars 10 t 0) else none := by
  have hall : t ≠ [] ∧ ∀ c ∈ t, c.isDigit = true := by simpa [isDigits] using h
  obtain ⟨hn, hdigit⟩ := hall
  have htake : t.takeWhile Char.isDigit = t := List.takeWhile_eq_self_iff.mpr hdigit
  cases t with
  | nil => exact absurd rfl hn
  | cons c cs =>
      have hc : c.isDigit = true := hdigit c List.mem_cons_self
      have hw : isSpace c = false := isSpace_of_isDigit hc
      have hminus : c ≠ '-' := by
        rintro rfl
        simp at hc
      have hplus : c ≠ '+' := by
        rintro rfl
        simp at hc
      simp only [stoi, List.dropWhile_cons, hw, Bool.false_eq_true, if_false]
      split
      · rename_i heq
        exact absurd (List.cons.inj heq).1 hminus
      · rename_i heq
        exact absurd (List.cons.inj heq).1 hplus
      · simp [htake]

theorem stoi_decimal {n : ℕ} (h : n < 2 ^ 31) : stoi (decimal n) = some n := by
  have hn : Nat.ofDigitChars 10 (decimal n) 0 = n := Nat.ofDigitChars_ten_toDigits
  rw [stoi_isDigits (isDigits_decimal n), hn, if_pos h]

/-- What `getAddrCidr` writes is read back. -/
theorem ofCidr_cidr (boost : Boost) (a : BitVec 32) {p : ℕ} (hp : p ≤ 32) :
    ofCidr boost (cidr a p) = ⟨a, .ipv4, p⟩ := by
  have hs : '/' ∉ dottedQuad a := (readable_cidr a p).free _ (by simp)
  have hm : matchesIpv4 (dottedQuad a ++ '/' :: decimal p) = true :=
    cidr_eq a p ▸ matchesIpv4_cidr a p
  simp [ofCidr, cidr_eq, cutSlash_append hs, stoi_decimal (n := p) (by omega), hm,
    boost.makeAddressV4_dottedQuad]

/-- An address without a prefix gets the longest one. -/
theorem ofCidr_dottedQuad (boost : Boost) (a : BitVec 32) :
    ofCidr boost (dottedQuad a) = ⟨a, .ipv4, 32⟩ := by
  have hs : '/' ∉ dottedQuad a := (readable_cidr a 32).free _ (by simp)
  have hm : matchesIpv4 (dottedQuad a ++ '/' :: decimal 32) = true :=
    cidr_eq a 32 ▸ matchesIpv4_cidr a 32
  simp [ofCidr, cutSlash_self hs, maxPrefixIpv4, hm, boost.makeAddressV4_dottedQuad,
    dottedQuad_ne_nil]

@[simp] theorem getAddr_ipv4 (a : BitVec 32) (p : ℕ) :
    getAddr ⟨a, .ipv4, p⟩ = .ok (dottedQuad a) := rfl

@[simp] theorem getAddrCidr_ipv4 (a : BitVec 32) (p : ℕ) :
    getAddrCidr ⟨a, .ipv4, p⟩ = .ok (cidr a p) := congrArg Except.ok (cidr_eq a p).symm

end Addr

@[irreducible] def nameVxlan : Text := "ohnov".toList
@[irreducible] def pathNamespace : Text := "/var/run/netns".toList

/-- `Nic::simpleNetns`: whatever stands before the directory is not looked at. -/
def simpleNetns (netns : Text) : Except Thrown Text :=
  if netns.tails.any (pathNamespace.isPrefixOf ·) then
    if netns.length < pathNamespace.length + 1 then .error .standard
    else .ok (netns.drop (pathNamespace.length + 1))
  else
    .ok netns

/-! ### Interfaces -/

structure Route where
  dest : Text
  via : Text
  dev : Text
deriving Repr, DecidableEq

structure Neigh where
  addr : Text
  mac : Text
  dev : Text
deriving Repr, DecidableEq

structure Fdb where
  mac : Text
  underlayAddr : Text
  dev : Text
deriving Repr, DecidableEq

/-- The class of an interface. -/
inductive NicKind where
  | nic
  | bridge
  | underlay
  | veth (peer : Text)
  | vxlan (underlayAddr underlayDev : Text)
deriving Repr, DecidableEq

structure Nic where
  kind : NicKind := .nic
  netlink : Bool := false
  name : Text := []
  netns : Text := []
  addrs : List Addr := []
  routes : List Route := []
  neighs : List Neigh := []
  fdbs : List Fdb := []
deriving Repr, DecidableEq

namespace Nic
variable (nic : Nic)

/-- Adding an entry to the system: one that exists already is taken over. -/
def addEntry (isExist setEntry : NetlinkCmd) (known : Nic) : OhnoProgram (Bool × Nic) := do
  if nic.netlink then
    if ← Netlink.netlink isExist then
      pure (true, known)
    else if ← Netlink.netlink setEntry then
      pure (true, known)
    else
      pure (false, nic)
  else
    pure (false, nic)

/-- Deleting one: an entry that does not exist counts as deleted, and then the
list keeps it. -/
def delEntry (isExist setEntry : NetlinkCmd) (pruned : Nic) : OhnoProgram (Bool × Nic) := do
  if nic.netlink then
    if ← Netlink.netlink isExist then
      if ← Netlink.netlink setEntry then
        pure (true, pruned)
      else
        pure (false, nic)
    else
      pure (true, nic)
  else
    pure (false, nic)

def addRoute (r : Route) (nhflags : RouteNHFlags) : OhnoProgram (Bool × Nic) :=
  nic.addEntry (.routeIsExist r.dest r.via r.dev nic.netns)
    (.routeSetEntry r.dest r.via true r.dev nic.netns nhflags)
    { nic with routes := nic.routes ++ [r] }

def delRoute (dst via dev : Text) : OhnoProgram (Bool × Nic) :=
  nic.delEntry (.routeIsExist dst via dev nic.netns)
    (.routeSetEntry dst via false dev nic.netns .none)
    { nic with routes := nic.routes.filter (· ≠ ⟨dst, via, dev⟩) }

def addNeigh (n : Neigh) : OhnoProgram (Bool × Nic) :=
  nic.addEntry (.neighIsExist n.addr n.dev nic.netns)
    (.neighSetEntry n.addr n.mac true n.dev nic.netns)
    { nic with neighs := nic.neighs ++ [n] }

def delNeigh (addr mac dev : Text) : OhnoProgram (Bool × Nic) :=
  nic.delEntry (.neighIsExist addr dev nic.netns) (.neighSetEntry addr mac false dev nic.netns)
    { nic with neighs := nic.neighs.filter (· ≠ ⟨addr, mac, dev⟩) }

def addFdb (f : Fdb) : OhnoProgram (Bool × Nic) :=
  nic.addEntry (.fdbIsExist f.mac f.underlayAddr f.dev nic.netns)
    (.fdbSetEntry f.mac f.underlayAddr f.dev true nic.netns)
    { nic with fdbs := nic.fdbs ++ [f] }

/-- The list is pruned without comparing the device. -/
def delFdb (addr mac dev : Text) : OhnoProgram (Bool × Nic) :=
  nic.delEntry (.fdbIsExist mac addr dev nic.netns) (.fdbSetEntry mac addr dev false nic.netns)
    { nic with fdbs := nic.fdbs.filter fun f => ¬ (f.mac = mac ∧ f.underlayAddr = addr) }

section Rules
variable {S T : Type} {E : EtcdCmd → S → Reply → S → Prop} {N : NetlinkCmd → T → Bool → T → Prop}
variable {nic} {isExist setEntry : NetlinkCmd} {other : Nic}
variable {Q : Except Thrown (Bool × Nic) → S × T → Prop} {w : S × T}

theorem safe_addEntry (hn : nic.netlink = true)
    (exists_ : ∀ t, N isExist w.2 true t → Q (.ok (true, other)) (w.1, t))
    (added : ∀ t u, N isExist w.2 false t → N setEntry t true u → Q (.ok (true, other)) (w.1, u))
    (failed : ∀ t u, N isExist w.2 false t → N setEntry t false u → Q (.ok (false, nic)) (w.1, u)) :
    (nic.addEntry isExist setEntry other).Safe (serve E N) Q w := by
  simp only [addEntry, hn, if_true, Program.bind_eq, Program.safe_bind, safe_netlink,
    Program.onward_ok]
  intro b t ht
  cases b with
  | true => exact exists_ t ht
  | false =>
      simp only [Bool.false_eq_true, if_false, Program.safe_bind, safe_netlink, Program.onward_ok]
      intro b u hu
      cases b with
      | true => exact added t u ht hu
      | false => exact failed t u ht hu

theorem safe_delEntry (hn : nic.netlink = true)
    (absent : ∀ t, N isExist w.2 false t → Q (.ok (true, nic)) (w.1, t))
    (deleted : ∀ t u, N isExist w.2 true t → N setEntry t true u → Q (.ok (true, other)) (w.1, u))
    (failed : ∀ t u, N isExist w.2 true t → N setEntry t false u → Q (.ok (false, nic)) (w.1, u)) :
    (nic.delEntry isExist setEntry other).Safe (serve E N) Q w := by
  simp only [delEntry, hn, if_true, Program.bind_eq, Program.safe_bind, safe_netlink,
    Program.onward_ok]
  intro b t ht
  cases b with
  | false => exact absent t ht
  | true =>
      simp only [if_true, Program.safe_bind, safe_netlink, Program.onward_ok]
      intro b u hu
      cases b with
      | true => exact deleted t u ht hu
      | false => exact failed t u ht hu

end Rules

section Runs
variable {S T : Type} {e : EtcdCmd → S → Reply × S} {n : NetlinkCmd → T → Bool × T}
variable {nic} {isExist setEntry : NetlinkCmd} {other : Nic} {w : S × T}

theorem run_addEntry (hn : nic.netlink = true) :
    (nic.addEntry isExist setEntry other).run (serveBy e n) w =
      if (n isExist w.2).1 then (.ok (true, other), (w.1, (n isExist w.2).2))
      else
        let x := n setEntry (n isExist w.2).2
        (.ok (if x.1 then (true, other) else (false, nic)), (w.1, x.2)) := by
  simp only [addEntry, hn, if_true, Program.bind_eq, Program.run_bind, run_netlink,
    Program.Final.andThen_ok]
  cases (n isExist w.2).1 with
  | true => rfl
  | false =>
      simp only [Bool.false_eq_true, if_false, Program.run_bind, run_netlink,
        Program.Final.andThen_ok]
      cases (n setEntry (n isExist w.2).2).1 <;> rfl

theorem run_delEntry (hn : nic.netlink = true) :
    (nic.delEntry isExist setEntry other).run (serveBy e n) w =
      if (n isExist w.2).1 then
        let x := n setEntry (n isExist w.2).2
        (.ok (if x.1 then (true, other) else (false, nic)), (w.1, x.2))
      else (.ok (true, nic), (w.1, (n isExist w.2).2)) := by
  simp only [delEntry, hn, if_true, Program.bind_eq, Program.run_bind, run_netlink,
    Program.Final.andThen_ok]
  cases (n isExist w.2).1 with
  | false => rfl
  | true =>
      simp only [if_true, Program.run_bind, run_netlink, Program.Final.andThen_ok]
      cases (n setEntry (n isExist w.2).2).1 <;> rfl

end Runs

/-- Connects the interface with the system and creates it there where its class does so. -/
def setup : OhnoProgram (Bool × Nic) := do
  let linked := { nic with netlink := true }
  match nic.kind with
  | .nic => pure (true, linked)
  | .underlay => pure (true, linked)
  | .bridge =>
      if ← Netlink.netlink (.linkExist nic.name []) then
        pure (true, linked)
      else
        let ok ← Netlink.netlink (.bridgeCreate nic.name)
        pure (ok, linked)
  | .veth peer => do
      let ok ← Netlink.netlink (.vethCreate nic.name peer)
      pure (ok, linked)
  | .vxlan underlayAddr underlayDev =>
      if ← Netlink.netlink (.linkExist nic.name []) then
        pure (true, linked)
      else
        let ok ← Netlink.netlink (.vxlanCreate nic.name underlayAddr underlayDev)
        pure (ok, linked)

/-- The routes that `cleanup` takes away. -/
def cleanupRoutes : List Route → OhnoProgram Unit
  | [] => pure ()
  | r :: rest => do
      if ← Netlink.netlink (.routeIsExist r.dest r.via r.dev nic.netns) then
        let _ ← Netlink.netlink (.routeSetEntry r.dest r.via false r.dev nic.netns .none)
        cleanupRoutes rest
      else
        cleanupRoutes rest

def cleanupAddrs : List Addr → OhnoProgram Unit
  | [] => pure ()
  | a :: rest => do
      let cidr ← Program.ofExcept a.getAddrCidr
      let _ ← Netlink.netlink (.addressSetEntry nic.name cidr false nic.netns)
      cleanupAddrs rest

/-- The underlay device keeps its addresses and stays. -/
def cleanup : OhnoProgram Unit := do
  if nic.netlink then
    nic.cleanupRoutes nic.routes
    if nic.kind = .underlay then
      pure ()
    else
      nic.cleanupAddrs nic.addrs
      let _ ← Netlink.netlink (.linkDestory nic.name nic.netns)
      pure ()
  else
    pure ()

def isExist : OhnoProgram Bool :=
  if nic.netlink then Netlink.netlink (.linkExist nic.name nic.netns) else pure false

def rename (name : Text) : OhnoProgram (Bool × Nic) := do
  if name = [] then
    pure (true, nic)
  else if nic.netlink then
    if ← Netlink.netlink (.linkRename nic.name name nic.netns) then
      pure (true, { nic with name := name })
    else
      pure (false, nic)
  else
    pure (false, nic)

def setNetns (netns : Text) : OhnoProgram (Bool × Nic) := do
  if nic.netlink then
    let simple ← Program.ofExcept (simpleNetns netns)
    if ← Netlink.netlink (.linkIsInNetns nic.name simple) then
      pure (true, { nic with netns := simple })
    else if ← Netlink.netlink (.linkToNetns nic.name simple) then
      pure (true, { nic with netns := simple })
    else
      pure (false, nic)
  else
    pure (false, nic)

/-- A veth switches its peer first, which is in the root namespace. -/
def setStatus (status : LinkStatus) : OhnoProgram Bool := do
  if nic.netlink then
    match nic.kind with
    | .veth peer =>
        if ← Netlink.netlink (.linkSetStatus peer status []) then
          Netlink.netlink (.linkSetStatus nic.name status nic.netns)
        else
          pure false
    | _ => Netlink.netlink (.linkSetStatus nic.name status nic.netns)
  else
    pure false

def addAddr (a : Addr) : OhnoProgram (Bool × Nic) := do
  let cidr ← Program.ofExcept a.getAddrCidr
  nic.addEntry (.addressIsExist nic.name cidr nic.netns)
    (.addressSetEntry nic.name cidr true nic.netns) { nic with addrs := nic.addrs ++ [a] }

/-- The addresses without those of a text. Each of them is asked for its text. -/
def pruneAddrs (cidr : Text) : List Addr → Except Thrown (List Addr)
  | [] => .ok []
  | a :: rest => do
      let text ← a.getAddrCidr
      let kept ← pruneAddrs cidr rest
      pure (if text = cidr then kept else a :: kept)

def delAddr (cidr : Text) : OhnoProgram (Bool × Nic) := do
  if nic.netlink then
    if ← Netlink.netlink (.addressIsExist nic.name cidr nic.netns) then
      if ← Netlink.netlink (.addressSetEntry nic.name cidr false nic.netns) then
        let addrs ← Program.ofExcept (pruneAddrs cidr nic.addrs)
        pure (true, { nic with addrs := addrs })
      else
        pure (false, nic)
    else
      pure (true, nic)
  else
    pure (false, nic)

/-- `getAddr` without an argument: the first address, if there is one. -/
def getAddr : Option Addr := nic.addrs.head?

/-- `Bridge::setMaster` -/
def setMaster (name : Text) : OhnoProgram Bool :=
  if nic.netlink then Netlink.netlink (.bridgeSetStatus name true nic.name nic.netns)
  else pure false

end Nic
end Ohno.Nics
