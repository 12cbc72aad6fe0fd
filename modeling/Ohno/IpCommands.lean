import Mathlib.Data.List.Infix
import Ohno.Nics

/-!
# What the ip commands tell

`NetlinkIpCmd` learns from the output of `ip addr show` and `ip route show`
whether an entry exists: an address by searching for its text, a route by there
being any output. A command that fails counts as absent. `IpTool` states what
the commands print and do when they succeed; any of them may fail without
effect. `truthful_iff` says when the answers of the interface are true.
-/
namespace Ohno.IpCommands
open CommandPrograms DelimitedLists AddressText EtcdClientShell Netlink Nics

/-! ### The commands -/

/-- The command line is `ip addr show dev NAME`, `ip addr add|del ADDR dev NAME`,
`ip route show DEST via VIA [dev DEV]` and `ip route add|del DEST via VIA
[dev DEV] [NHFLAGS]`, behind `ip netns exec NETNS` for a namespace. `other` is the
one command of a function that is not about addresses or routes. -/
inductive IpCmd where
  | addrShow (name netns : Text)
  | addrSet (add : Bool) (addr name netns : Text)
  | routeShow (dest via dev netns : Text)
  | routeSet (add : Bool) (dest via dev : Text) (nhflags : RouteNHFlags) (netns : Text)
  | other (c : NetlinkCmd)
deriving Repr, DecidableEq

abbrev IpProgram (A : Type) := Program IpCmd Reply Thrown A

/-- `std::string::find` with a result other than `npos`. -/
def contains (t out : Text) : Bool := out.tails.any (t.isPrefixOf ·)

@[irreducible] def defaultDest : Text := "default".toList

/-- An empty destination is the default one. -/
def destOf (dst : Text) : Text := if dst = [] then defaultDest else dst

def executeCommand (c : IpCmd) : IpProgram Bool := do
  let ret ← Program.request c
  pure ret.ok

def addressIsExist (name addr netns : Text) : IpProgram Bool := do
  let ret ← Program.request (.addrShow name netns)
  pure (ret.ok && contains addr ret.out)

def addressSetEntry (name addr : Text) (add : Bool) (netns : Text) : IpProgram Bool :=
  executeCommand (.addrSet add addr name netns)

def routeIsExist (dst via dev netns : Text) : IpProgram Bool := do
  let ret ← Program.request (.routeShow (destOf dst) via dev netns)
  pure (ret.ok && ret.out ≠ [])

def routeSetEntry (dst via : Text) (add : Bool) (dev netns : Text) (nhflags : RouteNHFlags) :
    IpProgram Bool :=
  executeCommand (.routeSet add (destOf dst) via dev nhflags netns)

/-- The functions of `NetlinkIpCmd`. -/
def netlinkIpCmd : NetlinkCmd → IpProgram Bool
  | .addressIsExist name addr netns => addressIsExist name addr netns
  | .addressSetEntry name addr add netns => addressSetEntry name addr add netns
  | .routeIsExist dst via dev netns => routeIsExist dst via dev netns
  | .routeSetEntry dst via add dev netns nhflags => routeSetEntry dst via add dev netns nhflags
  | .linkIsInNetns name netns => do
      let ret ← Program.request (.other (.linkIsInNetns name netns))
      pure (ret.ok && contains name ret.out)
  | .neighIsExist addr dev netns => do
      let ret ← Program.request (.other (.neighIsExist addr dev netns))
      pure (ret.ok && ret.out ≠ [])
  | .fdbIsExist mac underlayAddr dev netns => do
      let ret ← Program.request (.other (.fdbIsExist mac underlayAddr dev netns))
      pure (ret.ok && ret.out ≠ [])
  | c => executeCommand (.other c)

theorem contains_iff {t out : Text} : contains t out = true ↔ t <:+: out := by
  rw [contains, List.any_eq_true, List.infix_iff_prefix_suffix]
  constructor
  · intro ⟨u, hu, ht⟩
    exact ⟨u, List.isPrefixOf_iff_prefix.mp ht, (List.mem_tails u out).mp hu⟩
  · intro ⟨u, ht, hu⟩
    exact ⟨u, (List.mem_tails u out).mpr hu, List.isPrefixOf_iff_prefix.mpr ht⟩

/-! ### The kernel and the tool -/

/-- The text of an address of either family and of a prefix length. -/
def IsCidr (c : Text) : Prop :=
  ∃ addr len : Text, c = addr ++ '/' :: len ∧ addr ≠ [] ∧ len ≠ [] ∧
    (∀ x ∈ addr, x.isDigit ∨ x ∈ "abcdefABCDEF.:".toList) ∧ ∀ x ∈ len, x.isDigit

theorem IsCidr.blank_notMem {c : Text} (h : IsCidr c) : ' ' ∉ c := by
  obtain ⟨addr, len, rfl, -, -, haddr, hlen⟩ := h
  intro hmem
  rw [List.mem_append, List.mem_cons] at hmem
  rcases hmem with hmem | hmem | hmem
  · rcases haddr _ hmem with h | h <;> simp at h
  · simp at hmem
  · simpa using hlen _ hmem

theorem IsCidr.ne_nil {c : Text} (h : IsCidr c) : c ≠ [] := by
  obtain ⟨addr, len, rfl, -⟩ := h
  simp

/-- The addresses of each interface in each namespace, as `ip` writes them, and
the routes of each namespace. -/
structure Kernel (R : Type) where
  addrs : Text → Text → List Text
  routes : Text → List R

/-- What the commands print and do when they succeed. A CIDR that occurs in the
output of `ip addr show` does so in the text of an address. `selects` is how
`ip route` reads a destination, a gateway and a device, which may be empty: it
shows every such route, and deletes the first of them. -/
structure IpTool (R : Type) where
  out : IpCmd → Kernel R → Text
  after : IpCmd → Kernel R → Kernel R
  selects : (dest via dev : Text) → R → Bool
  show_unchanged : ∀ name netns k, after (.addrShow name netns) k = k
  routeShow_unchanged : ∀ dest via dev netns k, after (.routeShow dest via dev netns) k = k
  shown : ∀ name netns k, ∀ a ∈ k.addrs netns name, a <:+: out (.addrShow name netns) k
  shownIn : ∀ name netns k c, IsCidr c → c <:+: out (.addrShow name netns) k →
    ∃ a ∈ k.addrs netns name, c <:+: a
  routeShown : ∀ dest via dev netns k,
    out (.routeShow dest via dev netns) k ≠ [] ↔ ∃ r ∈ k.routes netns, selects dest via dev r
  addrAdded : ∀ addr name netns k, addr ∈ (after (.addrSet true addr name netns) k).addrs netns name
  addrDeleted : ∀ addr name netns k,
    addr ∉ (after (.addrSet false addr name netns) k).addrs netns name
  routeAdded : ∀ dest via dev nhflags netns k,
    ∃ r ∈ (after (.routeSet true dest via dev nhflags netns) k).routes netns, selects dest via dev r
  routeDeleted : ∀ dest via dev nhflags netns k,
    (after (.routeSet false dest via dev nhflags netns) k).routes netns =
      (k.routes netns).eraseP (selects dest via dev)

variable {R : Type} (tool : IpTool R) (fails : IpCmd → Bool)

/-- A command that fails prints nothing and changes nothing. -/
def IpTool.execute (c : IpCmd) (k : Kernel R) : Reply × Kernel R :=
  if fails c then (⟨false, []⟩, k) else (⟨true, tool.out c k⟩, tool.after c k)

/-- The answer of a function of `NetlinkIpCmd`. None of them throws. -/
def answer (c : NetlinkCmd) (k : Kernel R) : Bool × Kernel R :=
  match (netlinkIpCmd c).run (tool.execute fails) k with
  | (.ok b, k) => (b, k)
  | (.error _, k) => (false, k)

section Answers
variable (k : Kernel R)

theorem answer_addressIsExist (name addr netns : Text) :
    answer tool fails (.addressIsExist name addr netns) k =
      (!fails (.addrShow name netns) && contains addr (tool.out (.addrShow name netns) k), k) := by
  simp only [answer, netlinkIpCmd, addressIsExist, Program.bind_eq, Program.run_bind,
    Program.run_request, Program.Final.andThen_ok, Program.pure_eq, Program.run_pure,
    IpTool.execute]
  cases fails (.addrShow name netns) with
  | true => rfl
  | false => simp [tool.show_unchanged]

theorem answer_routeIsExist (dst via dev netns : Text) :
    answer tool fails (.routeIsExist dst via dev netns) k =
      (!fails (.routeShow (destOf dst) via dev netns) &&
        decide (tool.out (.routeShow (destOf dst) via dev netns) k ≠ []), k) := by
  simp only [answer, netlinkIpCmd, routeIsExist, Program.bind_eq, Program.run_bind,
    Program.run_request, Program.Final.andThen_ok, Program.pure_eq, Program.run_pure,
    IpTool.execute]
  cases fails (.routeShow (destOf dst) via dev netns) with
  | true => rfl
  | false => simp [tool.routeShow_unchanged]

theorem answer_addressSetEntry (name addr : Text) (add : Bool) (netns : Text) :
    answer tool fails (.addressSetEntry name addr add netns) k =
      if fails (.addrSet add addr name netns) then (false, k)
      else (true, tool.after (.addrSet add addr name netns) k) := by
  simp only [answer, netlinkIpCmd, addressSetEntry, executeCommand, Program.bind_eq,
    Program.run_bind, Program.run_request, Program.Final.andThen_ok, Program.pure_eq,
    Program.run_pure, IpTool.execute]
  cases fails (.addrSet add addr name netns) <;> rfl

theorem answer_routeSetEntry (dst via : Text) (add : Bool) (dev netns : Text)
    (nhflags : RouteNHFlags) :
    answer tool fails (.routeSetEntry dst via add dev netns nhflags) k =
      if fails (.routeSet add (destOf dst) via dev nhflags netns) then (false, k)
      else (true, tool.after (.routeSet add (destOf dst) via dev nhflags netns) k) := by
  simp only [answer, netlinkIpCmd, routeSetEntry, executeCommand, Program.bind_eq,
    Program.run_bind, Program.run_request, Program.Final.andThen_ok, Program.pure_eq,
    Program.run_pure, IpTool.execute]
  cases fails (.routeSet add (destOf dst) via dev nhflags netns) <;> rfl

end Answers

/-! ### Calls -/

inductive NicCall where
  | addAddr (a : Addr)
  | delAddr (c : {c : Text // IsCidr c})
  | addRoute (r : Route) (nhflags : RouteNHFlags)
  | delRoute (dst via dev : Text)

variable (nic : Nic)

def NicCall.program : NicCall → OhnoProgram (Bool × Nic)
  | addAddr a => nic.addAddr a
  | delAddr c => nic.delAddr c
  | addRoute r nhflags => nic.addRoute r nhflags
  | delRoute dst via dev => nic.delRoute dst via dev

/-- The call returns true in the kernel `k`, and leaves `k'`. -/
def ReturnsTrue (call : NicCall) (k k' : Kernel R) : Prop :=
  ∃ nic' w, (call.program nic).run (serveBy Etcd.ok (answer tool fails)) (fun _ => none, k) =
    (.ok (true, nic'), (w, k'))

/-- The kernel has a route from the namespace of the interface. -/
def HasRoute (dst via dev : Text) (k : Kernel R) : Prop :=
  ∃ r ∈ k.routes nic.netns, tool.selects (destOf dst) via dev r

/-- What a call that returned true promises about the kernel. -/
def NicCall.Promised (k : Kernel R) : NicCall → Prop
  | addAddr a => ∃ t, a.getAddrCidr = .ok t ∧ t ∈ k.addrs nic.netns nic.name
  | delAddr c => c.val ∉ k.addrs nic.netns nic.name
  | addRoute r _ => HasRoute tool nic r.dest r.via r.dev k
  | delRoute dst via dev => ¬ HasRoute tool nic dst via dev k

/-- Whenever the call returns true the kernel is as promised. -/
def Truthful (call : NicCall) (k : Kernel R) : Prop :=
  ∀ k', ReturnsTrue tool fails nic call k k' → call.Promised tool nic k'

/-- The answer is true exactly for the addresses of the interface. -/
def Exact (name : Text) (c : {c : Text // IsCidr c}) (netns : Text) (k : Kernel R) : Prop :=
  (answer tool fails (.addressIsExist name c netns) k).1 = true ↔ c.val ∈ k.addrs netns name

/-! ### The conditions -/

/-- The text occurs in another address of the interface, and it is not one itself. -/
def Mistaken (t : Text) (addrs : List Text) : Prop := t ∉ addrs ∧ ∃ a ∈ addrs, t <:+: a

/-- An address to add is not mistaken for a present one; nothing that is to be
deleted is there when the query fails; at most one route is to be deleted. -/
def NicCall.Clear (k : Kernel R) : NicCall → Prop
  | addAddr a => ∀ t, a.getAddrCidr = .ok t → fails (.addrShow nic.name nic.netns) = false →
      ¬ Mistaken t (k.addrs nic.netns nic.name)
  | delAddr c => fails (.addrShow nic.name nic.netns) = true → c.val ∉ k.addrs nic.netns nic.name
  | addRoute _ _ => True
  | delRoute dst via dev =>
      let found := (k.routes nic.netns).countP (tool.selects (destOf dst) via dev)
      if fails (.routeShow (destOf dst) via dev nic.netns) then found = 0
      else fails (.routeSet false (destOf dst) via dev .none nic.netns) = false → found ≤ 1

section Entries
variable {S T : Type} {e : EtcdCmd → S → Reply × S} {n : NetlinkCmd → T → Bool × T}
variable {nic} {isExist setEntry : NetlinkCmd} {other : Nic} {w : S × T} {t : T}

theorem addEntry_true_iff (hn : nic.netlink = true) :
    (∃ nic' s, (nic.addEntry isExist setEntry other).run (serveBy e n) w =
        (.ok (true, nic'), (s, t))) ↔
      if (n isExist w.2).1 then t = (n isExist w.2).2
      else (n setEntry (n isExist w.2).2).1 = true ∧ t = (n setEntry (n isExist w.2).2).2 := by
  rw [Nic.run_addEntry hn]
  cases (n isExist w.2).1 with
  | true => simp [eq_comm]
  | false => cases hs : (n setEntry (n isExist w.2).2).1 <;> simp [hs, eq_comm]

theorem delEntry_true_iff (hn : nic.netlink = true) :
    (∃ nic' s, (nic.delEntry isExist setEntry other).run (serveBy e n) w =
        (.ok (true, nic'), (s, t))) ↔
      if (n isExist w.2).1 then
        (n setEntry (n isExist w.2).2).1 = true ∧ t = (n setEntry (n isExist w.2).2).2
      else t = (n isExist w.2).2 := by
  rw [Nic.run_delEntry hn]
  cases (n isExist w.2).1 with
  | true => cases hs : (n setEntry (n isExist w.2).2).1 <;> simp [hs, eq_comm]
  | false => simp [eq_comm]

end Entries

/-! ### One call -/

theorem isCidr_of_getAddrCidr {a : Addr} {t : Text} (h : a.getAddrCidr = .ok t) : IsCidr t := by
  unfold Addr.getAddrCidr Addr.getAddr at h
  split at h
  · cases h
  · cases h
    refine ⟨_, _, rfl, dottedQuad_ne_nil _, decimal_ne_nil _, ?_, ?_⟩
    · intro x hx
      rcases mem_dottedQuad hx with rfl | hx
      · exact .inr (by decide)
      · exact .inl hx
    · exact fun x hx => isDigit_of_mem_decimal hx

/-- Taking one of them away leaves another if there are two. -/
theorem exists_mem_eraseP_iff {α : Type} (p : α → Bool) (l : List α) :
    (∃ x ∈ l.eraseP p, p x) ↔ 2 ≤ l.countP p := by
  induction l with
  | nil => simp
  | cons a l ih =>
      cases ha : p a with
      | true =>
          rw [List.eraseP_cons_of_pos ha, List.countP_cons_of_pos ha, ← List.countP_pos_iff]
          omega
      | false =>
          rw [List.eraseP_cons_of_neg (by simp [ha]), List.countP_cons_of_neg (by simp [ha]), ← ih]
          simp [ha]

section Calls
variable {tool fails nic} {k : Kernel R}

/-- An output with the text in it, when the text is not that of an address. -/
theorem mistaken_of_contains {name netns t : Text} (ht : IsCidr t) (hk : t ∉ k.addrs netns name)
    (h : contains t (tool.out (.addrShow name netns) k) = true) :
    Mistaken t (k.addrs netns name) :=
  ⟨hk, tool.shownIn name netns k t ht (contains_iff.mp h)⟩

theorem contains_of_mem (tool : IpTool R) {name netns t a : Text} (ha : a ∈ k.addrs netns name)
    (h : t <:+: a) : contains t (tool.out (.addrShow name netns) k) = true :=
  contains_iff.mpr (h.trans (tool.shown name netns k a ha))

theorem truthful_addAddr_iff (hn : nic.netlink = true) (a : Addr) :
    Truthful tool fails nic (.addAddr a) k ↔ (NicCall.addAddr a).Clear tool fails nic k := by
  simp only [Truthful, ReturnsTrue, NicCall.program, NicCall.Promised, NicCall.Clear]
  cases ha : a.getAddrCidr with
  | error err => simp [Nic.addAddr, ha]
  | ok t =>
      simp only [Nic.addAddr, ha, Program.ofExcept_ok, Program.bind_eq, Program.pure_bind,
        addEntry_true_iff hn, answer_addressIsExist, answer_addressSetEntry, Except.ok.injEq,
        exists_eq_left', forall_eq']
      constructor
      · intro h hq hm
        obtain ⟨b, hb, hin⟩ := hm.2
        have hshown := contains_of_mem tool hb hin
        exact hm.1 (h k (by simp [hq, hshown]))
      · intro h k' hk'
        split at hk'
        · rename_i hq
          simp only [Bool.and_eq_true, Bool.not_eq_true'] at hq
          by_contra hmem
          rw [hk'] at hmem
          exact h hq.1 (mistaken_of_contains (isCidr_of_getAddrCidr ha) hmem hq.2)
        · split at hk'
          · simp at hk'
          · rw [hk'.2]
            exact tool.addrAdded _ _ _ _

/-- After a deletion an address of the list may have no text, and then the call throws. -/
theorem delAddr_true {e : EtcdCmd → Store → Reply × Store}
    {n : NetlinkCmd → Kernel R → Bool × Kernel R} {t : Text} {w w' : Store} {k' : Kernel R}
    {nic' : Nic} (hn : nic.netlink = true)
    (h : (nic.delAddr t).run (serveBy e n) (w, k) = (.ok (true, nic'), (w', k'))) :
    let isExist := n (.addressIsExist nic.name t nic.netns) k
    let setEntry := n (.addressSetEntry nic.name t false nic.netns) isExist.2
    if isExist.1 then setEntry.1 = true ∧ k' = setEntry.2 else k' = isExist.2 := by
  simp only [Nic.delAddr, hn, if_true, Program.bind_eq, Program.run_bind, run_netlink,
    Program.Final.andThen_ok] at h
  cases hq : (n (.addressIsExist nic.name t nic.netns) k).1 with
  | false => simpa [hq, eq_comm] using (Prod.mk.inj (Prod.mk.inj h).2).2
  | true =>
      simp only [hq, if_true, Program.run_bind, run_netlink, Program.Final.andThen_ok] at h ⊢
      cases hs : (n (.addressSetEntry nic.name t false nic.netns)
          (n (.addressIsExist nic.name t nic.netns) k).2).1 with
      | false => simp [hs] at h
      | true =>
          cases hp : Nic.pruneAddrs t nic.addrs with
          | error err => simp [hs, hp] at h
          | ok addrs => simpa [hs, hp, eq_comm] using (Prod.mk.inj (Prod.mk.inj h).2).2

theorem truthful_delAddr_iff (hn : nic.netlink = true) (c : {c : Text // IsCidr c}) :
    Truthful tool fails nic (.delAddr c) k ↔ (NicCall.delAddr c).Clear tool fails nic k := by
  constructor
  · intro h hq
    apply h k
    refine ⟨nic, fun _ => none, ?_⟩
    simp [NicCall.program, Nic.delAddr, hn, answer_addressIsExist, hq]
  · intro h k' ⟨nic', w, hrun⟩
    have hk' := delAddr_true hn hrun
    simp only [answer_addressIsExist, answer_addressSetEntry] at hk'
    split at hk'
    · split at hk'
      · simp at hk'
      · rw [hk'.2]
        exact tool.addrDeleted _ _ _ _
    · rename_i hq
      intro hmem
      rw [hk'] at hmem
      have hshown := contains_of_mem tool hmem List.infix_rfl
      rw [hshown] at hq
      exact h (by simpa using hq) hmem

theorem truthful_addRoute (hn : nic.netlink = true) (r : Route) (nhflags : RouteNHFlags) :
    Truthful tool fails nic (.addRoute r nhflags) k := by
  intro k' h
  simp only [ReturnsTrue, NicCall.program, Nic.addRoute, addEntry_true_iff hn, answer_routeIsExist,
    answer_routeSetEntry] at h
  split at h
  · rename_i hq
    simp only [Bool.and_eq_true, Bool.not_eq_true', decide_eq_true_eq] at hq
    rw [h]
    exact (tool.routeShown _ _ _ _ k).mp hq.2
  · split at h
    · simp at h
    · rw [h.2]
      exact tool.routeAdded _ _ _ _ _ _

theorem truthful_delRoute_iff (hn : nic.netlink = true) (dst via dev : Text) :
    Truthful tool fails nic (.delRoute dst via dev) k ↔
      (NicCall.delRoute dst via dev).Clear tool fails nic k := by
  simp only [Truthful, ReturnsTrue, NicCall.program, Nic.delRoute, delEntry_true_iff hn,
    answer_routeIsExist, answer_routeSetEntry, NicCall.Promised, HasRoute, NicCall.Clear,
    tool.routeShown]
  cases hq : fails (.routeShow (destOf dst) via dev nic.netns) with
  | true =>
      simp only [Bool.not_true, Bool.false_and, Bool.false_eq_true, if_false, forall_eq, if_true]
      rw [List.countP_eq_zero]
      simp
  | false =>
      simp only [Bool.not_false, Bool.true_and, decide_eq_true_eq, Bool.false_eq_true, if_false]
      constructor
      · intro h hs
        by_contra hmany
        have hfound : ∃ r ∈ k.routes nic.netns, tool.selects (destOf dst) via dev r = true :=
          List.countP_pos_iff.mp (by omega)
        apply h (tool.after (.routeSet false (destOf dst) via dev .none nic.netns) k)
        · simp [hs, hfound]
        · rw [tool.routeDeleted, exists_mem_eraseP_iff]
          omega
      · intro h k' hk'
        split at hk'
        · cases hs : fails (.routeSet false (destOf dst) via dev .none nic.netns) with
          | true => simp [hs] at hk'
          | false =>
              simp only [hs, Bool.false_eq_true, if_false, true_and] at hk'
              rw [hk', tool.routeDeleted, exists_mem_eraseP_iff]
              have hone := h hs
              omega
        · rename_i hr
          rw [hk']
          exact hr

theorem exact_iff (name : Text) (c : {c : Text // IsCidr c}) (netns : Text) :
    Exact tool fails name c netns k ↔
      if fails (.addrShow name netns) then c.val ∉ k.addrs netns name
      else ¬ Mistaken c (k.addrs netns name) := by
  unfold Exact
  rw [answer_addressIsExist]
  cases fails (.addrShow name netns) with
  | true => simp
  | false =>
      simp only [Bool.not_false, Bool.true_and, Bool.false_eq_true, if_false]
      constructor
      · intro h hm
        obtain ⟨a, ha, hin⟩ := hm.2
        exact hm.1 (h.mp (contains_of_mem tool ha hin))
      · intro h
        constructor
        · intro hc
          by_contra hk
          exact h (mistaken_of_contains c.property hk hc)
        · exact fun hk => contains_of_mem tool hk List.infix_rfl

/-- Without a connection to the system no call returns true. -/
theorem truthful_unlinked (hn : nic.netlink = false) (call : NicCall) :
    Truthful tool fails nic call k := by
  intro k' ⟨nic', w, hrun⟩
  cases call with
  | addAddr a =>
      cases ha : a.getAddrCidr <;> simp [NicCall.program, Nic.addAddr, Nic.addEntry, hn, ha] at hrun
  | delAddr c => simp [NicCall.program, Nic.delAddr, hn] at hrun
  | addRoute r nhflags => simp [NicCall.program, Nic.addRoute, Nic.addEntry, hn] at hrun
  | delRoute dst via dev => simp [NicCall.program, Nic.delRoute, Nic.delEntry, hn] at hrun

end Calls

def Kernel.setAddrs (k : Kernel R) (netns name : Text) (new : List Text) : Kernel R where
  addrs := Function.update k.addrs netns (Function.update (k.addrs netns) name new)
  routes := k.routes

def Kernel.setRoutes (k : Kernel R) (netns : Text) (new : List R) : Kernel R where
  addrs := k.addrs
  routes := Function.update k.routes netns new

/-- One line for each route, and the addresses with a blank between them. -/
def plainTool : IpTool Route where
  out
    | .addrShow name netns, k => join ' ' (k.addrs netns name)
    | .routeShow dest via dev netns, k =>
        let found := (k.routes netns).filter fun r =>
          r.dest = dest ∧ r.via = via ∧ (dev = [] ∨ r.dev = dev)
        found.flatMap fun r => r.dest ++ ' ' :: r.via ++ ' ' :: r.dev ++ ['\n']
    | _, _ => []
  after
    | .addrSet true addr name netns, k => k.setAddrs netns name (k.addrs netns name ++ [addr])
    | .addrSet false addr name netns, k =>
        k.setAddrs netns name ((k.addrs netns name).filter (· ≠ addr))
    | .routeSet true dest via dev _ netns, k =>
        k.setRoutes netns (k.routes netns ++ [⟨dest, via, dev⟩])
    | .routeSet false dest via dev _ netns, k =>
        k.setRoutes netns ((k.routes netns).eraseP fun r =>
          r.dest = dest ∧ r.via = via ∧ (dev = [] ∨ r.dev = dev))
    | _, k => k
  selects dest via dev r := r.dest = dest ∧ r.via = via ∧ (dev = [] ∨ r.dev = dev)
  show_unchanged _ _ _ := rfl
  routeShow_unchanged _ _ _ _ _ := rfl
  shown _ _ _ _ ha := infix_join_of_mem ' ' ha
  shownIn name netns k c hc h := (infix_join_iff ' ' hc.blank_notMem hc.ne_nil).mp h
  routeShown dest via dev netns k := by
    simp [← or_iff_not_imp_left]
  addrAdded addr name netns k := by simp [Kernel.setAddrs]
  addrDeleted addr name netns k := by simp [Kernel.setAddrs]
  routeAdded dest via dev nhflags netns k := by simp [Kernel.setRoutes]
  routeDeleted dest via dev nhflags netns k := by simp [Kernel.setRoutes]

def exampleNic : Nic := { netlink := true, name := "eth0".toList }
def exampleAddr : Addr := ⟨0x0a000001#32, .ipv4, 24⟩
def exampleCidr : {c : Text // IsCidr c} :=
  ⟨"10.0.0.1/24".toList, isCidr_of_getAddrCidr (a := exampleAddr) (by decide +kernel)⟩

/-- One address on every interface. -/
def onlyAddr (t : Text) : Kernel Route := ⟨fun _ _ => [t], fun _ => []⟩

theorem mistaken_example : Mistaken exampleCidr ["110.0.0.1/24".toList] :=
  ⟨by decide, _, List.mem_singleton_self _, ['1'], [], rfl⟩

end Ohno.IpCommands
