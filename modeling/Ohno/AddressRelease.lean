import Ohno.AddedNodes
import Ohno.NetworkLogs
import Ohno.NodeLifecycle

/-!
# Giving an address back

DEL restores every interface of the node before it deletes one, and an interface
that is restored has the addresses that the system has, or takes, at that time.
The address that DEL gives back is the first of these. So whether the address of
a container goes back depends on the network: on the answer to the first query
for it, and on the answer to the command that follows if the answer was no.

A container that has the name of the bridge for one of its interfaces and is
listed twice may be restored twice, and only the first time counts.
-/
namespace Ohno.AddressRelease
open CommandPrograms DelimitedLists AddressText EtcdClientShell Subnets FirstFit Ipam Netlink Nics
open Storage CniPlugin Records Conducts RecordPrograms RestoredNode DelRecords AddRecords NodeStates
open NodeState NodeHistories NodeLifecycle NodeInvariants RegistryHistories AddedNodes NetworkLogs

/-! ### The answers of the network -/

section Answers
variable (i a : Text)

/-- The query for an address of an interface. -/
def asks : NetlinkCmd → Bool
  | .addressIsExist name addr _ => name = i && addr = a
  | _ => false

/-- The command that gives it to the interface. -/
def adds : NetlinkCmd → Bool
  | .addressSetEntry name addr add _ => name = i && addr = a && add
  | _ => false

/-- The query for a link of the root namespace. -/
def links (name : Text) : NetlinkCmd → Bool
  | .linkExist name' netns => name' = name && netns = []
  | _ => false

/-- The system has the address when it is first asked, or takes it then. -/
def Taken (log : Log) : Prop :=
  firstAnswer (asks i a) log = some true ∨ firstAnswer (adds i a) log = some true

end Answers

/-- How many interfaces with the name of the bridge are restored before those of
the container. -/
def bridgesBefore (cni : Cni) (s : Store) (c : Text) : ℕ :=
  (((ask (getAllPods cni.node) s).takeWhile (· ≠ c)).map fun p =>
    (ask (getAllNic cni.node p) s).count cni.conf.bridge).sum

/-- The system has the address, or takes it, when the interface is restored for
the first time. -/
def TakenBack (cni : Cni) (s : Store) (c i a : Text) (log : Log) : Prop :=
  Taken i a log ∧ (i = cni.conf.bridge →
    countBefore (asks i a) (links cni.conf.bridge) log = bridgesBefore cni s c + 1)

/-! ### Restoring one interface -/

/-- Nothing about the address. -/
def Still (i a : Text) (l : Log) : Prop := Silent (asks i a) l ∧ Silent (adds i a) l

section Restore
variable {cni : Cni} {net : NetworkV4} {base s : Store} {R : Registry} {i a : Text}

theorem still_append {l l' : Log} : Still i a (l ++ l') ↔ Still i a l ∧ Still i a l' := by
  simp only [Still, silent_append]
  exact and_and_and_comm

theorem still_nil : Still i a [] := ⟨silent_nil, silent_nil⟩

theorem reads_addEntry {nic known : Nic} {isExist setEntry : NetlinkCmd} (hn : nic.netlink = true) :
    Reads (nic.addEntry isExist setEntry known) s fun ret l =>
      (ret.2 = known ∧ (l = [(isExist, true)] ∨ l = [(isExist, false), (setEntry, true)])) ∨
      (ret.2 = nic ∧ l = [(isExist, false), (setEntry, false)]) := by
  simp only [Nic.addEntry, hn, if_true]
  apply Reads.netlink_bind
  intro b
  cases b with
  | true => exact Reads.pure (.inl ⟨rfl, .inl rfl⟩)
  | false =>
      simp only [Bool.false_eq_true, if_false]
      apply Reads.netlink_bind
      intro b
      cases b with
      | true => exact Reads.pure (.inl ⟨rfl, .inr rfl⟩)
      | false => exact Reads.pure (.inr ⟨rfl, rfl⟩)

theorem reads_getStorageNic (i a : Text) (law : Lawful cni net) (pod nic : Text) :
    Reads (cni.getStorageNic pod nic) s fun ret l => Still i a l ∧
      (l.countP fun e => links cni.conf.bridge e.1) = (if nic = cni.conf.bridge then 1 else 0) ∧
      (ret = some { kind := storageKind cni pod nic, netlink := true, name := nic } ∨
        ret = none ∧ nic = cni.conf.bridge) := by
  have hb := law.bridge_ne_underlay
  unfold Cni.getStorageNic storageKind
  by_cases hu : pod = host ∧ nic = cni.underlayDev
  · have hne : nic ≠ cni.conf.bridge := by
      rintro rfl
      exact hb hu.2
    simp only [if_pos hu, Nic.setup, Program.pure_eq, Program.bind_eq, Program.pure_bind, if_true]
    exact Reads.pure ⟨still_nil, by simp [hne], .inl rfl⟩
  · by_cases hbridge : nic = cni.conf.bridge
    · subst hbridge
      simp only [if_neg hu, if_true, Nic.setup, Program.pure_eq, Program.bind_eq]
      rw [Program.bind_assoc]
      apply Reads.netlink_bind
      intro b
      cases b with
      | true => exact Reads.pure ⟨by simp [Still, Silent, asks, adds], by simp [links], .inl rfl⟩
      | false =>
          simp only [Bool.false_eq_true, if_false]
          rw [Program.bind_assoc]
          apply Reads.netlink_bind
          intro b
          cases b with
          | true =>
              exact Reads.pure ⟨by simp [Still, Silent, asks, adds], by simp [links], .inl rfl⟩
          | false =>
              exact Reads.pure ⟨by simp [Still, Silent, asks, adds], by simp [links],
                .inr ⟨rfl, trivial⟩⟩
    · simp only [if_neg hu, if_neg hbridge, Nic.setup, Program.pure_eq, Program.bind_eq,
        Program.pure_bind, if_true]
      exact Reads.pure ⟨still_nil, by simp, .inl rfl⟩

theorem reads_enterNetns (i a : Text) (h : Loadable R) {pod : Text} (hp : '/' ∉ pod) {obj : Nic}
    (hn : obj.netlink = true) :
    Reads (cni.enterNetns pod obj) (R.store cni.node base) fun obj' l => Still i a l ∧
      Silent (links cni.conf.bridge) l ∧ obj'.name = obj.name ∧ obj'.netlink = true ∧
        obj'.addrs = obj.addrs := by
  unfold Cni.enterNetns
  split_ifs
  · exact Reads.pure ⟨still_nil, silent_nil, rfl, hn, rfl⟩
  · obtain ⟨simple, hs⟩ := h.netns pod
    apply Reads.etcd_bind (run_getNetns hp)
    simp only [Nic.setNetns, hn, if_true, hs, Program.ofExcept_ok, Program.bind_eq,
      Program.pure_bind]
    rw [Program.bind_assoc]
    apply Reads.netlink_bind
    intro b
    cases b with
    | true =>
        exact Reads.pure
          ⟨by simp [Still, Silent, asks, adds], by simp [Silent, links], rfl, rfl, rfl⟩
    | false =>
        simp only [Bool.false_eq_true, if_false]
        rw [Program.bind_assoc]
        apply Reads.netlink_bind
        intro b
        cases b with
        | true =>
            exact Reads.pure ⟨by simp [Still, Silent, asks, adds], by simp [Silent, links],
              rfl, rfl, rfl⟩
        | false =>
            exact Reads.pure ⟨by simp [Still, Silent, asks, adds],
              by simp [Silent, links], rfl, hn, rfl⟩

theorem reads_restoreRoutes (cni : Cni) (i a : Text) (routes : List Route) {obj : Nic}
    (hn : obj.netlink = true) :
    Reads (Cni.restoreRoutes routes obj) s fun obj' l => Still i a l ∧
      Silent (links cni.conf.bridge) l ∧ obj'.name = obj.name ∧ obj'.netlink = true ∧
        obj'.addrs = obj.addrs := by
  induction routes generalizing obj with
  | nil => exact Reads.pure ⟨still_nil, silent_nil, rfl, hn, rfl⟩
  | cons r routes ih =>
      simp only [Cni.restoreRoutes]
      apply Reads.bind (reads_addEntry hn)
      intro ret l hret
      have hadd : Still i a l ∧ Silent (links cni.conf.bridge) l ∧ ret.2.name = obj.name ∧
          ret.2.netlink = true ∧ ret.2.addrs = obj.addrs := by
        rcases hret with ⟨hobj, rfl | rfl⟩ | ⟨hobj, rfl⟩
        all_goals
          rw [hobj]
          exact ⟨by simp [Still, Silent, asks, adds], by simp [Silent, links], rfl, hn, rfl⟩
      obtain ⟨hstill, hlinks, hname, hnet, haddrs⟩ := hadd
      apply Reads.mono (ih hnet)
      intro obj' l' hpost
      obtain ⟨hstill', hlinks', hname', hnet', haddrs'⟩ := hpost
      exact ⟨still_append.mpr ⟨hstill, hstill'⟩, silent_append.mpr ⟨hlinks, hlinks'⟩,
        hname'.trans hname, hnet', haddrs'.trans haddrs⟩

theorem getAddrCidr_ofCidr (cni : Cni) {x : Text} (h : ∃ b n, n ≤ 32 ∧ x = cidr b n) :
    (Addr.ofCidr cni.boost x).getAddrCidr = .ok x := by
  obtain ⟨b, n, hn, rfl⟩ := h
  rw [Addr.ofCidr_cidr cni.boost b hn, Addr.getAddrCidr_ipv4]

/-- Addresses among which the one in question is not, or another interface. -/
theorem reads_restoreAddrs {cidrs : List Text} (hc : ∀ x ∈ cidrs, ∃ b n, n ≤ 32 ∧ x = cidr b n)
    {obj : Nic} (hother : obj.name ≠ i ∨ a ∉ cidrs) (hn : obj.netlink = true) (nic : Text)
    (gateway : Option Addr) :
    Reads (cni.restoreAddrs nic cidrs obj gateway) s fun ret l => Still i a l ∧
      Silent (links cni.conf.bridge) l ∧ ret.1.name = obj.name ∧ ret.1.netlink = true ∧
        ∀ x ∈ ret.1.addrs, x ∈ obj.addrs ∨ ∃ t ∈ cidrs, x = Addr.ofCidr cni.boost t := by
  induction cidrs generalizing obj gateway with
  | nil => exact Reads.pure ⟨still_nil, silent_nil, rfl, hn, fun x hx => .inl hx⟩
  | cons y cidrs ih =>
      have hy := getAddrCidr_ofCidr cni (hc y (by simp))
      have hquiet : ¬ (obj.name = i ∧ y = a) := by
        intro hpost
        obtain ⟨hname, hya⟩ := hpost
        rcases hother with h | h
        · exact h hname
        · exact h (by simp [hya])
      simp only [Cni.restoreAddrs, Nic.addAddr, hy, Program.ofExcept_ok, Program.bind_eq,
        Program.pure_bind]
      apply Reads.bind (reads_addEntry hn)
      intro ret l hret
      have hadd : Still i a l ∧ Silent (links cni.conf.bridge) l ∧ ret.2.name = obj.name ∧
          ret.2.netlink = true ∧
          ∀ x ∈ ret.2.addrs, x ∈ obj.addrs ∨ x = Addr.ofCidr cni.boost y := by
        rcases hret with ⟨hobj, rfl | rfl⟩ | ⟨hobj, rfl⟩
        all_goals
          rw [hobj]
          refine ⟨by simpa [Still, Silent, asks, adds] using hquiet,
            by simp [Silent, links], rfl, hn, ?_⟩
          intro x hx
          simp_all
      obtain ⟨hstill, hlinks, hname, hnet, haddrs⟩ := hadd
      have hother' : ret.2.name ≠ i ∨ a ∉ cidrs := by
        rw [hname]
        exact hother.imp_right fun h hm => h (List.mem_cons_of_mem y hm)
      apply Reads.mono (ih (fun x hx => hc x (List.mem_cons_of_mem y hx)) hother' hnet _)
      intro ret' l' hpost
      obtain ⟨hstill', hlinks', hname', hnet', haddrs'⟩ := hpost
      refine ⟨still_append.mpr ⟨hstill, hstill'⟩, silent_append.mpr ⟨hlinks, hlinks'⟩,
        hname'.trans hname, hnet', ?_⟩
      intro x hx
      rcases haddrs' x hx with hx | ⟨t, ht, hx⟩
      · rcases haddrs x hx with hx | hx
        · exact .inl hx
        · exact .inr ⟨y, by simp, hx⟩
      · exact .inr ⟨t, List.mem_cons_of_mem y ht, hx⟩

/-- The address itself. -/
theorem reads_restoreAddr (ha : ∃ b n, n ≤ 32 ∧ a = cidr b n) {obj : Nic} (hname : obj.name = i)
    (hn : obj.netlink = true) (haddrs : obj.addrs = []) (nic : Text) (gateway : Option Addr) :
    Reads (cni.restoreAddrs nic [a] obj gateway) s fun ret l => ¬ Silent (asks i a) l ∧
      Silent (links cni.conf.bridge) l ∧ ret.1.name = i ∧ ret.1.netlink = true ∧
        (ret.1.addrs = [Addr.ofCidr cni.boost a] ∧ Taken i a l ∨
          ret.1.addrs = [] ∧ firstAnswer (asks i a) l = some false ∧
            firstAnswer (adds i a) l = some false) := by
  have hy := getAddrCidr_ofCidr cni ha
  simp only [Cni.restoreAddrs, Nic.addAddr, hy, Program.ofExcept_ok, Program.bind_eq,
    Program.pure_bind]
  apply Reads.bind (reads_addEntry hn)
  intro ret l hret
  apply Reads.pure
  rw [List.append_nil]
  rcases hret with ⟨hobj, rfl | rfl⟩ | ⟨hobj, rfl⟩
  · simp [hobj, Silent, asks, links, hname, hn, haddrs, Taken, firstAnswer]
  · simp [hobj, Silent, asks, adds, links, hname, hn, haddrs, Taken, firstAnswer]
  · simp [hobj, Silent, asks, adds, links, hname, hn, haddrs, Taken, firstAnswer]

/-- An interface object with addresses that are recorded for it. -/
structure RestoredAs (cni : Cni) (R : Registry) (pod nic : Text) (obj : Nic) : Prop where
  name : obj.name = nic
  netlink : obj.netlink = true
  addrs : ∀ x ∈ obj.addrs, ∃ t ∈ R.list (.addrs pod nic), x = Addr.ofCidr cni.boost t

/-- What the restoring of an interface asks of the bridge. -/
def BridgeQueries (cni : Cni) (nics : List Text) (l : Log) : Prop :=
  (l.countP fun e => links cni.conf.bridge e.1) = nics.count cni.conf.bridge

theorem bridgeQueries_append {nics nics' : List Text} {l l' : Log} (h : BridgeQueries cni nics l)
    (h' : BridgeQueries cni nics' l') : BridgeQueries cni (nics ++ nics') (l ++ l') := by
  unfold BridgeQueries at *
  rw [List.countP_append, List.count_append, h, h']

theorem bridgeQueries_nil : BridgeQueries cni [] [] := rfl

/-- Another interface, or one without the address. -/
theorem reads_restoreNic (law : Lawful cni net) (h : Loadable R) {pod nic : Text} (hp : '/' ∉ pod)
    (hi : '/' ∉ nic) (hother : nic ≠ i ∨ a ∉ R.list (.addrs pod nic)) (gateway : Option Addr) :
    Reads (cni.restoreNic pod nic gateway) (R.store cni.node base) fun ret l => Still i a l ∧
      BridgeQueries cni [nic] l ∧ ∀ obj, ret.1 = some obj → RestoredAs cni R pod nic obj := by
  obtain ⟨routes, hr⟩ := h.routes pod nic
  unfold Cni.restoreNic
  apply Reads.bind (reads_getStorageNic i a law pod nic)
  intro found l hpost
  obtain ⟨hstill, hcount, hfound⟩ := hpost
  have hqueries : BridgeQueries cni [nic] l := by
    rw [BridgeQueries, hcount, List.count_singleton]
    simp
  rcases hfound with hfound | ⟨hfound, -⟩
  · subst hfound
    apply Reads.bind (reads_enterNetns i a h hp rfl)
    intro obj l₁ hpost
    obtain ⟨hstill₁, hlinks₁, hname₁, hnet₁, haddrs₁⟩ := hpost
    apply Reads.etcd_bind (run_getAllAddrs hp hi)
    have hother₁ : obj.name ≠ i ∨ a ∉ R.list (.addrs pod nic) := by rwa [hname₁]
    apply Reads.bind (reads_restoreAddrs (h.addrs pod nic) hother₁ hnet₁ nic gateway)
    intro ret l₂ hpost
    obtain ⟨hstill₂, hlinks₂, hname₂, hnet₂, haddrs₂⟩ := hpost
    apply Reads.etcd_bind (run_getAllRoutes hp hi hr)
    apply Reads.bind (reads_restoreRoutes cni i a routes hnet₂)
    intro obj' l₃ hpost
    obtain ⟨hstill₃, hlinks₃, hname₃, hnet₃, haddrs₃⟩ := hpost
    apply Reads.pure
    simp only [List.append_nil]
    refine ⟨?_, ?_, ?_⟩
    · simp only [still_append]
      exact ⟨hstill, hstill₁, hstill₂, hstill₃⟩
    · simp only [BridgeQueries, List.countP_append, countP_eq_zero_of_silent hlinks₁,
        countP_eq_zero_of_silent hlinks₂, countP_eq_zero_of_silent hlinks₃, Nat.add_zero]
      exact hqueries
    · intro obj'' ho
      cases ho
      refine ⟨(hname₃.trans hname₂).trans hname₁, hnet₃, ?_⟩
      intro x hx
      rw [haddrs₃] at hx
      rcases haddrs₂ x hx with hx | hx
      · rw [haddrs₁] at hx
        cases hx
      · exact hx
  · subst hfound
    apply Reads.pure
    rw [List.append_nil]
    exact ⟨hstill, hqueries, fun obj ho => by cases ho⟩

/-- The interface in question was restored, `n` interfaces with the name of the
bridge having been restored before. -/
def Ended (cni : Cni) (i a : Text) (n : ℕ) (nic : Option Nic) (l : Log) : Prop :=
  match nic with
  | some obj => ¬ Silent (asks i a) l ∧ obj.name = i ∧ obj.netlink = true ∧
      (i = cni.conf.bridge → countBefore (asks i a) (links cni.conf.bridge) l = n + 1) ∧
      (obj.addrs = [Addr.ofCidr cni.boost a] ∧ Taken i a l ∨
        obj.addrs = [] ∧ firstAnswer (asks i a) l = some false ∧
          firstAnswer (adds i a) l = some false)
  | none => i = cni.conf.bridge ∧ (Silent (asks i a) l → Silent (adds i a) l) ∧
      (¬ Silent (asks i a) l → n + 1 < countBefore (asks i a) (links cni.conf.bridge) l) ∧
      n + 1 ≤ l.countP fun e => links cni.conf.bridge e.1

/-- What comes later does not undo this: an interface with the name of the
bridge is asked for before its address is. -/
structure Later (cni : Cni) (i a : Text) (l : Log) : Prop where
  adds : Silent (asks i a) l → Silent (adds i a) l
  links : i = cni.conf.bridge → ¬ Silent (asks i a) l →
    1 ≤ countBefore (asks i a) (links cni.conf.bridge) l

theorem later_of_still {l : Log} (h : Still i a l) : Later cni i a l :=
  ⟨fun _ => h.2, fun _ hn => absurd h.1 hn⟩

theorem Later.append {l l' : Log} (h : Later cni i a l) (h' : Later cni i a l') :
    Later cni i a (l ++ l') := by
  constructor
  · intro hs
    rw [silent_append] at hs ⊢
    exact ⟨h.adds hs.1, h'.adds hs.2⟩
  · intro hi hs
    by_cases hl : Silent (asks i a) l
    · have hl' : ¬ Silent (asks i a) l' := fun hl' => hs (silent_append.mpr ⟨hl, hl'⟩)
      have h1 := h'.links hi hl'
      rw [countBefore_append_of_silent hl]
      omega
    · rw [countBefore_append hl]
      exact h.links hi hl

theorem Ended.append {n : ℕ} {nic : Option Nic} {l l' : Log} (h : Ended cni i a n nic l)
    (h' : Later cni i a l') : Ended cni i a n nic (l ++ l') := by
  cases nic with
  | some obj =>
      obtain ⟨hasked, hname, hnet, hcount, haddrs⟩ := h
      have hfirst : ∀ b, firstAnswer (asks i a) l = some b →
          firstAnswer (asks i a) (l ++ l') = some b := by
        intro b hb
        simp [firstAnswer_append, hb]
      have hadd : ∀ b, firstAnswer (adds i a) l = some b →
          firstAnswer (adds i a) (l ++ l') = some b := by
        intro b hb
        simp [firstAnswer_append, hb]
      refine ⟨fun hs => hasked (silent_append.mp hs).1, hname, hnet, ?_, ?_⟩
      · rwa [countBefore_append hasked]
      · rcases haddrs with ⟨ho, ht⟩ | ⟨ho, hq, hs⟩
        · exact .inl ⟨ho, ht.imp (hfirst true) (hadd true)⟩
        · exact .inr ⟨ho, hfirst false hq, hadd false hs⟩
  | none =>
      obtain ⟨hi, hadds, hbefore, hcount⟩ := h
      refine ⟨hi, ?_, ?_, ?_⟩
      · intro hs
        rw [silent_append] at hs ⊢
        exact ⟨hadds hs.1, h'.adds hs.2⟩
      · intro hs
        by_cases hl : Silent (asks i a) l
        · have hl' : ¬ Silent (asks i a) l' := fun hl' => hs (silent_append.mpr ⟨hl, hl'⟩)
          have h1 := h'.links hi hl'
          rw [countBefore_append_of_silent hl]
          omega
        · rw [countBefore_append hl]
          exact hbefore hl
      · rw [List.countP_append]
        omega

/-- What came before has nothing about the address. -/
theorem Ended.prepend {n : ℕ} {nic : Option Nic} {l l₀ : Log} (h : Ended cni i a 0 nic l)
    (h₀ : Still i a l₀)
    (hn : i = cni.conf.bridge → (l₀.countP fun e => links cni.conf.bridge e.1) = n) :
    Ended cni i a n nic (l₀ ++ l) := by
  have hask : firstAnswer (asks i a) l₀ = none := firstAnswer_eq_none_iff.mpr h₀.1
  have hadd : firstAnswer (adds i a) l₀ = none := firstAnswer_eq_none_iff.mpr h₀.2
  cases nic with
  | some obj =>
      obtain ⟨hasked, hname, hnet, hcount, haddrs⟩ := h
      refine ⟨fun hs => hasked (silent_append.mp hs).2, hname, hnet, ?_, ?_⟩
      · intro hi
        have h1 := hcount hi
        have hl₀ := hn hi
        rw [countBefore_append_of_silent h₀.1]
        omega
      · simpa only [Taken, firstAnswer_append, hask, hadd, Option.none_or] using haddrs
  | none =>
      obtain ⟨hi, hadds, hbefore, hcount⟩ := h
      have hl₀ := hn hi
      refine ⟨hi, ?_, ?_, ?_⟩
      · intro hs
        rw [silent_append] at hs ⊢
        exact ⟨h₀.2, hadds hs.2⟩
      · intro hs
        have hl : ¬ Silent (asks i a) l := fun hl => hs (silent_append.mpr ⟨h₀.1, hl⟩)
        have hlt := hbefore hl
        rw [countBefore_append_of_silent h₀.1]
        omega
      · rw [List.countP_append]
        omega

/-- The interface in question. -/
theorem reads_restoreNic_asked (law : Lawful cni net) (h : Loadable R) {pod : Text} (hp : '/' ∉ pod)
    (hi : '/' ∉ i) (haddrs : R.list (.addrs pod i) = [a]) (gateway : Option Addr) :
    Reads (cni.restoreNic pod i gateway) (R.store cni.node base) fun ret l =>
      Ended cni i a 0 ret.1 l ∧ Later cni i a l := by
  obtain ⟨routes, hr⟩ := h.routes pod i
  have ha := h.addrs pod i a (by simp [haddrs])
  unfold Cni.restoreNic
  apply Reads.bind (reads_getStorageNic i a law pod i)
  intro found l hpost
  obtain ⟨hstill, hcount, hfound⟩ := hpost
  rcases hfound with hfound | ⟨hfound, hbridge⟩
  · subst hfound
    apply Reads.bind (reads_enterNetns i a h hp rfl)
    intro obj l₁ hpost
    obtain ⟨hstill₁, hlinks₁, hname₁, hnet₁, haddrs₁⟩ := hpost
    apply Reads.etcd_bind (run_getAllAddrs hp hi)
    rw [haddrs]
    apply Reads.bind (reads_restoreAddr ha hname₁ hnet₁ haddrs₁ i gateway)
    intro ret l₂ hpost
    obtain ⟨hasked, hlinks₂, hname₂, hnet₂, hret⟩ := hpost
    apply Reads.etcd_bind (run_getAllRoutes hp hi hr)
    apply Reads.bind (reads_restoreRoutes cni i a routes hnet₂)
    intro obj' l₃ hpost
    obtain ⟨hstill₃, hlinks₃, hname₃, hnet₃, haddrs₃⟩ := hpost
    apply Reads.pure
    rw [List.append_nil]
    have hbefore : countBefore (asks i a) (links cni.conf.bridge) (l₂ ++ l₃) = 0 := by
      rw [countBefore_append hasked]
      exact Nat.le_zero.mp ((List.takeWhile_sublist _).countP_le.trans
        (countP_eq_zero_of_silent hlinks₂).le)
    have hended : Ended cni i a 0 (some obj') (l ++ (l₁ ++ (l₂ ++ l₃))) := by
      refine ⟨?_, hname₃.trans hname₂, hnet₃, ?_, ?_⟩
      · intro hs
        simp only [silent_append] at hs
        exact hasked hs.2.2.1
      · intro hb
        rw [countBefore_append_of_silent hstill.1, countBefore_append_of_silent hstill₁.1, hbefore,
          countP_eq_zero_of_silent hlinks₁, hcount, if_pos hb]
      · have hask : firstAnswer (asks i a) (l ++ (l₁ ++ (l₂ ++ l₃))) =
            (firstAnswer (asks i a) l₂).or (firstAnswer (asks i a) l₃) := by
          simp only [firstAnswer_append, firstAnswer_eq_none_iff.mpr hstill.1,
            firstAnswer_eq_none_iff.mpr hstill₁.1, Option.none_or]
        have hadd : firstAnswer (adds i a) (l ++ (l₁ ++ (l₂ ++ l₃))) =
            (firstAnswer (adds i a) l₂).or (firstAnswer (adds i a) l₃) := by
          simp only [firstAnswer_append, firstAnswer_eq_none_iff.mpr hstill.2,
            firstAnswer_eq_none_iff.mpr hstill₁.2, Option.none_or]
        rw [Taken, hask, hadd, haddrs₃]
        rcases hret with ⟨ho, ht⟩ | ⟨ho, hq, hs⟩
        · exact .inl ⟨ho, ht.imp (fun h => by simp [h]) fun h => by simp [h]⟩
        · exact .inr ⟨ho, by simp [hq], by simp [hs]⟩
    refine ⟨hended, ?_, ?_⟩
    · intro hs
      exact absurd hs hended.1
    · intro hb _
      exact (hended.2.2.2.1 hb).ge
  · subst hfound
    apply Reads.pure
    rw [List.append_nil]
    refine ⟨⟨hbridge, fun _ => hstill.2, fun hn => absurd hstill.1 hn, ?_⟩, later_of_still hstill⟩
    rw [hcount, if_pos hbridge]

/-! ### Restoring the node -/

/-- A pod object whose interfaces have recorded addresses. -/
structure RestoredPod (cni : Cni) (R : Registry) (pod : Text) (obj : Netns) : Prop where
  name : obj.name = pod
  nics : ∀ j nic, obj.nics.lookup j = some nic → RestoredAs cni R pod j nic

theorem RestoredPod.addNic {pod : Text} {obj : Netns} (h : RestoredPod cni R pod obj) {nic : Text}
    {iface : Nic} (hi : RestoredAs cni R pod nic iface) :
    RestoredPod cni R pod (obj.addNic iface) where
  name := h.name
  nics := by
    intro j nic' hl
    rw [Netns.addNic, lookup_emplace] at hl
    split_ifs at hl with hj
    · cases hk : obj.nics.lookup iface.name with
      | none =>
          rw [hk] at hl
          cases hl
          rw [hj, hi.name]
          exact hi
      | some old =>
          rw [hk] at hl
          cases hl
          rw [hj]
          exact h.nics _ _ hk
    · exact h.nics j nic' hl

/-- The interfaces of a pod without the address in question. -/
theorem reads_restoreNics (law : Lawful cni net) (h : Loadable R) {pod : Text} (hp : '/' ∉ pod)
    {nics : List Text} (hn : ∀ j ∈ nics, '/' ∉ j)
    (hother : ∀ j ∈ nics, j ≠ i ∨ a ∉ R.list (.addrs pod j)) (obj : Netns) (gateway : Option Addr) :
    Reads (cni.restoreNics pod nics obj gateway) (R.store cni.node base) fun ret l =>
      Still i a l ∧ BridgeQueries cni nics l ∧
        (RestoredPod cni R pod obj → RestoredPod cni R pod ret.1) ∧ ret.1.name = obj.name ∧
        ∀ j, j ∉ nics → ret.1.nics.lookup j = obj.nics.lookup j := by
  induction nics generalizing obj gateway with
  | nil => exact Reads.pure ⟨still_nil, bridgeQueries_nil, id, rfl, fun _ _ => rfl⟩
  | cons nic nics ih =>
      simp only [Cni.restoreNics]
      apply Reads.bind (reads_restoreNic law h hp (hn nic (by simp)) (hother nic (by simp)) gateway)
      intro ret l hpost
      obtain ⟨hstill, hqueries, hret⟩ := hpost
      have hn' : ∀ j ∈ nics, '/' ∉ j := fun j hj => hn j (List.mem_cons_of_mem nic hj)
      have hother' : ∀ j ∈ nics, j ≠ i ∨ a ∉ R.list (.addrs pod j) :=
        fun j hj => hother j (List.mem_cons_of_mem nic hj)
      cases hnic : ret.1 with
      | none =>
          apply Reads.mono (ih hn' hother' obj ret.2)
          intro ret' l' hpost
          obtain ⟨hstill', hqueries', hpod, hname, hkeep⟩ := hpost
          exact ⟨still_append.mpr ⟨hstill, hstill'⟩, bridgeQueries_append hqueries hqueries', hpod,
            hname, fun j hj => hkeep j fun hm => hj (List.mem_cons_of_mem nic hm)⟩
      | some iface =>
          have hiface := hret iface hnic
          apply Reads.mono (ih hn' hother' (obj.addNic iface) ret.2)
          intro ret' l' hpost
          obtain ⟨hstill', hqueries', hpod, hname, hkeep⟩ := hpost
          refine ⟨still_append.mpr ⟨hstill, hstill'⟩, bridgeQueries_append hqueries hqueries',
            fun hobj => hpod (hobj.addNic hiface), hname, ?_⟩
          intro j hj
          have hne : j ≠ iface.name := by
            rw [hiface.name]
            exact fun he => hj (he ▸ List.mem_cons_self)
          rw [hkeep j fun hm => hj (List.mem_cons_of_mem nic hm), Netns.addNic, lookup_emplace,
            if_neg hne]

/-- The interfaces of the container. -/
theorem reads_restoreNics_asked (law : Lawful cni net) (h : Loadable R) {pod : Text}
    (hp : '/' ∉ pod)
    {nics : List Text} (hn : ∀ j ∈ nics, '/' ∉ j) (hnodup : nics.Nodup) (hi : i ∈ nics)
    (haddrs : R.list (.addrs pod i) = [a]) {obj : Netns} (hl : obj.nics.lookup i = none)
    (gateway : Option Addr) {n : ℕ} {l₀ : Log} (h₀ : Still i a l₀)
    (hcount : i = cni.conf.bridge → (l₀.countP fun e => links cni.conf.bridge e.1) = n) :
    Reads (cni.restoreNics pod nics obj gateway) (R.store cni.node base) fun ret l =>
      Ended cni i a n (ret.1.nics.lookup i) (l₀ ++ l) ∧ ret.1.name = obj.name := by
  induction nics generalizing obj gateway l₀ with
  | nil => cases hi
  | cons nic nics ih =>
      obtain ⟨hnotin, hnodup'⟩ := List.nodup_cons.mp hnodup
      have hn' : ∀ j ∈ nics, '/' ∉ j := fun j hj => hn j (List.mem_cons_of_mem nic hj)
      simp only [Cni.restoreNics]
      by_cases hnic : nic = i
      · subst hnic
        apply Reads.bind (reads_restoreNic_asked law h hp (hn nic (by simp)) haddrs gateway)
        intro ret l hpost
        obtain ⟨hended, _⟩ := hpost
        have hended' := hended.prepend h₀ hcount
        have hother : ∀ j ∈ nics, j ≠ nic ∨ a ∉ R.list (.addrs pod j) := by
          intro j hj
          left
          rintro rfl
          exact hnotin hj
        cases hret : ret.1 with
        | none =>
            rw [hret] at hended'
            apply Reads.mono (reads_restoreNics law h hp hn' hother obj ret.2)
            intro ret' l' hpost
            obtain ⟨hstill, _, _, hname, hkeep⟩ := hpost
            rw [hkeep nic hnotin, hl, ← List.append_assoc]
            exact ⟨hended'.append (later_of_still hstill), hname⟩
        | some iface =>
            rw [hret] at hended'
            apply Reads.mono (reads_restoreNics law h hp hn' hother (obj.addNic iface) ret.2)
            intro ret' l' hpost
            obtain ⟨hstill, _, _, hname, hkeep⟩ := hpost
            have hlookup : (obj.addNic iface).nics.lookup nic = some iface := by
              simp [Netns.addNic, hended'.2.1, hl]
            rw [hkeep nic hnotin, hlookup, ← List.append_assoc]
            exact ⟨hended'.append (later_of_still hstill), hname⟩
      · have hmem : i ∈ nics := (List.mem_cons.mp hi).resolve_left (Ne.symm hnic)
        apply Reads.bind (reads_restoreNic (a := a) law h hp (hn nic (by simp)) (.inl hnic) gateway)
        intro ret l hpost
        obtain ⟨hstill, hqueries, hret⟩ := hpost
        have h₀' : Still i a (l₀ ++ l) := still_append.mpr ⟨h₀, hstill⟩
        have hcount' : i = cni.conf.bridge →
            ((l₀ ++ l).countP fun e => links cni.conf.bridge e.1) = n := by
          intro hb
          have hne : nic ≠ cni.conf.bridge := hb ▸ hnic
          rw [List.countP_append, hcount hb, hqueries, List.count_singleton]
          simp [hne]
        cases hiface : ret.1 with
        | none =>
            apply Reads.mono (ih hn' hnodup' hmem hl ret.2 h₀' hcount')
            intro ret' l' hret'
            rwa [← List.append_assoc]
        | some iface =>
            have hl' : (obj.addNic iface).nics.lookup i = none := by
              have hname := (hret iface hiface).name
              simp [Netns.addNic, hname, Ne.symm hnic, hl]
            apply Reads.mono (ih hn' hnodup' hmem hl' ret.2 h₀' hcount')
            intro ret' l' hret'
            rwa [← List.append_assoc]

/-- Restoring them again. -/
theorem reads_restoreNics_later (law : Lawful cni net) (h : Loadable R) {pod : Text}
    (hp : '/' ∉ pod)
    {nics : List Text} (hn : ∀ j ∈ nics, '/' ∉ j)
    (haddrs : R.list (.addrs pod i) = [a]) (obj : Netns)
    (gateway : Option Addr) :
    Reads (cni.restoreNics pod nics obj gateway) (R.store cni.node base) fun _ l =>
      Later cni i a l := by
  induction nics generalizing obj gateway with
  | nil => exact Reads.pure (later_of_still still_nil)
  | cons nic nics ih =>
      have hn' : ∀ j ∈ nics, '/' ∉ j := fun j hj => hn j (List.mem_cons_of_mem nic hj)
      have hnic : Reads (cni.restoreNic pod nic gateway) (R.store cni.node base) fun _ l =>
          Later cni i a l := by
        by_cases he : nic = i
        · subst he
          apply Reads.mono (reads_restoreNic_asked law h hp (hn nic (by simp)) haddrs gateway)
          intro ret l hret
          exact hret.2
        · apply Reads.mono (reads_restoreNic (a := a) law h hp (hn nic (by simp)) (.inl he) gateway)
          intro ret l hret
          exact later_of_still hret.1
      simp only [Cni.restoreNics]
      apply Reads.bind hnic
      intro ret l hlater
      cases ret.1 with
      | none =>
          apply Reads.mono (ih hn' obj ret.2)
          intro ret' l' hlater'
          exact hlater.append hlater'
      | some iface =>
          apply Reads.mono (ih hn' (obj.addNic iface) ret.2)
          intro ret' l' hlater'
          exact hlater.append hlater'

/-- What is known of the address in question: it is that of one interface. -/
structure Watched (R : Registry) (c i a : Text) : Prop where
  host : c ≠ host
  pods : c ∈ R.list .pods
  nic : i ∈ R.list (.nics c)
  nodup : (R.list (.nics c)).Nodup
  addrs : R.list (.addrs c i) = [a]
  only : ∀ p j, a ∈ R.list (.addrs p j) → p = c ∧ j = i

/-- The interfaces with the name of the bridge in front of a container. -/
def bridges (cni : Cni) (R : Registry) (c : Text) (pods : List Text) : ℕ :=
  ((pods.takeWhile (· ≠ c)).map fun p => (R.list (.nics p)).count cni.conf.bridge).sum

/-- The container was restored. -/
def Found (cni : Cni) (c i a : Text) (n : ℕ) (node : Node) (l : Log) : Prop :=
  ∃ obj, node.netns.lookup c = some obj ∧ obj.name = c ∧ Ended cni i a n (obj.nics.lookup i) l

theorem Found.append {c : Text} {n : ℕ} {node : Node} {l l' : Log} (h : Found cni c i a n node l)
    (h' : Later cni i a l') : Found cni c i a n node (l ++ l') := by
  obtain ⟨obj, hl, hname, hended⟩ := h
  exact ⟨obj, hl, hname, hended.append h'⟩

/-- The container is among `pods`, which are still to be restored, or it was restored. -/
def Sought (cni : Cni) (R : Registry) (c i a : Text) (n : ℕ) (pods : List Text) (node : Node)
    (l : Log) : Prop :=
  (node.netns.lookup c = none ∧ c ∈ pods ∧ Still i a l ∧
    (l.countP fun e => links cni.conf.bridge e.1) + bridges cni R c pods = n) ∨
  Found cni c i a n node l

/-- Another container was restored in between. -/
theorem Sought.beside {c pod : Text} {n : ℕ} {pods : List Text} {node : Node} {obj : Netns}
    {l l' : Log} (h : Sought cni R c i a n (pod :: pods) node l) (hpc : pod ≠ c)
    (hstill : Still i a l')
    (hqueries : (l'.countP fun e => links cni.conf.bridge e.1) =
      (R.list (.nics pod)).count cni.conf.bridge) :
    Sought cni R c i a n pods { node with netns := emplace node.netns pod obj } (l ++ l') := by
  rcases h with ⟨hnone, hc, hstill₀, hcount⟩ | ⟨obj', hl, hname, hended⟩
  · left
    refine ⟨by simp [Ne.symm hpc, hnone], (List.mem_cons.mp hc).resolve_left (Ne.symm hpc),
      still_append.mpr ⟨hstill₀, hstill⟩, ?_⟩
    have hsum : bridges cni R c (pod :: pods) =
        (R.list (.nics pod)).count cni.conf.bridge + bridges cni R c pods := by
      simp [bridges, hpc]
    rw [hsum] at hcount
    rw [List.countP_append, hqueries]
    omega
  · right
    exact ⟨obj', by simp [Ne.symm hpc, hl], hname, hended.append (later_of_still hstill)⟩

def HostRestored (cni : Cni) (R : Registry) (node : Node) : Prop :=
  ∀ obj, node.netns.lookup host = some obj → RestoredPod cni R host obj

theorem restoredPod_empty (pod : Text) : RestoredPod cni R pod { name := pod } :=
  ⟨rfl, fun j nic hl => by cases hl⟩

theorem hostRestored_emplace {node : Node} (h : HostRestored cni R node) {pod : Text} {obj : Netns}
    (hobj : pod = host → RestoredPod cni R host obj) :
    HostRestored cni R { node with netns := emplace node.netns pod obj } := by
  intro obj' hl
  rw [lookup_emplace] at hl
  split_ifs at hl with hp
  · cases hk : node.netns.lookup pod with
    | none =>
        rw [hk] at hl
        cases hl
        exact hobj hp.symm
    | some old =>
        rw [hk] at hl
        cases hl
        rw [← hp] at hk
        exact h _ hk
  · exact h obj' hl

theorem reads_restorePods {c : Text} (law : Lawful cni net) (h : Loadable R) (w : Watched R c i a)
    {pods : List Text} (hp : ∀ p ∈ pods, '/' ∉ p) {node : Node} (gateway : Option Addr) {n : ℕ}
    {l₀ : Log} (hnode : HostRestored cni R node)
    (hstate : Sought cni R c i a n pods node l₀) :
    Reads (cni.restorePods pods node gateway) (R.store cni.node base) fun ret l =>
      Found cni c i a n ret.1 (l₀ ++ l) ∧ HostRestored cni R ret.1 := by
  induction pods generalizing node gateway l₀ with
  | nil =>
      rcases hstate with ⟨-, hc, -⟩ | hfound
      · cases hc
      · exact Reads.pure ⟨by rwa [List.append_nil], hnode⟩
  | cons pod pods ih =>
      have hslash := hp pod (by simp)
      have hp' : ∀ p ∈ pods, '/' ∉ p := fun p hm => hp p (List.mem_cons_of_mem pod hm)
      simp only [Cni.restorePods]
      apply Reads.etcd_bind (run_getAllNic hslash)
      by_cases hpc : pod = c
      · subst hpc
        have hhost : ∀ obj : Netns,
            HostRestored cni R { node with netns := emplace node.netns pod obj } :=
          fun obj => hostRestored_emplace hnode fun he => absurd he w.host
        rcases hstate with ⟨hnone, -, hstill, hcount⟩ | hfound
        · have hbefore : i = cni.conf.bridge →
              (l₀.countP fun e => links cni.conf.bridge e.1) = n := by
            intro _
            simpa [bridges] using hcount
          have hempty : ({ name := pod } : Netns).nics.lookup i = none := rfl
          apply Reads.bind (reads_restoreNics_asked law h hslash (h.nics pod) w.nodup w.nic w.addrs
            hempty gateway hstill hbefore)
          intro ret l hpost
          obtain ⟨hended, hname⟩ := hpost
          have hfound : Found cni pod i a n { node with netns := emplace node.netns pod ret.1 }
              (l₀ ++ l) := ⟨ret.1, by simp [hnone], hname, hended⟩
          apply Reads.mono (ih hp' ret.2 (hhost ret.1) (.inr hfound))
          intro ret' l' hret'
          rwa [← List.append_assoc]
        · apply Reads.bind (reads_restoreNics_later law h hslash (h.nics pod) w.addrs _ gateway)
          intro ret l hlater
          have hfound' : Found cni pod i a n { node with netns := emplace node.netns pod ret.1 }
              (l₀ ++ l) := by
            obtain ⟨obj, hl, hname, hended⟩ := hfound
            exact ⟨obj, by simp [hl], hname, hended.append hlater⟩
          apply Reads.mono (ih hp' ret.2 (hhost ret.1) (.inr hfound'))
          intro ret' l' hret'
          rwa [← List.append_assoc]
      · have hother : ∀ j ∈ R.list (.nics pod), j ≠ i ∨ a ∉ R.list (.addrs pod j) :=
          fun j _ => .inr fun ha => hpc (w.only pod j ha).1
        apply Reads.bind (reads_restoreNics law h hslash (h.nics pod) hother
          { name := pod } gateway)
        intro ret l hpost
        obtain ⟨hstill, hqueries, hpod, hname, _⟩ := hpost
        have hhost : HostRestored cni R { node with netns := emplace node.netns pod ret.1 } := by
          apply hostRestored_emplace hnode
          intro he
          rw [← he]
          exact hpod (restoredPod_empty pod)
        apply Reads.mono (ih hp' ret.2 hhost (hstate.beside hpc hstill hqueries))
        intro ret' l' hret'
        rwa [← List.append_assoc]

theorem reads_getKubernetesCluster {c : Text} (law : Lawful cni net) (h : Loadable R)
    (w : Watched R c i a) (hs : R.value .subnet = some net.text) :
    Reads cni.getKubernetesCluster (R.store cni.node base) fun loaded l =>
      ∃ node, loaded.cluster.lookup cni.node = some node ∧
        Found cni c i a (bridges cni R c (R.list .pods)) node l ∧ HostRestored cni R node := by
  have hp := law.prefixLength_le
  have hne : net.text ≠ [] := cidr_ne_nil _ _
  have hinit : Subnet.init cni.boost net.text = .ok ⟨net, .ipv4⟩ :=
    Subnet.init_cidr _ _ (by omega)
  unfold Cni.getKubernetesCluster
  apply Reads.etcd_bind run_getSubnet_store
  simp only [hs, Option.getD_some, ne_eq, hne, not_false_eq_true, decide_true, if_true,
    Cni.initKubernetesNode, hinit, bind, Except.bind, pure, Except.pure, Program.ofExcept_ok,
    Program.bind]
  apply Reads.etcd_bind run_getAllPods
  have hnode : HostRestored cni R { subnet := some ⟨net, .ipv4⟩ } := fun obj hl => by cases hl
  have hstart : ([] : Log).countP (fun e => links cni.conf.bridge e.1) +
      bridges cni R c (R.list .pods) = bridges cni R c (R.list .pods) := by simp
  apply Reads.bind (reads_restorePods law h w h.pods none hnode
    (.inl ⟨rfl, w.pods, still_nil, hstart⟩))
  intro ret l hpost
  obtain ⟨hfound, hhost⟩ := hpost
  apply Reads.pure
  rw [List.append_nil]
  exact ⟨ret.1, by simp [emplace], by simpa using hfound, hhost⟩

/-! ### Deleting -/

/-- The addresses that are not in `T` stay as they are. -/
def Keeps (T : Text → Prop) (R R' : Registry) : Prop :=
  ∀ x, ¬ T x → (x ∈ R'.list .addresses ↔ x ∈ R.list .addresses)

/-- The program gives back addresses of `T` only and does not ask for the
address in question. -/
def Frees {A : Type} (cni : Cni) (base : Store) (i a : Text) (T : Text → Prop) (p : OhnoProgram A)
    (R : Registry) (P : A → Prop) : Prop :=
  Logs p (R.store cni.node base) fun o t l => (∀ x, o = .ok x → P x) ∧ Still i a l ∧
    ∃ R', t = R'.store cni.node base ∧ Keeps T R R'

section Frees
variable {A B : Type} {T : Text → Prop} {p : OhnoProgram A} {f : A → OhnoProgram B} {P : A → Prop}
variable {Q : B → Prop}

theorem Frees.bind (h : Frees cni base i a T p R P)
    (hf : ∀ x R', P x → Frees cni base i a T (f x) R' Q) : Frees cni base i a T (p.bind f) R Q := by
  apply Logs.bind h
  · intro x t l hpost
    obtain ⟨hP, hstill, R', ht, hkeep⟩ := hpost
    subst ht
    apply Logs.mono (hf x R' (hP x rfl))
    intro o u l' hpost
    obtain ⟨hQ, hstill', R'', hu, hkeep'⟩ := hpost
    exact ⟨hQ, still_append.mpr ⟨hstill, hstill'⟩, R'', hu,
      fun y hy => (hkeep' y hy).trans (hkeep y hy)⟩
  · intro e t l hpost
    obtain ⟨_, hstill, hR⟩ := hpost
    exact ⟨fun x hx => (by cases hx), hstill, hR⟩

theorem Frees.pure {x : A} (h : P x) : Frees cni base i a T (.pure x) R P :=
  Logs.pure ⟨fun _ hy => (Except.ok.inj hy) ▸ h, still_nil, R, rfl, fun _ _ => Iff.rfl⟩

theorem Frees.throw (e : Thrown) : Frees cni base i a T (.throw e) R P :=
  Logs.throw ⟨fun _ hy => (by cases hy), still_nil, R, rfl, fun _ _ => Iff.rfl⟩

/-- Etcdctl commands. -/
theorem Frees.etcd {q : EtcdProgram A} {x : A} {R' : Registry}
    (h : q.run Etcd.ok (R.store cni.node base) = (.ok x, R'.store cni.node base)) (hP : P x)
    (hkeep : Keeps T R R') : Frees cni base i a T (Netlink.etcd q) R P :=
  Logs.etcd h ⟨fun _ hy => (Except.ok.inj hy) ▸ hP, still_nil, R', rfl, hkeep⟩

end Frees

theorem reads_cleanupRoutes (i a : Text) (nic : Nic) (routes : List Route) :
    Reads (nic.cleanupRoutes routes) s fun _ l => Still i a l := by
  induction routes with
  | nil => exact Reads.pure still_nil
  | cons r routes ih =>
      simp only [Nic.cleanupRoutes]
      apply Reads.netlink_bind
      intro b
      cases b with
      | true =>
          simp only [if_true]
          apply Reads.netlink_bind
          intro b
          apply Reads.mono ih
          intro _ l hl
          simpa [Still, Silent, asks, adds] using hl
      | false =>
          simp only [Bool.false_eq_true, if_false]
          apply Reads.mono ih
          intro _ l hl
          simpa [Still, Silent, asks, adds] using hl

theorem reads_cleanupAddrs (i a : Text) (nic : Nic) {addrs : List Addr}
    (h : ∀ x ∈ addrs, ∃ text, x.getAddrCidr = .ok text) :
    Reads (nic.cleanupAddrs addrs) s fun _ l => Still i a l := by
  induction addrs with
  | nil => exact Reads.pure still_nil
  | cons x addrs ih =>
      obtain ⟨text, ht⟩ := h x (by simp)
      simp only [Nic.cleanupAddrs, ht, Program.ofExcept_ok, Program.bind_eq, Program.pure_bind]
      apply Reads.netlink_bind
      intro b
      apply Reads.mono (ih fun y hy => h y (List.mem_cons_of_mem x hy))
      intro _ l hl
      simpa [Still, Silent, asks, adds] using hl

theorem reads_cleanup (i a : Text) {nic : Nic}
    (h : ∀ x ∈ nic.addrs, ∃ text, x.getAddrCidr = .ok text) :
    Reads nic.cleanup s fun _ l => Still i a l := by
  unfold Nic.cleanup
  split_ifs
  · apply Reads.bind (reads_cleanupRoutes i a nic nic.routes)
    intro _ l hl
    exact Reads.pure (by rwa [List.append_nil])
  · apply Reads.bind (reads_cleanupRoutes i a nic nic.routes)
    intro _ l hl
    apply Reads.bind (reads_cleanupAddrs i a nic h)
    intro _ l' hl'
    apply Reads.netlink_bind
    intro b
    refine Reads.pure (still_append.mpr ⟨hl, still_append.mpr ⟨hl', ?_⟩⟩)
    simp [Still, Silent, asks, adds]
  · exact Reads.pure still_nil

theorem logs_delNicVtep (R : Registry) :
    Logs cni.delNicVtep (R.store cni.node base) fun o t l =>
      o = .ok true ∧ l = [] ∧ t =
        (if cni.ipamMode = .vxlan then R.clear .vtep else R).store cni.node base := by
  unfold Cni.delNicVtep
  split_ifs
  · exact Logs.etcd run_delVtep ⟨rfl, rfl, rfl⟩
  · exact Logs.pure ⟨rfl, rfl, rfl⟩

/-- An interface is deleted with the first of its addresses. -/
theorem logs_delKubernetesNic (i a : Text) {obj : Netns} {nic : Text} {iface : Nic}
    (hp : '/' ∉ obj.name)
    (hi : '/' ∉ nic) (hl : obj.nics.lookup nic = some iface)
    (h : ∀ x ∈ iface.addrs, ∃ text, x.getAddrCidr = .ok text) (hname : iface.name = nic) {ip : Text}
    (hip : Cni.addrText iface [] = .ok ip) :
    Logs (cni.delKubernetesNic obj nic) (R.store cni.node base) fun o t l =>
      o = .ok (obj.delNic nic) ∧ Still i a l ∧
        t = (dropNic cni obj.name nic ip R).store cni.node base := by
  unfold Cni.delKubernetesNic
  simp only [hl, hip, Program.ofExcept_ok, Program.bind_eq, Program.pure_bind]
  apply Reads.then_ (reads_cleanup i a h)
  intro _ l hstill
  have hrelease : Logs (cni.releaseNicIp obj iface ip) (R.store cni.node base) fun o t l' =>
      o = .ok true ∧ l' = [] ∧ t = (if obj.name = host ∧ nic = cni.underlayDev then R
        else R.prune .addresses ip).store cni.node base := by
    unfold Cni.releaseNicIp
    rw [hname]
    split_ifs
    · exact Logs.pure ⟨rfl, rfl, rfl⟩
    · exact Logs.etcd run_releaseIp_store ⟨rfl, rfl, rfl⟩
  apply Logs.bind hrelease
  · intro released t l' hpost
    obtain ⟨_, hl', ht⟩ := hpost
    subst hl' ht
    apply Logs.etcd_bind (run_delAddr hp hi)
    simp only [if_true]
    apply Logs.etcd_bind (run_delRoute hp hi)
    simp only [if_true]
    apply Logs.etcd_bind (run_delNic hp)
    simp only [if_true]
    apply Logs.bind (logs_delNicVtep _)
    · intro deleted t l' hpost
      obtain ⟨ho, hl', ht⟩ := hpost
      cases ho
      subst hl' ht
      exact Logs.pure ⟨rfl, by simpa using hstill, rfl⟩
    · intro e t l' hpost
      obtain ⟨ho, _⟩ := hpost
      cases ho
  · intro e t l' hpost
    obtain ⟨ho, _⟩ := hpost
    cases ho

theorem addrText_of_restoredAs (h : Loadable R) {pod nic : Text} {iface : Nic}
    (hi : RestoredAs cni R pod nic iface) :
    ∃ ip, Cni.addrText iface [] = .ok ip ∧ (ip = [] ∨ ip ∈ R.list (.addrs pod nic)) := by
  unfold Cni.addrText Nic.getAddr
  cases haddrs : iface.addrs with
  | nil => exact ⟨[], rfl, .inl rfl⟩
  | cons x rest =>
      obtain ⟨t, ht, hx⟩ := hi.addrs x (by simp [haddrs])
      refine ⟨t, ?_, .inr ht⟩
      rw [List.head?_cons, hx]
      exact getAddrCidr_ofCidr cni (h.addrs pod nic t ht)

theorem keeps_dropNic {T : Text → Prop} (R : Registry) (pod nic : Text) {ip : Text} (hip : T ip) :
    Keeps T R (dropNic cni pod nic ip R) := by
  intro x hx
  have hne : x ≠ ip := by
    rintro rfl
    exact hx hip
  rw [dropNic_list]
  split_ifs <;> simp_all

/-- An interface of the root namespace. -/
theorem frees_delKubernetesNic (i a : Text) {T : Text → Prop} {R₀ : Registry} (h : Loadable R₀)
    (hT : T [] ∧ ∀ j, ∀ x ∈ R₀.list (.addrs host j), T x) {obj : Netns}
    (hobj : RestoredPod cni R₀ host obj) {nic : Text} (hi : '/' ∉ nic) (R : Registry) :
    Frees cni base i a T (cni.delKubernetesNic obj nic) R fun obj' =>
      RestoredPod cni R₀ host obj' := by
  cases hl : obj.nics.lookup nic with
  | none =>
      unfold Cni.delKubernetesNic
      simp only [hl]
      exact Frees.pure hobj
  | some iface =>
      have hiface := hobj.nics nic iface hl
      obtain ⟨ip, hip, hmem⟩ := addrText_of_restoredAs h hiface
      have haddrs : ∀ x ∈ iface.addrs, ∃ text, x.getAddrCidr = .ok text := by
        intro x hx
        obtain ⟨t, ht, rfl⟩ := hiface.addrs x hx
        exact ⟨t, getAddrCidr_ofCidr cni (h.addrs host nic t ht)⟩
      have hslash : '/' ∉ obj.name := hobj.name ▸ name_host.slash
      apply Logs.mono (logs_delKubernetesNic i a hslash hi hl haddrs hiface.name hip)
      intro o t l hpost
      obtain ⟨ho, hstill, ht⟩ := hpost
      subst ho
      refine ⟨?_, hstill, _, ht, ?_⟩
      · intro obj' hobj'
        cases hobj'
        refine ⟨hobj.name, ?_⟩
        intro j nic' hl'
        rw [Netns.delNic, lookup_remove] at hl'
        split_ifs at hl' with hj
        exact hobj.nics j nic' hl'
      · apply keeps_dropNic
        rcases hmem with rfl | hmem
        · exact hT.1
        · exact hT.2 nic ip hmem

theorem frees_delKubernetesPod (i a : Text) {T : Text → Prop} {pod : Text}
    (hp : '/' ∉ pod) (node : Node)
    (R : Registry) :
    Frees cni base i a T (cni.delKubernetesPod node pod) R fun node' =>
      node' = { node with netns := remove node.netns pod } := by
  unfold Cni.delKubernetesPod
  apply Frees.bind (Frees.etcd (P := fun _ => True) (run_getNetns hp) trivial fun _ _ => Iff.rfl)
  intro netns R₁ _
  apply Frees.bind (Frees.etcd (P := fun _ => True) (run_delNetns hp) trivial fun _ _ => Iff.rfl)
  intro deleted R₂ _
  have hlisted : Frees cni base i a T (cni.delListedPod netns) R₂ fun _ => True := by
    unfold Cni.delListedPod
    split_ifs
    · exact Frees.pure trivial
    · cases hs : simpleNetns netns with
      | ok simple =>
          exact Frees.etcd (run_delPod hs) trivial fun x _ => by simp
      | error e =>
          have hrun : (delPod cni.node netns).run Etcd.ok (R₂.store cni.node base) =
              (.error e, R₂.store cni.node base) := by
            simp [delPod, getSinglePodKey, hs, bind, Except.bind]
          exact Logs.etcd hrun ⟨fun _ hy => (by cases hy), still_nil, R₂, rfl, fun _ _ => Iff.rfl⟩
  split_ifs
  · apply Frees.bind hlisted
    intro ok R₃ _
    split_ifs
    · exact Frees.pure rfl
    · exact Frees.throw _
  · exact Frees.throw _

theorem frees_tearDown (i a : Text) {T : Text → Prop} (law : Lawful cni net) {R₀ : Registry}
    (h : Loadable R₀) (hT : T [] ∧ ∀ j, ∀ x ∈ R₀.list (.addrs host j), T x) {node : Node}
    (hnode : HostRestored cni R₀ node) (R : Registry) :
    Frees cni base i a T (cni.tearDown node) R fun _ => True := by
  unfold Cni.tearDown Cni.getKubernetesPod
  cases hl : node.netns.lookup host with
  | none => exact Frees.throw _
  | some obj =>
      simp only [Program.pure_eq, Program.bind_eq, Program.pure_bind]
      apply Frees.bind (frees_delKubernetesNic i a h hT (hnode obj hl) law.bridge.slash R)
      intro obj₁ R₁ hobj₁
      apply Frees.bind (frees_delKubernetesNic i a h hT hobj₁ name_nameVxlan.slash R₁)
      intro obj₂ R₂ hobj₂
      apply Frees.bind (frees_delKubernetesNic i a h hT hobj₂ law.underlay.slash R₂)
      intro obj₃ R₃ _
      apply Frees.bind (frees_delKubernetesPod i a name_host.slash node R₃)
      intro node₁ R₄ _
      cases node₁.getSubnet with
      | error e => exact Frees.throw e
      | ok subnet =>
          simp only [Program.ofExcept_ok, Program.pure_bind]
          split_ifs
          · exact Frees.pure trivial
          · apply Frees.bind (Frees.etcd (P := fun _ => True) run_releaseSubnet trivial
              fun x _ => by simp)
            intro _ R₅ _
            exact Frees.pure trivial

/-- The object has the address exactly when it was taken the first time. -/
theorem taken_iff_of_ended {n : ℕ} {nic : Option Nic} {l : Log} (h : Ended cni i a n nic l) :
    (Taken i a l ∧ (i = cni.conf.bridge →
      countBefore (asks i a) (links cni.conf.bridge) l = n + 1)) ↔
      ∃ iface, nic = some iface ∧ iface.addrs ≠ [] := by
  cases nic with
  | some iface =>
      obtain ⟨-, -, -, hcount, haddrs⟩ := h
      rcases haddrs with ⟨ho, ht⟩ | ⟨ho, hq, hs⟩
      · simpa [ho, ht] using hcount
      · simp [ho, Taken, hq, hs]
  | none =>
      obtain ⟨hi, hadds, hbefore, -⟩ := h
      simp only [reduceCtorEq, false_and, exists_false, iff_false]
      intro hpost
      obtain ⟨ht, hcount⟩ := hpost
      by_cases hs : Silent (asks i a) l
      · simp [Taken, firstAnswer_eq_none_iff.mpr hs, firstAnswer_eq_none_iff.mpr (hadds hs)] at ht
      · have hlt := hbefore hs
        have heq := hcount hi
        omega

/-- The interface of the container goes with its address if it has one. -/
theorem logs_delContainerNic {c : Text} (h : Loadable R) (w : Watched R c i a) (hc : '/' ∉ c)
    (hi : '/' ∉ i) {obj : Netns} (hname : obj.name = c) {n : ℕ} {l₀ : Log}
    (hended : Ended cni i a n (obj.nics.lookup i) l₀) (given : a ∈ R.list .addresses) :
    Logs (cni.delKubernetesNic obj i) (R.store cni.node base) fun o t l =>
      (∃ obj', o = .ok obj') ∧ Still i a l ∧ ∃ R', t = R'.store cni.node base ∧
        Keeps (fun x => x = a ∨ x = []) R R' ∧ (a ∈ R'.list .addresses ↔
          ¬ ∃ iface, obj.nics.lookup i = some iface ∧ iface.addrs ≠ []) := by
  have ha := h.addrs c i a (by simp [w.addrs])
  cases hl : obj.nics.lookup i with
  | none =>
      unfold Cni.delKubernetesNic
      simp only [hl]
      exact Logs.pure ⟨⟨obj, rfl⟩, still_nil, R, rfl, fun _ _ => Iff.rfl, by simpa using given⟩
  | some iface =>
      rw [hl] at hended
      obtain ⟨-, hiname, -, -, haddrs⟩ := hended
      have hslash : '/' ∉ obj.name := hname ▸ hc
      have hitem : a ≠ [] := by
        obtain ⟨b, m, -, rfl⟩ := ha
        exact cidr_ne_nil _ _
      rcases haddrs with ⟨ho, -⟩ | ⟨ho, -, -⟩
      · have hcidr : ∀ x ∈ iface.addrs, ∃ text, x.getAddrCidr = .ok text := by
          intro x hx
          rw [ho, List.mem_singleton] at hx
          exact ⟨a, hx ▸ getAddrCidr_ofCidr cni ha⟩
        have hip : Cni.addrText iface [] = .ok a := by
          simp only [Cni.addrText, Nic.getAddr, ho, List.head?_cons]
          exact getAddrCidr_ofCidr cni ha
        apply Logs.mono (logs_delKubernetesNic i a hslash hi hl hcidr hiname hip)
        intro o t l hpost
        obtain ⟨hok, hstill, ht⟩ := hpost
        refine ⟨⟨_, hok⟩, hstill, _, ht, keeps_dropNic R _ _ (.inl rfl), ?_⟩
        simp [dropNic_list, hname, w.host, ho]
      · have hcidr : ∀ x ∈ iface.addrs, ∃ text, x.getAddrCidr = .ok text := by simp [ho]
        have hip : Cni.addrText iface [] = .ok [] := by simp [Cni.addrText, Nic.getAddr, ho]
        apply Logs.mono (logs_delKubernetesNic i a hslash hi hl hcidr hiname hip)
        intro o t l hpost
        obtain ⟨hok, hstill, ht⟩ := hpost
        refine ⟨⟨_, hok⟩, hstill, _, ht, keeps_dropNic R _ _ (.inr rfl), ?_⟩
        simp [dropNic_list, hname, w.host, ho, given, hitem]

/-- The address is free exactly when it was taken when the interface was restored,
and no other address of a container is. -/
def Released (cni : Cni) (base : Store) (R : Registry) (c i a : Text) (t : Store) (l : Log) :
    Prop :=
  ∃ R', t = R'.store cni.node base ∧
    (a ∉ R'.list .addresses ↔ Taken i a l ∧ (i = cni.conf.bridge →
      countBefore (asks i a) (links cni.conf.bridge) l = bridges cni R c (R.list .pods) + 1)) ∧
    Keeps (fun x => x = a ∨ x = [] ∨ ∃ j, x ∈ R.list (.addrs host j)) R R'

theorem logs_delBody (base : Store) {c : Text} (law : Lawful cni net) (h : Loadable R)
    (w : Watched R c i a)
    (hc : '/' ∉ c) (hi : '/' ∉ i) (hs : R.value .subnet = some net.text)
    (given : a ∈ R.list .addresses) :
    Logs (cni.delBody c i) (R.store cni.node base) fun _ t l => Released cni base R c i a t l := by
  have ha := h.addrs c i a (by simp [w.addrs])
  have hnotHost : ¬ (a = [] ∨ ∃ j, a ∈ R.list (.addrs host j)) := by
    rintro (hnil | ⟨j, hj⟩)
    · obtain ⟨b, m, -, rfl⟩ := ha
      exact cidr_ne_nil _ _ hnil
    · exact w.host (w.only host j hj).1.symm
  unfold Cni.delBody
  simp only [law.nodeInfo, if_true]
  apply Reads.then_ (reads_getKubernetesCluster law h w hs)
  intro loaded l hpost
  obtain ⟨node, hnode, ⟨obj, hobj, hname, hended⟩, hhost⟩ := hpost
  simp only [hnode, Cni.getKubernetesPod, hobj, Program.pure_eq, Program.bind_eq,
    Program.pure_bind]
  -- what follows the deletion of the interface keeps the address as it is
  have hrest : ∀ R₁ : Registry,
      Frees cni base i a (fun x => x = [] ∨ ∃ j, x ∈ R.list (.addrs host j))
      (Program.bind (cni.delKubernetesPod node c) fun node' =>
        if node'.netns.length = 1 then cni.tearDown node' else .pure ()) R₁ fun _ => True := by
    intro R₁
    apply Frees.bind (frees_delKubernetesPod i a hc node R₁)
    intro node' R₂ hnode'
    split_ifs
    · apply frees_tearDown i a law h ⟨.inl rfl, fun j x hx => .inr ⟨j, hx⟩⟩
      intro obj' hl
      rw [hnode', lookup_remove] at hl
      split_ifs at hl
      exact hhost obj' hl
    · exact Frees.pure trivial
  apply Logs.bind (logs_delContainerNic h w hc hi hname hended given)
  · intro obj' t l₁ hpost
    obtain ⟨_, hstill₁, R₁, ht, hkeep₁, hgiven₁⟩ := hpost
    subst ht
    apply Logs.mono (hrest R₁)
    intro o u l₂ hpost
    obtain ⟨_, hstill₂, R₂, hu, hkeep₂⟩ := hpost
    refine ⟨R₂, hu, ?_, ?_⟩
    · have hend := hended.append (later_of_still (still_append.mpr ⟨hstill₁, hstill₂⟩))
      rw [taken_iff_of_ended hend, hkeep₂ a hnotHost, hgiven₁, not_not]
    · intro x hx
      push Not at hx
      rw [hkeep₂ x (by simpa using ⟨hx.2.1, hx.2.2⟩), hkeep₁ x (by simpa using ⟨hx.1, hx.2.1⟩)]
  · intro e t l₁ hpost
    obtain ⟨⟨_, ho⟩, _⟩ := hpost
    cases ho

theorem logs_del (base : Store) {c : Text} (law : Lawful cni net) (h : Loadable R)
    (w : Watched R c i a)
    (hc : '/' ∉ c) (hi : '/' ∉ i) (hs : R.value .subnet = some net.text)
    (given : a ∈ R.list .addresses) :
    Logs (cni.del c i) (R.store cni.node base) fun _ t l => Released cni base R c i a t l := by
  unfold Cni.del
  apply Logs.catch_ (logs_delBody base law h w hc hi hs given)
  · exact fun _ _ _ hQ => hQ
  · intro e t l hQ
    split_ifs
    · exact Logs.throw (by simpa using hQ)
    · exact Logs.pure (by simpa using hQ)

end Restore

/-! ### Histories -/

/-- The address is back, and the other containers have theirs. -/
structure GivenBack (node c a : Text) (s t : Store) : Prop where
  gone : a ∉ t.values (addressKey node)
  others : ∀ p ∈ ask (getAllPods node) s, p ≠ host → p ≠ c → ∀ i ∈ ask (getAllNic node p) s,
    ∀ b ∈ ask (getAllAddrs node p i) s, b ∈ t.values (addressKey node)

section Histories
variable {cni : Cni} {net : NetworkV4} {s₀ s : Store} {log : List Event}
variable {may : List Event → Store → Call → Prop} {R : Registry}

theorem watched_of_stocked (law : Lawful cni net) (h : Stocked cni net R) {c i a : Text}
    (hc : c ≠ host)
    (hi : i ∈ R.list (.nics c)) (ha : a ∈ R.list (.addrs c i)) : Watched R c i a := by
  have hle := law.prefixLength_le
  have hlt := hostCount_lt net
  obtain ⟨k, rfl, hrec⟩ := h.recorded_of_mem hc ha
  refine ⟨hc, h.listed c hc i hi, hi, h.nodup c hc, hrec.addrs, ?_⟩
  intro p j hx
  by_cases hp : p = host
  · have hrange := hrec.range
    subst hp
    rw [h.hostAddrs, hostAddrs] at hx
    split_ifs at hx
    · have h1 : k = 1 := hostText_injective (by omega) (by omega) (List.mem_singleton.mp hx)
      omega
    · have h32 : net.prefixLength = 32 := (cidr_injective (List.mem_singleton.mp hx)).2
      omega
    · cases hx
  · exact h.apart p j c i _ hp hc hx ha

theorem bridgesBefore_store (cni : Cni) (base : Store) (h : Loadable R) (c : Text) :
    bridgesBefore cni (R.store cni.node base) c = bridges cni R c (R.list .pods) := by
  rw [bridgesBefore, bridges, ask_getAllPods]
  apply congrArg List.sum
  apply List.map_congr_left
  intro p hp
  rw [ask_getAllNic (h.pods p ((List.takeWhile_sublist _).mem hp))]

/-- The other containers keep their addresses. -/
theorem others_given (law : Lawful cni net) (h : Stocked cni net R) {c i a : Text} {R' : Registry}
    (w : Watched R c i a)
    (hkeep : Keeps (fun x => x = a ∨ x = [] ∨ ∃ j, x ∈ R.list (.addrs host j)) R R')
    {p j b : Text} (hp : p ∈ ask (getAllPods cni.node) (R.store cni.node s₀)) (hph : p ≠ host)
    (hpc : p ≠ c) (hj : j ∈ ask (getAllNic cni.node p) (R.store cni.node s₀))
    (hb : b ∈ ask (getAllAddrs cni.node p j) (R.store cni.node s₀)) : b ∈ R'.list .addresses := by
  have hload := h.setUp.intact.loadable
  rw [ask_getAllPods] at hp
  have hps := hload.pods p hp
  rw [ask_getAllNic hps] at hj
  rw [ask_getAllAddrs hps (hload.nics p j hj)] at hb
  have hb' := watched_of_stocked law h hph hj hb
  obtain ⟨k, hk, hrec⟩ := h.recorded_of_mem hph hb
  rw [hkeep b, hk]
  · exact hrec.given
  · rintro (rfl | rfl | ⟨j', hj'⟩)
    · exact hpc (w.only p j hb).1
    · exact cidr_ne_nil _ _ hk.symm
    · exact hph (hb'.only host j' hj').1.symm

/-- After ADDs that returned, DEL gives the address of an interface back exactly
when the network has it, or takes it, when the interface is restored. -/
theorem given_back_iff (law : Lawful cni net) {others : List Text}
    (unrecorded : Unrecorded cni.node s₀) (ho : ∀ x ∈ others, Store.Item x)
    (hothers : s₀ etcdKeySubnet = encode others) (h : History cni may s₀ log s)
    (added : AllAdded log) {call : Call} (op : call.op = .del) {a : Text}
    (nic : call.container.nic ∈ ask (getAllNic cni.node call.container.id) s)
    (addr : a ∈ ask (getAllAddrs cni.node call.container.id call.container.nic) s)
    {o : Outcome} {w : World}
    (x : (call.program cni).Exec Conduct.anyNetwork.handle ⟨s, [], none⟩ o w) :
    GivenBack cni.node call.container.id a s w.store ↔
      TakenBack cni s call.container.id call.container.nic a w.log := by
  obtain ⟨op', c, mac, uniqueId⟩ := call
  cases op
  have hslash := c.name_id.slash
  have hnslash := c.name_nic.slash
  obtain ⟨R, rfl, hR⟩ := stocked_of_history law unrecorded ho hothers h added
  rw [ask_getAllNic hslash] at nic
  rw [ask_getAllAddrs hslash hnslash] at addr
  rcases hR with ⟨-, rfl⟩ | hstocked
  · cases nic
  have law' := lawful_process law mac uniqueId
  have hload := hstocked.setUp.intact.loadable
  have hwatched := watched_of_stocked law hstocked c.id_ne nic addr
  obtain ⟨k, hk, hrec⟩ := hstocked.recorded_of_mem c.id_ne addr
  have hdel := logs_del s₀ law' hload hwatched hslash hnslash hstocked.setUp.intact.subnet
    (hk ▸ hrec.given)
  have hcall : Logs (Call.program cni ⟨.del, c, mac, uniqueId⟩) (R.store cni.node s₀) fun _ t l =>
      Released (process cni mac uniqueId) s₀ R c.id c.nic a t l := by
    apply Logs.bind hdel
    · intro r t l hQ
      apply Logs.pure
      rw [List.append_nil]
      exact hQ
    · exact fun _ _ _ hQ => hQ
  obtain ⟨R', hw, hgone, hkeep⟩ := hcall.exec x
  have hvalues : w.store.values (addressKey cni.node) = R'.list .addresses := by
    rw [hw]
    exact Registry.values_store R' cni.node s₀ (l := .addresses) trivial
  have hbridges := bridgesBefore_store cni s₀ hload c.id
  constructor
  · intro hback
    rw [TakenBack, hbridges]
    exact hgone.mp (hvalues ▸ hback.gone)
  · intro htaken
    rw [TakenBack, hbridges] at htaken
    exact ⟨hvalues ▸ hgone.mpr htaken, fun p hp hph hpc i hi b hb =>
      hvalues ▸ others_given law hstocked hwatched hkeep hp hph hpc hi hb⟩

end Histories

/-! ### A network that refuses everything -/

/-- Another way to behave: the network answers no. -/
def refuse (c : Cmd) (w : World) : Reply × World :=
  match c with
  | .etcd e => ((Etcd.ok e w.store).1, { w with store := (Etcd.ok e w.store).2 })
  | .netlink n => (⟨false, []⟩, { w with log := w.log ++ [(n, false)] })

theorem handle_refuse (c : Cmd) (w : World) :
    Conduct.anyNetwork.handle c w (refuse c w).1 (refuse c w).2 := by
  cases c with
  | etcd e => exact .inl ⟨rfl, rfl⟩
  | netlink n => exact .inl ⟨trivial, rfl⟩

/-- The map after one ADD. -/
def addedA : Store := (addA.finish cniA noRecords).2

@[irreducible] def addressA : Text := "10.0.0.2/24".toList

theorem allAdded_addA : AllAdded ([] ++ [(addA, (addA.finish cniA noRecords).1)]) := by
  have hsome : (addA.finish cniA noRecords).1.toOption.join.isSome = true := by decide +kernel
  intro e he
  rw [List.nil_append, List.mem_singleton] at he
  rw [he]
  exact ⟨rfl, result_of_finish hsome⟩

theorem recorded_addA : containerA.nic ∈ ask (getAllNic ['a'] containerA.id) addedA ∧
    addressA ∈ ask (getAllAddrs ['a'] containerA.id containerA.nic) addedA := by decide +kernel

theorem given_back_iff_refused :
    GivenBack ['a'] containerA.id addressA addedA
        ((delA.program cniA).run refuse ⟨addedA, [], none⟩).2.store ↔
      TakenBack cniA addedA containerA.id containerA.nic addressA
        ((delA.program cniA).run refuse ⟨addedA, [], none⟩).2.log :=
  have hdel : delA.op = .del := rfl
  given_back_iff lawful_cniA (unrecorded_noRecords _) items_nil rfl history_addA allAdded_addA
    hdel recorded_addA.1 recorded_addA.2 (Program.exec_run handle_refuse _ _)

/-- The namespace has gone, and nothing can be done in it: the address stays. -/
theorem address_kept : ¬ ∀ log s, History cniA (fun _ _ _ => True) noRecords log s → AllAdded log →
    ∀ call : Call, call.op = .del → ∀ a,
      call.container.nic ∈ ask (getAllNic ['a'] call.container.id) s →
      a ∈ ask (getAllAddrs ['a'] call.container.id call.container.nic) s → ∀ o w,
      (call.program cniA).Exec Conduct.anyNetwork.handle ⟨s, [], none⟩ o w →
        GivenBack ['a'] call.container.id a s w.store := by
  intro hall
  have h : History cniA (fun _ _ _ => True) noRecords _ addedA := History.start.next addA trivial
  have hback := hall _ _ h allAdded_addA delA rfl addressA recorded_addA.1 recorded_addA.2 _ _
    (Program.exec_run handle_refuse _ _)
  have hkept : addressA ∈ ((delA.program cniA).run refuse ⟨addedA, [], none⟩).2.store.values
      (addressKey ['a']) := by decide +kernel
  exact hback.gone hkept

end Ohno.AddressRelease
