import Ohno.AddRecords
import Ohno.DataRefinement
import Ohno.RouteRecords

/-!
# The records of all nodes

`Storage` keeps, for every node, the namespace of each pod, the pod of each
namespace, the pods, the interfaces of a pod, the addresses and routes of an
interface and one VTEP. `Network` is that record without keys and texts, and
`specified` says what a call does to it: every call answers. Calls of `Storage`
answer as the record does, whatever calls came before, and a call about one
record changes no other and no key of `Ipam`.
-/
namespace Ohno.NetworkRecords
open CommandPrograms DelimitedLists AddressText EtcdClientShell Subnets Ipam Nics Storage
open Records DelRecords DataRefinement RouteRecords

/-! ### The abstract record -/

/-- What is recorded about a node. Namespaces go by their simple name. -/
inductive Record where
  | netns (pod : Text)
  | podOf (simple : Text)
  | pods
  | nics (pod : Text)
  | addrs (pod nic : Text)
  | routes (pod nic : Text)
  | vtep
deriving Repr, DecidableEq

/-- A missing text is empty. -/
abbrev Record.Content : Record → Type
  | netns _ | podOf _ => Text
  | pods | nics _ | addrs _ _ => List Text
  | routes _ _ => List Route
  | vtep => Option (Text × Text)

/-- The records of all nodes, by node and record. -/
abbrev Network := (x : Text × Record) → x.2.Content

namespace Network
variable (m : Network) (n : Text)

def set (r : Record) (x : r.Content) : Network := Function.update m (n, r) x

def netns (pod : Text) : Text := m (n, .netns pod)
def podOf (simple : Text) : Text := m (n, .podOf simple)
def pods : List Text := m (n, .pods)
def nics (pod : Text) : List Text := m (n, .nics pod)
def addrs (pod nic : Text) : List Text := m (n, .addrs pod nic)
def routes (pod nic : Text) : List Route := m (n, .routes pod nic)
def vtep : Option (Text × Text) := m (n, .vtep)

def empty : Network := fun x =>
  match x.2 with
  | .netns _ | .podOf _ => ([] : Text)
  | .pods | .nics _ | .addrs _ _ => ([] : List Text)
  | .routes _ _ => ([] : List Route)
  | .vtep => (none : Option (Text × Text))

end Network

/-- The name by which a namespace is known. -/
def simpleName (netns : Text) : Text := (simpleNetns netns).toOption.getD []

/-! ### Calls -/

inductive StorageCall where
  | addNetns (node pod netns : Text)
  | delNetns (node pod : Text)
  | getNetns (node pod : Text)
  | addPod (node netns pod : Text)
  | delPod (node netns : Text)
  | getPod (node netns : Text)
  | getAllPods (node : Text)
  | addNic (node pod nic : Text)
  | delNic (node pod nic : Text)
  | getAllNic (node pod : Text)
  | addAddr (node pod nic : Text) (addr : Addr)
  | delAddr (node pod nic : Text)
  | getAllAddrs (node pod nic : Text)
  | addRoute (node pod nic : Text) (r : Route)
  | delRoute (node pod nic : Text)
  | getAllRoutes (node pod nic : Text)
  | addVtep (node addr mac : Text)
  | delVtep (node : Text)
  | getVtep (node : Text)
deriving Repr, DecidableEq

inductive StorageAnswer where
  | done (ok : Bool)
  | text (t : Text)
  | texts (items : List Text)
  | routes (items : List Route)
  | vtep (addr mac : Text)
deriving Repr, DecidableEq

namespace StorageCall

def program : StorageCall → EtcdProgram StorageAnswer
  | addNetns n p ns => do pure (.done (← Storage.addNetns n p ns))
  | delNetns n p => do pure (.done (← Storage.delNetns n p))
  | getNetns n p => do pure (.text (← Storage.getNetns n p))
  | addPod n ns p => do pure (.done (← Storage.addPod n ns p))
  | delPod n ns => do pure (.done (← Storage.delPod n ns))
  | getPod n ns => do pure (.text (← Storage.getPod n ns))
  | getAllPods n => do pure (.texts (← Storage.getAllPods n))
  | addNic n p i => do pure (.done (← Storage.addNic n p i))
  | delNic n p i => do pure (.done (← Storage.delNic n p i))
  | getAllNic n p => do pure (.texts (← Storage.getAllNic n p))
  | addAddr n p i a => do pure (.done (← Storage.addAddr n p i a))
  | delAddr n p i => do pure (.done (← Storage.delAddr n p i))
  | getAllAddrs n p i => do pure (.texts (← Storage.getAllAddrs n p i))
  | addRoute n p i r => do pure (.done (← Storage.addRoute n p i r))
  | delRoute n p i => do pure (.done (← Storage.delRoute n p i))
  | getAllRoutes n p i => do pure (.routes (← Storage.getAllRoutes n p i))
  | addVtep n a mac => do pure (.done (← Storage.addVtep n a mac))
  | delVtep n => do pure (.done (← Storage.delVtep n))
  | getVtep n => do
      let ret ← Storage.getVtep n
      pure (.vtep ret.1 ret.2)

/-- A namespace that `simpleNetns` has a name for. -/
structure Namespace (netns : Text) : Prop where
  comma : ',' ∉ netns
  line : '\n' ∉ netns
  ne_directory : netns ≠ pathNamespace

theorem namespace_iff (netns : Text) :
    Namespace netns ↔ ',' ∉ netns ∧ '\n' ∉ netns ∧ netns ≠ pathNamespace :=
  ⟨fun h => ⟨h.comma, h.line, h.ne_directory⟩, fun h => ⟨h.1, h.2.1, h.2.2⟩⟩

instance (netns : Text) : Decidable (Namespace netns) := decidable_of_iff' _ (namespace_iff netns)

/-- Names that fit into keys and lists, and values that `Storage` can read back. -/
def Sound : StorageCall → Prop
  | addNetns n p ns => Name n ∧ Name p ∧ ',' ∉ ns ∧ '\n' ∉ ns
  | addPod n ns p => Name n ∧ Name p ∧ Namespace ns
  | delPod n ns | getPod n ns => Name n ∧ Namespace ns
  | delNetns n p | getNetns n p | getAllNic n p => Name n ∧ Name p
  | getAllPods n | delVtep n | getVtep n => Name n
  | addNic n p i | delNic n p i | delAddr n p i | getAllAddrs n p i | delRoute n p i
  | getAllRoutes n p i => Name n ∧ Name p ∧ Name i
  | addAddr n p i a => Name n ∧ Name p ∧ Name i ∧ a.ipVersion ≠ .ipv6
  | addRoute n p i r => Name n ∧ Name p ∧ Name i ∧ Readback r
  | addVtep n a mac => Name n ∧ Field a ∧ Field mac ∧ mac ≠ []

instance (c : StorageCall) : Decidable c.Sound := by
  unfold Sound
  split <;> infer_instance

/-- The records that a call changes. -/
def changes : StorageCall → List (Text × Record)
  | addNetns n p _ | delNetns n p => [(n, .netns p)]
  | addPod n ns _ | delPod n ns => [(n, .podOf (simpleName ns)), (n, .pods)]
  | addNic n p _ | delNic n p _ => [(n, .nics p)]
  | addAddr n p i _ | delAddr n p i => [(n, .addrs p i)]
  | addRoute n p i _ | delRoute n p i => [(n, .routes p i)]
  | addVtep n _ _ | delVtep n => [(n, .vtep)]
  | _ => []

/-- The records that an answer depends on. -/
def reads : StorageCall → List (Text × Record)
  | getNetns n p => [(n, .netns p)]
  | getPod n ns => [(n, .podOf (simpleName ns))]
  | getAllPods n => [(n, .pods)]
  | getAllNic n p => [(n, .nics p)]
  | getAllAddrs n p i => [(n, .addrs p i)]
  | getAllRoutes n p i => [(n, .routes p i)]
  | getVtep n => [(n, .vtep)]
  | _ => []

end StorageCall

/-- What a call answers and does, in terms of the record. -/
def specified (c : StorageCall) (m : Network) : StorageAnswer × Network :=
  match c with
  | .addNetns n p ns => (.done true, m.set n (.netns p) ns)
  | .delNetns n p => (.done true, m.set n (.netns p) [])
  | .getNetns n p => (.text (m.netns n p), m)
  | .addPod n ns p =>
      (.done true, (m.set n (.podOf (simpleName ns)) p).set n .pods (m.pods n ++ [p]))
  | .delPod n ns =>
      (.done true, (m.set n (.podOf (simpleName ns)) []).set n .pods
        ((m.pods n).filter (· ≠ m.podOf n (simpleName ns))))
  | .getPod n ns => (.text (m.podOf n (simpleName ns)), m)
  | .getAllPods n => (.texts (m.pods n), m)
  | .addNic n p i => (.done true, m.set n (.nics p) (m.nics n p ++ [i]))
  | .delNic n p i => (.done true, m.set n (.nics p) ((m.nics n p).filter (· ≠ i)))
  | .getAllNic n p => (.texts (m.nics n p), m)
  | .addAddr n p i a =>
      (.done true, m.set n (.addrs p i) (m.addrs n p i ++ [cidr a.addressV4 a.prefixLength]))
  | .delAddr n p i => (.done true, m.set n (.addrs p i) [])
  | .getAllAddrs n p i => (.texts (m.addrs n p i), m)
  | .addRoute n p i r => (.done true, m.set n (.routes p i) (m.routes n p i ++ [r]))
  | .delRoute n p i => (.done true, m.set n (.routes p i) [])
  | .getAllRoutes n p i => (.routes (m.routes n p i), m)
  | .addVtep n a mac => (.done true, m.set n .vtep (some (a, mac)))
  | .delVtep n => (.done true, m.set n .vtep none)
  | .getVtep n =>
      match m.vtep n with
      | some (a, mac) => (.vtep a mac, m)
      | none => (.vtep [] [], m)

/-- The specified answers as those of calls that do not throw. -/
def answered (c : StorageCall) (m : Network) : Except Thrown StorageAnswer × Network :=
  (.ok (specified c m).1, (specified c m).2)

theorem set_self {m : Network} {n : Text} {r : Record} {x : r.Content} :
    m.set n r x (n, r) = x := by
  simp [Network.set]

theorem set_of_ne {m : Network} {n : Text} {r : Record} {x : r.Content} {y : Text × Record}
    (h : y ≠ (n, r)) : m.set n r x y = m y := Function.update_of_ne h ..

theorem specified_of_notMem {c : StorageCall} {x : Text × Record} (h : x ∉ c.changes)
    (m : Network) : (specified c m).2 x = m x := by
  cases c with
  | addNetns | delNetns | addNic | delNic | addAddr | delAddr | addRoute | delRoute | addVtep
  | delVtep => exact set_of_ne (by simpa [StorageCall.changes] using h)
  | getNetns | getPod | getAllPods | getAllNic | getAllAddrs | getAllRoutes => rfl
  | addPod n ns p =>
      simp only [StorageCall.changes, List.mem_cons, List.not_mem_nil, or_false, not_or] at h
      exact (set_of_ne h.2).trans (set_of_ne h.1)
  | delPod n ns =>
      simp only [StorageCall.changes, List.mem_cons, List.not_mem_nil, or_false, not_or] at h
      exact (set_of_ne h.2).trans (set_of_ne h.1)
  | getVtep n =>
      simp only [specified]
      split <;> rfl

/-- Answers agree when the records they depend on do. -/
theorem specified_congr {c : StorageCall} {m m' : Network} (h : ∀ x ∈ c.reads, m' x = m x) :
    (specified c m').1 = (specified c m).1 := by
  cases c with
  | addNetns | delNetns | addPod | delPod | addNic | delNic | addAddr | delAddr | addRoute
  | delRoute | addVtep | delVtep => rfl
  | getNetns n p =>
      have hx : m'.netns n p = m.netns n p := h (n, .netns p) (by simp [StorageCall.reads])
      simp only [specified, hx]
  | getPod n ns =>
      have hx : m'.podOf n (simpleName ns) = m.podOf n (simpleName ns) :=
        h (n, .podOf (simpleName ns)) (by simp [StorageCall.reads])
      simp only [specified, hx]
  | getAllPods n =>
      have hx : m'.pods n = m.pods n := h (n, .pods) (by simp [StorageCall.reads])
      simp only [specified, hx]
  | getAllNic n p =>
      have hx : m'.nics n p = m.nics n p := h (n, .nics p) (by simp [StorageCall.reads])
      simp only [specified, hx]
  | getAllAddrs n p i =>
      have hx : m'.addrs n p i = m.addrs n p i := h (n, .addrs p i) (by simp [StorageCall.reads])
      simp only [specified, hx]
  | getAllRoutes n p i =>
      have hx : m'.routes n p i = m.routes n p i := h (n, .routes p i) (by simp [StorageCall.reads])
      simp only [specified, hx]
  | getVtep n =>
      have hx : m'.vtep n = m.vtep n := h (n, .vtep) (by simp [StorageCall.reads])
      simp only [specified, hx]
      cases m.vtep n <;> rfl

/-! ### The record in the store -/

namespace Record

def key : Record → RecordKey
  | netns p => .inr (.netns p)
  | podOf simple => .inr (.podOf simple)
  | pods => .inl .pods
  | nics p => .inl (.nics p)
  | addrs p i => .inl (.addrs p i)
  | routes p i => .inl (.routes p i)
  | vtep => .inr .vtep

def textOf : (r : Record) → r.Content → Text
  | netns _, t | podOf _, t => t
  | pods, items | nics _, items | addrs _ _, items => join ',' items
  | routes _ _, items => join ',' (items.map routeText)
  | vtep, none => []
  | vtep, some (a, mac) => getVtepValue a mac

/-- What can be read back. -/
def Good : (r : Record) → r.Content → Prop
  | netns _, t | podOf _, t => '\n' ∉ t
  | pods, items | nics _, items | addrs _ _, items => ∀ x ∈ items, Store.Item x
  | routes _ _, items => ∀ r ∈ items, Readback r
  | vtep, v => ∀ x ∈ v, Field x.1 ∧ Field x.2 ∧ x.2 ≠ []

theorem key_injective {r r' : Record} (h : r.key = r'.key) : r = r' := by
  cases r <;> cases r' <;> simp_all [key]

theorem parts_key (r : Record) : ∃ ps, parts r.key = some ps := by
  cases r <;> exact ⟨_, rfl⟩

end Record

/-- A key of the address manager. -/
def IpamKey (k : Text) : Prop := k = etcdKeySubnet ∨ ∃ n, k = subnetKey n ∨ k = addressKey n

theorem ipamKey_take {k : Text} (h : IpamKey k) : k.take 7 ≠ etcdKeyPrefixNode.take 7 := by
  rcases h with rfl | ⟨n, rfl | rfl⟩
  · exact @keyText_take [] (.inl .subnets) rfl
  · exact @keyText_take n (.inr .subnet) rfl
  · exact @keyText_take n (.inl .addresses) rfl

theorem recordKey_take (n : Text) (r : Record) :
    (keyText n r.key).take 7 = etcdKeyPrefixNode.take 7 := by
  obtain ⟨ps, hps⟩ := r.parts_key
  rw [keyText_parts n hps, nodeKey_take]

/-- The text of a key determines node and record. -/
theorem recordKey_injective {n n' : Text} {r r' : Record} (hn : '/' ∉ n) (hn' : '/' ∉ n')
    (hr : Sound r.key) (hr' : Sound r'.key) (h : keyText n r.key = keyText n' r'.key) :
    (n, r) = (n', r') := by
  obtain ⟨ps, hps⟩ := r.parts_key
  obtain ⟨qs, hqs⟩ := r'.parts_key
  have hnode : n = n' := by
    rw [keyText_parts n hps, keyText_parts n' hqs] at h
    have htail := List.append_cancel_left h
    exact cut_injective hn hn' (List.cons.inj htail).2
  subst hnode
  rw [Record.key_injective (keyText_injective hr hr' h)]

/-- The store holds the records under the keys of nodes, and what `base` holds
under those of `Ipam`. -/
structure Represents (base s : Store) (m : Network) : Prop where
  text : ∀ n (r : Record), '/' ∉ n → Sound r.key → s.value (keyText n r.key) = r.textOf (m (n, r))
  good : ∀ n (r : Record), r.Good (m (n, r))
  ipam : ∀ k, IpamKey k → s k = base k

theorem represents_empty (s : Store) (h : ∀ n r, s (keyText n (Record.key r)) = none) :
    Represents s s .empty := by
  refine ⟨fun n r _ _ => ?_, fun n r => ?_, fun _ _ => rfl⟩
  · have hv : s.value (keyText n r.key) = [] := by simp [Store.value, Store.shown, h]
    rw [hv]
    cases r <;> rfl
  · cases r <;> simp [Record.Good, Network.empty]

namespace Represents
variable {base s t : Store} {m : Network} {n : Text}

/-- A write under the key of one record. -/
theorem set {r : Record} {x : r.Content} (h : Represents base s m) (hn : '/' ∉ n)
    (hr : Sound r.key) (hx : r.Good x) (ht : t.value (keyText n r.key) = r.textOf x)
    (other : ∀ k, k ≠ keyText n r.key → t k = s k) : Represents base t (m.set n r x) := by
  constructor
  · intro n' r' hn' hr'
    by_cases hsame : (n', r') = (n, r)
    · cases hsame
      rw [ht]
      exact congrArg r.textOf set_self.symm
    · rw [set_of_ne hsame, ← h.text n' r' hn' hr']
      apply Store.value_congr
      exact other _ fun hk => hsame (recordKey_injective hn' hn hr' hr hk)
  · intro n' r'
    by_cases hsame : (n', r') = (n, r)
    · cases hsame
      rwa [set_self]
    · rw [set_of_ne hsame]
      exact h.good n' r'
  · intro k hk
    rw [other k, h.ipam k hk]
    rintro rfl
    exact ipamKey_take hk (recordKey_take n r)

variable {r : Record} {x : r.Content} {items : List Text} {v : Text}

theorem holds (h : Represents base s m) (hn : '/' ∉ n) (hr : Sound r.key)
    (ht : r.textOf (m (n, r)) = join ',' items) (hi : ∀ x ∈ items, Store.Item x) :
    s.Holds (keyText n r.key) items := ⟨(h.text n r hn hr).trans ht, hi⟩

theorem put (h : Represents base s m) (hn : '/' ∉ n) (hr : Sound r.key) (hx : r.Good x)
    (hv : '\n' ∉ v) (ht : r.textOf x = v) :
    Represents base (s.set (keyText n r.key) v) (m.set n r x) := by
  apply h.set hn hr hx
  · rw [Store.value_set hv, ht]
  · exact fun k hk => Store.set_of_ne hk

theorem erase (h : Represents base s m) (hn : '/' ∉ n) (hr : Sound r.key) (hx : r.Good x)
    (ht : r.textOf x = []) : Represents base (s.erase (keyText n r.key)) (m.set n r x) := by
  apply h.set hn hr hx
  · rw [Store.value_erase, ht]
  · exact fun k hk => Store.erase_of_ne hk

theorem append (h : Represents base s m) (hn : '/' ∉ n) (hr : Sound r.key) (hx : r.Good x)
    (hs : s.Holds (keyText n r.key) items) (hv : Store.Item v)
    (ht : r.textOf x = join ',' (items ++ [v])) :
    Represents base (s.append (keyText n r.key) v) (m.set n r x) := by
  apply h.set hn hr hx
  · rw [(hs.append hv).text, ht]
  · exact fun k hk => Store.append_of_ne hk

theorem delValue (h : Represents base s m) (hn : '/' ∉ n) (hr : Sound r.key) (hx : r.Good x)
    (hs : s.Holds (keyText n r.key) items) (ht : r.textOf x = join ',' (items.filter (· ≠ v))) :
    Represents base (s.delValue (keyText n r.key) v) (m.set n r x) := by
  apply h.set hn hr hx
  · rw [hs.delValue.text, ht]
  · exact fun k hk => Store.delValue_of_ne hk

theorem holds_pods (h : Represents base s m) (hn : '/' ∉ n) :
    s.Holds (getAllPodsKey n) (m.pods n) := h.holds (r := .pods) hn trivial rfl (h.good n .pods)

theorem holds_nics (h : Represents base s m) (hn : '/' ∉ n) {p : Text} (hp : '/' ∉ p) :
    s.Holds (getNicKey n p) (m.nics n p) := h.holds (r := .nics p) hn hp rfl (h.good n (.nics p))

theorem holds_addrs (h : Represents base s m) (hn : '/' ∉ n) {p i : Text} (hp : '/' ∉ p)
    (hi : '/' ∉ i) : s.Holds (getAddrKey n p i) (m.addrs n p i) :=
  h.holds (r := .addrs p i) hn ⟨hp, hi⟩ rfl (h.good n (.addrs p i))

theorem holds_routes (h : Represents base s m) (hn : '/' ∉ n) {p i : Text} (hp : '/' ∉ p)
    (hi : '/' ∉ i) : s.Holds (getRouteKey n p i) ((m.routes n p i).map routeText) := by
  refine h.holds (r := .routes p i) hn ⟨hp, hi⟩ rfl fun x hx => ?_
  obtain ⟨r, hr, rfl⟩ := List.mem_map.mp hx
  exact (h.good n (.routes p i) r hr).item

end Represents

/-! ### Calls on the store -/

/-- A call of `Storage` on the store. -/
def issued (c : StorageCall) (s : Store) : Except Thrown StorageAnswer × Store :=
  c.program.run Etcd.ok s

/-- Only the directory itself has no name. -/
theorem simpleNetns_of_namespace {netns : Text} (h : StorageCall.Namespace netns) :
    simpleNetns netns = .ok (simpleName netns) := by
  cases hs : simpleNetns netns with
  | ok simple =>
      unfold simpleName
      rw [hs]
      rfl
  | error e =>
      unfold simpleNetns at hs
      split_ifs at hs with hin hlen
      obtain ⟨t, ht, hpre⟩ := List.any_eq_true.mp hin
      have hsub : pathNamespace <:+: netns :=
        (List.isPrefixOf_iff_prefix.mp hpre).isInfix.trans ((List.mem_tails _ _).mp ht).isInfix
      exact absurd (hsub.eq_of_length_le (by omega)).symm h.ne_directory

theorem getAddrCidr_of_ne {a : Addr} (h : a.ipVersion ≠ .ipv6) :
    a.getAddrCidr = .ok (cidr a.addressV4 a.prefixLength) := by
  rw [cidr_eq, Addr.getAddrCidr, Addr.getAddr, if_neg h]
  rfl

section Steps
variable {base s : Store} {m : Network}

/-- The answer is the specified one and the store represents the specified record. -/
def Meets (base : Store) (c : StorageCall) (s : Store) (m : Network) : Prop :=
  (issued c s).1 = .ok (specified c m).1 ∧ Represents base (issued c s).2 (specified c m).2

theorem meets_addNetns (h : Represents base s m) {n p ns : Text}
    (hc : (StorageCall.addNetns n p ns).Sound) : Meets base (.addNetns n p ns) s m := by
  obtain ⟨hn, hp, -, hline⟩ := hc
  exact ⟨rfl, h.put (r := .netns p) hn.slash hp.slash hline hline rfl⟩

theorem meets_delNetns (h : Represents base s m) {n p : Text}
    (hc : (StorageCall.delNetns n p).Sound) : Meets base (.delNetns n p) s m := by
  obtain ⟨hn, hp⟩ := hc
  exact ⟨rfl, h.erase (r := .netns p) hn.slash hp.slash (by simp [Record.Good]) rfl⟩

theorem meets_getNetns (h : Represents base s m) {n p : Text}
    (hc : (StorageCall.getNetns n p).Sound) : Meets base (.getNetns n p) s m := by
  obtain ⟨hn, hp⟩ := hc
  have hv : s.value (getNetnsKey n p) = m.netns n p := h.text n (.netns p) hn.slash hp.slash
  have hanswer : issued (.getNetns n p) s = (.ok (.text (m.netns n p)), s) := by
    simp [issued, StorageCall.program, Storage.getNetns, hv]
  unfold Meets
  rw [hanswer]
  exact ⟨rfl, h⟩

theorem meets_addPod (h : Represents base s m) {n ns p : Text}
    (hc : (StorageCall.addPod n ns p).Sound) : Meets base (.addPod n ns p) s m := by
  obtain ⟨hn, hp, hns⟩ := hc
  have hput := h.put (r := .podOf (simpleName ns)) hn.slash trivial hp.item.line hp.item.line rfl
  have hpods : ∀ x ∈ m.pods n ++ [p], Store.Item x := by
    intro x hx
    rcases List.mem_append.mp hx with hx | hx
    · exact h.good n .pods x hx
    · exact List.mem_singleton.mp hx ▸ hp.item
  have hlist := hput.holds_pods hn.slash
  have hsame : (m.set n (.podOf (simpleName ns)) p).pods n = m.pods n := set_of_ne (by simp)
  rw [hsame] at hlist
  unfold Meets
  simp only [issued, StorageCall.program, Storage.addPod, getSinglePodKey,
    simpleNetns_of_namespace hns, specified, bind, Except.bind, pure, Except.pure,
    Program.ofExcept_ok, Program.bind, Program.run_bind, run_put, Program.Final.andThen_ok, if_true,
    run_append, Program.run_pure, true_and]
  exact hput.append (r := .pods) hn.slash trivial hpods hlist hp.item rfl

theorem meets_delPod (h : Represents base s m) {n ns : Text}
    (hc : (StorageCall.delPod n ns).Sound) : Meets base (.delPod n ns) s m := by
  obtain ⟨hn, hns⟩ := hc
  have hname : s.value (singlePodKey n (simpleName ns)) = m.podOf n (simpleName ns) :=
    h.text n (.podOf (simpleName ns)) hn.slash trivial
  have herase := h.erase (r := .podOf (simpleName ns)) (x := []) hn.slash trivial
    (by simp [Record.Good]) rfl
  have hlist := herase.holds_pods hn.slash
  have hsame : (m.set n (.podOf (simpleName ns)) []).pods n = m.pods n := set_of_ne (by simp)
  rw [hsame] at hlist
  have hpods : ∀ x ∈ (m.pods n).filter (· ≠ m.podOf n (simpleName ns)), Store.Item x :=
    fun x hx => h.good n .pods x (List.mem_of_mem_filter hx)
  unfold Meets
  simp only [issued, StorageCall.program, Storage.delPod, getSinglePodKey,
    simpleNetns_of_namespace hns, specified, bind, Except.bind, pure, Except.pure,
    Program.ofExcept_ok, Program.bind, Program.run_bind, run_get, Program.Final.andThen_ok, if_true,
    run_del, run_delValue, Program.run_pure, hname, true_and]
  exact herase.delValue (r := .pods) hn.slash trivial hpods hlist rfl

theorem meets_getPod (h : Represents base s m) {n ns : Text}
    (hc : (StorageCall.getPod n ns).Sound) : Meets base (.getPod n ns) s m := by
  obtain ⟨hn, hns⟩ := hc
  have hname : s.value (singlePodKey n (simpleName ns)) = m.podOf n (simpleName ns) :=
    h.text n (.podOf (simpleName ns)) hn.slash trivial
  unfold Meets
  simp only [issued, StorageCall.program, Storage.getPod, getSinglePodKey,
    simpleNetns_of_namespace hns, specified, bind, Except.bind, pure, Except.pure,
    Program.ofExcept_ok, Program.bind, Program.run_bind, run_get, Program.Final.andThen_ok,
    Program.run_pure, hname, true_and]
  exact h

theorem run_listOrEmpty (k : Text) : (listOrEmpty k).run Etcd.ok s = (.ok (s.values k), s) := by
  simp [listOrEmpty]

theorem meets_getAllPods (h : Represents base s m) {n : Text}
    (hc : (StorageCall.getAllPods n).Sound) : Meets base (.getAllPods n) s m := by
  have hanswer : issued (.getAllPods n) s = (.ok (.texts (m.pods n)), s) := by
    simp [issued, StorageCall.program, Storage.getAllPods, run_listOrEmpty,
      (h.holds_pods hc.slash).values]
  unfold Meets
  rw [hanswer]
  exact ⟨rfl, h⟩

theorem items_concat {items : List Text} {v : Text} (hi : ∀ x ∈ items, Store.Item x)
    (hv : Store.Item v) : ∀ x ∈ items ++ [v], Store.Item x := by
  intro x hx
  rcases List.mem_append.mp hx with hx | hx
  · exact hi x hx
  · exact List.mem_singleton.mp hx ▸ hv

theorem meets_addNic (h : Represents base s m) {n p i : Text}
    (hc : (StorageCall.addNic n p i).Sound) : Meets base (.addNic n p i) s m := by
  obtain ⟨hn, hp, hi⟩ := hc
  have hanswer : issued (.addNic n p i) s = (.ok (.done true), s.append (getNicKey n p) i) := by
    simp [issued, StorageCall.program, Storage.addNic]
  unfold Meets
  rw [hanswer]
  exact ⟨rfl, h.append (r := .nics p) hn.slash hp.slash
    (items_concat (h.good n (.nics p)) hi.item) (h.holds_nics hn.slash hp.slash) hi.item rfl⟩

theorem meets_delNic (h : Represents base s m) {n p i : Text}
    (hc : (StorageCall.delNic n p i).Sound) : Meets base (.delNic n p i) s m := by
  obtain ⟨hn, hp, hi⟩ := hc
  have hanswer : issued (.delNic n p i) s = (.ok (.done true), s.delValue (getNicKey n p) i) := by
    simp [issued, StorageCall.program, Storage.delNic]
  have hkept : ∀ x ∈ (m.nics n p).filter (· ≠ i), Store.Item x :=
    fun x hx => h.good n (.nics p) x (List.mem_of_mem_filter hx)
  unfold Meets
  rw [hanswer]
  exact ⟨rfl, h.delValue (r := .nics p) hn.slash hp.slash hkept
    (h.holds_nics hn.slash hp.slash) rfl⟩

theorem meets_getAllNic (h : Represents base s m) {n p : Text}
    (hc : (StorageCall.getAllNic n p).Sound) : Meets base (.getAllNic n p) s m := by
  obtain ⟨hn, hp⟩ := hc
  have hanswer : issued (.getAllNic n p) s = (.ok (.texts (m.nics n p)), s) := by
    simp [issued, StorageCall.program, Storage.getAllNic, run_listOrEmpty,
      (h.holds_nics hn.slash hp.slash).values]
  unfold Meets
  rw [hanswer]
  exact ⟨rfl, h⟩

theorem meets_addAddr (h : Represents base s m) {n p i : Text} {a : Addr}
    (hc : (StorageCall.addAddr n p i a).Sound) : Meets base (.addAddr n p i a) s m := by
  obtain ⟨hn, hp, hi, ha⟩ := hc
  have hitem : Store.Item (cidr a.addressV4 a.prefixLength) := AddRecords.item_cidr _ _
  have hanswer : issued (.addAddr n p i a) s =
      (.ok (.done true), s.append (getAddrKey n p i) (cidr a.addressV4 a.prefixLength)) := by
    simp [issued, StorageCall.program, Storage.addAddr, getAddrCidr_of_ne ha]
  unfold Meets
  rw [hanswer]
  exact ⟨rfl, h.append (r := .addrs p i) hn.slash ⟨hp.slash, hi.slash⟩
    (items_concat (h.good n (.addrs p i)) hitem) (h.holds_addrs hn.slash hp.slash hi.slash)
    hitem rfl⟩

theorem meets_delAddr (h : Represents base s m) {n p i : Text}
    (hc : (StorageCall.delAddr n p i).Sound) : Meets base (.delAddr n p i) s m := by
  obtain ⟨hn, hp, hi⟩ := hc
  exact ⟨rfl, h.erase (r := .addrs p i) (x := []) hn.slash ⟨hp.slash, hi.slash⟩
    (by simp [Record.Good]) rfl⟩

theorem meets_getAllAddrs (h : Represents base s m) {n p i : Text}
    (hc : (StorageCall.getAllAddrs n p i).Sound) : Meets base (.getAllAddrs n p i) s m := by
  obtain ⟨hn, hp, hi⟩ := hc
  have hanswer : issued (.getAllAddrs n p i) s = (.ok (.texts (m.addrs n p i)), s) := by
    simp [issued, StorageCall.program, Storage.getAllAddrs, run_listOrEmpty,
      (h.holds_addrs hn.slash hp.slash hi.slash).values]
  unfold Meets
  rw [hanswer]
  exact ⟨rfl, h⟩

theorem meets_addRoute (h : Represents base s m) {n p i : Text} {r : Route}
    (hc : (StorageCall.addRoute n p i r).Sound) : Meets base (.addRoute n p i r) s m := by
  obtain ⟨hn, hp, hi, hr⟩ := hc
  have hanswer : issued (.addRoute n p i r) s =
      (.ok (.done true), s.append (getRouteKey n p i) (routeText r)) := by
    simp [issued, StorageCall.program, Storage.addRoute, routeText]
  have hroutes : ∀ x ∈ m.routes n p i ++ [r], Readback x := by
    intro x hx
    rcases List.mem_append.mp hx with hx | hx
    · exact h.good n (.routes p i) x hx
    · exact List.mem_singleton.mp hx ▸ hr
  have htext : (Record.routes p i).textOf (m.routes n p i ++ [r]) =
      join ',' ((m.routes n p i).map routeText ++ [routeText r]) := by simp [Record.textOf]
  unfold Meets
  rw [hanswer]
  exact ⟨rfl, h.append (r := .routes p i) hn.slash ⟨hp.slash, hi.slash⟩ hroutes
    (h.holds_routes hn.slash hp.slash hi.slash) hr.item htext⟩

theorem meets_delRoute (h : Represents base s m) {n p i : Text}
    (hc : (StorageCall.delRoute n p i).Sound) : Meets base (.delRoute n p i) s m := by
  obtain ⟨hn, hp, hi⟩ := hc
  exact ⟨rfl, h.erase (r := .routes p i) (x := []) hn.slash ⟨hp.slash, hi.slash⟩
    (by simp [Record.Good]) rfl⟩

theorem meets_getAllRoutes (h : Represents base s m) {n p i : Text}
    (hc : (StorageCall.getAllRoutes n p i).Sound) : Meets base (.getAllRoutes n p i) s m := by
  obtain ⟨hn, hp, hi⟩ := hc
  have hvalues := (h.holds_routes hn.slash hp.slash hi.slash).values
  have hroutes : ((m.routes n p i).map routeText).mapM parseRoute = .ok (m.routes n p i) :=
    mapM_routeText (h.good n (.routes p i))
  have hanswer : issued (.getAllRoutes n p i) s = (.ok (.routes (m.routes n p i)), s) := by
    simp [issued, StorageCall.program, run_getAllRoutes, hvalues, hroutes]
  unfold Meets
  rw [hanswer]
  exact ⟨rfl, h⟩

theorem meets_addVtep (h : Represents base s m) {n a mac : Text}
    (hc : (StorageCall.addVtep n a mac).Sound) : Meets base (.addVtep n a mac) s m := by
  obtain ⟨hn, ha, hm, hne⟩ := hc
  have hline : '\n' ∉ getVtepValue a mac := by
    simp [getVtepValue, separator, ha.line, hm.line]
  refine ⟨rfl, h.put (r := .vtep) (x := some (a, mac)) hn.slash trivial ?_ hline rfl⟩
  simpa [Record.Good] using ⟨ha, hm, hne⟩

theorem meets_delVtep (h : Represents base s m) {n : Text}
    (hc : (StorageCall.delVtep n).Sound) : Meets base (.delVtep n) s m :=
  ⟨rfl, h.erase (r := .vtep) (x := none) hc.slash trivial (by simp [Record.Good]) rfl⟩

theorem parseVtep_value {a mac : Text} (ha : Field a) (hm : Field mac) (hne : mac ≠ []) :
    parseVtep (getVtepValue a mac) = .ok (a, mac) := by
  have hjoin : getVtepValue a mac = join separator [a, mac] := by simp [getVtepValue, join_cons]
  have hread : Readable separator [a, mac] := by
    constructor
    · intro x hx
      simp only [List.mem_cons, List.not_mem_nil, or_false] at hx
      rcases hx with rfl | rfl
      · exact ha.dash
      · exact hm.dash
    · simpa using hne
  simp [parseVtep, hjoin, split_join _ hread]

theorem meets_getVtep (h : Represents base s m) {n : Text}
    (hc : (StorageCall.getVtep n).Sound) : Meets base (.getVtep n) s m := by
  have hv : s.value (getVtepKey n) = Record.vtep.textOf (m.vtep n) :=
    h.text n .vtep hc.slash trivial
  have hgood : Record.vtep.Good (m.vtep n) := h.good n .vtep
  unfold Meets
  simp only [issued, StorageCall.program, Storage.getVtep, specified]
  cases hm : m.vtep n with
  | none =>
      rw [hm] at hv
      simp only [Record.textOf] at hv
      simp [hv, parseVtep, split, h]
  | some v =>
      obtain ⟨a, mac⟩ := v
      rw [hm] at hv hgood
      obtain ⟨ha, hmac, hne⟩ := hgood (a, mac) rfl
      simp only [Record.textOf] at hv
      simp [hv, parseVtep_value ha hmac hne, h]

/-- Every call that fits answers as specified and leaves the specified record. -/
theorem issued_specified (base : Store) :
    Refines issued answered (fun c _ => c.Sound) (Represents base) := by
  intro c m s hc h
  cases c with
  | addNetns => exact meets_addNetns h hc
  | delNetns => exact meets_delNetns h hc
  | getNetns => exact meets_getNetns h hc
  | addPod => exact meets_addPod h hc
  | delPod => exact meets_delPod h hc
  | getPod => exact meets_getPod h hc
  | getAllPods => exact meets_getAllPods h hc
  | addNic => exact meets_addNic h hc
  | delNic => exact meets_delNic h hc
  | getAllNic => exact meets_getAllNic h hc
  | addAddr => exact meets_addAddr h hc
  | delAddr => exact meets_delAddr h hc
  | getAllAddrs => exact meets_getAllAddrs h hc
  | addRoute => exact meets_addRoute h hc
  | delRoute => exact meets_delRoute h hc
  | getAllRoutes => exact meets_getAllRoutes h hc
  | addVtep => exact meets_addVtep h hc
  | delVtep => exact meets_delVtep h hc
  | getVtep => exact meets_getVtep h hc

end Steps

/-- Every sequence of calls is answered as the record would answer it and
leaves the record that it specifies. A call about one record changes neither
the answer about another nor a key of `Ipam`. -/
theorem network_refined (calls : List StorageCall) (hc : ∀ c ∈ calls, c.Sound) (s : Store)
    (m : Network) (h : Represents s s m) :
    (history issued calls s).1 = (history specified calls m).1.map .ok ∧
      Represents s (history issued calls s).2 (history specified calls m).2 ∧
      (∀ g : StorageCall, g.Sound → (∀ x ∈ g.reads, ∀ c ∈ calls, x ∉ c.changes) →
        (issued g (history issued calls s).2).1 = (issued g s).1) ∧
      ∀ k, IpamKey k → (history issued calls s).2 k = s k := by
  have hrun := (issued_specified s).history calls m s (.of_forall hc m) h
  have hmap : history answered calls m =
      ((history specified calls m).1.map .ok, (history specified calls m).2) :=
    history_map Except.ok specified calls m
  rw [hmap] at hrun
  obtain ⟨hanswers, hend⟩ := hrun
  refine ⟨hanswers, hend, fun g hg hreads => ?_, hend.ipam⟩
  have hsame : ∀ x ∈ g.reads, (history specified calls m).2 x = m x := fun x hx =>
    history_unchanged (fun m : Network => m x)
      (fun c hmem m => specified_of_notMem (hreads x hx c hmem) m) m
  rw [(issued_specified s g _ _ hg hend).1, (issued_specified s g _ _ hg h).1]
  exact congrArg Except.ok (specified_congr hsame)

/-- Two pods with an interface each; the records of the first one are deleted. -/
def twoPods : List StorageCall :=
  let n : Text := ['n']
  let netns : Text := "/var/run/netns/x".toList
  let eth : Text := "eth0".toList
  [.addPod n netns ['c'], .addNetns n ['c'] netns, .addNic n ['c'] eth,
    .addRoute n ['c'] eth ⟨[], "10.244.1.1".toList, eth⟩, .addPod n ['y'] ['d'],
      .addNic n ['d'] eth,
    .addVtep n "10.244.1.0".toList "02:00:00:00:00:01".toList, .getPod n ['x'],
    .getAllRoutes n ['c'] eth, .delPod n netns, .delNic n ['c'] eth, .getAllPods n,
    .getAllNic n ['c'], .getAllNic n ['d'], .getVtep n]

theorem network_refined_two_pods :
    ((history issued twoPods fun _ => none).1.drop 7) =
      [.ok (.text ['c']), .ok (.routes [⟨[], "10.244.1.1".toList, "eth0".toList⟩]),
        .ok (.done true), .ok (.done true), .ok (.texts [['d']]), .ok (.texts []),
        .ok (.texts ["eth0".toList]),
        .ok (.vtep "10.244.1.0".toList "02:00:00:00:00:01".toList)] := by
  rw [(network_refined twoPods (by decide +kernel) (fun _ => none) .empty
    (represents_empty _ fun _ _ => rfl)).1]
  decide +kernel

/-- A route without a device and a VTEP without a MAC cannot be read back, the
directory of the namespaces has no name, and an IPv6 address has no text. -/
theorem not_all_read :
    let n : Text := ['n']
    let r : Route := ⟨[], "10.244.1.1".toList, []⟩
    let routes : List StorageCall := [.addRoute n ['c'] ['e'] r, .getAllRoutes n ['c'] ['e']]
    let vteps : List StorageCall := [.addVtep n "10.244.1.0".toList [], .getVtep n]
    let pods : List StorageCall := [.addPod n "/var/run/netns".toList ['c'], .getAllPods n]
    let addrs : List StorageCall :=
      [.addAddr n ['c'] ['e'] { ipVersion := .ipv6 }, .getAllAddrs n ['c'] ['e']]
    (history issued routes fun _ => none).1 = [.ok (.done true), .error .segfault] ∧
      (history specified routes .empty).1 = [.done true, .routes [r]] ∧
      (history issued vteps fun _ => none).1 = [.ok (.done true), .error .segfault] ∧
      (history specified vteps .empty).1 = [.done true, .vtep "10.244.1.0".toList []] ∧
      (history issued pods fun _ => none).1 = [.error .standard, .ok (.texts [])] ∧
      (history specified pods .empty).1 = [.done true, .texts [['c']]] ∧
      (history issued addrs fun _ => none).1 =
        [.error (.exception "IPv6 not supported yet"), .ok (.texts [])] ∧
      ∃ t, (history specified addrs .empty).1 = [.done true, .texts [t]] := by
  refine ⟨?_, ?_, ?_, ?_, ?_, ?_, ?_, _, rfl⟩
  all_goals decide +kernel

end Ohno.NetworkRecords
