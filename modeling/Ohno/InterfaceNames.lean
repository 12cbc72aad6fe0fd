import Ohno.NodeLifecycle

/-!
# Containers that are called under several interface names

The plugin looks an interface up by the name that the runtime passes, so a
container that is added again under another name gets a second interface, and a
DEL under another name leaves the first one behind. As long as every call of a
registered container names its recorded interface a container has one interface
and one address, and DEL leaves none of its keys.
-/
namespace Ohno.InterfaceNames
open CommandPrograms DelimitedLists AddressText EtcdClientShell Subnets FirstFit Ipam Netlink Nics
open Storage CniPlugin Records Conducts RecordPrograms RestoredNode DelRecords AddRecords NodeStates
open NodeState NodeTransitions NodeHistories NodeLifecycle

variable {cni : Cni} {net : NetworkV4} {law : Lawful cni net} {others : List Text}
variable {ho : ∀ x ∈ others, Store.Item x} {st : NodeState}

/-- A call of a listed container names an interface that is recorded for it. -/
def RecordedName (node : Text) (_ : List Event) (s : Store) (call : Call) : Prop :=
  call.container.id ∈ ask (getAllPods node) s →
    call.container.nic ∈ ask (getAllNic node call.container.id) s

/-- A container has at most one interface and at most one of the addresses of
`Ipam`, and is listed at most once. -/
structure OneInterface (node : Text) (s : Store) : Prop where
  nics : ∀ p, '/' ∉ p → p ≠ host → (ask (getAllNic node p) s).length ≤ 1
  addrs : ∀ p, '/' ∉ p → p ≠ host →
    ((ask (getAllNic node p) s).flatMap fun i => ask (getAllAddrs node p i) s).length ≤ 1
  ipam : (s.values (addressKey node)).Perm (recordedAddrs node s)
  pods : (ask (getAllPods node) s).Nodup

/-- No key of the container is left. -/
structure NoKeys (node : Text) (s : Store) (c : Text) : Prop where
  directory : ∀ rest,
    s (etcdKeyPrefixNode ++ '/' :: (node ++ '/' :: (partPod ++ '/' :: (c ++ '/' :: rest)))) = none
  listed : c ∉ ask (getAllPods node) s
  podOf : ∀ path, ((getPod node path).run Etcd.ok s).1 ≠ .ok c

/-! ### One interface -/

/-- The interfaces of a container with their addresses. -/
theorem list_nics_site {s : Site} (law : Lawful cni net) (valid : s.Valid cni net) {p : Text}
    (hp : p ≠ host) :
    (s.registry law).list (.nics p) = [] ∨ ∃ q : Pod, (s.registry law).list (.nics p) = [q.nic] ∧
      (s.registry law).list (.addrs p q.nic) = ips net [q] := by
  obtain ⟨others, ho, node⟩ := s
  cases node with
  | none => exact .inl rfl
  | some st =>
      simp only [Site.registry]
      by_cases hmem : ∃ q ∈ st.pods, q.id = p
      · obtain ⟨q, hq, rfl⟩ := hmem
        have hvalid := valid st rfl
        exact .inr ⟨q, by simp [records, hp, ofId_of_mem hvalid hq],
          by simp [records, hp, ofNic_of_mem hvalid hq]⟩
      · left
        have hnil : st.ofId p = [] := by
          rw [ofId, List.filter_eq_nil_iff]
          intro q hq
          simpa using fun he => hmem ⟨q, hq, he⟩
        simp [records, hp, hnil]

theorem oneInterface_site {s : Site} (law : Lawful cni net) (valid : s.Valid cni net) (s₀ : Store) :
    OneInterface cni.node ((s.registry law).store cni.node s₀) := by
  have hload := s.loadable law
  constructor
  · intro p hs hp
    rw [ask_getAllNic hs]
    rcases list_nics_site law valid hp with h | ⟨q, h, -⟩ <;> simp [h]
  · intro p hs hp
    rw [ask_getAllNic hs]
    rcases list_nics_site law valid hp with h | ⟨q, h, haddrs⟩
    · simp [h]
    · rw [h, List.flatMap_singleton, ask_getAllAddrs hs q.name_nic.slash, haddrs]
      cases hip : q.ip <;> simp [ips, hip]
  · exact (site_addresses law valid s₀).2
  · exact (site_registry law valid s₀).nodup

/-! ### No keys -/

/-- Records that do not name a container. -/
structure Unlisted (R : Registry) (c : Text) : Prop where
  pods : c ∉ R.list .pods
  nics : R.list (.nics c) = []
  addrs : ∀ i, R.list (.addrs c i) = []
  routes : ∀ i, R.list (.routes c i) = []
  netns : R.value (.netns c) = none
  podOf : ∀ n, R.value (.podOf n) ≠ some c

theorem unlisted_records (law : Lawful cni net) (ho : ∀ x ∈ others, Store.Item x) {c : Text}
    (hch : c ≠ host) (hc : ∀ q ∈ st.pods, q.id ≠ c) : Unlisted (records law others ho st) c := by
  have hpods : c ∉ (records law others ho st).list .pods := by
    rw [mem_pods_iff hch]
    intro ⟨q, hq, he⟩
    exact hc q hq he
  have hid : st.ofId c = [] := by
    rw [ofId, List.filter_eq_nil_iff]
    intro q hq
    simpa using hc q hq
  have hnic : ∀ i, st.ofNic c i = [] := by
    intro i
    rw [ofNic, List.filter_eq_nil_iff]
    intro q hq
    simpa using fun he => absurd he (hc q hq)
  constructor
  · exact hpods
  · simp [records, hch, hid]
  · simp [records, hch, hnic, ips]
  · simp [records, hch, hnic, ips]
  · simp [records, hch, hid]
  · intro n hn
    exact hpods (mem_pods_of_podOf hn)

theorem unlisted_site {s : Site} (law : Lawful cni net) {c : Container}
    (hc : ∀ q ∈ s.pods, q.id ≠ c.id) : Unlisted (s.registry law) c.id := by
  obtain ⟨others, ho, node⟩ := s
  cases node with
  | none =>
      constructor <;> simp [Site.registry, fresh]
  | some st => exact unlisted_records law ho c.id_ne hc

theorem noKeys_of_unlisted {node : Text} {s₀ : Store} (unrecorded : Unrecorded node s₀)
    {R : Registry}
    {c : Text} (hs : '/' ∉ c) (hne : c ≠ []) (h : Unlisted R c) :
    NoKeys node (R.store node s₀) c where
  directory := by
    intro rest
    by_cases hkey : ∃ k, Sound k ∧ keyText node k =
        etcdKeyPrefixNode ++ '/' :: (node ++ '/' :: (partPod ++ '/' :: (c ++ '/' :: rest)))
    · obtain ⟨k, hk, he⟩ := hkey
      rw [← he, Registry.store_at hk]
      rcases key_of_pod hk hs he with rfl | ⟨i, rfl⟩ | ⟨i, rfl⟩ | rfl
      · simp [Registry.shown, encode, h.nics]
      · simp [Registry.shown, encode, h.addrs]
      · simp [Registry.shown, encode, h.routes]
      · simp [Registry.shown, h.netns]
    · rw [Registry.store_off fun k hk he => hkey ⟨k, hk, he⟩]
      exact unrecorded.storage _
  listed := by
    rw [ask_getAllPods]
    exact h.pods
  podOf := by
    intro path hp
    obtain ⟨n, hn⟩ := podOf_of_getPod hp hne
    exact h.podOf n hn

/-- After a DEL its container is not registered. -/
theorem not_registered_of_dels {c : Container} {s t : Site} (h : Dels cni net c s t) :
    ∀ q ∈ t.pods, q.id ≠ c.id := by
  cases h with
  | unknown s id => exact id
  | one others ho st q mem other =>
      intro p hp
      exact of_decide_eq_true (List.mem_filter.mp hp).2
  | last s all => simp [Site.pods, Site.tornDown]

/-! ### Histories -/

theorem keeps_of_recordedName {s : Site} (law : Lawful cni net)
    (valid : s.Valid cni net) {s₀ : Store}
    {log : List Event} {call : Call}
    (h : RecordedName cni.node log ((s.registry law).store cni.node s₀) call) :
    s.Keeps call.container := by
  intro q hq hid
  obtain ⟨others, ho, node⟩ := s
  cases node with
  | none => cases hq
  | some st =>
      rw [RecordedName, ask_getAllPods, ask_getAllNic call.container.name_id.slash] at h
      have hlisted : call.container.id ∈ (records law others ho st).list .pods :=
        (mem_pods_iff call.container.id_ne).mpr ⟨q, hq, hid⟩
      have hmem := h hlisted
      have hnics : (records law others ho st).list (.nics call.container.id) = [q.nic] := by
        simp [records, ← hid, q.id_ne, ofId_of_mem (valid st rfl) hq]
      simp only [Site.registry, hnics, List.mem_singleton] at hmem
      exact hmem.symm

/-- After two ADDs of the same interface. -/
def repeated : Store := (addA.finish cniA (addA.finish cniA noRecords).2).2

/-- The same container under another interface name. -/
def containerB : Container := { containerA with
  nic := "eth1".toList
  name_nic := name_of_check (by decide +kernel) }

def addB : Call := ⟨.add, containerB, macA, ['u']⟩

end Ohno.InterfaceNames
