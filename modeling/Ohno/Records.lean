import Ohno.Ipam
import Ohno.Storage

/-!
# The records of one node

`Ipam` and `Storage` keep the state of a node under keys of two kinds: some hold
a list, the others one text. A `Registry` is what they hold, without the texts
of the keys and without the joined lists. `Registry.store` writes a registry
over a map that has everybody else's keys, and each operation of the client on
that map is one operation on the registry.

The text of a key determines the key as long as no name in it has a slash. The
name of a namespace may have one.
-/
namespace Ohno.Records
open CommandPrograms DelimitedLists AddressText EtcdClientShell Ipam Storage

/-- The records that hold a list. `subnets` is shared by all nodes. -/
inductive ListKey where
  | subnets
  | addresses
  | pods
  | nics (pod : Text)
  | addrs (pod nic : Text)
  | routes (pod nic : Text)
deriving Repr, DecidableEq

/-- The records that hold one text. -/
inductive ValueKey where
  | subnet
  | vtep
  | netns (pod : Text)
  | podOf (simple : Text)
deriving Repr, DecidableEq

abbrev RecordKey := ListKey ⊕ ValueKey

section Keys
variable (node : Text)

def ListKey.text : ListKey → Text
  | .subnets => etcdKeySubnet
  | .addresses => addressKey node
  | .pods => getAllPodsKey node
  | .nics pod => getNicKey node pod
  | .addrs pod nic => getAddrKey node pod nic
  | .routes pod nic => getRouteKey node pod nic

def ValueKey.text : ValueKey → Text
  | .subnet => subnetKey node
  | .vtep => getVtepKey node
  | .netns pod => getNetnsKey node pod
  | .podOf simple => singlePodKey node simple

def keyText : RecordKey → Text := Sum.elim (ListKey.text node) (ValueKey.text node)

end Keys

/-- No name in the key has a slash. -/
@[simp] def ListKey.Sound : ListKey → Prop
  | .nics pod => '/' ∉ pod
  | .addrs pod nic => '/' ∉ pod ∧ '/' ∉ nic
  | .routes pod nic => '/' ∉ pod ∧ '/' ∉ nic
  | _ => True

@[simp] def ValueKey.Sound : ValueKey → Prop
  | .netns pod => '/' ∉ pod
  | _ => True

def Sound : RecordKey → Prop := Sum.elim ListKey.Sound ValueKey.Sound

/-! ### Keys are determined by their texts -/

theorem parts_free : '/' ∉ partPod ∧ '/' ∉ partNetns ∧ '/' ∉ partNic ∧ '/' ∉ partAddr ∧
    '/' ∉ partRoute ∧ '/' ∉ partVtep := by decide +kernel

theorem parts_ne : partNetns ≠ partNic ∧ partAddr ≠ partRoute ∧ partPod ≠ partNetns ∧
    partPod ≠ partVtep ∧ partNetns ≠ partVtep := by decide +kernel

theorem parts_ne_nil : partPod ≠ [] ∧ partNetns ≠ [] ∧ partNic ≠ [] ∧ partAddr ≠ [] ∧
    partRoute ≠ [] ∧ partVtep ≠ [] := by decide +kernel

theorem prefix_take : etcdKeyPrefixNode.take 7 ≠ etcdKeySubnet.take 7 ∧
    etcdKeyPrefixNode.take 7 ≠ etcdKeyAddress.take 7 ∧ 7 ≤ etcdKeyPrefixNode.length := by
  decide +kernel

/-- The parts behind the node, for the keys that have the node in front. -/
def parts : RecordKey → Option (List Text)
  | .inl .pods => some [partPod]
  | .inl (.nics pod) => some [partPod, pod, partNic]
  | .inl (.addrs pod nic) => some [partPod, pod, partNic, nic, partAddr]
  | .inl (.routes pod nic) => some [partPod, pod, partNic, nic, partRoute]
  | .inr .vtep => some [partVtep]
  | .inr (.netns pod) => some [partPod, pod, partNetns]
  | .inr (.podOf simple) => some [partNetns, simple, partPod]
  | _ => none

theorem keyText_parts (node : Text) {k : RecordKey} {ps : List Text} (h : parts k = some ps) :
    keyText node k = nodeKey node ps := by
  unfold parts at h
  split at h <;> cases h <;> rfl

theorem parts_injective {k k' : RecordKey} {ps : List Text} (h : parts k = some ps)
    (h' : parts k' = some ps) : k = k' := by
  obtain ⟨h₁, h₂, h₃, h₄, h₅⟩ := parts_ne
  unfold parts at h
  unfold parts at h'
  split at h <;> split at h' <;> cases h <;> simp_all

/-- The keys without the node in front. -/
theorem parts_none {k : RecordKey} (h : parts k = none) :
    k = .inl .subnets ∨ k = .inl .addresses ∨ k = .inr .subnet := by
  unfold parts at h
  split at h <;> simp_all
  rename_i h₁ h₂ h₃ h₄ h₅ h₆ h₇
  rcases k with k | k <;> cases k <;> simp_all

theorem nodeKey_injective {node : Text} {ps qs : List Text}
    (h : nodeKey node ps = nodeKey node qs) :
    join '/' ps = join '/' qs := by
  simpa [nodeKey] using h

theorem nodeKey_take (node : Text) (ps : List Text) :
    (nodeKey node ps).take 7 = etcdKeyPrefixNode.take 7 := by
  rw [nodeKey, List.take_append_of_le_length prefix_take.2.2]

theorem keyText_take {node : Text} {k : RecordKey} (h : parts k = none) :
    (keyText node k).take 7 ≠ etcdKeyPrefixNode.take 7 := by
  have hs : ∀ x, (etcdKeySubnet ++ x).take 7 ≠ etcdKeyPrefixNode.take 7 := fun x => by
    rw [List.take_append_of_le_length etcdKey_take.2.1]
    exact prefix_take.1.symm
  rcases parts_none h with rfl | rfl | rfl
  · have h := hs []
    rwa [List.append_nil] at h
  · simp only [keyText, Sum.elim_inl, ListKey.text, addressKey]
    rw [List.take_append_of_le_length etcdKey_take.2.2]
    exact prefix_take.2.1.symm
  · exact hs _

/-- A part without a slash can be read off in front of a slash. -/
theorem cut_injective {x y r r' : Text} (hx : '/' ∉ x) (hy : '/' ∉ y)
    (h : x ++ '/' :: r = y ++ '/' :: r') : x = y := by
  have htake : ∀ {z q : Text}, '/' ∉ z → (z ++ '/' :: q).takeWhile (· ≠ '/') = z := by
    intro z q hz
    rw [List.takeWhile_append_of_pos]
    · simp
    · intro c hc
      simpa using fun he : c = '/' => hz (he ▸ hc)
  have := congrArg (List.takeWhile (· ≠ '/')) h
  rwa [htake hx, htake hy] at this

/-- Every part but that of a namespace has no slash. -/
theorem readable_parts {k : RecordKey} {ps : List Text} (hk : Sound k) (h : parts k = some ps)
    (hn : ∀ simple, k ≠ .inr (.podOf simple)) : Readable '/' ps := by
  obtain ⟨f₁, f₂, f₃, f₄, f₅, f₆⟩ := parts_free
  obtain ⟨n₁, n₂, n₃, n₄, n₅, n₆⟩ := parts_ne_nil
  unfold parts at h
  split at h <;> cases h <;> simp_all [Sound] <;> constructor <;> simp_all

/-- A namespace is recorded in a subtree of its own. -/
theorem podOf_ne {node simple : Text} {k : RecordKey} {ps : List Text} (h : parts k = some ps)
    (hn : ∀ simple, k ≠ .inr (.podOf simple)) :
    singlePodKey node simple ≠ nodeKey node ps := by
  obtain ⟨f₁, f₂, f₃, f₄, f₅, f₆⟩ := parts_free
  obtain ⟨h₁, h₂, h₃, h₄, h₅⟩ := parts_ne
  intro he
  have hj := nodeKey_injective he
  rw [join_cons _ _ (by simp)] at hj
  have hslash : '/' ∈ join '/' ps := by
    rw [← hj]
    simp
  have hcut : ∀ rest, join '/' ps ≠ partPod ++ '/' :: rest :=
    fun rest hr => h₃ (cut_injective f₂ f₁ (hj.trans hr)).symm
  unfold parts at h
  split at h <;> cases h
  · simp [f₁] at hslash
  · exact hcut _ (join_cons _ _ (by simp))
  · exact hcut _ (join_cons _ _ (by simp))
  · exact hcut _ (join_cons _ _ (by simp))
  · simp [f₆] at hslash
  · exact hcut _ (join_cons _ _ (by simp))
  · exact hn _ rfl

theorem keyText_injective {node : Text} {k k' : RecordKey} (hk : Sound k) (hk' : Sound k')
    (h : keyText node k = keyText node k') : k = k' := by
  cases hp : parts k with
  | none =>
      cases hp' : parts k' with
      | none =>
          have h₁ : etcdKeySubnet ≠ addressKey node := etcdKeySubnet_ne_addressKey node
          have h₂ : subnetKey node ≠ addressKey node := subnetKey_ne_addressKey node node
          have h₃ : etcdKeySubnet ≠ subnetKey node := by simp [subnetKey]
          rcases parts_none hp with rfl | rfl | rfl <;> rcases parts_none hp' with rfl | rfl | rfl
          · rfl
          · exact absurd h h₁
          · exact absurd h h₃
          · exact absurd h.symm h₁
          · rfl
          · exact absurd h.symm h₂
          · exact absurd h.symm h₃
          · exact absurd h h₂
          · rfl
      | some qs =>
          rw [keyText_parts node hp'] at h
          exact absurd (h ▸ nodeKey_take node qs) (keyText_take hp)
  | some ps =>
      cases hp' : parts k' with
      | none =>
          rw [keyText_parts node hp] at h
          exact absurd (h ▸ nodeKey_take node ps) (keyText_take hp')
      | some qs =>
          rw [keyText_parts node hp, keyText_parts node hp'] at h
          by_cases hn : ∃ simple, k = .inr (.podOf simple)
          · obtain ⟨simple, rfl⟩ := hn
            cases hp
            by_cases hn' : ∃ simple, k' = .inr (.podOf simple)
            · obtain ⟨simple', rfl⟩ := hn'
              cases hp'
              have hj := nodeKey_injective h
              simpa [join_cons] using hj
            · exact absurd h (podOf_ne hp' fun s hs => hn' ⟨s, hs⟩)
          · by_cases hn' : ∃ simple, k' = .inr (.podOf simple)
            · obtain ⟨simple', rfl⟩ := hn'
              cases hp'
              exact absurd h.symm (podOf_ne hp fun s hs => hn ⟨s, hs⟩)
            · have hr := readable_parts hk hp fun s hs => hn ⟨s, hs⟩
              have hr' := readable_parts hk' hp' fun s hs => hn' ⟨s, hs⟩
              have hs := congrArg (split '/') (nodeKey_injective h)
              rw [split_join '/' hr, split_join '/' hr'] at hs
              subst hs
              exact parts_injective hp hp'

/-- The keys in the directory of a pod. -/
theorem key_of_pod {node pod rest : Text} {k : RecordKey} (hk : Sound k) (hp : '/' ∉ pod)
    (h : keyText node k =
      etcdKeyPrefixNode ++ '/' :: (node ++ '/' :: (partPod ++ '/' :: (pod ++ '/' :: rest)))) :
    k = .inl (.nics pod) ∨ (∃ nic, k = .inl (.addrs pod nic)) ∨
      (∃ nic, k = .inl (.routes pod nic)) ∨
      k = .inr (.netns pod) := by
  obtain ⟨f₁, f₂, f₃, f₄, f₅, f₆⟩ := parts_free
  obtain ⟨h₁, h₂, h₃, h₄, h₅⟩ := parts_ne
  cases hps : parts k with
  | none =>
      have htake : (keyText node k).take 7 ≠ etcdKeyPrefixNode.take 7 := keyText_take hps
      rw [h, List.take_append_of_le_length prefix_take.2.2] at htake
      exact absurd rfl htake
  | some ps =>
      rw [keyText_parts node hps] at h
      have hj : join '/' ps = partPod ++ '/' :: (pod ++ '/' :: rest) := by simpa [nodeKey] using h
      have hcut : ∀ q r, '/' ∉ q → partPod ++ '/' :: (q ++ '/' :: r) =
          partPod ++ '/' :: (pod ++ '/' :: rest) → q = pod := by
        intro q r hq he
        have hrest : q ++ '/' :: r = pod ++ '/' :: rest := by simpa using he
        exact cut_injective hq hp hrest
      have hslash : '/' ∈ join '/' ps := by simp [hj]
      unfold parts at hps
      split at hps <;> cases hps
      · simp [f₁] at hslash
      · rw [join_cons _ _ (by simp), join_cons _ _ (by simp)] at hj
        exact .inl (by rw [hcut _ _ hk hj])
      · rw [join_cons _ _ (by simp), join_cons _ _ (by simp)] at hj
        exact .inr (.inl ⟨_, by rw [hcut _ _ hk.1 hj]⟩)
      · rw [join_cons _ _ (by simp), join_cons _ _ (by simp)] at hj
        exact .inr (.inr (.inl ⟨_, by rw [hcut _ _ hk.1 hj]⟩))
      · simp [f₆] at hslash
      · rw [join_cons _ _ (by simp), join_cons _ _ (by simp)] at hj
        exact .inr (.inr (.inr (by rw [hcut _ _ hk hj])))
      · rw [join_cons _ _ (by simp)] at hj
        exact absurd (cut_injective f₂ f₁ hj) h₃.symm

/-! ### Registries -/

/-- How a list is stored. An empty one has no key. -/
def encode (items : List Text) : Option Text := if items = [] then none else some (join ',' items)

theorem encode_injective {items : List Text} (h : ∀ x ∈ items, Store.Item x) {s : Store} {k : Text}
    (hs : s k = encode items) : s.Holds k items := by
  refine ⟨?_, h⟩
  unfold encode at hs
  split_ifs at hs with hn
  · simp [Store.value, Store.shown, hs, hn]
  · simp only [Store.value, Store.shown, hs, Option.getD_some]
    exact eraseNewlines_eq_self (Store.newline_notMem_join h)

/-- What the records of a node hold: lists that can be read back, and texts in
one line. -/
@[ext] structure Registry where
  list : ListKey → List Text
  value : ValueKey → Option Text
  item : ∀ k, ∀ x ∈ list k, Store.Item x
  line : ∀ k v, value k = some v → '\n' ∉ v

namespace Registry
variable (R : Registry)

/-- The text under the key of a record. -/
def shown : RecordKey → Option Text := Sum.elim (fun k => encode (R.list k)) R.value

/-- One more item at the end of a list. -/
def push (k : ListKey) (v : Text) (hv : Store.Item v) : Registry where
  list k' := if k' = k then R.list k ++ [v] else R.list k'
  value := R.value
  item k' x hx := by
    split_ifs at hx with h
    · rcases List.mem_append.mp hx with hx | hx
      · exact R.item k x hx
      · exact List.mem_singleton.mp hx ▸ hv
    · exact R.item k' x hx
  line := R.line

/-- A list without all copies of an item. -/
def prune (k : ListKey) (v : Text) : Registry where
  list k' := if k' = k then (R.list k).filter (· ≠ v) else R.list k'
  value := R.value
  item k' x hx := by
    split_ifs at hx with h
    · exact R.item k x (List.mem_of_mem_filter hx)
    · exact R.item k' x hx
  line := R.line

def clearList (k : ListKey) : Registry where
  list k' := if k' = k then [] else R.list k'
  value := R.value
  item k' x hx := by
    split_ifs at hx with h
    · cases hx
    · exact R.item k' x hx
  line := R.line

def assign (k : ValueKey) (v : Text) (hv : '\n' ∉ v) : Registry where
  list := R.list
  value k' := if k' = k then some v else R.value k'
  item := R.item
  line k' x hx := by
    split_ifs at hx with h
    · exact Option.some.inj hx ▸ hv
    · exact R.line k' x hx

def clear (k : ValueKey) : Registry where
  list := R.list
  value k' := if k' = k then none else R.value k'
  item := R.item
  line k' x hx := by
    split_ifs at hx with h
    exact R.line k' x hx

section Fields
variable {R} {k k' : ListKey} {j j' : ValueKey} {v : Text} {hv : Store.Item v} {hl : '\n' ∉ v}

@[simp] theorem push_list :
    (R.push k v hv).list k' = if k' = k then R.list k ++ [v] else R.list k' := rfl
@[simp] theorem push_value : (R.push k v hv).value = R.value := rfl
@[simp] theorem prune_list :
    (R.prune k v).list k' = if k' = k then (R.list k).filter (· ≠ v) else R.list k' := rfl
@[simp] theorem prune_value : (R.prune k v).value = R.value := rfl
@[simp] theorem clearList_list :
    (R.clearList k).list k' = if k' = k then [] else R.list k' := rfl
@[simp] theorem clearList_value : (R.clearList k).value = R.value := rfl
@[simp] theorem assign_list : (R.assign j v hl).list = R.list := rfl
@[simp] theorem assign_value :
    (R.assign j v hl).value j' = if j' = j then some v else R.value j' := rfl
@[simp] theorem clear_list : (R.clear j).list = R.list := rfl
@[simp] theorem clear_value : (R.clear j).value j' = if j' = j then none else R.value j' := rfl

end Fields

/-! ### The map that a registry is -/

variable (node : Text) (base : Store)

open Classical in
/-- The records of the node, and what `base` has under all other keys. -/
noncomputable def store : Store := fun key =>
  if h : ∃ k, Sound k ∧ keyText node k = key then R.shown h.choose else base key

section Store
variable {R node base} {R' : Registry} {k : RecordKey} {l : ListKey} {j : ValueKey} {v : Text}

theorem store_at (hk : Sound k) : R.store node base (keyText node k) = R.shown k := by
  have h : ∃ k', Sound k' ∧ keyText node k' = keyText node k := ⟨k, hk, rfl⟩
  rw [store, dif_pos h, keyText_injective h.choose_spec.1 hk h.choose_spec.2]

theorem store_off {key : Text} (h : ∀ k, Sound k → keyText node k ≠ key) :
    R.store node base key = base key := by
  rw [store, dif_neg]
  intro ⟨k, hk, hkey⟩
  exact h k hk hkey

/-- A map with the records of a registry is that registry over itself. -/
theorem eq_store {s : Store} (h : ∀ k, Sound k → s (keyText node k) = R.shown k) :
    s = R.store node s := by
  funext key
  by_cases hkey : ∃ k, Sound k ∧ keyText node k = key
  · obtain ⟨k, hk, rfl⟩ := hkey
    rw [store_at hk, h k hk]
  · rw [store_off fun k hk he => hkey ⟨k, hk, he⟩]

theorem update_store (hk : Sound k) {t : Option Text} (same : R'.shown k = t)
    (other : ∀ k', k' ≠ k → R'.shown k' = R.shown k') :
    Function.update (R.store node base) (keyText node k) t = R'.store node base := by
  funext key
  by_cases hkey : ∃ k', Sound k' ∧ keyText node k' = key
  · obtain ⟨k', hk', rfl⟩ := hkey
    by_cases he : k' = k
    · subst he
      rw [Function.update_self, store_at hk, same]
    · have hne : keyText node k' ≠ keyText node k := fun ht => he (keyText_injective hk' hk ht)
      rw [Function.update_of_ne hne, store_at hk', store_at hk', other k' he]
  · have hne : key ≠ keyText node k := fun ht => hkey ⟨k, hk, ht.symm⟩
    rw [Function.update_of_ne hne, store_off fun k' hk' ht => hkey ⟨k', hk', ht⟩,
      store_off fun k' hk' ht => hkey ⟨k', hk', ht⟩]

theorem shown_other {R R' : Registry} (k : RecordKey) (hl : ∀ l, .inl l ≠ k → R'.list l = R.list l)
    (hj : ∀ j, .inr j ≠ k → R'.value j = R.value j) (k' : RecordKey) (h : k' ≠ k) :
    R'.shown k' = R.shown k' := by
  rcases k' with l | j
  · simp only [shown, Sum.elim_inl, hl l h]
  · simp only [shown, Sum.elim_inr, hj j h]

theorem write_store (hl : l.Sound) {items : List Text} (same : R'.list l = items)
    (other : ∀ l', l' ≠ l → R'.list l' = R.list l') (values : R'.value = R.value) :
    (R.store node base).write (l.text node) items = R'.store node base := by
  have h : R'.shown (.inl l) = encode items := by simp [shown, same]
  have ho : ∀ k', k' ≠ .inl l → R'.shown k' = R.shown k' := by
    apply shown_other
    · intro l' hl'
      exact other l' fun he => hl' (he ▸ rfl)
    · intro j _
      rw [values]
  unfold Store.write
  unfold encode at h
  split_ifs with hn
  · rw [if_pos hn] at h
    exact update_store (k := .inl l) hl h ho
  · rw [if_neg hn] at h
    exact update_store (k := .inl l) hl h ho

variable (R node base)

theorem holds_list (hl : l.Sound) : (R.store node base).Holds (l.text node) (R.list l) :=
  encode_injective (R.item l) (store_at (k := .inl l) hl)

theorem values_store (hl : l.Sound) :
    (R.store node base).values (l.text node) = R.list l := (holds_list R node base hl).values

theorem value_store (hj : j.Sound) :
    (R.store node base).value (j.text node) = (R.value j).getD [] := by
  have h : R.store node base (j.text node) = R.value j := store_at (k := .inr j) hj
  simp only [Store.value, Store.shown, h]
  cases hv : R.value j with
  | none => rfl
  | some v => exact eraseNewlines_eq_self (R.line j v hv)

theorem set_store (hj : j.Sound) (hv : '\n' ∉ v) :
    (R.store node base).set (j.text node) v = (R.assign j v hv).store node base := by
  apply update_store (k := .inr j) hj
  · simp [shown]
  · apply shown_other
    · intro l _
      rfl
    · intro j' hj'
      simp_all

theorem erase_store (hj : j.Sound) :
    (R.store node base).erase (j.text node) = (R.clear j).store node base := by
  apply update_store (k := .inr j) hj
  · simp [shown]
  · apply shown_other
    · intro l _
      rfl
    · intro j' hj'
      simp_all

theorem append_store (hl : l.Sound) (hv : Store.Item v) :
    (R.store node base).append (l.text node) v = (R.push l v hv).store node base := by
  rw [(holds_list R node base hl).append_eq]
  apply write_store hl
  · simp
  · intro l' hne
    simp [hne]
  · rfl

theorem delValue_store (hl : l.Sound) :
    (R.store node base).delValue (l.text node) v = (R.prune l v).store node base := by
  rw [(holds_list R node base hl).delValue_eq]
  apply write_store hl
  · simp
  · intro l' hne
    simp [hne]
  · rfl

theorem erase_list_store (hl : l.Sound) :
    (R.store node base).erase (l.text node) = (R.clearList l).store node base := by
  have h : (R.store node base).write (l.text node) [] = (R.clearList l).store node base :=
    write_store hl (by simp) (fun l' hne => by simp [hne]) rfl
  simpa [Store.write] using h

end Store
end Registry
end Ohno.Records
