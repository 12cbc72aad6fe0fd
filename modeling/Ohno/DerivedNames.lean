import Ohno.CniPlugin

/-!
# Names derived from texts

A namespace path is cut down to the name that keys the namespace's pod, and a
container id to the end of an interface name. The first looks for the
directory anywhere in the path and removes it from the front; the second keeps
ids of up to fifteen characters, before which the prefix still comes.
-/
namespace Ohno.DerivedNames
open DelimitedLists AddressText Nics Storage CniPlugin

/-! ### Namespaces -/

/-- The path of a namespace, as the container runtime passes it. -/
def inDirectory (n : Text) : Text := pathNamespace ++ '/' :: n

/-- The name is what follows the directory, and every other text is left as it is. -/
def Simplified (p : Text) : Prop :=
  (∀ n, p = inDirectory n → simpleNetns p = .ok n) ∧
  ((∀ n, p ≠ inDirectory n) → simpleNetns p = .ok p)

/-- Two texts with one key are equal, or one names the other's namespace. -/
def KeyApart (node p q : Text) : Prop :=
  ∀ key, getSinglePodKey node p = .ok key → getSinglePodKey node q = .ok key →
    p = q ∨ p = inDirectory q ∨ q = inDirectory p

/-- The directory does not occur, or it is in front and a name follows it. -/
def Directed (p : Text) : Prop := pathNamespace <:+: p → ∃ n, p = inDirectory n

theorem any_tails_iff (p : Text) :
    p.tails.any (pathNamespace.isPrefixOf ·) = true ↔ pathNamespace <:+: p := by
  rw [List.any_eq_true, List.infix_iff_prefix_suffix]
  constructor
  · intro h
    obtain ⟨t, ht, hp⟩ := h
    exact ⟨t, List.isPrefixOf_iff_prefix.mp hp, (List.mem_tails _ _).mp ht⟩
  · intro h
    obtain ⟨t, hp, ht⟩ := h
    exact ⟨t, (List.mem_tails _ _).mpr ht, List.isPrefixOf_iff_prefix.mpr hp⟩

theorem simpleNetns_eq_self {p : Text} (h : ¬ pathNamespace <:+: p) : simpleNetns p = .ok p := by
  rw [simpleNetns, if_neg (mt (any_tails_iff p).mp h)]

theorem infix_inDirectory (n : Text) : pathNamespace <:+: inDirectory n :=
  (List.prefix_append pathNamespace ('/' :: n)).isInfix

theorem simpleNetns_inDirectory (n : Text) : simpleNetns (inDirectory n) = .ok n := by
  have hlen : ¬ (inDirectory n).length < pathNamespace.length + 1 := by
    simp only [inDirectory, List.length_append, List.length_cons]
    omega
  have hdrop : (inDirectory n).drop (pathNamespace.length + 1) = n := by
    rw [inDirectory, ← List.drop_drop, List.drop_left]
    rfl
  rw [simpleNetns, if_pos ((any_tails_iff _).mpr (infix_inDirectory n)), if_neg hlen, hdrop]

/-- A directory found elsewhere costs the text its first characters. -/
theorem simpleNetns_ne {p : Text} (h : pathNamespace <:+: p) : simpleNetns p ≠ .ok p := by
  rw [simpleNetns, if_pos ((any_tails_iff p).mpr h)]
  split
  · simp
  · rename_i hlen
    intro heq
    have hp : p.drop (pathNamespace.length + 1) = p := Except.ok.inj heq
    have hcount := congrArg List.length hp
    rw [List.length_drop] at hcount
    omega

theorem simplified_iff (p : Text) : Simplified p ↔ Directed p := by
  constructor
  · intro h hin
    by_contra hno
    push Not at hno
    exact simpleNetns_ne hin (h.2 hno)
  · intro h
    constructor
    · rintro n rfl
      exact simpleNetns_inDirectory n
    · intro hno
      apply simpleNetns_eq_self
      intro hin
      obtain ⟨n, hn⟩ := h hin
      exact hno n hn

theorem singlePodKey_injective {node m n : Text} (h : singlePodKey node m = singlePodKey node n) :
    m = n := by
  simp only [singlePodKey, nodeKey, join_cons _ _ (List.cons_ne_nil _ _), join_singleton] at h
  simpa using h

/-- What a directed text is cut down to. -/
theorem Directed.simple {p : Text} (h : Directed p) :
    simpleNetns p = .ok p ∨ ∃ n, p = inDirectory n ∧ simpleNetns p = .ok n := by
  by_cases hin : pathNamespace <:+: p
  · obtain ⟨n, rfl⟩ := h hin
    exact .inr ⟨n, rfl, simpleNetns_inDirectory n⟩
  · exact .inl (simpleNetns_eq_self hin)

theorem keyApart_of_directed {node p q : Text} (hp : Directed p) (hq : Directed q) :
    KeyApart node p q := by
  intro key hkp hkq
  have hsame : ∀ {m n}, simpleNetns p = .ok m → simpleNetns q = .ok n → m = n := by
    intro m n hm hn
    simp only [getSinglePodKey, hm, hn, bind, Except.bind, pure, Except.pure,
      Except.ok.injEq] at hkp hkq
    exact singlePodKey_injective (hkp.trans hkq.symm)
  rcases hp.simple with hp | ⟨m, rfl, hp⟩
  · rcases hq.simple with hq | ⟨n, rfl, hq⟩
    · exact .inl (hsame hp hq)
    · exact .inr (.inr (by rw [hsame hp hq]))
  · rcases hq.simple with hq | ⟨n, rfl, hq⟩
    · exact .inr (.inl (by rw [hsame hp hq]))
    · exact .inl (by rw [hsame hp hq])

/-- Both texts are simplified and their keys told apart exactly when the
directory stands in front of each, or not in it at all. -/
theorem simpleNetns_iff (node p q : Text) :
    (Simplified p ∧ Simplified q ∧ KeyApart node p q) ↔ Directed p ∧ Directed q := by
  rw [simplified_iff, simplified_iff]
  constructor
  · intro h
    exact ⟨h.1, h.2.1⟩
  · intro h
    exact ⟨h.1, h.2, keyApart_of_directed h.1 h.2⟩

/-- The directory alone, the directory inside a text, and a longer name of it,
by which another namespace's key is met. -/
theorem simpleNetns_undirected :
    simpleNetns pathNamespace = .error .standard ∧
    simpleNetns "x/var/run/netns/abcdefgh".toList = .ok "/abcdefgh".toList ∧
    ¬ (Simplified "/var/run/netns-x".toList ∧ Simplified "x".toList ∧
      KeyApart "node".toList "/var/run/netns-x".toList "x".toList) := by
  refine ⟨by decide +kernel, by decide +kernel, ?_⟩
  intro h
  have hkey : getSinglePodKey "node".toList "/var/run/netns-x".toList =
      .ok (singlePodKey "node".toList "x".toList) := by decide +kernel
  have hkey' : getSinglePodKey "node".toList "x".toList =
      .ok (singlePodKey "node".toList "x".toList) := by decide +kernel
  rcases h.2.2 _ hkey hkey' with heq | heq | heq
  · exact absurd heq (by decide)
  · exact absurd heq (by decide +kernel)
  · exact absurd heq (by decide +kernel)

/-! ### Interface names -/

/-- `IFNAMSIZ`, with the terminating zero. -/
def ifnamsiz : ℕ := 16

/-- FNV-1a on 32 bits over a sequence of bytes. -/
def fnv1a (bytes : List ℕ) : ℕ :=
  bytes.foldl (fun hash b => (hash ^^^ b) * 16777619 % 2 ^ 32) 2166136261

/-- A number in hexadecimal, with at least six digits. -/
def hex (n : ℕ) : Text := (Nat.toDigits 16 n).leftpad 6 '0'

def hexDigits : Text := "0123456789abcdef".toList

/-- The names that an ADD derives from its container and from a unique id. -/
structure ValidNames (id uniqueId : Text) : Prop where
  host : (prefixVeth ++ getShortHash id).length ≤ ifnamsiz - 1
  temporary : (prefixOhno ++ getShortHash uniqueId).length ≤ ifnamsiz - 1
  hash : ifnamsiz - 1 < id.length →
    getShortHash id = (hex (fnv1a (id.map fun c => c.toNat % 2 ^ 8))).take 6 ∧
      (getShortHash id).length = 6 ∧ ∀ c ∈ getShortHash id, c ∈ hexDigits

/-- The bit vectors of the loop are the numbers below 2^32. -/
theorem toNat_foldl (input : Text) (hash : BitVec 32) :
    (input.foldl (fun hash c => (hash ^^^ BitVec.ofNat 32 (c.toNat % 256)) * 16777619#32)
      hash).toNat =
    (input.map fun c => c.toNat % 2 ^ 8).foldl (fun hash b => (hash ^^^ b) * 16777619 % 2 ^ 32)
      hash.toNat := by
  induction input generalizing hash with
  | nil => rfl
  | cons c input ih =>
      have hb : c.toNat % 256 < 2 ^ 32 := lt_trans (Nat.mod_lt _ (by decide)) (by decide)
      rw [List.foldl_cons, ih, List.map_cons, List.foldl_cons, BitVec.toNat_mul, BitVec.toNat_xor,
        BitVec.toNat_ofNat, BitVec.toNat_ofNat, Nat.mod_eq_of_lt hb]
      rfl

theorem toNat_shortHash (input : Text) :
    (shortHash input).toNat = fnv1a (input.map fun c => c.toNat % 2 ^ 8) :=
  toNat_foldl input 2166136261#32

theorem getShortHash_long {id : Text} (h : 15 < id.length) :
    getShortHash id = (hex (fnv1a (id.map fun c => c.toNat % 2 ^ 8))).take 6 := by
  rw [getShortHash, if_neg (by omega), toNat_shortHash]
  rfl

theorem length_hex (n : ℕ) : 6 ≤ (hex n).length := by
  rw [hex, List.length_leftpad]
  exact le_max_left _ _

theorem digitChar_mem {d : ℕ} (h : d < 16) : d.digitChar ∈ hexDigits := by
  have hall : ∀ d < 16, Nat.digitChar d ∈ hexDigits := by decide
  exact hall d h

theorem mem_hexDigits_of_mem_toDigits {n : ℕ} : ∀ c ∈ Nat.toDigits 16 n, c ∈ hexDigits := by
  induction n using Nat.strong_induction_on with
  | _ n ih =>
      intro c hc
      rw [Nat.toDigits_eq_if (by decide)] at hc
      split at hc
      · rename_i hlt
        rw [List.mem_singleton.mp hc]
        exact digitChar_mem hlt
      · rcases List.mem_append.mp hc with hc | hc
        · exact ih (n / 16) (by omega) c hc
        · rw [List.mem_singleton.mp hc]
          exact digitChar_mem (Nat.mod_lt _ (by decide))

theorem mem_hexDigits_of_mem_hex {n : ℕ} {c : Char} (h : c ∈ hex n) : c ∈ hexDigits := by
  rw [hex, List.leftpad] at h
  rcases List.mem_append.mp h with h | h
  · rw [List.eq_of_mem_replicate h]
    decide
  · exact mem_hexDigits_of_mem_toDigits c h

/-- A long id becomes six digits. -/
theorem length_getShortHash_long {id : Text} (h : 15 < id.length) :
    (getShortHash id).length = 6 := by
  have hlen := length_hex (fnv1a (id.map fun c => c.toNat % 2 ^ 8))
  rw [getShortHash_long h, List.length_take]
  omega

theorem getShortHash_short {id : Text} (h : id.length ≤ 15) : getShortHash id = id := by
  rw [getShortHash, if_pos h]

theorem length_prefixVeth : prefixVeth.length = 5 := by decide +kernel
theorem length_prefixOhno : prefixOhno.length = 5 := by decide +kernel

/-- The names are valid except for ids of 11 to 15 characters, which are kept
although the prefix takes five. -/
theorem validNames_iff {id uniqueId : Text} (hunique : uniqueId.length = 16) :
    ValidNames id uniqueId ↔ id.length ≤ 10 ∨ 15 < id.length := by
  constructor
  · intro h
    by_contra hmid
    have hhost := h.host
    rw [getShortHash_short (by omega), List.length_append, length_prefixVeth] at hhost
    simp only [ifnamsiz] at hhost
    omega
  · intro h
    constructor
    · rw [List.length_append, length_prefixVeth]
      rcases h with h | h
      · rw [getShortHash_short (by omega)]
        simp only [ifnamsiz]
        omega
      · rw [length_getShortHash_long h]
        decide
    · rw [List.length_append, length_prefixOhno, length_getShortHash_long (by omega)]
      decide
    · intro hlong
      have hlong : 15 < id.length := hlong
      refine ⟨getShortHash_long hlong, length_getShortHash_long hlong, ?_⟩
      intro c hc
      rw [getShortHash_long hlong] at hc
      exact mem_hexDigits_of_mem_hex (List.mem_of_mem_take hc)

theorem validNames_iff_short :
    ValidNames "container0".toList "0123456789ABCDEF".toList ↔
      "container0".toList.length ≤ 10 ∨ 15 < "container0".toList.length :=
  validNames_iff (by decide)

/-- The name of an id of eleven characters has sixteen. -/
theorem long_veth_name :
    (prefixVeth ++ getShortHash "container-a".toList).length = 16 ∧
    ¬ ValidNames "container-a".toList "0123456789ABCDEF".toList := by
  have hlen : (prefixVeth ++ getShortHash "container-a".toList).length = 16 := by decide +kernel
  refine ⟨hlen, ?_⟩
  intro h
  have hhost := h.host
  rw [hlen] at hhost
  exact absurd hhost (by decide)

end Ohno.DerivedNames
