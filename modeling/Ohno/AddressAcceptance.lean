import Ohno.Nics

/-!
# Which texts `Addr` accepts

The constructor tries IPv4 when the whole text matches the regular expression
and IPv6 otherwise, and never compares the prefix with the longest one there
is. It cuts at the first slash, and `std::stoi` reads what is behind it.
-/
namespace Ohno.AddressAcceptance
open DelimitedLists AddressText Subnets Nics

/-- Boost.Asio accepts exactly the textual addresses. Those of IPv6 have a
colon and no slash. -/
structure Textual (boost : Boost) : Prop where
  v4 : ∀ t, (boost.makeAddressV4 t).isSome ↔ ∃ a, t = dottedQuad a
  colon : ∀ t, boost.makeAddressV6 t → ':' ∈ t
  slash : ∀ t, boost.makeAddressV6 t → '/' ∉ t

def IsIpv4 (t : Text) : Prop := ∃ a, t = dottedQuad a

/-- A decimal number of at most `max`. -/
def Decimal (max : ℕ) (t : Text) : Prop := isDigits t ∧ Nat.ofDigitChars 10 t 0 ≤ max

/-- An address, or one with a slash and a prefix of at most `max` behind it. -/
def WellFormed (IsAddr : Text → Prop) (max : ℕ) (s : Text) : Prop :=
  IsAddr s ∨ ∃ addr len, s = addr ++ '/' :: len ∧ IsAddr addr ∧ Decimal max len

/-- The version is the one that the text has. -/
structure Classified (boost : Boost) (s : Text) (v : IpVersion) : Prop where
  ipv4 : v = .ipv4 ↔ WellFormed IsIpv4 32 s
  ipv6 : v = .ipv6 ↔ WellFormed (boost.makeAddressV6 ·) 128 s
  reserved : v = .reserved ↔
    ¬ WellFormed IsIpv4 32 s ∧ ¬ WellFormed (boost.makeAddressV6 ·) 128 s

/-- What stands behind the slash is a prefix that the address can have, or
`std::stoi` does not read it. Behind an IPv4 address only digits matter, since
the regular expression refuses everything else. -/
structure Bounded (boost : Boost) (addr len : Text) : Prop where
  ipv4 : IsIpv4 addr → isDigits len → Decimal 32 len ∨ stoi len = none
  ipv6 : boost.makeAddressV6 addr → Decimal 128 len ∨ stoi len = none

variable {boost : Boost}

theorem IsIpv4.slash {t : Text} (h : IsIpv4 t) : '/' ∉ t := by
  obtain ⟨a, rfl⟩ := h
  exact (readable_cidr a 0).free _ (by simp)

theorem IsIpv4.colon {t : Text} (h : IsIpv4 t) : ':' ∉ t := by
  obtain ⟨a, rfl⟩ := h
  intro hc
  rcases mem_dottedQuad hc with hc | hc <;> simp at hc

/-- Without a slash only the address is left. -/
theorem wellFormed_of_notMem {P : Text → Prop} {max : ℕ} {s : Text} (h : '/' ∉ s) :
    WellFormed P max s ↔ P s := by
  constructor
  · intro hw
    rcases hw with hw | ⟨addr, len, rfl, -, -⟩
    · exact hw
    · simp at h
  · exact .inl

/-- Addresses have no slash, so a text is cut in one way only. -/
theorem wellFormed_append {P : Text → Prop} (hP : ∀ t, P t → '/' ∉ t) {max : ℕ} {addr : Text}
    (h : '/' ∉ addr) (len : Text) :
    WellFormed P max (addr ++ '/' :: len) ↔ P addr ∧ Decimal max len := by
  constructor
  · intro hw
    rcases hw with hw | ⟨addr', len', heq, ha, hl⟩
    · exact absurd (by simp) (hP _ hw)
    · have hcut := congrArg cutSlash heq
      rw [Addr.cutSlash_append h, Addr.cutSlash_append (hP _ ha)] at hcut
      cases hcut
      exact ⟨ha, hl⟩
  · intro hw
    exact .inr ⟨addr, len, rfl, hw⟩

theorem wellFormed_ipv4_append {addr : Text} (h : '/' ∉ addr) (len : Text) :
    WellFormed IsIpv4 32 (addr ++ '/' :: len) ↔ IsIpv4 addr ∧ Decimal 32 len :=
  wellFormed_append (fun _ ht => ht.slash) h len

theorem wellFormed_ipv6_append (textual : Textual boost) {addr : Text} (h : '/' ∉ addr)
    (len : Text) : WellFormed (boost.makeAddressV6 ·) 128 (addr ++ '/' :: len) ↔
      boost.makeAddressV6 addr ∧ Decimal 128 len :=
  wellFormed_append textual.slash h len

/-! ### The regular expression -/

theorem notMem_of_isDigits {t : Text} (h : isDigits t) : '/' ∉ t := by
  intro hm
  have hall : t ≠ [] ∧ ∀ c ∈ t, c.isDigit = true := by simpa [isDigits] using h
  have hd := hall.2 '/' hm
  simp at hd

theorem matchesIpv4_append {addr len : Text} (ha : '/' ∉ addr) (hl : '/' ∉ len) :
    matchesIpv4 (addr ++ '/' :: len) = match addr.splitOn '.' with
      | [w, x, y, z] => isDigits w && isDigits x && isDigits y && isDigits z && isDigits len
      | _ => false := by
  rewrite [matchesIpv4, List.splitOn_append_cons_self_of_not_mem ha, List.splitOn_eq_singleton hl]
  rfl

/-- With a second slash the expression does not match. -/
theorem matchesIpv4_slash {addr len : Text} (ha : '/' ∉ addr) (hl : '/' ∈ len) :
    matchesIpv4 (addr ++ '/' :: len) = false := by
  obtain ⟨x, y, rfl⟩ := List.append_of_mem hl
  rw [matchesIpv4, List.splitOn_append_cons_self_of_not_mem ha, List.splitOn_append_cons_self]
  obtain ⟨u, us, hu⟩ := List.exists_cons_of_ne_nil (List.splitOn_ne_nil '/' x)
  obtain ⟨v, vs, hv⟩ := List.exists_cons_of_ne_nil (List.splitOn_ne_nil '/' y)
  rw [hu, hv]
  cases us with
  | nil => rfl
  | cons => rfl

theorem matchesIpv4_dottedQuad (a : BitVec 32) (len : Text) :
    matchesIpv4 (dottedQuad a ++ '/' :: len) = isDigits len := by
  have ha : '/' ∉ dottedQuad a := IsIpv4.slash ⟨a, rfl⟩
  by_cases hl : '/' ∈ len
  · rw [matchesIpv4_slash ha hl]
    by_contra hd
    exact notMem_of_isDigits (by simpa using Ne.symm hd) hl
  · have hs : (dottedQuad a).splitOn '.' = (octets a).map decimal :=
      List.splitOn_intercalate '.' (readable_octets a).free (by simp [octets])
    rw [matchesIpv4_append ha hl, hs]
    simp [octets, isDigits_decimal]

theorem matchesIpv4_colon {addr : Text} (ha : '/' ∉ addr) (hc : ':' ∈ addr) (len : Text) :
    matchesIpv4 (addr ++ '/' :: len) = false := by
  by_cases hl : '/' ∈ len
  · exact matchesIpv4_slash ha hl
  · rw [matchesIpv4_append ha hl]
    split
    · rename_i w x y z hs
      -- The colon would be in one of the four numbers.
      have hj : join '.' [w, x, y, z] = addr := hs ▸ List.intercalate_splitOn '.'
      rcases mem_join '.' (hj ▸ hc) with h | ⟨u, hu, hm⟩
      · simp at h
      · have hd : isDigits u = false := by
          by_contra hd
          have hall : u ≠ [] ∧ ∀ c ∈ u, c.isDigit = true := by simpa [isDigits] using hd
          have := hall.2 ':' hm
          simp at this
        simp only [List.mem_cons, List.not_mem_nil, or_false] at hu
        rcases hu with rfl | rfl | rfl | rfl <;> simp [hd]
    · rfl

/-! ### The constructor -/

/-- An address of one version is none of the other. -/
theorem Textual.not_v6 (textual : Textual boost) {t : Text} (h : IsIpv4 t) :
    boost.makeAddressV6 t = false := by
  by_contra h6
  exact h.colon (textual.colon t (by simpa using h6))

theorem Textual.makeAddressV4_eq_none (textual : Textual boost) {t : Text} (h : ¬ IsIpv4 t) :
    boost.makeAddressV4 t = none := by
  by_contra h4
  exact h ((textual.v4 t).mp (Option.isSome_iff_ne_none.mpr h4))

/-- The version of a text without a slash. -/
theorem ipVersion_of_notMem (textual : Textual boost) {s : Text} (h : '/' ∉ s) :
    (Addr.ofCidr boost s).ipVersion = .ipv4 ∧ IsIpv4 s ∨
    (Addr.ofCidr boost s).ipVersion = .ipv6 ∧ boost.makeAddressV6 s ∨
    (Addr.ofCidr boost s).ipVersion = .reserved ∧ ¬ IsIpv4 s ∧ ¬ boost.makeAddressV6 s := by
  by_cases h4 : IsIpv4 s
  · obtain ⟨a, rfl⟩ := h4
    rw [Addr.ofCidr_dottedQuad]
    exact .inl ⟨rfl, a, rfl⟩
  · have hnone : boost.makeAddressV4 s = none := textual.makeAddressV4_eq_none h4
    by_cases h6 : boost.makeAddressV6 s
    · have hne : s ≠ [] := List.ne_nil_of_mem (textual.colon s h6)
      have hm := matchesIpv4_colon h (textual.colon s h6) (decimal maxPrefixIpv4)
      simp [Addr.ofCidr, Addr.cutSlash_self h, hne, hm, h6]
    · simp only [Addr.ofCidr, Addr.cutSlash_self h, hnone]
      split
      · simp [h4, h6]
      · split <;> simp [h4, h6]

/-- The version of a text with a slash. -/
theorem ipVersion_append (textual : Textual boost) {addr len : Text} (h : '/' ∉ addr) :
    (Addr.ofCidr boost (addr ++ '/' :: len)).ipVersion =
      if stoi len = none then .reserved
      else if boost.makeAddressV6 addr then .ipv6
      else if (boost.makeAddressV4 addr).isSome && isDigits len then .ipv4
      else .reserved := by
  simp only [Addr.ofCidr, Addr.cutSlash_append h, List.append_eq_nil_iff, reduceCtorEq, and_false,
    if_false]
  cases stoi len with
  | none => rfl
  | some p =>
      simp only [reduceCtorEq, if_false]
      by_cases h6 : boost.makeAddressV6 addr
      · simp [matchesIpv4_colon h (textual.colon addr h6), h6]
      · by_cases h4 : IsIpv4 addr
        · obtain ⟨a, rfl⟩ := h4
          rw [matchesIpv4_dottedQuad, boost.makeAddressV4_dottedQuad]
          cases isDigits len <;> simp [h6]
        · rw [textual.makeAddressV4_eq_none h4]
          cases matchesIpv4 (addr ++ '/' :: len) <;> simp [h6]

/-- Digits that are small enough are read. -/
theorem stoi_of_decimal {max : ℕ} (hmax : max < 2 ^ 31) {t : Text} (h : Decimal max t) :
    stoi t ≠ none := by
  rw [Addr.stoi_isDigits h.1, if_pos (lt_of_le_of_lt h.2 hmax)]
  simp

/-- The third version is what remains. -/
theorem classified_of_iff {s : Text} {v : IpVersion}
    (h4 : v = .ipv4 ↔ WellFormed IsIpv4 32 s)
    (h6 : v = .ipv6 ↔ WellFormed (boost.makeAddressV6 ·) 128 s) : Classified boost s v := by
  refine ⟨h4, h6, ?_⟩
  rw [← h4, ← h6]
  cases v <;> simp

theorem classified_of_notMem (textual : Textual boost) {s : Text} (h : '/' ∉ s) :
    Classified boost s (Addr.ofCidr boost s).ipVersion := by
  apply classified_of_iff
  · rw [wellFormed_of_notMem h]
    rcases ipVersion_of_notMem textual h with ⟨hv, h4⟩ | ⟨hv, h6⟩ | ⟨hv, h4, -⟩
    · simp [hv, h4]
    · have h4 : ¬ IsIpv4 s := fun h4 => by simp [textual.not_v6 h4] at h6
      simp [hv, h4]
    · simp [hv, h4]
  · rw [wellFormed_of_notMem h]
    rcases ipVersion_of_notMem textual h with ⟨hv, h4⟩ | ⟨hv, h6⟩ | ⟨hv, -, h6⟩
    · simp [hv, textual.not_v6 h4]
    · simp [hv, h6]
    · simp [hv, h6]

section Slash
variable {addr len : Text}

theorem classified_append_ipv4 (textual : Textual boost) (h : IsIpv4 addr) :
    Classified boost (addr ++ '/' :: len) (Addr.ofCidr boost (addr ++ '/' :: len)).ipVersion ↔
      Bounded boost addr len := by
  have h6 : boost.makeAddressV6 addr = false := textual.not_v6 h
  have hsome : (boost.makeAddressV4 addr).isSome := (textual.v4 addr).mpr h
  have hv : (Addr.ofCidr boost (addr ++ '/' :: len)).ipVersion =
      if stoi len ≠ none ∧ isDigits len then .ipv4 else .reserved := by
    rw [ipVersion_append textual h.slash, h6, hsome]
    cases stoi len <;> cases isDigits len <;> rfl
  have w4 := wellFormed_ipv4_append h.slash len
  have w6 := wellFormed_ipv6_append textual h.slash len
  constructor
  · intro hc
    constructor
    · intro _ hd
      by_cases hn : stoi len = none
      · exact .inr hn
      · have h4 : (Addr.ofCidr boost (addr ++ '/' :: len)).ipVersion = .ipv4 := by
          rw [hv, if_pos ⟨hn, hd⟩]
        exact .inl (w4.mp (hc.ipv4.mp h4)).2
    · intro h6'
      simp [h6] at h6'
  · intro hb
    apply classified_of_iff
    · rw [w4, hv]
      constructor
      · intro hif
        split at hif
        · rename_i hd
          exact ⟨h, (hb.ipv4 h hd.2).resolve_right hd.1⟩
        · simp at hif
      · intro hd
        rw [if_pos ⟨stoi_of_decimal (by decide) hd.2, hd.2.1⟩]
    · rw [w6, hv]
      split <;> simp [h6]

theorem classified_append_ipv6 (textual : Textual boost) (h : boost.makeAddressV6 addr) :
    Classified boost (addr ++ '/' :: len) (Addr.ofCidr boost (addr ++ '/' :: len)).ipVersion ↔
      Bounded boost addr len := by
  have ha : '/' ∉ addr := textual.slash addr h
  have h4 : ¬ IsIpv4 addr := fun h4 => by simp [textual.not_v6 h4] at h
  have hv : (Addr.ofCidr boost (addr ++ '/' :: len)).ipVersion =
      if stoi len = none then .reserved else .ipv6 := by
    rw [ipVersion_append textual ha, h, if_pos rfl]
  have w4 := wellFormed_ipv4_append ha len
  have w6 := wellFormed_ipv6_append textual ha len
  constructor
  · intro hc
    constructor
    · intro h4'
      exact absurd h4' h4
    · intro _
      by_cases hn : stoi len = none
      · exact .inr hn
      · have h6 : (Addr.ofCidr boost (addr ++ '/' :: len)).ipVersion = .ipv6 := by
          rw [hv, if_neg hn]
        exact .inl (w6.mp (hc.ipv6.mp h6)).2
  · intro hb
    apply classified_of_iff
    · rw [w4, hv]
      split <;> simp [h4]
    · rw [w6, hv]
      constructor
      · intro hif
        split at hif
        · simp at hif
        · rename_i hn
          exact ⟨h, (hb.ipv6 h).resolve_right hn⟩
      · intro hd
        rw [if_neg (stoi_of_decimal (by decide) hd.2)]

theorem classified_append (textual : Textual boost) (ha : '/' ∉ addr) :
    Classified boost (addr ++ '/' :: len) (Addr.ofCidr boost (addr ++ '/' :: len)).ipVersion ↔
      Bounded boost addr len := by
  by_cases h4 : IsIpv4 addr
  · exact classified_append_ipv4 textual h4
  by_cases h6 : boost.makeAddressV6 addr
  · exact classified_append_ipv6 textual h6
  -- No address in front of the slash: every text is refused, and rightly so.
  have hv : (Addr.ofCidr boost (addr ++ '/' :: len)).ipVersion = .reserved := by
    rw [ipVersion_append textual ha, textual.makeAddressV4_eq_none h4]
    simp [h6]
  have w4 := wellFormed_ipv4_append ha len
  have w6 := wellFormed_ipv6_append textual ha len
  have hb : Bounded boost addr len := ⟨fun h => absurd h h4, fun h => absurd h h6⟩
  simp only [hb, iff_true]
  apply classified_of_iff
  · simp [hv, w4, h4]
  · simp [hv, w6, h6]

end Slash

/-- Boost.Asio on dotted quads and one IPv6 address. -/
def textual : Boost where
  makeAddressV4 t := (Reference.makeAddressV4 t).filter (dottedQuad · = t)
  makeAddressV6 t := t = "fe80::1".toList
  makeNetworkV4 := Reference.makeNetworkV4
  makeNetworkV6 _ := false
  isSubnetOf := Boost.reference.isSubnetOf
  makeAddressV4_dottedQuad a := by simp [Reference.makeAddressV4_dottedQuad]
  makeNetworkV4_cidr := Reference.makeNetworkV4_cidr
  prefixLength_le := Reference.prefixLength_le
  isSubnetOf_iff := Boost.reference.isSubnetOf_iff

theorem textual_textual : Textual textual := by
  constructor
  · intro t
    constructor
    · intro h
      obtain ⟨a, ha⟩ := Option.isSome_iff_exists.mp h
      have hf := (Option.filter_eq_some_iff.mp ha).2
      exact ⟨a, (of_decide_eq_true hf).symm⟩
    · rintro ⟨a, rfl⟩
      rw [textual.makeAddressV4_dottedQuad]
      rfl
  · intro t h
    rw [of_decide_eq_true h]
    decide
  · intro t h
    rw [of_decide_eq_true h]
    decide

/-- The version is right for every text whose prefix the address can have. -/
theorem ofCidr_classified_iff (textual : Textual boost) (s : Text) :
    Classified boost s (Addr.ofCidr boost s).ipVersion ↔
      ∀ addr len, s = addr ++ '/' :: len → '/' ∉ addr → Bounded boost addr len := by
  by_cases hs : '/' ∈ s
  · obtain ⟨addr, len, rfl, ha⟩ := List.eq_append_cons_of_mem hs
    rw [classified_append textual ha]
    constructor
    · intro hb addr' len' heq ha'
      have hcut := congrArg cutSlash heq
      rw [Addr.cutSlash_append ha, Addr.cutSlash_append ha'] at hcut
      cases hcut
      exact hb
    · intro hb
      exact hb addr len rfl ha
  · have hc := classified_of_notMem textual hs
    simp only [hc, true_iff]
    intro addr len heq
    simp [heq] at hs

theorem ofCidr_classified_iff_link : Classified textual "fe80::1/64".toList
      (Addr.ofCidr textual "fe80::1/64".toList).ipVersion ↔
    ∀ addr len, "fe80::1/64".toList = addr ++ '/' :: len → '/' ∉ addr → Bounded textual addr len :=
  ofCidr_classified_iff textual_textual _

/-- A prefix of 33, and one that is not a number, are taken. -/
theorem ofCidr_overlong :
    ¬ Classified textual "1.2.3.4/33".toList (Addr.ofCidr textual "1.2.3.4/33".toList).ipVersion ∧
    ¬ Classified textual "fe80::1/64abc".toList
      (Addr.ofCidr textual "fe80::1/64abc".toList).ipVersion := by
  have hquad : "1.2.3.4".toList = dottedQuad 0x01020304 := by decide +kernel
  constructor
  · have heq : "1.2.3.4/33".toList = "1.2.3.4".toList ++ '/' :: "33".toList := by decide
    rw [heq, classified_append textual_textual (by decide)]
    intro hb
    rcases hb.ipv4 ⟨_, hquad⟩ (by decide) with h | h
    · exact absurd h.2 (by decide)
    · exact absurd h (by decide +kernel)
  · have heq : "fe80::1/64abc".toList = "fe80::1".toList ++ '/' :: "64abc".toList := by decide
    rw [heq, classified_append textual_textual (by decide)]
    intro hb
    rcases hb.ipv6 (by decide) with h | h
    · exact absurd h.1 (by decide)
    · exact absurd h (by decide +kernel)

end Ohno.AddressAcceptance
