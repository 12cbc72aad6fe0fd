import Ohno.EtcdClientShell

/-!
# Subnets and Boost.Asio

Boost.Asio parses addresses and networks and compares networks. It is not part
of the repository, so `Boost` holds its functions as fields, next to the
documented facts about them that the code relies on. `Boost.reference` is one
instance: it reads what the printing functions write.

`Subnet` is the class of that name. Its IPv6 half is never computed with (every
member function throws for IPv6), so only the version is kept for it.
-/
namespace Ohno.Subnets
open DelimitedLists AddressText EtcdClientShell

/-- `boost::asio::ip::network_v4`, whose default is 0.0.0.0/0. -/
structure NetworkV4 where
  address : BitVec 32 := 0
  prefixLength : ℕ := 0
deriving Repr, DecidableEq

/-- `to_string` of a network. -/
def NetworkV4.text (n : NetworkV4) : Text := cidr n.address n.prefixLength

/-- The functions of Boost.Asio that the code calls. `none` and `false` of the
`make` functions stand for the exception they throw. -/
structure Boost where
  makeAddressV4 : Text → Option (BitVec 32)
  makeAddressV6 : Text → Bool
  makeNetworkV4 : Text → Option NetworkV4
  makeNetworkV6 : Text → Bool
  isSubnetOf : NetworkV4 → NetworkV4 → Bool
  makeAddressV4_dottedQuad : ∀ a, makeAddressV4 (dottedQuad a) = some a
  makeNetworkV4_cidr : ∀ a p, p ≤ 32 → makeNetworkV4 (cidr a p) = some ⟨a, p⟩
  prefixLength_le : ∀ t n, makeNetworkV4 t = some n → n.prefixLength ≤ 32
  isSubnetOf_iff : ∀ m n, isSubnetOf m n ↔ n.prefixLength < m.prefixLength ∧
    m.address.toNat / 2 ^ (32 - n.prefixLength) = n.address.toNat / 2 ^ (32 - n.prefixLength)

namespace Reference

/-- The number that a canonical decimal text writes. -/
def number (t : Text) : Option ℕ :=
  if decimal (Nat.ofDigitChars 10 t 0) = t then some (Nat.ofDigitChars 10 t 0) else none

theorem number_decimal (n : ℕ) : number (decimal n) = some n := by
  have h : Nat.ofDigitChars 10 (decimal n) 0 = n := Nat.ofDigitChars_ten_toDigits
  simp [number, h]

def fromOctets : List ℕ → Option (BitVec 32)
  | [w, x, y, z] =>
      if w < 256 ∧ x < 256 ∧ y < 256 ∧ z < 256 then
        some (BitVec.ofNat 32 (w * 2 ^ 24 + x * 2 ^ 16 + y * 2 ^ 8 + z))
      else none
  | _ => none

theorem fromOctets_octets (a : BitVec 32) : fromOctets (octets a) = some a := by
  have ha := a.isLt
  have hw : a.toNat / 2 ^ 24 % 2 ^ 8 < 256 := Nat.mod_lt _ (by decide)
  have hx : a.toNat / 2 ^ 16 % 2 ^ 8 < 256 := Nat.mod_lt _ (by decide)
  have hy : a.toNat / 2 ^ 8 % 2 ^ 8 < 256 := Nat.mod_lt _ (by decide)
  have hz : a.toNat % 2 ^ 8 < 256 := Nat.mod_lt _ (by decide)
  simp only [fromOctets, octets, hw, hx, hy, hz, and_self, if_true, Option.some.injEq]
  apply BitVec.eq_of_toNat_eq
  rw [BitVec.toNat_ofNat]
  omega

def makeAddressV4 (t : Text) : Option (BitVec 32) :=
  ((split '.' t).mapM number).bind fromOctets

theorem mapM_number (ns : List ℕ) : (ns.map decimal).mapM number = some ns := by
  induction ns with
  | nil => rfl
  | cons n ns ih => simp [List.mapM_cons, number_decimal, ih]

theorem makeAddressV4_dottedQuad (a : BitVec 32) : makeAddressV4 (dottedQuad a) = some a := by
  rw [makeAddressV4, dottedQuad, split_join '.' (readable_octets a), mapM_number, Option.bind_some,
    fromOctets_octets]

def makeNetworkV4 (t : Text) : Option NetworkV4 :=
  match split '/' t with
  | [addr, len] => do
      let a ← makeAddressV4 addr
      let p ← number len
      if p ≤ 32 then some ⟨a, p⟩ else none
  | _ => none

theorem makeNetworkV4_cidr (a : BitVec 32) (p : ℕ) (h : p ≤ 32) :
    makeNetworkV4 (cidr a p) = some ⟨a, p⟩ := by
  rw [makeNetworkV4, cidr, split_join '/' (readable_cidr a p)]
  simp [makeAddressV4_dottedQuad, number_decimal, h]

theorem prefixLength_le (t : Text) (n : NetworkV4) (h : makeNetworkV4 t = some n) :
    n.prefixLength ≤ 32 := by
  unfold makeNetworkV4 at h
  split at h
  · simp only [Option.bind_eq_bind, Option.bind_eq_some_iff] at h
    obtain ⟨a, -, p, -, h⟩ := h
    split at h
    · cases h
      assumption
    · simp at h
  · simp at h

end Reference

/-- An instance that accepts exactly the texts the printing functions write,
and no IPv6 text. -/
def Boost.reference : Boost where
  makeAddressV4 := Reference.makeAddressV4
  makeAddressV6 := fun _ => false
  makeNetworkV4 := Reference.makeNetworkV4
  makeNetworkV6 := fun _ => false
  isSubnetOf m n := decide (n.prefixLength < m.prefixLength ∧
    m.address.toNat / 2 ^ (32 - n.prefixLength) = n.address.toNat / 2 ^ (32 - n.prefixLength))
  makeAddressV4_dottedQuad := Reference.makeAddressV4_dottedQuad
  makeNetworkV4_cidr := Reference.makeNetworkV4_cidr
  prefixLength_le := Reference.prefixLength_le
  isSubnetOf_iff m n := by simp

/-! ### The class -/

inductive IpVersion where
  | reserved
  | ipv4
  | ipv6
deriving Repr, DecidableEq

def maxPrefixIpv4 : ℕ := 32

/-- `\d+` -/
def isDigits (t : Text) : Bool := !t.isEmpty && t.all Char.isDigit

/-- `[\da-fA-F:]+` -/
def isHexColons (t : Text) : Bool :=
  !t.isEmpty && t.all fun c => c.isDigit || ('a' ≤ c && c ≤ 'f') || ('A' ≤ c && c ≤ 'F') || c = ':'

/-- `IPv4_REGEX`: a digit is neither a dot nor a slash, so cutting there is matching. -/
def matchesIpv4 (t : Text) : Bool :=
  match t.splitOn '/' with
  | [addr, len] =>
      match addr.splitOn '.' with
      | [w, x, y, z] => isDigits w && isDigits x && isDigits y && isDigits z && isDigits len
      | _ => false
  | _ => false

/-- `IPv6_REGEX` -/
def matchesIpv6 (t : Text) : Bool :=
  match t.splitOn '/' with
  | [addr, len] => isHexColons addr && isDigits len
  | _ => false

theorem isDigits_decimal (n : ℕ) : isDigits (decimal n) := by
  have h : ∀ c ∈ decimal n, c.isDigit = true := fun c hc => isDigit_of_mem_decimal hc
  simpa [isDigits, decimal_ne_nil] using h

theorem matchesIpv4_cidr (a : BitVec 32) (p : ℕ) : matchesIpv4 (cidr a p) := by
  have hp : (cidr a p).splitOn '/' = [dottedQuad a, decimal p] :=
    List.splitOn_intercalate '/' (readable_cidr a p).free (by simp)
  have ha : (dottedQuad a).splitOn '.' = (octets a).map decimal :=
    List.splitOn_intercalate '.' (readable_octets a).free (by simp [octets])
  simp [matchesIpv4, hp, ha, octets, isDigits_decimal]

structure Subnet where
  subnetV4 : NetworkV4
  ipVersion : IpVersion
deriving Repr, DecidableEq

namespace Subnet

def init (boost : Boost) (cidr : Text) : Except Thrown Subnet :=
  if matchesIpv4 cidr then
    match boost.makeNetworkV4 cidr with
    | some net => .ok ⟨net, .ipv4⟩
    | none => .error .standard
  else if matchesIpv6 cidr then
    if boost.makeNetworkV6 cidr then .ok ⟨{}, .ipv6⟩ else .error .standard
  else
    .error (.exception "Invalid CIDR format")

def checkIpv6 (s : Subnet) : Except Thrown Unit :=
  if s.ipVersion = .ipv6 then .error (.exception "IPv6 not supported yet") else .ok ()

def getSubnet (s : Subnet) : Except Thrown Text := do
  s.checkIpv6
  pure s.subnetV4.text

/-- The part of the text before the first slash. -/
def extractAddr (s : Subnet) : Except Thrown Text := do
  s.checkIpv6
  let cidr ← s.getSubnet
  pure (cidr.takeWhile (· ≠ '/'))

def generateIpImpl (base : NetworkV4) (index : ℕ) : Except Thrown (BitVec 32) :=
  if index < 1 then .error (.exception "Index out of range")
  else if base.prefixLength = maxPrefixIpv4 then .ok base.address
  else .ok (base.address + BitVec.ofNat 32 index)

def generateIp (s : Subnet) (index : ℕ) : Except Thrown Text := do
  s.checkIpv6
  let addr ← generateIpImpl s.subnetV4 index
  pure (cidr addr s.subnetV4.prefixLength)

def isSubnetOf (boost : Boost) (s : Subnet) (cidr : Text) : Except Thrown Bool := do
  let other ← init boost cidr
  s.checkIpv6
  pure (boost.isSubnetOf s.subnetV4 other.subnetV4)

/-- A shift of a 32-bit number looks at the last five bits of its count: shifting by 32,
which C++ leaves undefined, shifts by nothing, and a network of prefix 0 has one host. -/
def getMaxSubnetsFromCidr (s : Subnet) (newPrefix : ℕ) : Except Thrown ℕ := do
  s.checkIpv6
  if newPrefix ≤ s.subnetV4.prefixLength then
    .error (.exception ("New prefix(" ++ toString newPrefix ++
      ") must be larger than current prefix(" ++ toString s.subnetV4.prefixLength ++ ")"))
  else
    pure (1 <<< ((newPrefix - s.subnetV4.prefixLength) % 32))

def getMaxHosts (s : Subnet) : Except Thrown ℕ := s.getMaxSubnetsFromCidr maxPrefixIpv4

theorem init_cidr (boost : Boost) (a : BitVec 32) {p : ℕ} (h : p ≤ 32) :
    init boost (cidr a p) = .ok ⟨⟨a, p⟩, .ipv4⟩ := by
  simp [init, matchesIpv4_cidr, boost.makeNetworkV4_cidr a p h]

theorem init_nil (boost : Boost) : init boost [] = .error (.exception "Invalid CIDR format") := by
  have h₄ : matchesIpv4 [] = false := by decide
  have h₆ : matchesIpv6 [] = false := by decide
  simp [init, h₄, h₆]

section Ipv4
variable (n : NetworkV4)

@[simp] theorem checkIpv6_ipv4 : checkIpv6 ⟨n, .ipv4⟩ = .ok () := rfl
@[simp] theorem getSubnet_ipv4 : getSubnet ⟨n, .ipv4⟩ = .ok n.text := rfl

theorem extractAddr_ipv4 : extractAddr ⟨n, .ipv4⟩ = .ok (dottedQuad n.address) := by
  have h : (dottedQuad n.address).all (· ≠ '/') = true := by
    simp only [List.all_eq_true, decide_eq_true_eq]
    rintro c hc rfl
    exact (readable_cidr n.address 0).free _ (by simp) hc
  have ht : n.text.takeWhile (· ≠ '/') = dottedQuad n.address := by
    rw [NetworkV4.text, cidr_eq, List.takeWhile_append_of_pos (by simpa using h)]
    simp
  exact congrArg Except.ok ht

theorem generateIp_ipv4 {i : ℕ} (hi : 1 ≤ i) (hp : n.prefixLength < 32) :
    generateIp ⟨n, .ipv4⟩ i =
      .ok (cidr (n.address + BitVec.ofNat 32 i) n.prefixLength) := by
  have h₁ : ¬ i < 1 := by omega
  have h₂ : n.prefixLength ≠ maxPrefixIpv4 := by simp only [maxPrefixIpv4]; omega
  simp [generateIp, generateIpImpl, h₁, h₂, bind, Except.bind, pure, Except.pure]

theorem getMaxHosts_ipv4 (hp : n.prefixLength < 32) :
    getMaxHosts ⟨n, .ipv4⟩ = .ok (2 ^ ((32 - n.prefixLength) % 32)) := by
  have h : ¬ 32 ≤ n.prefixLength := by omega
  simp [getMaxHosts, getMaxSubnetsFromCidr, maxPrefixIpv4, h, Nat.one_shiftLeft, bind, Except.bind,
    pure, Except.pure]

end Ipv4
end Subnet
end Ohno.Subnets
