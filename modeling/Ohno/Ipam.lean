import Ohno.FirstFit
import Ohno.Subnets

/-!
# The address manager

The functions of `Ipam` as programs over the etcdctl commands, and what they do
to the map when every command succeeds. A function with an output parameter
returns it next to its flag. The pod CIDR that `allocateSubnet` asks the API
server for is an argument; `dump` only feeds the log and is left out.
-/
namespace Ohno.Ipam
open CommandPrograms DelimitedLists AddressText EtcdClientShell Subnets FirstFit

@[irreducible] def etcdKeySubnet : Text := "/ohno/subnets".toList
@[irreducible] def etcdKeyAddress : Text := "/ohno/addresses".toList

def subnetKey (node : Text) : Text := etcdKeySubnet ++ '/' :: node
def addressKey (node : Text) : Text := etcdKeyAddress ++ '/' :: node

/-- The text comes back as etcdctl printed it, also when the flag is false. -/
def getSubnet (node : Text) : EtcdProgram (Bool × Text) := do
  let ret ← get (subnetKey node)
  pure (ret.ok && ret.out ≠ [], ret.out)

def allocateSubnet (node podCidr : Text) : EtcdProgram (Bool × Text) := do
  let ret ← getSubnet node
  if ret.1 then
    pure ret
  else if ← append etcdKeySubnet podCidr then
    if ← put (subnetKey node) podCidr then
      pure (true, podCidr)
    else do
      let _ ← delValue etcdKeySubnet podCidr
      pure (false, [])
  else
    pure (false, [])

def releaseSubnet (node subnet : Text) : EtcdProgram Bool := do
  if ← del (subnetKey node) then delValue etcdKeySubnet subnet else pure false

/-- A list that cannot be read counts as one without the address. -/
def isIpAvailable (node ip : Text) : EtcdProgram Bool := do
  match ← list (addressKey node) with
  | none => pure true
  | some all => pure (ip ∉ all)

/-- The loop of `allocateIp` with `remaining` indices to try, from `i` on. -/
def findIp (node : Text) (s : Subnet) : ℕ → ℕ → EtcdProgram (Bool × Text)
  | 0, _ => pure (false, [])
  | remaining + 1, i => do
      let candidate ← Program.ofExcept (s.generateIp i)
      if ← isIpAvailable node candidate then
        if ← append (addressKey node) candidate then
          pure (true, candidate)
        else
          findIp node s remaining (i + 1)
      else
        findIp node s remaining (i + 1)

/-- How often `for (i = 1; i < max_hosts - 1; ++i)` runs. The bound is a 32-bit
number and wraps at zero. -/
def loopCount (maxHosts : ℕ) : ℕ := if maxHosts = 0 then 2 ^ 32 - 2 else maxHosts - 2

def allocateIp (boost : Boost) (node : Text) : EtcdProgram (Bool × Text) := do
  let ret ← getSubnet node
  if ret.1 then
    let s ← Program.ofExcept (Subnet.init boost ret.2)
    let maxHosts ← Program.ofExcept s.getMaxHosts
    findIp node s (loopCount maxHosts) 1
  else
    pure (false, [])

def releaseIp (node ip : Text) : EtcdProgram Bool := delValue (addressKey node) ip

/-! ### Keys -/

theorem subnetKey_injective {m n : Text} (h : subnetKey m = subnetKey n) : m = n := by
  simpa [subnetKey] using h

theorem addressKey_injective {m n : Text} (h : addressKey m = addressKey n) : m = n := by
  simpa [addressKey] using h

theorem etcdKey_take : etcdKeySubnet.take 7 ≠ etcdKeyAddress.take 7 ∧
    7 ≤ etcdKeySubnet.length ∧ 7 ≤ etcdKeyAddress.length := by decide +kernel

theorem append_ne_append (x y : Text) : etcdKeySubnet ++ x ≠ etcdKeyAddress ++ y := by
  intro h
  have h7 := congrArg (List.take 7) h
  rw [List.take_append_of_le_length etcdKey_take.2.1,
    List.take_append_of_le_length etcdKey_take.2.2] at h7
  exact etcdKey_take.1 h7

theorem subnetKey_ne_addressKey (m n : Text) : subnetKey m ≠ addressKey n := append_ne_append _ _

theorem etcdKeySubnet_ne_addressKey (n : Text) : etcdKeySubnet ≠ addressKey n := by
  simpa only [addressKey, List.append_nil] using append_ne_append [] ('/' :: n)

/-! ### When every command succeeds -/

section Ok
variable (node ip : Text) (s : Store)

@[simp] theorem run_getSubnet : (getSubnet node).run Etcd.ok s =
    (.ok (decide (s.value (subnetKey node) ≠ []), s.value (subnetKey node)), s) := by
  simp [getSubnet]

@[simp] theorem run_isIpAvailable : (isIpAvailable node ip).run Etcd.ok s =
    (.ok (decide (ip ∉ s.values (addressKey node))), s) := by
  simp [isIpAvailable]

@[simp] theorem run_releaseIp : (releaseIp node ip).run Etcd.ok s =
    (.ok true, s.delValue (addressKey node) ip) := run_delValue ..

end Ok

/-- The text of host `i` of a network. -/
def hostText (net : NetworkV4) (i : ℕ) : Text :=
  cidr (net.address + BitVec.ofNat 32 i) net.prefixLength

theorem item_hostText (net : NetworkV4) (i : ℕ) : Store.Item (hostText net i) where
  ne_nil := cidr_ne_nil _ _
  comma := notMem_cidr (by decide) (by decide) (by decide)
  line := notMem_cidr (by decide) (by decide) (by decide)

theorem hostText_injective {net : NetworkV4} {i j : ℕ} (hi : i < 2 ^ 32) (hj : j < 2 ^ 32)
    (h : hostText net i = hostText net j) : i = j := by
  have hb := congrArg BitVec.toNat (add_left_cancel (cidr_injective h).1)
  rw [BitVec.toNat_ofNat, BitVec.toNat_ofNat] at hb
  omega

/-- The number of indices that `allocateIp` tries. -/
def hostCount (net : NetworkV4) : ℕ := loopCount (2 ^ ((32 - net.prefixLength) % 32))

theorem hostCount_eq {net : NetworkV4} (h₁ : 1 ≤ net.prefixLength) (h₂ : net.prefixLength ≤ 30) :
    hostCount net = 2 ^ (32 - net.prefixLength) - 2 := by
  have hcount : (32 - net.prefixLength) % 32 = 32 - net.prefixLength := Nat.mod_eq_of_lt (by omega)
  rw [hostCount, loopCount, hcount, if_neg (Nat.two_pow_pos _).ne']

theorem hostCount_lt (net : NetworkV4) : hostCount net < 2 ^ 32 := by
  have hmod : (32 - net.prefixLength) % 32 < 32 := Nat.mod_lt _ (by decide)
  have hpow : 2 ^ ((32 - net.prefixLength) % 32) ≤ 2 ^ 32 :=
    Nat.pow_le_pow_right (by decide) (by omega)
  unfold hostCount loopCount
  split_ifs
  · decide
  · omega

/-- The loop returns the first free host and puts it on the list. -/
theorem run_findIp (node : Text) {net : NetworkV4} (hp : net.prefixLength < 32) (s : Store)
    (remaining i : ℕ) (hi : 1 ≤ i) :
    (findIp node ⟨net, .ipv4⟩ remaining i).run Etcd.ok s =
      match firstFrom (hostText net) (s.values (addressKey node)) i remaining with
      | some j => (.ok (true, hostText net j), s.append (addressKey node) (hostText net j))
      | none => (.ok (false, []), s) := by
  induction remaining generalizing i with
  | zero => rfl
  | succ remaining ih =>
      have hg : Subnet.generateIp ⟨net, .ipv4⟩ i = .ok (hostText net i) :=
        Subnet.generateIp_ipv4 net hi hp
      simp only [findIp, hg, Program.ofExcept_ok, Program.bind_eq, Program.pure_bind,
        Program.run_bind, run_isIpAvailable, Program.Final.andThen_ok, firstFrom_succ]
      by_cases h : hostText net i ∈ s.values (addressKey node)
      · simpa [h] using ih (i + 1) (by omega)
      · simp [h]

theorem run_allocateIp (boost : Boost) {node : Text} {net : NetworkV4} (s : Store)
    (hs : Subnet.init boost (s.value (subnetKey node)) = .ok ⟨net, .ipv4⟩)
    (hp : net.prefixLength < 32) :
    (allocateIp boost node).run Etcd.ok s =
      match firstFree (hostText net) (hostCount net) (s.values (addressKey node)) with
      | some j => (.ok (true, hostText net j), s.append (addressKey node) (hostText net j))
      | none => (.ok (false, []), s) := by
  have hn : s.value (subnetKey node) ≠ [] := by
    intro h
    simp [h, Subnet.init_nil] at hs
  simp only [allocateIp, Program.bind_eq, Program.run_bind, run_getSubnet, Program.Final.andThen_ok,
    hn, ne_eq, not_false_eq_true, decide_true, if_true, hs, Subnet.getMaxHosts_ipv4 net hp,
    Program.ofExcept_ok, Program.pure_bind]
  exact run_findIp node hp s _ 1 le_rfl

end Ohno.Ipam
