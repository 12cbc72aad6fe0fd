import Ohno.IpamHistory

/-!
# Sequential histories in which every command succeeds

Etcd is a map here, so a history of calls is a function of the calls. The
stored list of every node then decodes to the held addresses of that node, and
for a node whose recorded subnet is an IPv4 network with a prefix length from 1
to 30, `allocateIp` is first fit over the hosts of that network.
-/
namespace Ohno.IpamSequential
open CommandPrograms DelimitedLists AddressText EtcdClientShell Subnets FirstFit Ipam IpamHistory

/-- The calls so far with their results, and the map they left. -/
structure Run where
  log : List Event
  store : Store

def step (boost : Boost) (w : Run) (c : IpamCall) : Run :=
  let r := (c.program boost).run Etcd.ok w.store
  ⟨w.log ++ [(c, r.1)], r.2⟩

def execute (boost : Boost) (calls : List IpamCall) (s : Store) : Run :=
  calls.foldl (step boost) ⟨[], s⟩

theorem execute_concat (boost : Boost) (calls : List IpamCall) (c : IpamCall) (s : Store) :
    execute boost (calls ++ [c]) s = step boost (execute boost calls s) c := by
  simp [execute]

/-! ### One call -/

theorem allocateIp_end (boost : Boost) (node : Text) (s : Store) :
    AllocateEnd node s ((allocateIp boost node).run Etcd.ok s).1
      ((allocateIp boost node).run Etcd.ok s).2 :=
  (Program.safe_det Etcd.ok _ _ s).mp
    ((safe_allocateIp boost node s).restrict Etcd.failing_of_det)

variable {boost : Boost} {w : Run}

theorem step_releaseIp (node ip : Text) :
    step boost w (.releaseIp node ip) =
      ⟨w.log ++ [(.releaseIp node ip, .ok (true, []))], w.store.delValue (addressKey node) ip⟩ := by
  simp [step, IpamCall.program]

/-- A call writes one key, the address list of its own node. -/
theorem step_frame (c : IpamCall) {k : Text} (hk : k ≠ addressKey c.node) :
    (step boost w c).store k = w.store k := by
  cases c with
  | allocateIp node =>
      exact (allocateIp_end boost node w.store).frame hk
  | releaseIp node ip =>
      rw [step_releaseIp]
      exact Store.delValue_of_ne hk

/-- The stored list of `node` is what the log says `node` holds. -/
structure Agrees (node : Text) (w : Run) : Prop where
  holds : w.store.Holds (addressKey node) (held node w.log)
  nodup : (held node w.log).Nodup

theorem Agrees.step {node : Text} (h : Agrees node w) (c : IpamCall) :
    Agrees node (step boost w c) := by
  by_cases hc : c.node = node
  · subst hc
    cases c with
    | allocateIp node =>
        have hend := allocateIp_end boost node w.store
        simp only [IpamCall.node] at h
        refine ⟨?_, ?_⟩
        · simpa only [IpamSequential.step, held_concat, IpamCall.program, IpamCall.node] using
            hend.holds h.holds
        · have hsub : held node w.log ⊆ w.store.values (addressKey node) := by
            rw [h.holds.values]
            exact List.Subset.refl _
          simpa only [IpamSequential.step, held_concat, IpamCall.program, IpamCall.node] using
            hend.nodup h.nodup hsub
    | releaseIp node ip =>
        rw [step_releaseIp]
        simp only [IpamCall.node] at h
        refine ⟨?_, ?_⟩
        · simpa only [held_concat, heldStep, IpamCall.node, if_true] using h.holds.delValue
        · simpa only [held_concat, heldStep, IpamCall.node, if_true] using h.nodup.filter _
  · have hk : addressKey node ≠ addressKey c.node := fun he => hc (addressKey_injective he).symm
    have hheld : held node (IpamSequential.step boost w c).log = held node w.log := by
      simp only [IpamSequential.step, held_concat, heldStep_of_ne hc]
    exact ⟨hheld ▸ h.holds.congr (step_frame c hk), hheld ▸ h.nodup⟩

/-! ### Histories -/

theorem execute_agrees {s : Store} {node : Text} (h : s.values (addressKey node) = [])
    (calls : List IpamCall) : Agrees node (execute boost calls s) := by
  induction calls using List.reverseRecOn with
  | nil =>
      have hv : s.value (addressKey node) = [] := by
        simpa only [Store.values, split_eq_nil_iff] using h
      exact ⟨⟨hv, by simp [execute]⟩, List.nodup_nil⟩
  | append_singleton calls c ih =>
      rw [execute_concat]
      exact ih.step c

theorem execute_subnet (s : Store) (node : Text) (calls : List IpamCall) :
    (execute boost calls s).store (subnetKey node) = s (subnetKey node) := by
  induction calls using List.reverseRecOn with
  | nil => rfl
  | append_singleton calls c ih =>
      rw [execute_concat, step_frame c (subnetKey_ne_addressKey node c.node), ih]

/-! ### The hosts of a network -/

/-- The addresses of a network share its leading bits. -/
def Contains (net : NetworkV4) (x : BitVec 32) : Prop :=
  x.toNat / 2 ^ (32 - net.prefixLength) = net.address.toNat / 2 ^ (32 - net.prefixLength)

/-- No bit is set behind the prefix. -/
def HostBitsZero (net : NetworkV4) : Prop :=
  net.address.toNat % 2 ^ (32 - net.prefixLength) = 0

/-- The last address of a network. -/
def broadcast (net : NetworkV4) : BitVec 32 :=
  net.address + BitVec.ofNat 32 (2 ^ (32 - net.prefixLength) - 1)

theorem host_toNat {net : NetworkV4} (hb : HostBitsZero net) (hp : net.prefixLength ≤ 32) {i : ℕ}
    (hi : i < 2 ^ (32 - net.prefixLength)) :
    (net.address + BitVec.ofNat 32 i).toNat = net.address.toNat + i := by
  have hlt := net.address.isLt
  have hpow : 2 ^ 32 = 2 ^ (32 - net.prefixLength) * 2 ^ net.prefixLength := by
    rw [← pow_add, Nat.sub_add_cancel hp]
  have hdiv := Nat.div_add_mod net.address.toNat (2 ^ (32 - net.prefixLength))
  rw [HostBitsZero] at hb
  rw [hb, Nat.add_zero] at hdiv
  have hq : net.address.toNat / 2 ^ (32 - net.prefixLength) + 1 ≤ 2 ^ net.prefixLength := by
    rw [hpow] at hlt
    exact Nat.div_lt_of_lt_mul hlt
  have hle := Nat.mul_le_mul_left (2 ^ (32 - net.prefixLength)) hq
  rw [Nat.mul_add, hdiv, Nat.mul_one, ← hpow] at hle
  rw [BitVec.toNat_add, BitVec.toNat_ofNat]
  omega

theorem host_inside {net : NetworkV4} (hb : HostBitsZero net) (hp : net.prefixLength ≤ 32) {i : ℕ}
    (h₁ : 1 ≤ i) (h₂ : i ≤ 2 ^ (32 - net.prefixLength) - 2) :
    Contains net (net.address + BitVec.ofNat 32 i) ∧
      net.address + BitVec.ofNat 32 i ≠ net.address ∧
      net.address + BitVec.ofNat 32 i ≠ broadcast net := by
  have hi := host_toNat hb hp (i := i) (by omega)
  have hlast := host_toNat hb hp (i := 2 ^ (32 - net.prefixLength) - 1) (by omega)
  refine ⟨?_, fun h => ?_, fun h => ?_⟩
  · have hpos : 0 < 2 ^ (32 - net.prefixLength) := Nat.two_pow_pos _
    have hsmall : i / 2 ^ (32 - net.prefixLength) = 0 := Nat.div_eq_of_lt (by omega)
    obtain ⟨q, hq⟩ := Nat.dvd_of_mod_eq_zero hb
    rw [Contains, hi, hq, Nat.mul_add_div hpos, Nat.mul_div_cancel_left q hpos, hsmall,
      Nat.add_zero]
  · have := congrArg BitVec.toNat h
    omega
  · have := congrArg BitVec.toNat h
    rw [hi, broadcast, hlast] at this
    omega

/-- The end of an `allocateIp` of a network on a list: first fit over the hosts. -/
inductive FirstFitEnd (net : NetworkV4) (node : Text) (s : Store) :
    Except Thrown (Bool × Text) × Store → Prop where
  | lowest (i : ℕ) (pos : 1 ≤ i) (le : i ≤ 2 ^ (32 - net.prefixLength) - 2)
      (free : hostText net i ∉ s.values (addressKey node))
      (least : ∀ j, 1 ≤ j → j < i → hostText net j ∈ s.values (addressKey node))
      (inside : Contains net (net.address + BitVec.ofNat 32 i))
      (notNetwork : net.address + BitVec.ofNat 32 i ≠ net.address)
      (notBroadcast : net.address + BitVec.ofNat 32 i ≠ broadcast net) :
      FirstFitEnd net node s
        (.ok (true, hostText net i), s.append (addressKey node) (hostText net i))
  | exhausted (full : ∀ j, 1 ≤ j → j ≤ 2 ^ (32 - net.prefixLength) - 2 →
        hostText net j ∈ s.values (addressKey node)) :
      FirstFitEnd net node s (.ok (false, []), s)

theorem allocateIp_firstFit {node : Text} {net : NetworkV4} {s : Store}
    (hs : Subnet.init boost (s.value (subnetKey node)) = .ok ⟨net, .ipv4⟩)
    (h₁ : 1 ≤ net.prefixLength) (h₂ : net.prefixLength ≤ 30) (hb : HostBitsZero net) :
    FirstFitEnd net node s ((allocateIp boost node).run Etcd.ok s) := by
  rw [run_allocateIp boost s hs (by omega), hostCount_eq h₁ h₂]
  cases hf : firstFree (hostText net) (2 ^ (32 - net.prefixLength) - 2)
      (s.values (addressKey node)) with
  | none => exact .exhausted (firstFree_eq_none_iff.mp hf)
  | some i =>
      obtain ⟨hi, hle, hfree, hleast⟩ := firstFree_eq_some_iff.mp hf
      obtain ⟨hin, hn, hbc⟩ := host_inside hb (by omega) hi hle
      exact .lowest i hi hle hfree hleast hin hn hbc

end Ohno.IpamSequential
