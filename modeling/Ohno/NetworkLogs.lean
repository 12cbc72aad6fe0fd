import Mathlib.Data.List.TakeWhile
import Ohno.Conducts

/-!
# The network commands of a program

`Logs p s Q` says where the program ends from the map `s` whatever the network
answers, as long as the etcdctl commands succeed. `Q` sees the outcome, the map
and the commands that the program itself has issued, with their answers; a
sequence has the commands of its first half in front of those of its second.
-/
namespace Ohno.NetworkLogs
open CommandPrograms EtcdClientShell Netlink Conducts

variable {A B : Type}

def Logs (p : OhnoProgram A) (s : Store) (Q : Except Thrown A → Store → Log → Prop) : Prop :=
  ∀ l, p.Safe Conduct.anyNetwork.handle
    (fun o w => ∃ t l', w = ⟨t, l ++ l', none⟩ ∧ Q o t l') ⟨s, l, none⟩

/-- The program returns, and the map stays as it is. -/
def Reads (p : OhnoProgram A) (s : Store) (Q : A → Log → Prop) : Prop :=
  Logs p s fun o t l => ∃ a, o = .ok a ∧ t = s ∧ Q a l

namespace Logs
variable {p : OhnoProgram A} {f : A → OhnoProgram B} {s : Store}
variable {P Q : Except Thrown A → Store → Log → Prop} {Q' : Except Thrown B → Store → Log → Prop}

theorem pure {a : A} (h : Q (.ok a) s []) : Logs (.pure a) s Q :=
  fun l => ⟨s, [], by simp, h⟩

theorem throw {e : Thrown} (h : Q (.error e) s []) : Logs (.throw e) s Q :=
  fun l => ⟨s, [], by simp, h⟩

theorem mono (h : Logs p s P) (hQ : ∀ o t l, P o t l → Q o t l) : Logs p s Q := by
  intro l
  apply (h l).mono
  intro o w ⟨t, l', hw, hP⟩
  exact ⟨t, l', hw, hQ o t l' hP⟩

theorem bind (h : Logs p s P)
    (ok : ∀ a t l, P (.ok a) t l → Logs (f a) t fun o u l' => Q' o u (l ++ l'))
    (error : ∀ e t l, P (.error e) t l → Q' (.error e) t l) : Logs (p.bind f) s Q' := by
  intro l
  rw [Program.safe_bind]
  apply (h l).mono
  intro o w ⟨t, l', hw, hP⟩
  subst hw
  cases o with
  | error e => exact ⟨t, l', rfl, error e t l' hP⟩
  | ok a =>
      apply (ok a t l' hP (l ++ l')).mono
      intro o w ⟨u, l'', hw, hQ⟩
      exact ⟨u, l' ++ l'', by rw [hw, List.append_assoc], hQ⟩

theorem catch_ {handler : Thrown → OhnoProgram A} (h : Logs p s P)
    (ok : ∀ a t l, P (.ok a) t l → Q (.ok a) t l)
    (error : ∀ e t l, P (.error e) t l → Logs (handler e) t fun o u l' => Q o u (l ++ l')) :
    Logs (p.catch_ handler) s Q := by
  intro l
  rw [Program.safe_catch]
  apply (h l).mono
  intro o w ⟨t, l', hw, hP⟩
  subst hw
  cases o with
  | ok a => exact ⟨t, l', rfl, ok a t l' hP⟩
  | error e =>
      apply (error e t l' hP (l ++ l')).mono
      intro o w ⟨u, l'', hw, hQ⟩
      exact ⟨u, l' ++ l'', by rw [hw, List.append_assoc], hQ⟩

theorem etcd {q : EtcdProgram A} {o : Except Thrown A} {t : Store} (h : q.run Etcd.ok s = (o, t))
    (hQ : Q o t []) : Logs (Netlink.etcd q) s Q := by
  intro l
  rw [safe_etcd (Conduct.settled_anyNetwork none), h]
  exact ⟨t, [], by simp, hQ⟩

/-- An etcdctl program in front of another program. -/
theorem etcd_bind {q : EtcdProgram A} {a : A} {t : Store} (h : q.run Etcd.ok s = (.ok a, t))
    (hf : Logs (f a) t Q') : Logs ((Netlink.etcd q).bind f) s Q' := by
  apply bind (etcd (Q := fun o u l => o = .ok a ∧ u = t ∧ l = []) h ⟨rfl, rfl, rfl⟩)
  · intro a' u l ⟨ho, hu, hl⟩
    cases ho
    subst hu hl
    exact hf
  · intro e u l ⟨ho, _⟩
    cases ho

theorem netlink {c : NetlinkCmd} {Q : Except Thrown Bool → Store → Log → Prop}
    (h : ∀ b, Q (.ok b) s [(c, b)]) : Logs (Netlink.netlink c) s Q := by
  intro l
  rw [safe_netlink (Conduct.settled_anyNetwork none)]
  intro b _
  exact ⟨s, [(c, b)], rfl, h b⟩

theorem netlink_bind {c : NetlinkCmd} {f : Bool → OhnoProgram B}
    (h : ∀ b, Logs (f b) s fun o t l => Q' o t ((c, b) :: l)) :
    Logs ((Netlink.netlink c).bind f) s Q' := by
  have hc : Logs (Netlink.netlink c) s fun o t l => ∃ b, o = .ok b ∧ t = s ∧ l = [(c, b)] :=
    netlink fun b => ⟨b, rfl, rfl, rfl⟩
  apply bind hc
  · intro a t l ⟨b, ho, ht, hl⟩
    cases ho
    subst ht hl
    exact h a
  · intro e t l ⟨b, ho, _⟩
    cases ho

/-- Every execution without commands before it. -/
theorem exec (h : Logs p s Q) {o : Except Thrown A} {w : World}
    (x : p.Exec Conduct.anyNetwork.handle ⟨s, [], none⟩ o w) : Q o w.store w.log := by
  obtain ⟨t, l, rfl, hQ⟩ := (h []).exec x
  exact hQ

end Logs

namespace Reads
variable {p : OhnoProgram A} {f : A → OhnoProgram B} {s : Store} {P Q : A → Log → Prop}

theorem pure {a : A} (h : Q a []) : Reads (.pure a) s Q := Logs.pure ⟨a, rfl, rfl, h⟩

theorem mono (h : Reads p s P) (hQ : ∀ a l, P a l → Q a l) : Reads p s Q := by
  apply Logs.mono h
  intro o t l ⟨a, ho, ht, hP⟩
  exact ⟨a, ho, ht, hQ a l hP⟩

/-- A program that reads, in front of any other. -/
theorem then_ {Q' : Except Thrown B → Store → Log → Prop} (h : Reads p s P)
    (hf : ∀ a l, P a l → Logs (f a) s fun o t l' => Q' o t (l ++ l')) : Logs (p.bind f) s Q' := by
  apply Logs.bind h
  · intro a t l ⟨a', ho, ht, hP⟩
    cases ho
    subst ht
    exact hf a l hP
  · intro e t l ⟨a', ho, _⟩
    cases ho

theorem bind {Q' : B → Log → Prop} (h : Reads p s P)
    (hf : ∀ a l, P a l → Reads (f a) s fun b l' => Q' b (l ++ l')) : Reads (p.bind f) s Q' :=
  then_ h hf

theorem etcd_bind {q : EtcdProgram A} {a : A} {Q' : B → Log → Prop}
    (h : q.run Etcd.ok s = (.ok a, s)) (hf : Reads (f a) s Q') :
    Reads ((Netlink.etcd q).bind f) s Q' := Logs.etcd_bind h hf

theorem netlink {c : NetlinkCmd} {Q : Bool → Log → Prop} (h : ∀ b, Q b [(c, b)]) :
    Reads (Netlink.netlink c) s Q := Logs.netlink fun b => ⟨b, rfl, rfl, h b⟩

theorem netlink_bind {c : NetlinkCmd} {f : Bool → OhnoProgram B} {Q' : B → Log → Prop}
    (h : ∀ b, Reads (f b) s fun b' l => Q' b' ((c, b) :: l)) :
    Reads ((Netlink.netlink c).bind f) s Q' := Logs.netlink_bind h

end Reads

/-! ### Looking at logs -/

/-- The answer to the first command of a kind. -/
def firstAnswer (q : NetlinkCmd → Bool) (log : Log) : Option Bool :=
  (log.find? fun e => q e.1).map (·.2)

/-- How many commands of the kind `r` stand before the first of the kind `q`. -/
def countBefore (q r : NetlinkCmd → Bool) (log : Log) : ℕ :=
  (log.takeWhile fun e => !q e.1).countP fun e => r e.1

/-- No command of a kind. -/
def Silent (q : NetlinkCmd → Bool) (log : Log) : Prop := ∀ e ∈ log, q e.1 = false

section Queries
variable {q r : NetlinkCmd → Bool} {l l' : Log}

theorem firstAnswer_append : firstAnswer q (l ++ l') = (firstAnswer q l).or (firstAnswer q l') := by
  rw [firstAnswer, List.find?_append]
  cases h : l.find? fun e => q e.1 <;> simp [firstAnswer, h]

theorem silent_append : Silent q (l ++ l') ↔ Silent q l ∧ Silent q l' := by
  simp only [Silent, List.mem_append, or_imp, forall_and]

@[simp] theorem silent_nil : Silent q [] := by simp [Silent]

theorem silent_cons {e : NetlinkCmd × Bool} : Silent q (e :: l) ↔ q e.1 = false ∧ Silent q l := by
  simp [Silent]

theorem firstAnswer_eq_none_iff : firstAnswer q l = none ↔ Silent q l := by
  simp [firstAnswer, Silent]

theorem countBefore_of_silent (h : Silent q l) : countBefore q r l = l.countP fun e => r e.1 := by
  rw [countBefore, List.takeWhile_eq_self_iff.mpr]
  intro e he
  simp [h e he]

/-- The first of the kind `q` is in the first part. -/
theorem countBefore_append (h : ¬ Silent q l) : countBefore q r (l ++ l') = countBefore q r l := by
  unfold Silent at h
  push Not at h
  obtain ⟨e, he, hq⟩ := h
  rw [countBefore, List.takeWhile_append, if_neg, countBefore]
  intro hlen
  have hall := List.takeWhile_eq_self_iff.mp (List.takeWhile_sublist _ |>.eq_of_length hlen) e he
  simp_all

theorem countBefore_append_of_silent (h : Silent q l) :
    countBefore q r (l ++ l') = (l.countP fun e => r e.1) + countBefore q r l' := by
  have hall : l.takeWhile (fun e => !q e.1) = l := by
    rw [List.takeWhile_eq_self_iff]
    intro e he
    simp [h e he]
  rw [countBefore, List.takeWhile_append, hall, if_pos rfl, List.countP_append, countBefore]

theorem countP_eq_zero_of_silent (h : Silent r l) : (l.countP fun e => r e.1) = 0 := by
  rw [List.countP_eq_zero]
  intro e he
  simp [h e he]

end Queries
end Ohno.NetworkLogs
