import Ohno.AddRecords

/-!
# Programs in which one command fails

`Bears m node base p R Q P` is the triple for a world in which at most one
command fails. From the registry `R` the program ends as `Q` says, which may
include that a command failed and nobody noticed. Otherwise some command `c`
failed in it, and it ends as `P c` says. Once a command has failed nothing else
fails, so from there on the rules of `Runs` apply.
-/
namespace Ohno.SingleFaults
open CommandPrograms DelimitedLists AddressText EtcdClientShell Subnets FirstFit Ipam Netlink Nics
open Storage CniPlugin Records Conducts RecordPrograms RestoredNode DelRecords AddRecords

section Triple
variable {A B : Type}

def Bears (m : Conduct) (node : Text) (base : Store) (p : OhnoProgram A) (R : Registry)
    (Q : Except Thrown A → Registry → Prop) (P : Cmd → Except Thrown A → Registry → Prop) : Prop :=
  ∀ l ft, p.Safe m.handle (fun o w => ∃ R' : Registry, w.store = R'.store node base ∧
      (Q o R' ∧ (ft ≠ none → w.fault = ft) ∨
        ft = none ∧ ∃ c s, w.fault = some (c, s) ∧ P c o R'))
    ⟨R.store node base, l, ft⟩

/-- The program returns a value. -/
def Returns (J : A → Registry → Prop) (o : Except Thrown A) (R : Registry) : Prop :=
  ∃ a, o = .ok a ∧ J a R

def Throws (K : Registry → Prop) (o : Except Thrown A) (R : Registry) : Prop :=
  (∃ e, o = .error e) ∧ K R

theorem returns_ok {J : A → Registry → Prop} {a : A} {R : Registry} (h : J a R) :
    Returns J (.ok a) R := ⟨a, rfl, h⟩

theorem throws_error {K : Registry → Prop} {e : Thrown} {R : Registry} (h : K R) :
    Throws K (.error e : Except Thrown A) R := ⟨⟨e, rfl⟩, h⟩

namespace Bears
variable {m : Conduct} {node : Text} {base : Store} {p : OhnoProgram A} {f : A → OhnoProgram B}
variable {R R' : Registry} {Q Q' : Except Thrown A → Registry → Prop}
variable {P P' : Cmd → Except Thrown A → Registry → Prop}
variable {S : Except Thrown B → Registry → Prop} {T : Cmd → Except Thrown B → Registry → Prop}

theorem pure {a : A} (h : Q (.ok a) R) : Bears m node base (.pure a) R Q P :=
  fun _ _ => ⟨R, rfl, .inl ⟨h, fun _ => rfl⟩⟩

theorem throw {e : Thrown} (h : Q (.error e) R) : Bears m node base (.throw e) R Q P :=
  fun _ _ => ⟨R, rfl, .inl ⟨h, fun _ => rfl⟩⟩

/-- A failure may be told apart or not. -/
theorem mono (h : Bears m node base p R Q P) (hq : ∀ o R', Q o R' → Q' o R')
    (hp : ∀ c o R', P c o R' → Q' o R' ∨ P' c o R') : Bears m node base p R Q' P' := by
  intro l ft
  apply (h l ft).mono
  intro o w hw
  obtain ⟨R', hs, ⟨hQ, hf⟩ | ⟨hn, c, s, hc, hP⟩⟩ := hw
  · exact ⟨R', hs, .inl ⟨hq o R' hQ, hf⟩⟩
  · refine ⟨R', hs, ?_⟩
    rcases hp c o R' hP with hQ | hP
    · exact .inl ⟨hQ, fun hft => absurd hn hft⟩
    · exact .inr ⟨hn, c, s, hc, hP⟩

/-- What follows a command that failed is a run. -/
theorem bind (hm : m.Obliges) (h : Bears m node base p R Q P)
    (hf : ∀ a R', Q (.ok a) R' → Bears m node base (f a) R' S T)
    (he : ∀ e R', Q (.error e) R' → S (.error e) R')
    (hp : ∀ c a R', P c (.ok a) R' →
      ∃ o R'', Runs node base (f a) R' o R'' ∧ (S o R'' ∨ T c o R''))
    (hpe : ∀ c e R', P c (.error e) R' → T c (.error e) R') :
    Bears m node base (p.bind f) R S T := by
  intro l ft
  rw [Program.safe_bind]
  apply (h l ft).mono
  intro o w hw
  obtain ⟨store, log, fault⟩ := w
  obtain ⟨R', hs, hcase⟩ := hw
  change store = R'.store node base at hs
  change Q o R' ∧ (ft ≠ none → fault = ft) ∨
    ft = none ∧ ∃ c s, fault = some (c, s) ∧ P c o R' at hcase
  subst hs
  cases o with
  | error e =>
      rcases hcase with ⟨hQ, hfault⟩ | ⟨hn, c, s, hc, hP⟩
      · exact ⟨R', rfl, .inl ⟨he e R' hQ, hfault⟩⟩
      · exact ⟨R', rfl, .inr ⟨hn, c, s, hc, hpe c e R' hP⟩⟩
  | ok a =>
      rcases hcase with ⟨hQ, hfault⟩ | ⟨hn, c, s, hc, hP⟩
      · apply (hf a R' hQ log fault).mono
        intro o w hw
        obtain ⟨R'', hs, ⟨hS, hkeep⟩ | ⟨hn, c, s, hc, hT⟩⟩ := hw
        · refine ⟨R'', hs, .inl ⟨hS, fun hft => ?_⟩⟩
          have hfa : fault = ft := hfault hft
          exact (hkeep (hfa ▸ hft)).trans hfa
        · refine ⟨R'', hs, .inr ⟨?_, c, s, hc, hT⟩⟩
          by_contra hft
          exact hft ((hfault hft).symm.trans hn)
      · obtain ⟨o', R'', hrun, hend⟩ := hp c a R' hP
        cases hc
        apply (hrun m hm log (some (c, s)) (Conduct.settled_some m _)).mono
        intro o w hw
        obtain ⟨rfl, l', rfl⟩ := hw
        refine ⟨R'', rfl, ?_⟩
        rcases hend with hS | hT
        · exact .inl ⟨hS, fun hft => absurd hn hft⟩
        · exact .inr ⟨hn, c, s, rfl, hT⟩

/-- The first half returns a value, whether or not a command fails in it. -/
theorem bind_returns (hm : m.Obliges) {J : A → Registry → Prop} {K : Cmd → A → Registry → Prop}
    (h : Bears m node base p R (Returns J) (fun c => Returns (K c)))
    (hf : ∀ a R', J a R' → Bears m node base (f a) R' S T)
    (hk : ∀ c a R', K c a R' → ∃ o R'', Runs node base (f a) R' o R'' ∧ (S o R'' ∨ T c o R'')) :
    Bears m node base (p.bind f) R S T := by
  apply bind hm h
  · intro a R' hJ
    obtain ⟨b, hb, hJ⟩ := hJ
    cases hb
    exact hf a R' hJ
  · intro e R' hJ
    obtain ⟨b, hb, -⟩ := hJ
    cases hb
  · intro c a R' hK
    obtain ⟨b, hb, hK⟩ := hK
    cases hb
    exact hk c a R' hK
  · intro c e R' hK
    obtain ⟨b, hb, -⟩ := hK
    cases hb

/-- The first half throws when a command fails in it and is noticed. -/
theorem bind_throws (hm : m.Obliges) {J : A → Registry → Prop} {K : Cmd → Registry → Prop}
    (h : Bears m node base p R (Returns J) (fun c => Throws (K c)))
    (hf : ∀ a R', J a R' → Bears m node base (f a) R' S T)
    (hk : ∀ c e R', K c R' → T c (.error e) R') : Bears m node base (p.bind f) R S T := by
  apply bind hm h
  · intro a R' hJ
    obtain ⟨b, hb, hJ⟩ := hJ
    cases hb
    exact hf a R' hJ
  · intro e R' hJ
    obtain ⟨b, hb, -⟩ := hJ
    cases hb
  · intro c a R' hK
    obtain ⟨⟨e, he⟩, -⟩ := hK
    cases he
  · intro c e R' hK
    exact hk c e R' hK.2

/-- A step that reports its failure, and the exception for it. -/
theorem check (hm : m.Obliges) {p : OhnoProgram Bool} {q : OhnoProgram B} {e : Thrown}
    {J : Registry → Prop} {K : Cmd → Registry → Prop}
    (h : Bears m node base p R (Returns fun b R' => b = true ∧ J R')
      (fun c => Returns fun b R' => b = false ∧ K c R'))
    (hq : ∀ R', J R' → Bears m node base q R' S T)
    (hk : ∀ c R', K c R' → T c (.error e) R') :
    Bears m node base (p.bind fun b => if b then q else .throw e) R S T := by
  apply bind_returns hm h
  · intro b R' hJ
    obtain ⟨rfl, hJ⟩ := hJ
    exact hq R' hJ
  · intro c b R' hK
    obtain ⟨rfl, hK⟩ := hK
    exact ⟨_, R', Runs.throw e R', .inr (hk c R' hK)⟩

/-- The end of an execution in which nothing had failed. -/
theorem exec (h : Bears m node base p R Q P) {l : Log} {o : Except Thrown A} {w : World}
    (hx : p.Exec m.handle ⟨R.store node base, l, none⟩ o w) :
    ∃ R' : Registry, w.store = R'.store node base ∧
      (Q o R' ∨ ∃ c s, w.fault = some (c, s) ∧ P c o R') := by
  obtain ⟨R', hs, ⟨hQ, -⟩ | ⟨-, hP⟩⟩ := (h l none).exec hx
  · exact ⟨R', hs, .inl hQ⟩
  · exact ⟨R', hs, .inr hP⟩

theorem call (hm : m.Obliges) {c : EtcdCmd} {next : Reply → OhnoProgram A}
    (hs : (Etcd.ok c (R.store node base)).2 = R'.store node base)
    (ok : Bears m node base (next (Etcd.ok c (R.store node base)).1) R' Q P)
    (failed : ∃ o R'', Runs node base (next ⟨false, []⟩) R o R'' ∧ (Q o R'' ∨ P (.etcd c) o R'')) :
    Bears m node base (.call (.etcd c) next) R Q P := by
  intro l ft r u hu
  rcases hu with ⟨rfl, rfl⟩ | ⟨hn, -, rfl, rfl⟩
  · have h := ok l ft
    rwa [← hs] at h
  · obtain ⟨o, R'', hrun, hend⟩ := failed
    apply (hrun m hm l _ (Conduct.settled_some m _)).mono
    intro o w hw
    obtain ⟨rfl, l', rfl⟩ := hw
    refine ⟨R'', rfl, ?_⟩
    rcases hend with hQ | hP
    · exact .inl ⟨hQ, fun hft => absurd hn hft⟩
    · exact .inr ⟨hn, _, _, rfl, hP⟩

theorem netlink_bind (hm : m.Obliges) {c : NetlinkCmd} {f : Bool → OhnoProgram B}
    (ok : ∀ b, m.answers c b → Bears m node base (f b) R S T)
    (failed : ∃ o R', Runs node base (f false) R o R' ∧ (S o R' ∨ T (.netlink c) o R')) :
    Bears m node base ((Netlink.netlink c).bind f) R S T := by
  intro l ft
  simp only [Netlink.netlink, Program.bind_eq, Program.request, Program.bind, Program.pure_eq]
  intro r u hu
  rcases hu with ⟨ha, rfl⟩ | ⟨hn, -, rfl, rfl⟩
  · exact ok r.ok ha _ ft
  · obtain ⟨o, R'', hrun, hend⟩ := failed
    apply (hrun m hm l _ (Conduct.settled_some m _)).mono
    intro o w hw
    obtain ⟨rfl, l', rfl⟩ := hw
    refine ⟨R'', rfl, ?_⟩
    rcases hend with hQ | hP
    · exact .inl ⟨hQ, fun hft => absurd hn hft⟩
    · exact .inr ⟨hn, _, _, rfl, hP⟩

/-- Nothing depends on the answer of a query, so nothing depends on its failure. -/
theorem query_bind (hm : m.Obliges) {c : NetlinkCmd} {f : Bool → OhnoProgram B}
    (ok : ∀ b, Bears m node base (f b) R S T)
    (failed : ∃ o R', Runs node base (f false) R o R' ∧ S o R') :
    Bears m node base ((Netlink.netlink c).bind f) R S T := by
  obtain ⟨o, R', hrun, hS⟩ := failed
  exact netlink_bind hm (fun b _ => ok b) ⟨o, R', hrun, .inl hS⟩

/-- A command that changes the network succeeds or is the one that fails. -/
theorem netlink (hm : m.Obliges) {c : NetlinkCmd} (hc : isQuery c = false) :
    Bears m node base (Netlink.netlink c) R (Returns fun b R' => b = true ∧ R' = R)
      (fun c' => Returns fun b R' => b = false ∧ c' = .netlink c ∧ R' = R) := by
  have h : Bears m node base ((Netlink.netlink c).bind .pure) R
      (Returns fun b R' => b = true ∧ R' = R)
      (fun c' => Returns fun b R' => b = false ∧ c' = .netlink c ∧ R' = R) := by
    apply netlink_bind hm
    · intro b hb
      exact pure (returns_ok ⟨hm c b hb hc, rfl⟩)
    · exact ⟨_, R, Runs.pure false R, .inr (returns_ok ⟨rfl, rfl, rfl⟩)⟩
  rwa [Program.bind_pure] at h

end Bears

end Triple

section Faults
variable {A : Type} {m : Conduct} {p : OhnoProgram A} {o : Except Thrown A} {w v : World}

/-- The first failure is the only one. -/
theorem exec_fault_some (h : p.Exec m.handle w o v) {f : Fault} (hw : w.fault = some f) :
    v.fault = some f := by
  induction p generalizing w with
  | pure a => rw [h.2, hw]
  | throw e => rw [h.2, hw]
  | call c next ih =>
      obtain ⟨r, u, hu, hx⟩ := h
      have hfault : u.fault = some f := by
        rcases hu with hu | ⟨hn, -⟩
        · cases c with
          | etcd e => rw [hu.2, ← hw]
          | netlink n => rw [hu.2, ← hw]
        · rw [hn] at hw
          cases hw
      exact ih r hx hfault

/-- As long as nothing failed every command succeeded. -/
theorem exec_fault_none (h : p.Exec Conduct.oneFault.handle w o v) (hv : v.fault = none) :
    p.Exec Conduct.obliging.handle w o v := by
  induction p generalizing w with
  | pure a => exact h
  | throw e => exact h
  | call c next ih =>
      obtain ⟨r, u, hu, hx⟩ := h
      rcases hu with hu | ⟨-, -, -, rfl⟩
      · exact ⟨r, u, .inl hu, ih r hx⟩
      · have hsome := exec_fault_some hx rfl
        rw [hv] at hsome
        cases hsome

end Faults

/-- One way to fail: `cmd` does when it is issued first. Everything else
succeeds, and every query is answered yes. -/
def stumble (cmd c : Cmd) (w : World) : Reply × World :=
  if w.fault.isNone ∧ c = cmd then (⟨false, []⟩, { w with fault := some (c, w.store) })
  else Conduct.comply c w

theorem handle_stumble {m : Conduct} {cmd : Cmd} (h : ∀ n, m.answers n true) (hf : m.fails cmd)
    (c : Cmd) (w : World) : m.handle c w (stumble cmd c w).1 (stumble cmd c w).2 := by
  unfold stumble
  split_ifs with hc
  · obtain ⟨hn, rfl⟩ := hc
    exact .inr ⟨Option.isNone_iff_eq_none.mp hn, hf, rfl, rfl⟩
  · exact Conduct.handle_comply h c w

/-! ### The commands of the client -/

section Etcd
variable {m : Conduct} {node : Text} {base : Store} {R : Registry} {l : ListKey} {j : ValueKey}
variable {v : Text}

theorem etcd_bind {A B : Type} (p : EtcdProgram A) (f : A → EtcdProgram B) :
    etcd (p.bind f) = (etcd p).bind fun a => etcd (f a) := Program.embed_bind p f

theorem etcd_ite {A : Type} {c : Prop} [Decidable c] (p q : EtcdProgram A) :
    etcd (if c then p else q) = if c then etcd p else etcd q := by
  split_ifs <;> rfl

theorem etcd_append (k v : Text) : etcd (append k v) = .call (.etcd (.get k)) fun r =>
    .call (.etcd (.put k (if r.ok then
        (if eraseNewlines r.out = [] then v else eraseNewlines r.out ++ ',' :: v)
      else v))) fun r' => .pure r'.ok := by
  have h := append_bind k v Program.pure
  rw [Program.bind_pure] at h
  rw [h]
  rfl

/-- A list that is written over. -/
theorem set_list_store (hl : l.Sound) (hv : Store.Item v) :
    (R.store node base).set (l.text node) v = ((R.clearList l).push l v hv).store node base := by
  have h : (R.store node base).write (l.text node) [v] =
      ((R.clearList l).push l v hv).store node base := by
    apply Registry.write_store hl
    · simp
    · intro l' hne
      simp [hne]
    · rfl
  simpa [Store.write] using h

theorem bears_get (hm : m.Obliges) (hj : j.Sound) :
    Bears m node base (etcd (EtcdClientShell.get (j.text node))) R
      (Returns fun r R' => r = ⟨true, (R.value j).getD []⟩ ∧ R' = R)
      (fun c => Returns fun r R' => r = ⟨false, []⟩ ∧ c = .etcd (.get (j.text node)) ∧ R' = R) := by
  have hval := Registry.value_store R node base hj
  rw [Store.value] at hval
  have hs : (Etcd.ok (.get (j.text node)) (R.store node base)).2 = R.store node base := rfl
  apply Bears.call hm hs
  · apply Bears.pure
    apply returns_ok
    simp only [Etcd.ok, if_true, hval, and_self]
  · exact ⟨_, R, Runs.pure _ R, .inr (returns_ok ⟨rfl, rfl, rfl⟩)⟩

theorem bears_put (hm : m.Obliges) (hj : j.Sound) (hv : '\n' ∉ v) :
    Bears m node base (etcd (put (j.text node) v)) R
      (Returns fun b R' => b = true ∧ R' = R.assign j v hv)
      (fun c => Returns fun b R' => b = false ∧ c = .etcd (.put (j.text node) v) ∧ R' = R) := by
  apply Bears.call hm (c := .put (j.text node) v) (Registry.set_store R node base hj hv)
  · exact Bears.pure (returns_ok ⟨rfl, rfl⟩)
  · exact ⟨_, R, Runs.pure _ R, .inr (returns_ok ⟨rfl, rfl, rfl⟩)⟩

theorem bears_list (hm : m.Obliges) (hl : l.Sound) :
    Bears m node base (etcd (list (l.text node))) R
      (Returns fun items R' => items = some (R.list l) ∧ R' = R)
      (fun c => Returns fun items R' => items = none ∧
        c = .etcd (.get (l.text node)) ∧ R' = R) := by
  have hvals := Registry.values_store R node base hl
  rw [Store.values, Store.value] at hvals
  have hs : (Etcd.ok (.get (l.text node)) (R.store node base)).2 = R.store node base := rfl
  apply Bears.call hm hs
  · apply Bears.pure
    apply returns_ok
    simp only [Etcd.ok, if_true, hvals, and_self]
  · exact ⟨_, R, Runs.pure _ R, .inr (returns_ok ⟨rfl, rfl, rfl⟩)⟩

/-- A list that cannot be read is written over, and nobody notices. -/
theorem bears_append_exact (hm : m.Obliges) (hl : l.Sound) (hv : Store.Item v) :
    Bears m node base (etcd (append (l.text node) v)) R
      (Returns fun b R' => b = true ∧ R' = R.push l v hv)
      (fun c => Returns fun b R' =>
        b = true ∧ c = .etcd (.get (l.text node)) ∧ R' = (R.clearList l).push l v hv ∨
        b = false ∧ (∃ out, c = .etcd (.put (l.text node) out)) ∧ R' = R) := by
  have happend := Registry.append_store R node base hl hv
  have hs : (Etcd.ok (.get (l.text node)) (R.store node base)).2 = R.store node base := rfl
  rw [etcd_append]
  apply Bears.call hm hs
  · simp only [Etcd.ok, if_true, Store.eraseNewlines_shown]
    apply Bears.call hm (c := .put (l.text node) _) happend
    · exact Bears.pure (returns_ok ⟨rfl, rfl⟩)
    · exact ⟨_, _, Runs.pure _ R, .inr (returns_ok (.inr ⟨rfl, ⟨_, rfl⟩, rfl⟩))⟩
  · have hput : (put (l.text node) v).run Etcd.ok (R.store node base) =
        (.ok true, ((R.clearList l).push l v hv).store node base) := by
      rw [run_put, set_list_store hl hv]
    exact ⟨_, _, Runs.etcd hput, .inr (returns_ok (.inl ⟨rfl, rfl, rfl⟩))⟩

theorem bears_append (hm : m.Obliges) (hl : l.Sound) (hv : Store.Item v) :
    Bears m node base (etcd (append (l.text node) v)) R
      (Returns fun b R' => b = true ∧ (R' = R.push l v hv ∨ R' = (R.clearList l).push l v hv))
      (fun c => Returns fun b R' => b = false ∧ (∃ out, c = .etcd (.put (l.text node) out)) ∧
        R' = R) := by
  apply (bears_append_exact hm hl hv).mono
  · intro o R' h
    obtain ⟨b, ho, hb, hR⟩ := h
    exact ⟨b, ho, hb, .inl hR⟩
  · intro c o R' h
    obtain ⟨b, ho, ⟨hb, -, hR⟩ | h⟩ := h
    · exact .inl ⟨b, ho, hb, .inr hR⟩
    · exact .inr ⟨b, ho, h⟩

/-- The list was empty, so nothing is written over. -/
theorem bears_append_nil (hm : m.Obliges) (hl : l.Sound) (hv : Store.Item v) (hn : R.list l = []) :
    Bears m node base (etcd (append (l.text node) v)) R
      (Returns fun b R' => b = true ∧ R' = R.push l v hv)
      (fun c => Returns fun b R' => b = false ∧ (∃ out, c = .etcd (.put (l.text node) out)) ∧
        R' = R) := by
  have hclear : R.clearList l = R := by
    apply Registry.ext
    · funext k
      rw [Registry.clearList_list]
      split_ifs with hk
      · rw [hk, hn]
      · rfl
    · rfl
  apply (bears_append hm hl hv).mono
  · intro o R' h
    obtain ⟨b, ho, hb, h⟩ := h
    rw [hclear, or_self] at h
    exact ⟨b, ho, hb, h⟩
  · exact fun c o R' h => .inr h

theorem bears_addPod {netns simple : Text} (hm : m.Obliges) (hs : simpleNetns netns = .ok simple)
    (hv : Store.Item v) :
    Bears m node base (etcd (Storage.addPod node netns v)) R
      (Returns fun b R' => b = true ∧
        R' = (R.assign (.podOf simple) v hv.line).push .pods v hv)
      (fun c => Returns fun b R' =>
        b = true ∧ R' = ((R.assign (.podOf simple) v hv.line).clearList .pods).push .pods v hv ∨
        b = false ∧ (c = .etcd (.put (ValueKey.text node (.podOf simple)) v) ∧ R' = R ∨
          (∃ out, c = .etcd (.put (ListKey.text node .pods) out)) ∧
            R' = R.assign (.podOf simple) v hv.line)) := by
  have heq : etcd (Storage.addPod node netns v) =
      (etcd (put (ValueKey.text node (.podOf simple)) v)).bind fun b =>
        if b then etcd (append (ListKey.text node .pods) v) else .pure false := by
    simp only [Storage.addPod, getSinglePodKey, hs, bind, Except.bind, pure, Except.pure,
      Program.ofExcept_ok, Program.bind, etcd_bind]
    congr 1
    funext b
    cases b <;> rfl
  rw [heq]
  apply Bears.bind_returns hm (bears_put hm (j := .podOf simple) trivial hv.line)
  · intro b R' h
    obtain ⟨rfl, rfl⟩ := h
    apply (bears_append_exact hm (l := .pods) trivial hv).mono
    · exact fun o R' h => h
    · intro c o R' h
      obtain ⟨b, ho, ⟨hb, -, hR⟩ | ⟨hb, hc, hR⟩⟩ := h
      · exact .inr ⟨b, ho, .inl ⟨hb, hR⟩⟩
      · exact .inr ⟨b, ho, .inr ⟨hb, .inr ⟨hc, hR⟩⟩⟩
  · intro c b R' h
    obtain ⟨rfl, rfl, rfl⟩ := h
    exact ⟨_, _, Runs.pure _ _, .inr (returns_ok (.inr ⟨rfl, .inl ⟨rfl, rfl⟩⟩))⟩

end Etcd

/-! ### Members of an interface -/

section NicBears
variable {m : Conduct} {node : Text} {base : Store} {R : Registry} {nic : Nic}

theorem bears_addEntry (hm : m.Obliges) {isExist setEntry : NetlinkCmd} {known : Nic}
    (hn : nic.netlink = true) (hs : isQuery setEntry = false) :
    Bears m node base (nic.addEntry isExist setEntry known) R
      (Returns fun r R' => r = (true, known) ∧ R' = R)
      (fun c => Returns fun r R' => r = (false, nic) ∧ c = .netlink setEntry ∧ R' = R) := by
  simp only [Nic.addEntry, hn, if_true]
  apply Bears.query_bind hm
  · intro b
    cases b with
    | true => exact Bears.pure (returns_ok ⟨rfl, rfl⟩)
    | false =>
        simp only [Bool.false_eq_true, if_false]
        apply Bears.bind_returns hm (Bears.netlink hm hs)
        · intro b R' h
          obtain ⟨rfl, rfl⟩ := h
          exact Bears.pure (returns_ok ⟨rfl, rfl⟩)
        · intro c b R' h
          obtain ⟨rfl, hc, rfl⟩ := h
          exact ⟨_, _, Runs.pure _ _, .inr (returns_ok ⟨rfl, hc, rfl⟩)⟩
  · simp only [Bool.false_eq_true, if_false]
    exact ⟨_, _, Runs.netlink_bind hs (Runs.pure _ R), returns_ok ⟨rfl, rfl⟩⟩

theorem bears_addAddr (hm : m.Obliges) {addr : Addr} {text : Text} (hn : nic.netlink = true)
    (ha : addr.getAddrCidr = .ok text) :
    Bears m node base (nic.addAddr addr) R
      (Returns fun r R' => r = (true, { nic with addrs := nic.addrs ++ [addr] }) ∧ R' = R)
      (fun c => Returns fun r R' => r = (false, nic) ∧
        c = .netlink (.addressSetEntry nic.name text true nic.netns) ∧ R' = R) := by
  simp only [Nic.addAddr, ha, Program.ofExcept_ok, Program.bind_eq, Program.pure_bind]
  exact bears_addEntry hm hn rfl

theorem bears_addRoute (hm : m.Obliges) {r : Route} {flags : RouteNHFlags}
    (hn : nic.netlink = true) :
    Bears m node base (nic.addRoute r flags) R
      (Returns fun ret R' => ret = (true, { nic with routes := nic.routes ++ [r] }) ∧ R' = R)
      (fun c => Returns fun ret R' => ret = (false, nic) ∧
        c = .netlink (.routeSetEntry r.dest r.via true r.dev nic.netns flags) ∧ R' = R) :=
  bears_addEntry hm hn rfl

/-- A command that makes a device. -/
theorem bears_create (hm : m.Obliges) {n : NetlinkCmd} (hn : isQuery n = false) (linked : Nic) :
    Bears m node base ((Netlink.netlink n).bind fun ok => .pure (ok, linked)) R
      (Returns fun r R' => r = (true, linked) ∧ R' = R)
      (fun c => Returns fun r R' => r.1 = false ∧ c = .netlink n ∧ R' = R) := by
  apply Bears.bind_returns hm (Bears.netlink hm hn)
  · intro b R' h
    obtain ⟨rfl, rfl⟩ := h
    exact Bears.pure (returns_ok ⟨rfl, rfl⟩)
  · intro c b R' h
    obtain ⟨rfl, hc, rfl⟩ := h
    exact ⟨_, _, Runs.pure _ _, .inr (returns_ok ⟨rfl, hc, rfl⟩)⟩

/-- The commands that make devices. -/
def MakesDevice : NetlinkCmd → Prop
  | .vethCreate .. => True
  | .bridgeCreate .. => True
  | .vxlanCreate .. => True
  | _ => False

theorem bears_setup (hm : m.Obliges) (nic : Nic) :
    Bears m node base nic.setup R
      (Returns fun r R' => r = (true, { nic with netlink := true }) ∧ R' = R)
      (fun c => Returns fun r R' => r.1 = false ∧ (∃ n, c = .netlink n ∧ MakesDevice n) ∧
        R' = R) := by
  have hmake : ∀ n, isQuery n = false → MakesDevice n →
      Bears m node base ((Netlink.netlink n).bind fun ok =>
        .pure (ok, { nic with netlink := true })) R
        (Returns fun r R' => r = (true, { nic with netlink := true }) ∧ R' = R)
        (fun c => Returns fun r R' => r.1 = false ∧ (∃ n, c = .netlink n ∧ MakesDevice n) ∧
          R' = R) := by
    intro n hn hd
    apply (bears_create hm hn _).mono
    · exact fun o R' h => h
    · intro c o R' h
      obtain ⟨r, ho, hr, hc, hR⟩ := h
      exact .inr ⟨r, ho, hr, ⟨n, hc, hd⟩, hR⟩
  unfold Nic.setup
  split
  · exact Bears.pure (returns_ok ⟨rfl, rfl⟩)
  · exact Bears.pure (returns_ok ⟨rfl, rfl⟩)
  · apply Bears.query_bind hm
    · intro b
      cases b with
      | true => exact Bears.pure (returns_ok ⟨rfl, rfl⟩)
      | false => exact hmake _ rfl trivial
    · exact ⟨_, _, Runs.netlink_bind rfl (Runs.pure _ R), returns_ok ⟨rfl, rfl⟩⟩
  · exact hmake _ rfl trivial
  · apply Bears.query_bind hm
    · intro b
      cases b with
      | true => exact Bears.pure (returns_ok ⟨rfl, rfl⟩)
      | false => exact hmake _ rfl trivial
    · exact ⟨_, _, Runs.netlink_bind rfl (Runs.pure _ R), returns_ok ⟨rfl, rfl⟩⟩

/-- Whether the status was set is not looked at. -/
theorem bears_setStatus (hm : m.Obliges) (hn : nic.netlink = true) (status : LinkStatus) :
    Bears m node base (nic.setStatus status) R (Returns fun _ R' => R' = R)
      (fun c => Returns fun _ R' => (∃ n, c = .netlink n) ∧ R' = R) := by
  have hset : ∀ name netns, Bears m node base
      (Netlink.netlink (.linkSetStatus name status netns)) R (Returns fun _ R' => R' = R)
      (fun c => Returns fun _ R' => (∃ n, c = .netlink n) ∧ R' = R) := by
    intro name netns
    apply (Bears.netlink hm rfl).mono
    · intro o R' h
      obtain ⟨b, ho, -, hR⟩ := h
      exact ⟨b, ho, hR⟩
    · intro c o R' h
      obtain ⟨b, ho, -, hc, hR⟩ := h
      exact .inr ⟨b, ho, ⟨_, hc⟩, hR⟩
  unfold Nic.setStatus
  simp only [hn, if_true]
  split
  · apply Bears.bind_returns hm (Bears.netlink hm rfl)
    · intro b R' h
      obtain ⟨rfl, rfl⟩ := h
      exact hset _ _
    · intro c b R' h
      obtain ⟨rfl, hc, rfl⟩ := h
      exact ⟨_, _, Runs.pure _ _, .inr (returns_ok ⟨⟨_, hc⟩, rfl⟩)⟩
  · exact hset _ _

theorem bears_setNetns (hm : m.Obliges) {netns simple : Text} (hn : nic.netlink = true)
    (hs : simpleNetns netns = .ok simple) :
    Bears m node base (nic.setNetns netns) R
      (Returns fun r R' => r = (true, { nic with netns := simple }) ∧ R' = R)
      (fun c => Returns fun r R' => r = (false, nic) ∧
        c = .netlink (.linkToNetns nic.name simple) ∧ R' = R) := by
  simp only [Nic.setNetns, hn, if_true, hs, Program.ofExcept_ok, Program.bind_eq, Program.pure_bind]
  apply Bears.query_bind hm
  · intro b
    cases b with
    | true => exact Bears.pure (returns_ok ⟨rfl, rfl⟩)
    | false =>
        simp only [Bool.false_eq_true, if_false]
        apply Bears.bind_returns hm (Bears.netlink hm rfl)
        · intro b R' h
          obtain ⟨rfl, rfl⟩ := h
          exact Bears.pure (returns_ok ⟨rfl, rfl⟩)
        · intro c b R' h
          obtain ⟨rfl, hc, rfl⟩ := h
          exact ⟨_, _, Runs.pure _ _, .inr (returns_ok ⟨rfl, hc, rfl⟩)⟩
  · simp only [Bool.false_eq_true, if_false]
    exact ⟨_, _, Runs.netlink_bind rfl (Runs.pure _ R), returns_ok ⟨rfl, rfl⟩⟩

theorem bears_rename (hm : m.Obliges) (hn : nic.netlink = true) {name : Text} (hne : name ≠ []) :
    Bears m node base (nic.rename name) R
      (Returns fun r R' => r = (true, { nic with name := name }) ∧ R' = R)
      (fun c => Returns fun r R' => r = (false, nic) ∧
        c = .netlink (.linkRename nic.name name nic.netns) ∧ R' = R) := by
  unfold Nic.rename
  simp only [if_neg hne, hn, if_true]
  apply Bears.bind_returns hm (Bears.netlink hm rfl)
  · intro b R' h
    obtain ⟨rfl, rfl⟩ := h
    exact Bears.pure (returns_ok ⟨rfl, rfl⟩)
  · intro c b R' h
    obtain ⟨rfl, hc, rfl⟩ := h
    exact ⟨_, _, Runs.pure _ _, .inr (returns_ok ⟨rfl, hc, rfl⟩)⟩

theorem bears_setMaster (hm : m.Obliges) (hn : nic.netlink = true) (name : Text) :
    Bears m node base (nic.setMaster name) R (Returns fun b R' => b = true ∧ R' = R)
      (fun c => Returns fun b R' => b = false ∧
        c = .netlink (.bridgeSetStatus name true nic.name nic.netns) ∧ R' = R) := by
  unfold Nic.setMaster
  simp only [hn, if_true]
  exact Bears.netlink hm rfl

end NicBears

/-! ### The address manager -/

section Addresses
variable {m : Conduct} {node : Text} {base : Store} {R R' : Registry} {net : NetworkV4}

theorem bears_getSubnet (hm : m.Obliges) :
    Bears m node base (etcd (getSubnet node)) R
      (Returns fun r R' => r = (decide ((R.value .subnet).getD [] ≠ []),
        (R.value .subnet).getD []) ∧
        R' = R)
      (fun c => Returns fun r R' => r = (false, []) ∧
        c = .etcd (.get (subnetKey node)) ∧ R' = R) := by
  simp only [getSubnet, Program.bind_eq, etcd_bind]
  apply Bears.bind_returns hm (bears_get hm (j := .subnet) trivial)
  · intro r R' h
    obtain ⟨rfl, rfl⟩ := h
    exact Bears.pure (returns_ok ⟨rfl, rfl⟩)
  · intro c r R' h
    obtain ⟨rfl, rfl, rfl⟩ := h
    exact ⟨_, _, Runs.pure _ _, .inr (returns_ok ⟨rfl, rfl, rfl⟩)⟩

/-- A failed read takes the node for one without a subnet. -/
theorem bears_allocateSubnet {podCidr : Text} (hm : m.Obliges) (hs : R.value .subnet = none)
    (hc : Store.Item podCidr) :
    Bears m node base (etcd (allocateSubnet node podCidr)) R
      (Returns fun r R' => r = (true, podCidr) ∧
        (R' = (R.push .subnets podCidr hc).assign .subnet podCidr hc.line ∨
          R' = ((R.clearList .subnets).push .subnets podCidr hc).assign .subnet podCidr hc.line))
      (fun c => Returns fun r R' => r.1 = false ∧
        ((∃ out, c = .etcd (.put etcdKeySubnet out)) ∧ R' = R ∨
          c = .etcd (.put (subnetKey node) podCidr) ∧
          (R' = (R.push .subnets podCidr hc).prune .subnets podCidr ∨
            R' = ((R.clearList .subnets).push .subnets podCidr hc).prune .subnets podCidr))) := by
  simp only [allocateSubnet, Program.bind_eq, etcd_bind]
  apply Bears.bind_returns hm (bears_getSubnet hm)
  · intro r R' h
    obtain ⟨rfl, rfl⟩ := h
    simp only [hs, Option.getD_none, ne_eq, not_true_eq_false, decide_false, Bool.false_eq_true,
      if_false, etcd_bind, etcd_ite]
    apply Bears.bind_returns hm (bears_append hm (l := .subnets) trivial hc)
    · intro b R₁ h
      obtain ⟨rfl, hR₁⟩ := h
      simp only [if_true]
      apply Bears.bind_returns hm (bears_put hm (j := .subnet) trivial hc.line)
      · intro b R₂ h
        obtain ⟨rfl, rfl⟩ := h
        apply Bears.pure
        apply returns_ok
        rcases hR₁ with rfl | rfl
        · exact ⟨rfl, .inl rfl⟩
        · exact ⟨rfl, .inr rfl⟩
      · intro c b R₂ h
        obtain ⟨rfl, rfl, rfl⟩ := h
        have hprune : (delValue etcdKeySubnet podCidr).run Etcd.ok (R₂.store node base) =
            (.ok true, (R₂.prune .subnets podCidr).store node base) := by
          rw [run_delValue]
          exact congrArg _ (Registry.delValue_store _ _ _ (l := .subnets) trivial)
        refine ⟨_, _, Runs.etcd_bind hprune (Runs.pure _ _), .inr ?_⟩
        apply returns_ok
        rcases hR₁ with rfl | rfl
        · exact ⟨rfl, .inr ⟨rfl, .inl rfl⟩⟩
        · exact ⟨rfl, .inr ⟨rfl, .inr rfl⟩⟩
    · intro c b R₁ h
      obtain ⟨rfl, hc, rfl⟩ := h
      exact ⟨_, _, Runs.pure _ _, .inr (returns_ok ⟨rfl, .inl ⟨hc, rfl⟩⟩)⟩
  · intro c r R' h
    obtain ⟨rfl, -, rfl⟩ := h
    have hpush : (append etcdKeySubnet podCidr).run Etcd.ok (R'.store node base) =
        (.ok true, (R'.push .subnets podCidr hc).store node base) := by
      rw [run_append]
      exact congrArg _ (Registry.append_store _ _ _ (l := .subnets) trivial hc)
    have hset : (put (subnetKey node) podCidr).run Etcd.ok
        ((R'.push .subnets podCidr hc).store node base) =
        (.ok true, ((R'.push .subnets podCidr hc).assign .subnet podCidr hc.line).store
          node base) := by
      rw [run_put]
      exact congrArg _ (Registry.set_store _ _ _ (j := .subnet) trivial hc.line)
    simp only [Bool.false_eq_true, if_false, etcd_bind, etcd_ite]
    refine ⟨_, _, Runs.etcd_bind hpush ?_, .inl (returns_ok ⟨rfl, .inl rfl⟩)⟩
    simp only [if_true]
    exact Runs.etcd_bind hset (Runs.pure _ _)

/-- The result of the loop of `allocateIp` from host `i` on. -/
def scanIp (R : Registry) (net : NetworkV4) (i remaining : ℕ) : (Bool × Text) × Registry :=
  match firstFrom (hostText net) (R.list .addresses) i remaining with
  | some k => ((true, hostText net k), R.push .addresses (hostText net k) (item_hostText net k))
  | none => ((false, []), R)

theorem takeIp_eq (R : Registry) (net : NetworkV4) :
    takeIp R net = scanIp R net 1 (hostCount net) := rfl

theorem scanIp_taken {i remaining : ℕ} (h : hostText net i ∈ R.list .addresses) :
    scanIp R net i (remaining + 1) = scanIp R net (i + 1) remaining := by
  simp only [scanIp, firstFrom_succ, if_pos h]

theorem scanIp_free {i remaining : ℕ} (h : hostText net i ∉ R.list .addresses) :
    scanIp R net i (remaining + 1) =
      ((true, hostText net i), R.push .addresses (hostText net i) (item_hostText net i)) := by
  simp only [scanIp, firstFrom_succ, if_neg h]

theorem runs_findIp (base : Store) (R : Registry) (hp : net.prefixLength < 32) (remaining : ℕ)
    {i : ℕ} (hi : 1 ≤ i) :
    Runs node base (etcd (findIp node ⟨net, .ipv4⟩ remaining i)) R
      (.ok (scanIp R net i remaining).1) (scanIp R net i remaining).2 := by
  have hvals := Registry.values_store R node base (l := .addresses) trivial
  apply Runs.etcd
  simp only [ListKey.text] at hvals
  rw [run_findIp node hp _ remaining i hi, hvals, scanIp]
  cases firstFrom (hostText net) (R.list .addresses) i remaining with
  | none => rfl
  | some k =>
      exact congrArg _ (Registry.append_store _ _ _ (l := .addresses) trivial (item_hostText net k))

/-- A failure in the loop: an address is taken all the same, or the host that
could not be recorded was the last free one. -/
def Strays (net : NetworkV4) (R : Registry) (r : Bool × Text) (R' : Registry) : Prop :=
  (∃ k, r = (true, hostText net k) ∧
    (R' = R.push .addresses (hostText net k) (item_hostText net k) ∨
      R' = (R.clearList .addresses).push .addresses (hostText net k) (item_hostText net k))) ∨
  r = (false, []) ∧ R' = R ∧
    ∃ k, ∀ j, 1 ≤ j → j ≤ hostCount net → j ≠ k → hostText net j ∈ R.list .addresses

theorem strays_scanIp {i remaining k : ℕ} (hn : i + remaining = hostCount net + 1)
    (taken : ∀ j, 1 ≤ j → j < i → j ≠ k → hostText net j ∈ R.list .addresses) :
    Strays net R (scanIp R net i remaining).1 (scanIp R net i remaining).2 := by
  unfold scanIp
  cases hf : firstFrom (hostText net) (R.list .addresses) i remaining with
  | some j => exact .inl ⟨j, rfl, .inl rfl⟩
  | none =>
      refine .inr ⟨rfl, rfl, k, fun j h₁ h₂ hk => ?_⟩
      by_cases hj : j < i
      · exact taken j h₁ hj hk
      · have h := List.find?_eq_none.mp hf j (List.mem_range'_1.mpr ⟨by omega, by omega⟩)
        simpa using h

/-- A command on the list of addresses. -/
def OnAddresses (node : Text) (c : Cmd) : Prop :=
  c = .etcd (.get (addressKey node)) ∨ ∃ v, c = .etcd (.put (addressKey node) v)

theorem bears_isIpAvailable (hm : m.Obliges) (ip : Text) :
    Bears m node base (etcd (isIpAvailable node ip)) R
      (Returns fun b R' => b = decide (ip ∉ R.list .addresses) ∧ R' = R)
      (fun c => Returns fun b R' => b = true ∧ OnAddresses node c ∧ R' = R) := by
  simp only [isIpAvailable, Program.bind_eq, etcd_bind]
  apply Bears.bind_returns hm (bears_list hm (l := .addresses) trivial)
  · intro items R' h
    obtain ⟨rfl, rfl⟩ := h
    exact Bears.pure (returns_ok ⟨rfl, rfl⟩)
  · intro c items R' h
    obtain ⟨rfl, hc, rfl⟩ := h
    exact ⟨_, _, Runs.pure _ _, .inr (returns_ok ⟨rfl, .inl hc, rfl⟩)⟩

theorem bears_findIp (hm : m.Obliges) (hp : net.prefixLength < 32) (remaining : ℕ) {i : ℕ}
    (hi : 1 ≤ i) (hn : i + remaining = hostCount net + 1)
    (taken : ∀ j, 1 ≤ j → j < i → hostText net j ∈ R.list .addresses) :
    Bears m node base (etcd (findIp node ⟨net, .ipv4⟩ remaining i)) R
      (Returns fun r R' => (r, R') = scanIp R net i remaining)
      (fun c => Returns fun r R' => OnAddresses node c ∧ Strays net R r R') := by
  induction remaining generalizing i with
  | zero => exact Bears.pure (returns_ok rfl)
  | succ remaining ih =>
      have hg : Subnet.generateIp ⟨net, .ipv4⟩ i = .ok (hostText net i) :=
        Subnet.generateIp_ipv4 net hi hp
      have hitem := item_hostText net i
      have hpush : (append (addressKey node) (hostText net i)).run Etcd.ok (R.store node base) =
          (.ok true, (R.push .addresses _ hitem).store node base) := by
        rw [run_append]
        exact congrArg _ (Registry.append_store _ _ _ (l := .addresses) trivial hitem)
      simp only [findIp, hg, Program.ofExcept_ok, Program.bind_eq, Program.pure_bind, etcd_bind,
        etcd_ite]
      apply Bears.bind_returns hm (bears_isIpAvailable hm (hostText net i))
      · intro b R' h
        obtain ⟨rfl, rfl⟩ := h
        by_cases hmem : hostText net i ∈ R'.list .addresses
        · simp only [hmem, not_true_eq_false, decide_false, Bool.false_eq_true, if_false,
            scanIp_taken hmem]
          apply ih (by omega) (by omega)
          intro j h₁ hj
          by_cases hji : j = i
          · exact hji ▸ hmem
          · exact taken j h₁ (by omega)
        · simp only [hmem, not_false_eq_true, decide_true, if_true, scanIp_free hmem]
          apply Bears.bind_returns hm (bears_append_exact hm (l := .addresses) trivial hitem)
          · intro b R₁ h
            obtain ⟨rfl, rfl⟩ := h
            exact Bears.pure (returns_ok rfl)
          · intro c b R₁ h
            rcases h with ⟨rfl, hc, rfl⟩ | ⟨rfl, hc, rfl⟩
            · exact ⟨_, _, Runs.pure _ _, .inr (returns_ok ⟨.inl hc, .inl ⟨i, rfl, .inr rfl⟩⟩)⟩
            · refine ⟨_, _, runs_findIp base R₁ hp remaining (by omega),
                .inr (returns_ok ⟨.inr hc, ?_⟩)⟩
              apply strays_scanIp (k := i) (by omega)
              intro j h₁ hj hji
              exact taken j h₁ (by omega)
      · intro c b R' h
        obtain ⟨rfl, hc, rfl⟩ := h
        simp only [if_true]
        exact ⟨_, _, Runs.etcd_bind hpush (Runs.pure _ _),
          .inr (returns_ok ⟨hc, .inl ⟨i, rfl, .inl rfl⟩⟩)⟩

/-- A failed read of the subnet is noticed, one of the addresses is not. -/
theorem bears_allocateIp (boost : Boost) (hm : m.Obliges)
    (hs : Subnet.init boost ((R.value .subnet).getD []) = .ok ⟨net, .ipv4⟩)
    (hp : net.prefixLength < 32) :
    Bears m node base (etcd (allocateIp boost node)) R
      (Returns fun r R' => (r, R') = takeIp R net)
      (fun c => Returns fun r R' => OnAddresses node c ∧ Strays net R r R' ∨
        r = (false, []) ∧ c = .etcd (.get (subnetKey node)) ∧ R' = R) := by
  have hne : (R.value .subnet).getD [] ≠ [] := by
    intro h
    simp [h, Subnet.init_nil] at hs
  simp only [allocateIp, Program.bind_eq, etcd_bind]
  apply Bears.bind_returns hm (bears_getSubnet hm)
  · intro r R' h
    obtain ⟨rfl, rfl⟩ := h
    simp only [hne, ne_eq, not_false_eq_true, decide_true, if_true, hs, Program.ofExcept_ok,
      Program.pure_bind, Subnet.getMaxHosts_ipv4 net hp]
    apply (bears_findIp hm hp (hostCount net) le_rfl (by omega) (by omega)).mono
    · exact fun o R₁ h => h
    · intro c o R₁ h
      obtain ⟨r, ho, h⟩ := h
      exact .inr ⟨r, ho, .inl h⟩
  · intro c r R' h
    obtain ⟨rfl, hc, rfl⟩ := h
    exact ⟨_, _, Runs.pure _ _, .inr (returns_ok (.inr ⟨rfl, hc, rfl⟩))⟩

end Addresses

end Ohno.SingleFaults
