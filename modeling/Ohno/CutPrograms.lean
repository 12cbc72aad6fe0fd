import Ohno.CommandTraces
import Ohno.SingleFaults

/-!
# Where a program is cut

`Cuts X node base p R N P` is about the executions of `p` from the registry `R`
in which one etcdctl command fails. When `c` fails on the registry `T`, the
program ends as `P c T` says. The commands in `X` are known to fail unless
another one did before, so an execution in which nothing fails tells `N`. Once a
command has failed the rules of `Runs` apply.
-/
namespace Ohno.CutPrograms
open CommandPrograms CommandTraces DelimitedLists AddressText EtcdClientShell Netlink Nics Storage
open Records Conducts RecordPrograms SingleFaults

/-- One etcdctl command fails, at the latest the first that is in `X`. -/
def insisting (X : Cmd → Prop) (c : Cmd) (w : World) (r : Reply) (u : World) : Prop :=
  Conduct.oneEtcdFault.handle c w r u ∧ (X c → w.fault = none → u.fault ≠ none)

/-- The commands that work on one key. -/
def OnKey (node : Text) (k : RecordKey) (c : Cmd) : Prop :=
  c = .etcd (.get (keyText node k)) ∨ (∃ v, c = .etcd (.put (keyText node k) v)) ∨
    c = .etcd (.del (keyText node k))

/-- The program only talks to the network. -/
def Quiet {A : Type} (p : OhnoProgram A) : Prop := Only (fun c => ∃ n, c = .netlink n) p

section Executions
variable {A : Type} {X : Cmd → Prop} {p : OhnoProgram A} {o : Except Thrown A} {w v : World}

theorem exec_of_insisting (h : p.Exec (insisting X) w o v) :
    p.Exec Conduct.oneEtcdFault.handle w o v :=
  Program.Exec.mono (fun _ _ _ _ hc => hc.1) h

/-- Without a failure every command succeeded. -/
theorem exec_obliging (h : p.Exec Conduct.oneEtcdFault.handle w o v) (hv : v.fault = none) :
    p.Exec Conduct.obliging.handle w o v := by
  apply exec_fault_none _ hv
  apply Program.Exec.mono _ h
  intro c u r t hc
  rcases hc with hc | ⟨hn, -, hr, ht⟩
  · exact .inl hc
  · exact .inr ⟨hn, trivial, hr, ht⟩

/-- A program that only talks to the network does not fail. -/
theorem exec_quiet (h : p.Exec Conduct.oneEtcdFault.handle w o v)
    (hp : Quiet p) : v.fault = w.fault := by
  induction p generalizing w with
  | pure a => rw [h.2]
  | throw e => rw [h.2]
  | call c next ih =>
      obtain ⟨r, u, hu, hx⟩ := h
      obtain ⟨⟨n, rfl⟩, hnext⟩ := hp
      rw [ih r hx (hnext r)]
      rcases hu with hu | ⟨-, ⟨e, he⟩, -⟩
      · rw [hu.2]
      · cases he

end Executions

section Triple
variable {A B : Type}

def Cuts (X : Cmd → Prop) (node : Text) (base : Store) (p : OhnoProgram A) (R : Registry) (N : Prop)
    (P : Cmd → Registry → Except Thrown A → Registry → Prop) : Prop :=
  ∀ l o w, p.Exec (insisting X) ⟨R.store node base, l, none⟩ o w →
    w.fault = none ∧ N ∨
      ∃ c T R', w.fault = some (c, Registry.store T node base) ∧
        w.store = Registry.store R' node base ∧ P c T o R'

namespace Cuts
variable {X : Cmd → Prop} {node : Text} {base : Store} {p : OhnoProgram A} {f : A → OhnoProgram B}
variable {R R₁ : Registry} {N N' : Prop} {P P' : Cmd → Registry → Except Thrown A → Registry → Prop}
variable {T : Cmd → Registry → Except Thrown B → Registry → Prop}

theorem quiet (hp : Quiet p) (hN : N) : Cuts X node base p R N P := by
  intro l o w hx
  exact .inl ⟨exec_quiet (exec_of_insisting hx) hp, hN⟩

theorem pure (a : A) (hN : N) : Cuts X node base (.pure a) R N P := quiet trivial hN

theorem throw (e : Thrown) (hN : N) : Cuts X node base (.throw e) R N P := quiet trivial hN

theorem mono (h : Cuts X node base p R N P) (hN : N → N')
    (hP : ∀ c S o R', P c S o R' → P' c S o R') : Cuts X node base p R N' P' := by
  intro l o w hx
  rcases h l o w hx with ⟨hn, h⟩ | ⟨c, S, R', hf, hs, h⟩
  · exact .inl ⟨hn, hN h⟩
  · exact .inr ⟨c, S, R', hf, hs, hP c S o R' h⟩

/-- An execution in which nothing fails is a run. -/
theorem run {o o' : Except Thrown A} {l : Log} {w : World} (hrun : Runs node base p R o' R₁)
    (hx : p.Exec (insisting X) ⟨R.store node base, l, none⟩ o w) (hw : w.fault = none) :
    o = o' ∧ w = ⟨R₁.store node base, w.log, none⟩ := by
  obtain ⟨ho, hs, -⟩ := hrun.exec Conduct.obliges_obliging (Conduct.settled_obliging none)
    (exec_obliging (exec_of_insisting hx) hw)
  obtain ⟨store, log, fault⟩ := w
  change store = _ at hs
  change fault = none at hw
  rw [hs, hw]
  exact ⟨ho, rfl⟩

/-- An execution in which something failed goes on as a run. -/
theorem after {q : OhnoProgram B} {o o' : Except Thrown B} {ft : Fault} {l : Log} {w : World}
    (hrun : Runs node base q R o' R₁)
    (hx : q.Exec (insisting X) ⟨R.store node base, l, some ft⟩ o w) :
    o = o' ∧ w.store = R₁.store node base ∧ w.fault = some ft :=
  hrun.exec Conduct.obliges_oneEtcdFault (Conduct.settled_some _ _) (exec_of_insisting hx)

theorem bind {a : A} (hrun : Runs node base p R (.ok a) R₁) (h : Cuts X node base p R N P)
    (hf : N → Cuts X node base (f a) R₁ N' T)
    (ok : ∀ c S b R', P c S (.ok b) R' → ∃ o R'', Runs node base (f b) R' o R'' ∧ T c S o R'')
    (error : ∀ c S e R', P c S (.error e) R' → T c S (.error e) R') :
    Cuts X node base (p.bind f) R N' T := by
  intro l o w hx
  rw [Program.exec_bind] at hx
  obtain ⟨b, u, hp, hu⟩ | ⟨e, hp, rfl⟩ := hx
  · rcases h l (.ok b) u hp with ⟨hn, hN⟩ | ⟨c, S, R', hfault, hs, hP⟩
    · obtain ⟨ho, hw⟩ := run hrun hp hn
      cases ho
      rw [hw] at hu
      exact hf hN u.log o w hu
    · obtain ⟨o', R'', hruns, hT⟩ := ok c S b R' hP
      obtain ⟨store, log, fault⟩ := u
      change store = _ at hs
      change fault = _ at hfault
      rw [hs, hfault] at hu
      obtain ⟨rfl, hw, hft⟩ := after hruns hu
      exact .inr ⟨c, S, R'', hft, hw, hT⟩
  · rcases h l (.error e) w hp with ⟨hn, -⟩ | ⟨c, S, R', hfault, hs, hP⟩
    · have herror := (run hrun hp hn).1
      cases herror
    · exact .inr ⟨c, S, R', hfault, hs, error c S e R' hP⟩

/-- The first half only talks to the network. -/
theorem quiet_bind {a : A} (hp : Quiet p) (hrun : Runs node base p R (.ok a) R₁)
    (hf : Cuts X node base (f a) R₁ N' T) : Cuts X node base (p.bind f) R N' T := by
  have h : Cuts X node base p R True (fun _ _ _ _ => False) := quiet hp trivial
  apply bind hrun h
  · exact fun _ => hf
  · exact fun _ _ _ _ hc => hc.elim
  · exact fun _ _ _ _ hc => hc.elim

/-- A part after which only the result is changed. -/
theorem map {g : A → B} {a : A} (hrun : Runs node base p R (.ok a) R₁)
    (h : Cuts X node base p R N P) (ok : ∀ c S b R', P c S (.ok b) R' → T c S (.ok (g b)) R')
    (error : ∀ c S e R', P c S (.error e) R' → T c S (.error e) R') :
    Cuts X node base (p.bind fun b => .pure (g b)) R N T := by
  apply bind hrun h
  · exact fun hN => pure _ hN
  · intro c S b R' hP
    exact ⟨_, R', Runs.pure _ R', ok c S b R' hP⟩
  · exact error

/-- A step that reports its failure, and the exception for it. -/
theorem check {p : OhnoProgram Bool} {q : OhnoProgram B} {e : Thrown}
    {P : Cmd → Registry → Except Thrown Bool → Registry → Prop}
    (hrun : Runs node base p R (.ok true) R₁) (h : Cuts X node base p R N P)
    (hq : Cuts X node base q R₁ N' T)
    (hP : ∀ c S o R', P c S o R' → o = .ok false ∧ T c S (.error e) R') :
    Cuts X node base (p.bind fun b => if b then q else .throw e) R N' T := by
  apply bind hrun h
  · intro _
    exact hq
  · intro c S b R' hc
    obtain ⟨hb, hT⟩ := hP c S (.ok b) R' hc
    cases hb
    exact ⟨_, R', Runs.throw e R', hT⟩
  · intro c S e' R' hc
    cases (hP c S (.error e') R' hc).1

/-- The first half throws when nothing fails. -/
theorem bind_error {e : Thrown} (hrun : Runs node base p R (.error e) R₁)
    (h : Cuts X node base p R N P)
    (ok : ∀ c S b R', P c S (.ok b) R' → ∃ o R'', Runs node base (f b) R' o R'' ∧ T c S o R'')
    (error : ∀ c S e R', P c S (.error e) R' → T c S (.error e) R') :
    Cuts X node base (p.bind f) R N T := by
  intro l o w hx
  rw [Program.exec_bind] at hx
  obtain ⟨b, u, hp, hu⟩ | ⟨e', hp, rfl⟩ := hx
  · rcases h l (.ok b) u hp with ⟨hn, -⟩ | ⟨c, S, R', hfault, hs, hP⟩
    · have hok := (run hrun hp hn).1
      cases hok
    · obtain ⟨o', R'', hruns, hT⟩ := ok c S b R' hP
      obtain ⟨store, log, fault⟩ := u
      change store = _ at hs
      change fault = _ at hfault
      rw [hs, hfault] at hu
      obtain ⟨rfl, hw, hft⟩ := after hruns hu
      exact .inr ⟨c, S, R'', hft, hw, hT⟩
  · rcases h l (.error e') w hp with ⟨hn, hN⟩ | ⟨c, S, R', hfault, hs, hP⟩
    · exact .inl ⟨hn, hN⟩
    · exact .inr ⟨c, S, R', hfault, hs, error c S e' R' hP⟩

/-- A handler that does nothing changes the outcome only. -/
theorem catch_ {handler : Thrown → OhnoProgram A} {Q : Cmd → Registry → Registry → Prop}
    (h : Cuts X node base p R N P)
    (idle : ∀ e, (∃ a, handler e = .pure a) ∨ ∃ e', handler e = .throw e')
    (hP : ∀ c S o R', P c S o R' → Q c S R') :
    Cuts X node base (p.catch_ handler) R N (fun c S _ R' => Q c S R') := by
  intro l o w hx
  have hbody : ∃ o', p.Exec (insisting X) ⟨R.store node base, l, none⟩ o' w := by
    rw [Program.exec_catch] at hx
    obtain ⟨a, ha, -⟩ | ⟨e, u, he, hu⟩ := hx
    · exact ⟨_, ha⟩
    · obtain ⟨a, ha⟩ | ⟨e', he'⟩ := idle e
      · rw [ha] at hu
        exact ⟨_, hu.2 ▸ he⟩
      · rw [he'] at hu
        exact ⟨_, hu.2 ▸ he⟩
  obtain ⟨o', hx'⟩ := hbody
  rcases h l o' w hx' with hnone | ⟨c, S, R', hfault, hs, hc⟩
  · exact .inl hnone
  · exact .inr ⟨c, S, R', hfault, hs, hP c S o' R' hc⟩

/-- The network answers, then the program goes on. -/
theorem netlink_bind {c : NetlinkCmd} {f : Bool → OhnoProgram B}
    (h : ∀ b, Cuts X node base (f b) R N T) :
    Cuts X node base ((Netlink.netlink c).bind f) R N T := by
  intro l o w hx
  rw [Program.exec_bind] at hx
  have hstore : ∀ {o' : Except Thrown Bool} {u : World}, (Netlink.netlink c).Exec (insisting X)
      ⟨R.store node base, l, none⟩ o' u → (∃ b, o' = .ok b) ∧
        u = ⟨R.store node base, u.log, none⟩ := by
    intro o' u hu
    obtain ⟨r, t, ⟨ht, -⟩, ho, hu⟩ := hu
    rw [hu]
    rcases ht with ht | ⟨-, ⟨e, he⟩, -⟩
    · exact ⟨⟨_, ho⟩, by rw [ht.2]⟩
    · cases he
  obtain ⟨b, u, hp, hu⟩ | ⟨e, hp, rfl⟩ := hx
  · rw [(hstore hp).2] at hu
    exact h b u.log o w hu
  · obtain ⟨⟨b, hb⟩, -⟩ := hstore hp
    cases hb

theorem call {c : EtcdCmd} {next : Reply → OhnoProgram A}
    (hs : (Etcd.ok c (R.store node base)).2 = R₁.store node base)
    (ok : ¬ X (.etcd c) → Cuts X node base (next (Etcd.ok c (R.store node base)).1) R₁ N P)
    (failed : ∃ o R', Runs node base (next ⟨false, []⟩) R o R' ∧ P (.etcd c) R o R') :
    Cuts X node base (.call (.etcd c) next) R N P := by
  intro l o w hx
  obtain ⟨r, u, ⟨hu, hinsist⟩, hx⟩ := hx
  rcases hu with ⟨rfl, rfl⟩ | ⟨-, -, rfl, rfl⟩
  · have hX : ¬ X (.etcd c) := fun hc => hinsist hc rfl rfl
    apply ok hX l o w
    rwa [← hs]
  · obtain ⟨o', R', hrun, hP⟩ := failed
    obtain ⟨rfl, hw, hft⟩ := after hrun hx
    exact .inr ⟨_, R, R', hft, hw, hP⟩

end Cuts
end Triple

/-! ### The commands of the client -/

section Etcd
variable {X : Cmd → Prop} {node : Text} {base : Store} {R : Registry} {l : ListKey} {j : ValueKey}
variable {v : Text}

theorem etcd_delValue (k v : Text) : etcd (delValue k v) = .call (.etcd (.get k)) fun r =>
    if r.ok then
      if join ',' ((split ',' (eraseNewlines r.out)).filter (· ≠ v)) = [] then
        .call (.etcd (.del k)) fun r' => .pure r'.ok
      else
        .call (.etcd (.put k (join ',' ((split ',' (eraseNewlines r.out)).filter (· ≠ v)))))
          fun r' =>
          .pure r'.ok
    else .pure false := by
  have h := delValue_bind k v Program.pure
  rw [Program.bind_pure] at h
  rw [h]
  change Program.call _ _ = _
  congr 1
  funext r
  obtain ⟨ok, out⟩ := r
  cases ok with
  | false => rfl
  | true =>
      simp only [if_true]
      split_ifs <;> rfl

theorem cuts_get (j : ValueKey) :
    Cuts X node base (etcd (EtcdClientShell.get (j.text node))) R True
      (fun c T o R' => c = .etcd (.get (keyText node (.inr j))) ∧ T = R ∧ o = .ok ⟨false, []⟩ ∧
        R' = R) := by
  have hs : (Etcd.ok (.get (j.text node)) (R.store node base)).2 = R.store node base := rfl
  apply Cuts.call hs
  · intro _
    exact Cuts.pure _ trivial
  · exact ⟨_, R, Runs.pure _ R, rfl, rfl, rfl, rfl⟩

theorem cuts_del {R₁ : Registry} {k : Text}
    (hs : (R.store node base).erase k = R₁.store node base) :
    Cuts X node base (etcd (del k)) R True
      (fun c T o R' => c = .etcd (.del k) ∧ T = R ∧ o = .ok false ∧ R' = R) := by
  have hok : (Etcd.ok (.del k) (R.store node base)).2 = R₁.store node base := hs
  apply Cuts.call hok
  · intro _
    exact Cuts.pure _ trivial
  · exact ⟨_, R, Runs.pure _ R, rfl, rfl, rfl, rfl⟩

theorem cuts_listOrEmpty (l : ListKey) :
    Cuts X node base (etcd (listOrEmpty (l.text node))) R
      (¬ X (.etcd (.get (keyText node (.inl l)))))
      (fun c T o R' => c = .etcd (.get (keyText node (.inl l))) ∧ T = R ∧ o = .ok [] ∧ R' = R) := by
  have hs : (Etcd.ok (.get (l.text node)) (R.store node base)).2 = R.store node base := rfl
  apply Cuts.call hs
  · intro hX
    exact Cuts.pure _ hX
  · exact ⟨_, R, Runs.pure _ R, rfl, rfl, rfl, rfl⟩

/-- Nothing is written unless every command succeeds. -/
theorem cuts_delValue (hl : l.Sound) :
    Cuts X node base (etcd (delValue (l.text node) v)) R True
      (fun c T o R' => OnKey node (.inl l) c ∧ T = R ∧ o = .ok false ∧ R' = R) := by
  have hdel := Registry.delValue_store R node base (v := v) hl
  have hs : (Etcd.ok (.get (l.text node)) (R.store node base)).2 = R.store node base := rfl
  rw [etcd_delValue]
  apply Cuts.call hs
  · intro _
    simp only [Etcd.ok, if_true, Store.eraseNewlines_shown]
    unfold Store.delValue Store.values at hdel
    split_ifs with hnil
    · simp only [hnil, if_true] at hdel
      apply Cuts.call (c := .del (l.text node)) hdel
      · intro _
        exact Cuts.pure _ trivial
      · exact ⟨_, R, Runs.pure _ R, .inr (.inr rfl), rfl, rfl, rfl⟩
    · simp only [hnil, if_false] at hdel
      apply Cuts.call (c := .put (l.text node) _) hdel
      · intro _
        exact Cuts.pure _ trivial
      · exact ⟨_, R, Runs.pure _ R, .inr (.inl ⟨_, rfl⟩), rfl, rfl, rfl⟩
  · exact ⟨_, R, Runs.pure _ R, .inl rfl, rfl, rfl, rfl⟩

theorem cuts_getNetns (pod : Text) :
    Cuts X node base (etcd (Storage.getNetns node pod)) R True
      (fun c T o R' => c = .etcd (.get (keyText node (.inr (.netns pod)))) ∧ T = R ∧ o = .ok [] ∧
        R' = R) := by
  have heq : etcd (Storage.getNetns node pod) =
      (etcd (EtcdClientShell.get (ValueKey.text node (.netns pod)))).bind fun ret =>
        .pure ret.out := etcd_bind _ _
  have hrun := run_get (ValueKey.text node (.netns pod)) (R.store node base)
  rw [heq]
  apply Cuts.map (Runs.etcd hrun) (cuts_get (.netns pod))
  · intro c S b R' hc
    obtain ⟨rfl, rfl, hb, rfl⟩ := hc
    cases hb
    exact ⟨rfl, rfl, rfl, rfl⟩
  · intro c S e R' hc
    cases hc.2.2.1

end Etcd
end Ohno.CutPrograms
