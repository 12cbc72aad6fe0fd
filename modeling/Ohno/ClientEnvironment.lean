import Ohno.EtcdClientShell

/-!
# The environment variable of the etcdctl clients

etcdctl reads its API version from the environment of the process. A client
sets the variable when it is made, unless the variable exists, and unsets it
when it goes, unless it does not. No client knows whether it was the one that
set it, nor whether others are alive.
-/
namespace Ohno.ClientEnvironment
open AddressText

/-- The environment of a process. A variable may be set to the empty text. -/
abbrev Environ := Text → Option Text

namespace EnvStd
variable (environ : Environ) (env : Text)

def get : Text := (environ env).getD []

/-- A variable that is set to the empty text does not exist. -/
def exist : Bool := get environ env ≠ []

def set (value : Text) : Environ := Function.update environ env (some value)
def unset : Environ := Function.update environ env none

end EnvStd

def etcdctlVersion : Text := "ETCDCTL_API".toList
def etcdctlVersionValue : Text := "3".toList

/-- `EtcdClientShell::EtcdClientShell` -/
def construct (environ : Environ) : Environ :=
  if EnvStd.exist environ etcdctlVersion then environ
  else EnvStd.set environ etcdctlVersion etcdctlVersionValue

/-- `EtcdClientShell::~EtcdClientShell` -/
def destroy (environ : Environ) : Environ :=
  if EnvStd.exist environ etcdctlVersion then EnvStd.unset environ etcdctlVersion else environ

/-! ### Processes -/

/-- The beginning and the end of a client's life. -/
inductive Event where
  | construct (client : ℕ)
  | destroy (client : ℕ)
deriving Repr, DecidableEq

structure Process where
  environ : Environ
  clients : List ℕ

/-- A client is made once and can go as long as it is alive. -/
def step (p : Process) : Event → Option Process
  | .construct c => if c ∈ p.clients then none else some ⟨construct p.environ, c :: p.clients⟩
  | .destroy c =>
      if c ∈ p.clients then some ⟨destroy p.environ, p.clients.erase c⟩ else none

/-- The lives of clients in one process, from its start on. -/
inductive Run (environ : Environ) : List Event → Process → Prop where
  | start : Run environ [] ⟨environ, []⟩
  | step {es : List Event} {e : Event} {p q : Process} :
      Run environ es p → step p e = some q → Run environ (es ++ [e]) q

/-- The clients that are alive after some events. -/
def living (es : List Event) : List ℕ :=
  es.foldl (fun alive e => match e with
    | .construct c => c :: alive
    | .destroy c => alive.erase c) []

/-- The variable is set while a client is alive, and otherwise as it was at first. -/
structure Kept (environ : Environ) (p : Process) : Prop where
  alive : p.clients ≠ [] → (p.environ etcdctlVersion).isSome
  gone : p.clients = [] → p.environ etcdctlVersion = environ etcdctlVersion

/-! ### One step -/

variable {environ : Environ} {es : List Event} {p q : Process}

theorem exist_iff {env : Text} : EnvStd.exist environ env ↔ ∃ v, v ≠ [] ∧ environ env = some v := by
  cases h : environ env with
  | none => simp [EnvStd.exist, EnvStd.get, h]
  | some v => simp [EnvStd.exist, EnvStd.get, h]

/-- A new client finds the variable or sets it. -/
theorem exist_construct (environ : Environ) : EnvStd.exist (construct environ) etcdctlVersion := by
  by_cases h : EnvStd.exist environ etcdctlVersion
  · rwa [construct, if_pos h]
  · rw [construct, if_neg h, exist_iff]
    exact ⟨etcdctlVersionValue, by decide, Function.update_self ..⟩

/-- A client that goes leaves the variable unset, or empty if it was. -/
theorem destroy_of_exist (h : EnvStd.exist environ etcdctlVersion) :
    destroy environ etcdctlVersion = none := by
  rw [destroy, if_pos h]
  exact Function.update_self ..

theorem destroy_of_none (h : environ etcdctlVersion = none) :
    destroy environ etcdctlVersion = none := by
  have hno : EnvStd.exist environ etcdctlVersion = false := by simp [EnvStd.exist, EnvStd.get, h]
  rw [destroy, hno, if_neg Bool.false_ne_true, h]

/-- No other variable changes. -/
theorem step_of_ne {e : Event} (h : step p e = some q) {env : Text} (hne : env ≠ etcdctlVersion) :
    q.environ env = p.environ env := by
  cases e with
  | construct c =>
      simp only [step] at h
      split at h
      · simp at h
      · cases h
        simp only [construct]
        split
        · rfl
        · exact Function.update_of_ne hne ..
  | destroy c =>
      simp only [step] at h
      split at h
      · cases h
        simp only [destroy]
        split
        · exact Function.update_of_ne hne ..
        · rfl
      · simp at h

theorem step_construct {c : ℕ} (h : step p (.construct c) = some q) :
    q = ⟨construct p.environ, c :: p.clients⟩ := by
  simp only [step] at h
  split at h
  · simp at h
  · exact (Option.some.inj h).symm

theorem step_destroy {c : ℕ} (h : step p (.destroy c) = some q) :
    c ∈ p.clients ∧ q = ⟨destroy p.environ, p.clients.erase c⟩ := by
  simp only [step] at h
  split at h
  · rename_i hc
    exact ⟨hc, (Option.some.inj h).symm⟩
  · simp at h

/-! ### Runs -/

theorem living_concat (es : List Event) (e : Event) :
    living (es ++ [e]) = match e with
      | .construct c => c :: living es
      | .destroy c => (living es).erase c := by
  rw [living, List.foldl_append]
  cases e <;> rfl

theorem Run.clients (run : Run environ es p) : p.clients = living es := by
  induction run with
  | start => rfl
  | @step es e p q _ h ih =>
      rw [living_concat, ← ih]
      cases e with
      | construct c => rw [step_construct h]
      | destroy c => rw [(step_destroy h).2]

/-- Every part of a run from its beginning is a run. -/
theorem Run.before {es' : List Event} (run : Run environ es p) (h : es' <+: es) :
    ∃ p', Run environ es' p' := by
  induction run with
  | start =>
      rw [List.prefix_nil.mp h]
      exact ⟨_, .start⟩
  | @step es e p q run hstep ih =>
      rcases List.prefix_concat_iff.mp h with rfl | h
      · exact ⟨q, .step run hstep⟩
      · exact ih h

theorem Run.last {e : Event} (run : Run environ (es ++ [e]) q) :
    ∃ p, Run environ es p ∧ ClientEnvironment.step p e = some q := by
  generalize hes : es ++ [e] = all at run
  cases run with
  | start => simp at hes
  | @step es' e' p q run h =>
      obtain ⟨rfl, hlast⟩ := List.append_inj' hes rfl
      cases hlast
      exact ⟨p, run, h⟩

/-- While a client is alive the variable exists or is unset; it is never empty. -/
theorem Run.exist_or_none (run : Run environ es p) (h : p.clients ≠ []) :
    EnvStd.exist p.environ etcdctlVersion ∨ p.environ etcdctlVersion = none := by
  induction run with
  | start => exact absurd rfl h
  | @step es e p q _ hstep ih =>
      cases e with
      | construct c =>
          rw [step_construct hstep]
          exact .inl (exist_construct _)
      | destroy c =>
          obtain ⟨hc, rfl⟩ := step_destroy hstep
          right
          rcases ih (List.ne_nil_of_mem hc) with hex | hnone
          · exact destroy_of_exist hex
          · exact destroy_of_none hnone

/-- A client that goes leaves the variable unset. -/
theorem Run.unset {c : ℕ} (run : Run environ (es ++ [.destroy c]) q) :
    q.environ etcdctlVersion = none := by
  obtain ⟨p, before, h⟩ := run.last
  obtain ⟨hc, rfl⟩ := step_destroy h
  rcases before.exist_or_none (List.ne_nil_of_mem hc) with hex | hnone
  · exact destroy_of_exist hex
  · exact destroy_of_none hnone

/-- Clients that go alone, in a process that did not have the variable, leave
it as the law asks. -/
theorem Run.kept (run : Run environ es p)
    (alone : ∀ pre c, pre ++ [.destroy c] <+: es → environ etcdctlVersion = none ∧
      living pre = [c]) :
    Kept environ p ∧ (p.clients ≠ [] → EnvStd.exist p.environ etcdctlVersion) := by
  induction run with
  | start => exact ⟨⟨fun h => absurd rfl h, fun _ => rfl⟩, fun h => absurd rfl h⟩
  | @step es e p q before h ih =>
      cases e with
      | construct c =>
          rw [step_construct h]
          have hex := exist_construct p.environ
          refine ⟨⟨?_, fun hnil => by simp at hnil⟩, fun _ => hex⟩
          intro _
          obtain ⟨v, -, hv⟩ := exist_iff.mp hex
          simp [hv]
      | destroy c =>
          have hunset := (Run.step before h).unset
          obtain ⟨hnone, hliving⟩ := alone es c List.prefix_rfl
          obtain ⟨-, rfl⟩ := step_destroy h
          have hnil : p.clients.erase c = [] := by
            rw [before.clients, hliving]
            simp
          exact ⟨⟨fun hne => absurd hnil hne, fun _ => hunset.trans hnone.symm⟩,
            fun hne => absurd hnil hne⟩

/-- The processes of the plugin hold two clients, of `Ipam` and of `Storage`. -/
theorem run_two (environ : Environ) :
    Run environ [.construct 0, .construct 1] ⟨construct (construct environ), [1, 0]⟩ := by
  have one : Run environ ([] ++ [.construct 0]) ⟨construct environ, [0]⟩ := .step .start rfl
  exact .step one rfl

/-- The law holds throughout a run exactly when every client that goes is the
only one, in a process that began without the variable. -/
theorem run_kept_iff (run : Run environ es p) :
    (∀ es' p', es' <+: es → Run environ es' p' → Kept environ p') ↔
      ∀ pre c, pre ++ [.destroy c] <+: es →
        environ etcdctlVersion = none ∧ living pre = [c] := by
  constructor
  · intro law pre c hpre
    obtain ⟨q, hq⟩ := run.before hpre
    have kept := law _ q hpre hq
    have hunset := hq.unset
    have hnil : q.clients = [] := by
      by_contra hne
      have hsome := kept.alive hne
      simp [hunset] at hsome
    refine ⟨(kept.gone hnil).symm.trans hunset, ?_⟩
    obtain ⟨p, before, h⟩ := hq.last
    obtain ⟨hc, rfl⟩ := step_destroy h
    have herase : p.clients.erase c = [] := hnil
    have hlen : p.clients.length = 1 := by
      have hpos := List.length_pos_of_mem hc
      have hzero := congrArg List.length herase
      rw [List.length_erase_of_mem hc, List.length_nil] at hzero
      omega
    obtain ⟨d, hd⟩ := List.length_eq_one_iff.mp hlen
    rw [← before.clients, hd]
    rw [hd, List.mem_singleton] at hc
    rw [hc]
  · intro alone es' p' hpre hrun
    exact (hrun.kept fun pre c h => alone pre c (h.trans hpre)).1

/-- One client comes and goes, and another one comes. -/
theorem run_one_after_other (environ : Environ) :
    Run environ [.construct 0, .destroy 0, .construct 1]
      ⟨construct (destroy (construct environ)), [1]⟩ := by
  have one : Run environ ([] ++ [.construct 0]) ⟨construct environ, [0]⟩ := .step .start rfl
  have gone : Run environ ([.construct 0] ++ [.destroy 0]) ⟨destroy (construct environ), []⟩ :=
    .step one rfl
  exact .step gone rfl

theorem run_kept_iff_two :
    (∀ es' p', es' <+: [.construct 0, .destroy 0, .construct 1] → Run (fun _ => none) es' p' →
      Kept (fun _ => none) p') ↔
      ∀ pre c, pre ++ [.destroy c] <+: [.construct 0, .destroy 0, .construct 1] →
        (none : Option Text) = none ∧ living pre = [c] :=
  run_kept_iff (run_one_after_other fun _ => none)

/-- The second client loses the variable with the first, and a variable that
the process had from its start is gone with the only one. -/
theorem not_kept :
    (∃ p, Run (fun _ => none) [.construct 0, .construct 1, .destroy 0] p ∧ p.clients = [1] ∧
      p.environ etcdctlVersion = none ∧ ¬ Kept (fun _ => none) p) ∧
    (∃ p, Run (fun _ => some ['3']) [.construct 0, .destroy 0] p ∧ p.clients = [] ∧
      p.environ etcdctlVersion = none ∧ ¬ Kept (fun _ => some ['3']) p) := by
  constructor
  · have run : Run (fun _ => none) [.construct 0, .construct 1, .destroy 0]
        ⟨destroy (construct (construct fun _ => none)), [1]⟩ := .step (run_two _) rfl
    have hunset := Run.unset (show Run _ ([.construct 0, .construct 1] ++ [.destroy 0]) _ from run)
    refine ⟨_, run, rfl, hunset, ?_⟩
    intro kept
    have hsome := kept.alive (by simp)
    rw [hunset] at hsome
    simp at hsome
  · have run : Run (fun _ => some ['3']) [.construct 0, .destroy 0]
        ⟨destroy (construct fun _ => some ['3']), []⟩ := by
      have one : Run (fun _ => some ['3']) ([] ++ [.construct 0])
          ⟨construct fun _ => some ['3'], [0]⟩ := .step .start rfl
      exact .step one rfl
    have hunset := Run.unset (show Run _ ([.construct 0] ++ [.destroy 0]) _ from run)
    refine ⟨_, run, rfl, hunset, ?_⟩
    intro kept
    have hgone := kept.gone rfl
    rw [hunset] at hgone
    simp at hgone

end Ohno.ClientEnvironment
