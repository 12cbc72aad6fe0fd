import Ohno.CniRecords

/-!
# The plugin process

`main` of the plugin: the configuration comes from stdin and the rest from the
environment. On stdout and stderr stand JSON values, since `nlohmann::json`
prints them. A `Process` is what the process finds besides; a plugin that has
been given its parts keeps them, so `setIpam` and the like do not fail. Of the
log only what can throw is here: opening it at the start, looking at the path
that the configuration gives, and printing the arguments of a message.

`exit_contract` is what the container runtime may rely on, whatever the commands
do that the process issues. The type of the operation is known late: what throws
before that makes a DEL fail.
-/
namespace Ohno.PluginMain
open CommandPrograms AddressText EtcdClientShell Subnets Netlink JsonRecords CniRecords CniPlugin

/-! ### The code -/

/-- `Type` -/
inductive Op where
  | reserved
  | add
  | del
  | version
deriving Repr, DecidableEq

def commandAdd : Text := "ADD".toList
def commandDel : Text := "DEL".toList
def commandVersion : Text := "VERSION".toList
def commandsNotSupported : List Text := ["CHECK".toList, "STATUS".toList, "GC".toList]
def getConf : Text := "--get-conf".toList
def logfileDefault : Text := "/var/run/log/ohno.log".toList

structure Process where
  /-- Whether the default log file can be opened. -/
  logReady : Bool
  /-- `fs::is_directory`, which throws where this is `none`. -/
  isDirectory : Text → Option Bool
  /-- Whether `nlohmann::json` prints a value. It throws at a string that is not UTF-8. -/
  dumps : Json → Bool
  /-- `Center::getApiServer` and `Center::test` -/
  healthy : Except Thrown Bool
  /-- `Center::getEtcdClusters` and `Ipam::init` -/
  ipamReady : Except Thrown Bool
  /-- `Storage::init` -/
  storageReady : Except Thrown Bool
  unset : Mode
  plugin : Cni

inductive Stderr where
  | cniError (json : Json)
  | error (msg : Option String)

structure Exit where
  success : Bool
  stdout : Option Json := none
  stderr : Option Stderr := none
  /-- `ohno.json` -/
  file : Option Json := none

section Code
variable (p : Process)

/-- `nlohmann::json::dump` -/
def dump (v : Json) : Except Thrown Json := if p.dumps v then .ok v else .error .standard

/-- `OHNO_GLOBAL_LOG` looks at its arguments only from the level of the log on. -/
def logs (level l : Level) : Bool := decide (Level.all.idxOf level ≤ Level.all.idxOf l)

/-- A text that is not JSON is `none`. The log starts at the lowest level. -/
def parseCniConfig (stdin : Option Json) : Except Thrown CniRecords.CniConfig :=
  match stdin.bind fun v => CniConfig.fromJson v {} with
  | none => .error .standard
  | some config => do
      let _ ← dump p config.toJson
      pure config

def logPath (file : Text) : Text := if file = [] then logfileDefault else file

/-- `LogConfig::setLogFile`: where the log goes in the end matters to the log alone. -/
def setLogFile (file : Text) : Except Thrown Unit :=
  match p.isDirectory (logPath file) with
  | none => .error .standard
  | some _ => .ok ()

/-- `env` has the variables as they are. -/
def parseCniEnv (level : Level) (env : CniEnv) : Except Thrown CniEnv :=
  if logs level .info then do
    let _ ← dump p env.toJson
    pure env
  else
    .ok env

def determineType (command : Text) : Except Thrown Op :=
  if command = commandAdd then .ok .add
  else if command = commandDel then .ok .del
  else if commandsNotSupported.any (· = command) then
    .error (.cniError cniErrcodeNotSupported s!"\"{str command}\" is on the road, bro")
  else if command = commandVersion then .ok .version
  else .ok .reserved

/-- What the plugin uses of its configuration. -/
def used (config : CniRecords.CniConfig) : CniPlugin.CniConfig where
  cniVersion := config.cniVersion
  type := config.type
  bridge := config.bridge
  subnet := config.ipam.subnet
  mode := config.ipam.mode

def getCniPlugin (config : CniRecords.CniConfig) : Except Thrown Cni := do
  if ← p.healthy then
    if ← p.ipamReady then
      if ← p.storageReady then
        (parseConfig (used config) p.unset).map fun mode =>
          { p.plugin with conf := used config, ipamMode := mode }
      else .error (.cniError cniErrcodeOhno
        "Failed to initialize storage, please check in ETCD cluster")
    else .error (.cniError cniErrcodeOhno "Failed to initialize IPAM, please check in ETCD cluster")
  else .error (.cniError 7 "Kubernetes api server is unhealthy")

/-- `Cni::version` -/
def version (cni : Cni) : CniVersion := { cniVersion := cni.conf.cniVersion }

def errorJson (code : ℕ) (details : String) : Json := (CniError.of code details).toJson

/-- `Cni::del` and what its handler prints. What is thrown there ends the process. -/
def del (cni : Cni) (containerId nicName : Text) : OhnoProgram Unit :=
  (cni.delBody containerId nicName).catch_ fun
    | .segfault => .throw .segfault
    | .cniError code details =>
        if p.dumps (errorJson code details) then .pure () else .throw .segfault
    | _ => .pure ()

/-- The `switch` of `main`. -/
def dispatch (cni : Cni) (env : CniEnv) : Op → OhnoProgram Exit
  | .add => do
      let r ← cni.add env.containerId env.netns env.ifname
      let output ← Program.ofExcept (dump p (CniResult.ofAdd r).toJson)
      pure { success := true, stdout := some output }
  | .del => do
      del p cni env.containerId env.ifname
      pure { success := true }
  | .version => do
      let output ← Program.ofExcept (dump p (version cni).toJson)
      pure { success := true, stdout := some output }
  | .reserved => .throw (.cniError 4 s!"Unknown CNI env var: CNI_COMMAND={str env.command}")

/-- The handlers of `main`. -/
def report (del : Bool) : Thrown → OhnoProgram Exit
  | .cniError code details =>
      if p.dumps (errorJson code details) then
        pure { success := del, stderr := some (.cniError (errorJson code details)) }
      else
        .throw .segfault
  | .exception msg => pure { success := del, stderr := some (.error (some msg)) }
  | .standard => pure { success := del, stderr := some (.error none) }
  | .segfault => .throw .segfault

/-- What is thrown before the type is known is not thrown by a DEL. -/
def serve (config : CniRecords.CniConfig) (env : CniEnv) : OhnoProgram Exit :=
  match determineType env.command with
  | .error e => report p false e
  | .ok op =>
      (do
        let cni ← Program.ofExcept (getCniPlugin p config)
        dispatch p cni env op).catch_ (report p (decide (op = Op.del)))

/-- What `main` does before it looks at the command. -/
def prepare (stdin : Option Json) (env : CniEnv) :
    Except Thrown (CniRecords.CniConfig × CniEnv) := do
  let config ← parseCniConfig p stdin
  setLogFile p config.log
  let env ← parseCniEnv p config.loglevel env
  pure (config, env)

/-- `argv` without the name of the program. -/
def main (argv : List Text) (stdin : Option Json) (env : CniEnv) : OhnoProgram Exit :=
  if p.logReady then
    if argv.head? = some getConf then
      pure { success := true, file := some (CniRecords.CniConfig.toJson {}) }
    else
      match prepare p stdin env with
      | .error e => report p false e
      | .ok ready => serve p ready.1 ready.2
  else
    report p false .standard

end Code

/-- Where everything can be printed, `Cni::del` is as it is modelled without its log. -/
theorem del_eq {p : Process} (h : ∀ v, p.dumps v = true) (cni : Cni) (containerId nicName : Text) :
    del p cni containerId nicName = cni.del containerId nicName := by
  unfold del Cni.del
  congr 1
  funext e
  cases e with
  | cniError code details => simp [h]
  | exception msg => rfl
  | standard => rfl
  | segfault => rfl

/-! ### The contract -/

section Contract
variable {S : Type} {H : Cmd → S → Reply → S → Prop} {p : Process} {argv : List Text}
variable {stdin : Option Json} {env : CniEnv} {config : CniRecords.CniConfig} {cni : Cni} {s t : S}
variable {x : Exit}

theorem exec_ofExcept {A : Type} {e : Except Thrown A} {o : Except Thrown A}
    (h : (Program.ofExcept e : OhnoProgram A).Exec H s o t) : o = e ∧ t = s := by
  cases e <;> exact h

theorem exec_bind_ok {A B : Type} {q : OhnoProgram A} {f : A → OhnoProgram B} {b : B}
    (h : (q.bind f).Exec H s (.ok b) t) :
    ∃ a u, q.Exec H s (.ok a) u ∧ (f a).Exec H u (.ok b) t := by
  rcases (Program.exec_bind q f s (.ok b) t).mp h with h | ⟨e, -, he⟩
  · exact h
  · cases he

theorem result_ok {loaded : Loaded} {nic : Nics.Nic} {nicName netns : Text}
    {r : CniPlugin.CniResult}
    (h : cni.result loaded nic nicName netns = .ok r) :
    r.cniVersion = cni.conf.cniVersion ∧ r.name = nicName ∧ r.sandbox = netns := by
  unfold Cni.result at h
  cases ha : Cni.addrText nic unknownAddrV4 with
  | error e => simp [ha, bind, Except.bind] at h
  | ok a =>
      cases hgw : loaded.gateway with
      | none => simp [ha, hgw, bind, Except.bind] at h
      | some gw =>
          cases hg : gw.getAddr with
          | error e => simp [ha, hgw, hg, bind, Except.bind] at h
          | ok g =>
              simp only [ha, hgw, hg, bind, Except.bind, pure, Except.pure, Except.ok.injEq] at h
              subst h
              exact ⟨rfl, rfl, rfl⟩

/-- The result of an ADD is about the interface that was asked for. -/
theorem result_of_add {containerId netns nicName : Text} {r : CniPlugin.CniResult}
    (h : (cni.add containerId netns nicName).Exec H s (.ok r) t) :
    r.cniVersion = cni.conf.cniVersion ∧ r.name = nicName ∧ r.sandbox = netns := by
  unfold Cni.add at h
  split at h
  · obtain ⟨loaded, u₁, -, h⟩ := exec_bind_ok h
    obtain ⟨ret, u₂, -, h⟩ := exec_bind_ok h
    obtain ⟨found, u₃, -, h⟩ := exec_bind_ok h
    obtain ⟨nic, u₄, -, h⟩ := exec_bind_ok h
    exact result_ok (exec_ofExcept h).1.symm
  · cases h.1

/-- A DEL throws nothing that a handler would see. -/
theorem error_of_del {containerId nicName : Text} {e : Thrown}
    (h : (del p cni containerId nicName).Exec H s (.error e) t) : e = .segfault := by
  rcases (Program.exec_catch _ _ s _ t).mp h with ⟨a, -, ha⟩ | ⟨e', u, -, hu⟩
  · cases ha
  · cases e' with
    | segfault => exact Except.error.inj hu.1
    | cniError code details =>
        cases hdump : p.dumps (errorJson code details) with
        | true =>
            simp only [hdump, if_true] at hu
            cases hu.1
        | false =>
            simp only [hdump, Bool.false_eq_true, if_false] at hu
            exact Except.error.inj hu.1
    | exception msg => cases hu.1
    | standard => cases hu.1

/-- Nothing is thrown before the command is looked at. -/
structure Ready (p : Process) (stdin : Option Json) (env : CniEnv)
    (config : CniRecords.CniConfig) : Prop where
  log : p.logReady = true
  read : stdin.bind (fun v => CniConfig.fromJson v {}) = some config
  printed : p.dumps config.toJson = true
  file : (p.isDirectory (logPath config.log)).isSome = true
  env : logs config.loglevel .info = true → p.dumps env.toJson = true

/-- What the runtime is told. -/
structure Contract (p : Process) (stdin : Option Json) (env : CniEnv) (s t : S) (x : Exit) :
    Prop where
  /-- A result or an error, and not both. -/
  either : x.stdout = none ∨ x.stderr = none ∧ x.success = true
  /-- The result is that of the operation. -/
  result : ∀ v, x.stdout = some v → ∃ config, Ready p stdin env config ∧
    (env.command = commandAdd ∧ (∃ r, (∀ u, CniResult.fromJson v u = some r) ∧
        r.cniversion = config.cniVersion ∧ r.interfaces = [⟨env.ifname, env.netns⟩] ∧
        r.ips.length = 1) ∨
      env.command = commandVersion ∧
        ∀ u, CniVersion.fromJson v u = some { cniVersion := config.cniVersion })
  /-- An ADD succeeds only with a result. -/
  add : env.command = commandAdd → (x.success = true ↔ x.stdout.isSome = true)
  /-- A DEL succeeds, even if nothing was deleted, once it is known to be one. -/
  del : env.command = commandDel → x.stdout = none ∧
    (x.success = true ↔ ∃ config, Ready p stdin env config)
  /-- The error can be read. -/
  error : ∀ v, x.stderr = some (.cniError v) →
    ∃ code details, ∀ u, CniError.fromJson v u = some (.of code details)
  /-- Other commands, and a process that finds the API server or etcd unhealthy, touch nothing. -/
  idle : t ≠ s → (env.command = commandAdd ∨ env.command = commandDel) ∧ p.healthy = .ok true ∧
    p.ipamReady = .ok true ∧ p.storageReady = .ok true

/-- An error that is reported. -/
structure Refused (success : Bool) (x : Exit) : Prop where
  success : x.success = success
  stdout : x.stdout = none
  error : ∀ v, x.stderr = some (.cniError v) →
    ∃ code details, ∀ u, CniError.fromJson v u = some (.of code details)

theorem refused_of_report {del : Bool} {e : Thrown} {o : Except Thrown Exit}
    (h : (report p del e).Exec H s o t) :
    t = s ∧ (o = .error .segfault ∨ ∃ x, o = .ok x ∧ Refused del x) := by
  cases e with
  | cniError code details =>
      cases hdump : p.dumps (errorJson code details) with
      | true =>
          simp only [report, hdump, if_true] at h
          refine ⟨h.2, .inr ⟨_, h.1, rfl, rfl, ?_⟩⟩
          intro v hv
          simp only [Option.some.injEq, Stderr.cniError.injEq] at hv
          subst hv
          exact ⟨code, details, decode_encode lawful_error _⟩
      | false =>
          simp only [report, hdump, Bool.false_eq_true, if_false] at h
          exact ⟨h.2, .inl h.1⟩
  | exception msg => exact ⟨h.2, .inr ⟨_, h.1, rfl, rfl, fun v hv => by simp at hv⟩⟩
  | standard => exact ⟨h.2, .inr ⟨_, h.1, rfl, rfl, fun v hv => by simp at hv⟩⟩
  | segfault => exact ⟨h.2, .inl h.1⟩

theorem Refused.contract {del : Bool} (h : Refused del x)
    (hadd : env.command = commandAdd → del = false)
    (hdel : env.command = commandDel → (del = true ↔ ∃ config, Ready p stdin env config))
    (hidle : t ≠ s → (env.command = commandAdd ∨ env.command = commandDel) ∧
      p.healthy = .ok true ∧ p.ipamReady = .ok true ∧ p.storageReady = .ok true) :
    Contract p stdin env s t x where
  either := .inl h.stdout
  result v hv := by
    rw [h.stdout] at hv
    cases hv
  add hc := by simp [h.success, h.stdout, hadd hc]
  del hc := ⟨h.stdout, h.success ▸ hdel hc⟩
  error := h.error
  idle := hidle

/-- A report before the command is looked at. -/
theorem contract_of_report {e : Thrown} {o : Except Thrown Exit}
    (hnot : ¬ ∃ config, Ready p stdin env config) (h : (report p false e).Exec H s o t) :
    o = .error .segfault ∨ ∃ x, o = .ok x ∧ Contract p stdin env s t x := by
  obtain ⟨rfl, hseg | ⟨x, rfl, hx⟩⟩ := refused_of_report h
  · exact .inl hseg
  · refine .inr ⟨x, rfl, hx.contract (fun _ => rfl) ?_ fun hts => absurd rfl hts⟩
    intro _
    exact iff_of_false Bool.false_ne_true hnot

theorem dump_ok {v w : Json} (h : dump p v = .ok w) : w = v := by
  unfold dump at h
  split_ifs at h
  exact (Except.ok.inj h).symm

/-- What is prepared is what was given, or something has been thrown. -/
theorem prepare_cases (hlog : p.logReady = true) :
    (∃ e, prepare p stdin env = .error e ∧ ¬ ∃ config, Ready p stdin env config) ∨
      ∃ config, prepare p stdin env = .ok (config, env) ∧ Ready p stdin env config := by
  unfold prepare parseCniConfig
  cases hread : stdin.bind fun v => CniConfig.fromJson v {} with
  | none =>
      refine .inl ⟨.standard, rfl, fun hr => ?_⟩
      obtain ⟨config, hr⟩ := hr
      rw [hr.read] at hread
      cases hread
  | some config =>
      have hsame : ∀ {config'}, Ready p stdin env config' → config' = config :=
        fun hr => Option.some.inj (hr.read.symm.trans hread)
      cases hprinted : p.dumps config.toJson with
      | false =>
          refine .inl ⟨.standard, by simp [dump, hprinted, bind, Except.bind], fun hr => ?_⟩
          obtain ⟨config', hr⟩ := hr
          have hp := hr.printed
          rw [hsame hr, hprinted] at hp
          cases hp
      | true =>
          cases hfile : p.isDirectory (logPath config.log) with
          | none =>
              refine .inl ⟨.standard, ?_, fun hr => ?_⟩
              · simp [dump, hprinted, setLogFile, hfile, bind, Except.bind, pure, Except.pure]
              · obtain ⟨config', hr⟩ := hr
                have hp := hr.file
                rw [hsame hr, hfile] at hp
                cases hp
          | some b =>
              by_cases henv : logs config.loglevel .info = true → p.dumps env.toJson = true
              · refine .inr ⟨config, ?_, hlog, hread, hprinted, by rw [hfile]; rfl, henv⟩
                cases hlevel : logs config.loglevel .info with
                | false =>
                    simp [dump, hprinted, setLogFile, hfile, parseCniEnv, hlevel, bind, Except.bind,
                      pure, Except.pure]
                | true =>
                    simp [dump, hprinted, setLogFile, hfile, parseCniEnv, hlevel, henv hlevel, bind,
                      Except.bind, pure, Except.pure]
              · push Not at henv
                obtain ⟨hlevel, hnot⟩ := henv
                refine .inl ⟨.standard, ?_, fun hr => ?_⟩
                · simp [dump, hprinted, setLogFile, hfile, parseCniEnv, hlevel, hnot, bind,
                    Except.bind, pure, Except.pure]
                · obtain ⟨config', hr⟩ := hr
                  have hv := hr.env
                  rw [hsame hr] at hv
                  exact hnot (hv hlevel)

theorem getCniPlugin_ok (h : getCniPlugin p config = .ok cni) :
    cni.conf.cniVersion = config.cniVersion ∧ p.healthy = .ok true ∧ p.ipamReady = .ok true ∧
      p.storageReady = .ok true := by
  unfold getCniPlugin at h
  rcases hh : p.healthy with e | b <;> rw [hh] at h
  · cases h
  rcases hi : p.ipamReady with e | b' <;> rw [hi] at h
  · cases b <;> cases h
  rcases hs : p.storageReady with e | b'' <;> rw [hs] at h
  · cases b <;> cases b' <;> cases h
  cases b with
  | false => cases h
  | true =>
      cases b' with
      | false => cases h
      | true =>
          cases b'' with
          | false => cases h
          | true =>
              cases hm : parseConfig (used config) p.unset with
              | error e => simp [hm, Except.map, bind, Except.bind] at h
              | ok mode =>
                  simp only [hm, Except.map, bind, Except.bind, if_true, Except.ok.injEq] at h
                  subst h
                  exact ⟨rfl, rfl, rfl, rfl⟩

theorem commands_ne : commandDel ≠ commandAdd ∧ commandVersion ≠ commandAdd ∧
    commandVersion ≠ commandDel ∧ commandAdd ∉ commandsNotSupported ∧
    commandDel ∉ commandsNotSupported := by
  decide +kernel

/-- What the operation that is determined says about the command. -/
theorem command_of_determineType {op : Op} (h : determineType env.command = .ok op) :
    (op = .add ↔ env.command = commandAdd) ∧ (op = .del ↔ env.command = commandDel) ∧
      (op = .version → env.command = commandVersion) := by
  obtain ⟨h₁, h₂, h₃, -, -⟩ := commands_ne
  unfold determineType at h
  split_ifs at h with ha hd hn hv
  all_goals cases h
  · simp [ha, h₁.symm]
  · simp [hd, h₁]
  · simp [hv, h₂, h₃]
  · simp [ha, hd]

theorem contract_of_dispatch {op : Op} (hready : Ready p stdin env config)
    (hcni : getCniPlugin p config = .ok cni) (hop : determineType env.command = .ok op)
    (h : (dispatch p cni env op).Exec H s (.ok x) t) : Contract p stdin env s t x := by
  obtain ⟨hversion, hidle⟩ := getCniPlugin_ok hcni
  obtain ⟨hadd, hdel, hver⟩ := command_of_determineType hop
  cases op with
  | add =>
      have hc := hadd.mp rfl
      obtain ⟨r, u, hr, hx⟩ := exec_bind_ok h
      obtain ⟨output, u', ho, hx⟩ := exec_bind_ok hx
      obtain ⟨hdump, -⟩ := exec_ofExcept ho
      obtain rfl := dump_ok hdump.symm
      obtain rfl := Except.ok.inj hx.1
      obtain ⟨h₁, h₂, h₃⟩ := result_of_add hr
      refine ⟨.inr ⟨rfl, rfl⟩, ?_, fun _ => by simp, ?_, ?_, fun _ => ⟨.inl hc, hidle⟩⟩
      · intro v hv
        rw [Option.some.injEq] at hv
        subst hv
        refine ⟨config, hready, .inl ⟨hc, .ofAdd r, decode_encode lawful_result _, ?_, ?_, rfl⟩⟩
        · exact h₁.trans hversion
        · simp [CniResult.ofAdd, h₂, h₃]
      · intro hc'
        exact absurd (hc'.symm.trans hc) commands_ne.1
      · intro v hv
        cases hv
  | del =>
      have hc := hdel.mp rfl
      obtain ⟨_, u, -, hx⟩ := exec_bind_ok h
      obtain rfl := Except.ok.inj hx.1
      refine ⟨.inl rfl, ?_, ?_, fun _ => ⟨rfl, iff_of_true rfl ⟨config, hready⟩⟩, ?_,
        fun _ => ⟨.inr hc, hidle⟩⟩
      · intro v hv
        cases hv
      · intro hc'
        exact absurd (hc.symm.trans hc') commands_ne.1
      · intro v hv
        cases hv
  | version =>
      have hc := hver rfl
      obtain ⟨output, u, ho, hx⟩ := exec_bind_ok h
      obtain ⟨hdump, rfl⟩ := exec_ofExcept ho
      obtain rfl := dump_ok hdump.symm
      obtain rfl := Except.ok.inj hx.1
      refine ⟨.inr ⟨rfl, rfl⟩, ?_, fun _ => by simp, ?_, ?_, fun hts => absurd hx.2 hts⟩
      · intro v hv
        rw [Option.some.injEq] at hv
        subst hv
        refine ⟨config, hready, .inr ⟨hc, fun u => ?_⟩⟩
        have hread : CniVersion.fromJson (version cni).toJson u = some (version cni) :=
          decode_encode lawful_version _ _
        rw [hread, version, hversion]
      · intro hc'
        exact absurd (hc.symm.trans hc') commands_ne.2.2.1
      · intro v hv
        cases hv
  | reserved => cases h.1

theorem contract_of_serve {o : Except Thrown Exit} (hready : Ready p stdin env config)
    (h : (serve p config env).Exec H s o t) :
    o = .error .segfault ∨ ∃ x, o = .ok x ∧ Contract p stdin env s t x := by
  unfold serve at h
  cases hop : determineType env.command with
  | error e =>
      rw [hop] at h
      obtain ⟨rfl, hseg | ⟨x, rfl, hx⟩⟩ := refused_of_report h
      · exact .inl hseg
      · refine .inr ⟨x, rfl, hx.contract (fun _ => rfl) ?_ fun hts => absurd rfl hts⟩
        intro hc
        simp [determineType, hc, commands_ne.1] at hop
  | ok op =>
      rw [hop] at h
      obtain ⟨hadd, hdel, -⟩ := command_of_determineType hop
      rcases (Program.exec_catch _ _ s o t).mp h with ⟨x, hx, rfl⟩ | ⟨e, u, he, hr⟩
      · obtain ⟨cni, u, hcni, hd⟩ := exec_bind_ok hx
        obtain ⟨hplugin, rfl⟩ := exec_ofExcept hcni
        exact .inr ⟨x, rfl, contract_of_dispatch hready hplugin.symm hop hd⟩
      · obtain ⟨rfl, hseg | ⟨x, rfl, hx⟩⟩ := refused_of_report hr
        · exact .inl hseg
        · refine .inr ⟨x, rfl, hx.contract ?_ ?_ ?_⟩
          · intro hc
            rw [hadd.mpr hc]
            rfl
          · intro hc
            exact iff_of_true (by simp [hdel.mpr hc]) ⟨config, hready⟩
          · intro hts
            rcases (Program.exec_bind _ _ s _ t).mp he with ⟨cni, u, hcni, hd⟩ | ⟨e', hcni, -⟩
            · obtain ⟨hplugin, rfl⟩ := exec_ofExcept hcni
              obtain ⟨-, hidle⟩ := getCniPlugin_ok hplugin.symm
              cases op with
              | add => exact ⟨.inl (hadd.mp rfl), hidle⟩
              | del => exact ⟨.inr (hdel.mp rfl), hidle⟩
              | version =>
                  rcases (Program.exec_bind _ _ _ _ _).mp hd with ⟨v, u, hv, hx⟩ | ⟨e', hv, -⟩
                  · cases hx.1
                  · exact absurd (exec_ofExcept hv).2 hts
              | reserved => exact absurd hd.2 hts
            · exact absurd (exec_ofExcept hcni).2 hts

/-- The API server does not answer. -/
def unhealthy : Process where
  logReady := true
  isDirectory _ := some false
  dumps _ := true
  healthy := .ok false
  ipamReady := .ok true
  storageReady := .ok true
  unset := .reserved
  plugin :=
    { conf := used {}, ipamMode := .reserved, boost := Boost.reference, node := ['a'],
      underlayDev := "eth0".toList, underlayAddr := "172.18.0.2/16".toList,
      podCidr := "10.244.1.0/24".toList, vxlanMac := [] }

def envDel : CniEnv := ⟨commandDel, ['c'], ['n'], "eth0".toList⟩

/-- A DEL fails where the path of the log cannot be looked at. -/
example : main { unhealthy with isDirectory := fun _ => none } [] (some (.object [])) envDel =
    .pure { success := false, stderr := some (.error none) } := rfl

end Contract
end Ohno.PluginMain
