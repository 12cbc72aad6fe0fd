import Ohno.CniPlugin
import Ohno.JsonRecords

/-!
# The records of the CNI protocol

The configuration and the environment that the plugin reads, and the result,
the version and the error that it prints. `nlohmann::json` parses and prints the
texts and is not part of the repository. Each `…Fields` lists the members in the
order of `to_json` and `from_json`, and `toJson` and `fromJson` are these two:
`from_json` fills a record that is there already, and throws where `fromJson`
gives `none`.
-/
namespace Ohno.CniRecords
open AddressText JsonRecords CniPlugin

abbrev Json := Value Text

/-! ### The configuration -/

def jkeyCniCciSubnet : Text := "subnet".toList
def jkeyCniCciMode : Text := "mode".toList
def jkeyCniCcVersion : Text := "cniVersion".toList
def jkeyCniCcName : Text := "name".toList
def jkeyCniCcType : Text := "type".toList
def jkeyCniCcBridge : Text := "bridge".toList
def jkeyCniCcLog : Text := "log".toList
def jkeyCniCcLoglevel : Text := "logLevel".toList
def jkeyCniCcSsl : Text := "ssl".toList
def jkeyCniCcIpam : Text := "ipam".toList

/-- `log::Level` -/
inductive Level where
  | trace
  | debug
  | info
  | warn
  | error
  | critical
  | off
  | maxsize
deriving Repr, DecidableEq

def Level.all : List Level := [.trace, .debug, .info, .warn, .error, .critical, .off, .maxsize]

/-- `enumName` -/
def Level.name : Level → Text
  | .trace => "trace".toList
  | .debug => "debug".toList
  | .info => "info".toList
  | .warn => "warn".toList
  | .error => "error".toList
  | .critical => "critical".toList
  | .off => "off".toList
  | .maxsize => "MAXSIZE".toList

theorem Level.mem_all (l : Level) : l ∈ Level.all := by cases l <;> decide

theorem Level.name_injective (l l' : Level) (h : l.name = l'.name) : l = l' := by
  revert h
  cases l <;> cases l' <;> decide +kernel

/-- An unknown level is `info`. -/
def levels : Codec.Enum Text Level :=
  ⟨Level.all, Level.name, .info, Level.mem_all, Level.name_injective⟩

def modeAll : List Mode := [.reserved, .hostGw, .vxlan, .evpn]

def modeName : Mode → Text
  | .reserved => "RESERVED".toList
  | .hostGw => "host_gw".toList
  | .vxlan => "vxlan".toList
  | .evpn => "evpn".toList

theorem mem_modeAll (m : Mode) : m ∈ modeAll := by cases m <;> decide

theorem modeName_injective (m m' : Mode) (h : modeName m = modeName m') : m = m' := by
  revert h
  cases m <;> cases m' <;> decide +kernel

/-- An unknown mode is `host_gw`. -/
def modes : Codec.Enum Text Mode := ⟨modeAll, modeName, .hostGw, mem_modeAll, modeName_injective⟩

structure CniConfigIpam where
  subnet : Text := "10.244.0.0/16".toList
  mode : Mode := .evpn
deriving Repr, DecidableEq

def ipamFields : List (Field Text CniConfigIpam) :=
  [field jkeyCniCciSubnet .string CniConfigIpam.subnet fun a s => { s with subnet := a },
    field jkeyCniCciMode (.enum modes) CniConfigIpam.mode fun a s => { s with mode := a }]

theorem lawful_ipam : Lawful ipamFields where
  nodup := by decide +kernel
  uniform := by
    simp only [ipamFields, List.forall_mem_cons]
    exact ⟨uniform_field fun _ _ => rfl, uniform_field fun _ _ => rfl, by simp⟩
  apart := by simp [ipamFields, Field.Apart, field]
  all _ _ := rfl

def CniConfigIpam.toJson (s : CniConfigIpam) : Json := .object (encode ipamFields s)
def CniConfigIpam.fromJson (v : Json) (s : CniConfigIpam) : Option CniConfigIpam :=
  decode ipamFields v s

def ipamCodec : Codec Text CniConfigIpam := .record ipamFields {} lawful_ipam

structure CniConfig where
  cniVersion : Text := "0.3.1".toList
  name : Text := "mynet".toList
  type : Text := "ohno".toList
  bridge : Text := "ohnobr".toList
  log : Text := "/var/run/log/ohno.log".toList
  loglevel : Level := .debug
  ssl : Bool := true
  ipam : CniConfigIpam := {}
deriving Repr, DecidableEq

def configFields : List (Field Text CniConfig) :=
  [field jkeyCniCcVersion .string CniConfig.cniVersion fun a s => { s with cniVersion := a },
    field jkeyCniCcName .string CniConfig.name fun a s => { s with name := a },
    field jkeyCniCcType .string CniConfig.type fun a s => { s with type := a },
    field jkeyCniCcBridge .string CniConfig.bridge fun a s => { s with bridge := a },
    field jkeyCniCcLog .string CniConfig.log fun a s => { s with log := a },
    field jkeyCniCcLoglevel (.enum levels) CniConfig.loglevel fun a s => { s with loglevel := a },
    field jkeyCniCcSsl .bool CniConfig.ssl fun a s => { s with ssl := a },
    field jkeyCniCcIpam ipamCodec CniConfig.ipam fun a s => { s with ipam := a }]

theorem uniform_config : ∀ f ∈ configFields, f.Uniform := by
  simp only [configFields, List.forall_mem_cons]
  exact ⟨uniform_field fun _ _ => rfl, uniform_field fun _ _ => rfl, uniform_field fun _ _ => rfl,
    uniform_field fun _ _ => rfl, uniform_field fun _ _ => rfl, uniform_field fun _ _ => rfl,
    uniform_field fun _ _ => rfl, uniform_field fun _ _ => rfl, by simp⟩

theorem apart_config : configFields.Pairwise fun f g => f.Apart g ∧ g.Apart f := by
  simp [configFields, Field.Apart, field]

theorem copyAll_config (s t : CniConfig) : copyAll configFields s t = s := by
  simp only [copyAll, configFields, List.foldl_cons, List.foldl_nil, field]

theorem lawful_config : Lawful configFields :=
  ⟨by decide +kernel, uniform_config, apart_config, copyAll_config⟩

def CniConfig.toJson (s : CniConfig) : Json := .object (encode configFields s)
def CniConfig.fromJson (v : Json) (s : CniConfig) : Option CniConfig := decode configFields v s

/-! ### The result of an ADD -/

def jkeyCniCripsAddress : Text := "address".toList
def jkeyCniCripsGateway : Text := "gateway".toList
def jkeyCniCriName : Text := "name".toList
def jkeyCniCriSandbox : Text := "sandbox".toList
def jkeyCniCrCniversion : Text := "cniVersion".toList
def jkeyCniCrInterfaces : Text := "interfaces".toList
def jkeyCniCrIps : Text := "ips".toList

structure CniResultIps where
  address : Text := []
  gateway : Text := []
deriving Repr, DecidableEq

def ipsFields : List (Field Text CniResultIps) :=
  [field jkeyCniCripsAddress .string CniResultIps.address fun a s => { s with address := a },
    field jkeyCniCripsGateway .string CniResultIps.gateway fun a s => { s with gateway := a }]

theorem lawful_ips : Lawful ipsFields where
  nodup := by decide +kernel
  uniform := by
    simp only [ipsFields, List.forall_mem_cons]
    exact ⟨uniform_field fun _ _ => rfl, uniform_field fun _ _ => rfl, by simp⟩
  apart := by simp [ipsFields, Field.Apart, field]
  all _ _ := by simp only [copyAll, ipsFields, List.foldl_cons, List.foldl_nil, field]

def CniResultIps.toJson (s : CniResultIps) : Json := .object (encode ipsFields s)
def CniResultIps.fromJson (v : Json) (s : CniResultIps) : Option CniResultIps :=
  decode ipsFields v s

def ipsCodec : Codec Text CniResultIps := .record ipsFields {} lawful_ips

structure CniResultInterfaces where
  name : Text := []
  sandbox : Text := []
deriving Repr, DecidableEq

def interfacesFields : List (Field Text CniResultInterfaces) :=
  [field jkeyCniCriName .string CniResultInterfaces.name fun a s => { s with name := a },
    field jkeyCniCriSandbox .string CniResultInterfaces.sandbox fun a s => { s with sandbox := a }]

theorem lawful_interfaces : Lawful interfacesFields where
  nodup := by decide +kernel
  uniform := by
    simp only [interfacesFields, List.forall_mem_cons]
    exact ⟨uniform_field fun _ _ => rfl, uniform_field fun _ _ => rfl, by simp⟩
  apart := by simp [interfacesFields, Field.Apart, field]
  all _ _ := by simp only [copyAll, interfacesFields, List.foldl_cons, List.foldl_nil, field]

def CniResultInterfaces.toJson (s : CniResultInterfaces) : Json :=
  .object (encode interfacesFields s)
def CniResultInterfaces.fromJson (v : Json) (s : CniResultInterfaces) :
    Option CniResultInterfaces := decode interfacesFields v s

def interfacesCodec : Codec Text CniResultInterfaces :=
  .record interfacesFields {} lawful_interfaces

structure CniResult where
  cniversion : Text := []
  ips : List CniResultIps := []
  interfaces : List CniResultInterfaces := []
deriving Repr, DecidableEq

def resultFields : List (Field Text CniResult) :=
  [field jkeyCniCrCniversion .string CniResult.cniversion fun a s => { s with cniversion := a },
    field jkeyCniCrInterfaces (.list interfacesCodec) CniResult.interfaces
      fun a s => { s with interfaces := a },
    field jkeyCniCrIps (.list ipsCodec) CniResult.ips fun a s => { s with ips := a }]

theorem lawful_result : Lawful resultFields where
  nodup := by decide +kernel
  uniform := by
    simp only [resultFields, List.forall_mem_cons]
    exact ⟨uniform_field fun _ _ => rfl, uniform_field fun _ _ => rfl, uniform_field fun _ _ => rfl,
      by simp⟩
  apart := by simp [resultFields, Field.Apart, field]
  all _ _ := by simp only [copyAll, resultFields, List.foldl_cons, List.foldl_nil, field]

def CniResult.toJson (s : CniResult) : Json := .object (encode resultFields s)
def CniResult.fromJson (v : Json) (s : CniResult) : Option CniResult := decode resultFields v s

/-- What `Cni::add` prints. -/
def CniResult.ofAdd (r : CniPlugin.CniResult) : CniResult where
  cniversion := r.cniVersion
  ips := [⟨r.address, r.gateway⟩]
  interfaces := [⟨r.name, r.sandbox⟩]

/-! ### The version -/

def jkeyCniCvCniversion : Text := "cniVersion".toList
def jkeyCniCvSupported : Text := "supportedVersions".toList

structure CniVersion where
  cniVersion : Text := []
  supportedVersions : List Text := ["0.3.0".toList, "0.3.1".toList, "0.4.0".toList]
deriving Repr, DecidableEq

def versionFields : List (Field Text CniVersion) :=
  [field jkeyCniCvCniversion .string CniVersion.cniVersion fun a s => { s with cniVersion := a },
    field jkeyCniCvSupported (.list .string) CniVersion.supportedVersions
      fun a s => { s with supportedVersions := a }]

theorem lawful_version : Lawful versionFields where
  nodup := by decide +kernel
  uniform := by
    simp only [versionFields, List.forall_mem_cons]
    exact ⟨uniform_field fun _ _ => rfl, uniform_field fun _ _ => rfl, by simp⟩
  apart := by simp [versionFields, Field.Apart, field]
  all _ _ := by simp only [copyAll, versionFields, List.foldl_cons, List.foldl_nil, field]

def CniVersion.toJson (s : CniVersion) : Json := .object (encode versionFields s)
def CniVersion.fromJson (v : Json) (s : CniVersion) : Option CniVersion := decode versionFields v s

/-! ### Errors -/

def jkeyCniCeCniversion : Text := "cniVersion".toList
def jkeyCniCeCode : Text := "code".toList
def jkeyCniCeMsg : Text := "msg".toList
def jkeyCniCeDetails : Text := "details".toList

def cniErrcodeNotSupported : ℕ := 287

structure CniError where
  cniversion : Text := "1.1.0".toList
  code : BitVec 32
  msg : Text
  details : Text
deriving Repr, DecidableEq

/-- The message that a code stands for. -/
def CniError.msgOf (code : ℕ) : String :=
  if code = 1 then "Incompatible CNI version"
  else if code = 2 then
    "Unsupported field in network configuration. The error message must contain the key and " ++
      "value of the unsupported field."
  else if code = 3 then
    "Container unknown or does not exist. This error implies the runtime does not need to " ++
      "perform any container network cleanup (for example, calling the DEL action on the " ++
      "container)."
  else if code = 4 then
    "Invalid necessary environment variables, like CNI_COMMAND, CNI_CONTAINERID, etc. The " ++
      "error message must contain the names of invalid variables."
  else if code = 5 then
    "I/O failure. For example, failed to read network config bytes from stdin."
  else if code = 6 then
    "Failed to decode content. For example, failed to unmarshal network config from bytes " ++
      "or failed to decode version info from string."
  else if code = 7 then
    "Invalid network config. If some validations on network configs do not pass, this error " ++
      "will be raised."
  else if code = 11 then
    "Try again later. If the plugin detects some transient condition that should clear up, " ++
      "it can use this code to notify the runtime it should re-try the operation later."
  else if code = cniErrcodeOhno then "Kubernetes cluster environment troubles (by ohno)"
  else if code = cniErrcodeNotSupported then "Not supported (by ohno)"
  else "Custom error code supported by specific vendors."

/-- The constructor. -/
def CniError.of (code : ℕ) (details : String) : CniError where
  code := BitVec.ofNat 32 code
  msg := (CniError.msgOf code).toList
  details := details.toList

def errorFields : List (Field Text CniError) :=
  [field jkeyCniCeCniversion .string CniError.cniversion fun a s => { s with cniversion := a },
    field jkeyCniCeCode (.int 32) CniError.code fun a s => { s with code := a },
    field jkeyCniCeMsg .string CniError.msg fun a s => { s with msg := a },
    field jkeyCniCeDetails .string CniError.details fun a s => { s with details := a }]

theorem lawful_error : Lawful errorFields where
  nodup := by decide +kernel
  uniform := by
    simp only [errorFields, List.forall_mem_cons]
    exact ⟨uniform_field fun _ _ => rfl, uniform_field fun _ _ => rfl, uniform_field fun _ _ => rfl,
      uniform_field fun _ _ => rfl, by simp⟩
  apart := by simp [errorFields, Field.Apart, field]
  all _ _ := by simp only [copyAll, errorFields, List.foldl_cons, List.foldl_nil, field]

def CniError.toJson (s : CniError) : Json := .object (encode errorFields s)
def CniError.fromJson (v : Json) (s : CniError) : Option CniError := decode errorFields v s

/-! ### The environment -/

def jkeyCniCeCommand : Text := "CNI_COMMAND".toList
def jkeyCniCeContainerid : Text := "CNI_CONTAINERID".toList
def jkeyCniCeNetns : Text := "CNI_NETNS".toList
def jkeyCniCeIfname : Text := "CNI_IFNAME".toList

structure CniEnv where
  command : Text := []
  containerId : Text := []
  netns : Text := []
  ifname : Text := []
deriving Repr, DecidableEq

def envFields : List (Field Text CniEnv) :=
  [field jkeyCniCeCommand .string CniEnv.command fun a s => { s with command := a },
    field jkeyCniCeContainerid .string CniEnv.containerId fun a s => { s with containerId := a },
    field jkeyCniCeNetns .string CniEnv.netns fun a s => { s with netns := a },
    field jkeyCniCeIfname .string CniEnv.ifname fun a s => { s with ifname := a }]

def CniEnv.toJson (s : CniEnv) : Json := .object (encode envFields s)

/-! ### What is read back -/

/-- What the plugin prints is read back, over whatever was there before. -/
theorem records_read_back :
    (∀ c u : CniConfig, CniConfig.fromJson c.toJson u = some c) ∧
      (∀ r u : CniResult, CniResult.fromJson r.toJson u = some r) ∧
      (∀ v u : CniVersion, CniVersion.fromJson v.toJson u = some v) ∧
      ∀ e u : CniError, CniError.fromJson e.toJson u = some e :=
  ⟨decode_encode lawful_config, decode_encode lawful_result, decode_encode lawful_version,
    decode_encode lawful_error⟩

/-- A configuration that leaves members out is read as if the default ones were
there. Other members, and a value that is no object, change nothing. -/
theorem config_over_defaults :
    (∀ members u, CniConfig.fromJson (.object members) {} =
      CniConfig.fromJson (.object (members ++ encode configFields {})) u) ∧
      (∀ v w : Json, (∀ f ∈ configFields, v.member f.key = w.member f.key) →
        CniConfig.fromJson v {} = CniConfig.fromJson w {}) ∧
      ∀ v : Json, (∀ members, v ≠ .object members) → CniConfig.fromJson v {} = some {} := by
  refine ⟨?_, ?_, ?_⟩
  · intro members u
    exact (decode_fill lawful_config members {} u).symm
  · intro v w h
    exact decode_congr h {}
  · intro v h
    have habsent : ∀ f ∈ configFields, v.member f.key = none := by
      intro f _
      cases v with
      | object members => exact absurd rfl (h members)
      | _ => rfl
    exact decode_of_absent habsent {}

end Ohno.CniRecords
