import Ohno.CniPlugin
import Ohno.CommandLines
import Ohno.CommandPools
import Ohno.DerivedNames

/-!
# The plugin over the shell

`ShellSync` hands each command to a shell as one line of text. A name with a
blank or a semicolon in it would make another command of the line. `overShell` is
the plugin as it runs, with lines for commands, and `sh` what a shell makes of
them: it may do anything with a line that it does more with than cutting it.

The lines are those of `get`, `put`, `del` and `NetlinkIpCmd`. Not among them are
the `awk` lines of `getNodeInfo`, the `get` of a prefix in `dump`, and the check
of the endpoint's health.

The names, paths and addresses that the runtime, the configuration and the API
server give the plugin are plain words, as a rule. Then the values in etcd stay
plain as well, and any number of plugins on any nodes, each of which may be killed
at any time, do over the shell exactly what their commands say.
-/
namespace Ohno.PlainPrograms
open CommandPrograms CommandTraces CommandPools DelimitedLists AddressText EtcdClientShell Subnets
open Ipam Netlink Nics Storage CniPlugin IpCommands ShellWords CommandLines

/-! ### Lines for commands -/

def overShell (d : EtcdData) {A : Type} : OhnoProgram A → Program Text Reply Thrown A
  | .pure a => .pure a
  | .throw e => .throw e
  | .call (.etcd c) next => .call (line d (.etcd c)) fun r => overShell d (next r)
  | .call (.netlink c) next =>
      ((netlinkIpCmd c).embed fun c => line d (.ip c)).bind fun b => overShell d (next ⟨b, []⟩)

/-- The one command of a function of `NetlinkIpCmd`. -/
def issued : NetlinkCmd → IpCmd
  | .addressIsExist name _ netns => .addrShow name netns
  | .addressSetEntry name addr add netns => .addrSet add addr name netns
  | .routeIsExist dst via dev netns => .routeShow (destOf dst) via dev netns
  | .routeSetEntry dst via add dev netns nhflags => .routeSet add (destOf dst) via dev nhflags netns
  | c => .other c

/-- What the function makes of the reply. -/
def told : NetlinkCmd → Reply → Bool
  | .addressIsExist _ addr _, r => r.ok && contains addr r.out
  | .linkIsInNetns name _, r => r.ok && contains name r.out
  | .routeIsExist _ _ _ _, r => r.ok && r.out ≠ []
  | .neighIsExist _ _ _, r => r.ok && r.out ≠ []
  | .fdbIsExist _ _ _ _, r => r.ok && r.out ≠ []
  | _, r => r.ok

theorem netlinkIpCmd_eq (c : NetlinkCmd) :
    netlinkIpCmd c = .call (issued c) fun r => .pure (told c r) := by
  cases c <;> rfl

def lineOf (d : EtcdData) : Cmd → Text
  | .etcd c => line d (.etcd c)
  | .netlink c => line d (.ip (issued c))

def handed : Cmd → Reply → Reply
  | .etcd _, r => r
  | .netlink c, r => ⟨told c r, []⟩

theorem overShell_eq (d : EtcdData) {A : Type} (p : OhnoProgram A) :
    overShell d p = relay (lineOf d) handed p := by
  induction p with
  | pure a => rfl
  | throw e => rfl
  | call c next ih =>
      cases c with
      | etcd c => simp only [overShell, relay, lineOf, handed, ih]
      | netlink c =>
          simp only [overShell, relay, lineOf, handed, netlinkIpCmd_eq, Program.embed,
            Program.bind, ih]

/-! ### The systems -/

/-- A command that fails complains on stderr. It may have been carried out. -/
def etcdctl (c : EtcdCmd) (s : Store) (r : Reply) (t : Store) : Prop :=
  (r, t) = Etcd.ok c s ∨ r = ⟨false, []⟩ ∧ (t = s ∨ t = (Etcd.ok c s).2)

/-- The hosts of a cluster: how the plugin of each reaches etcd, and what `ip` and
`bridge` do there to the kernels, which are `T` together. -/
structure Hosts (T : Type) where
  data : Text → EtcdData
  ip : Text → Line → T → Reply → T → Prop

variable {T : Type} (hosts : Hosts T)

/-- A line that ends behind a key word is refused. -/
def incomplete (ws : List String) : Bool := ws.getLast? = some "netns"

/-- A line that is run on a host. -/
def sh (x : Text × Text) (w : Store × T) (r : Reply) (u : Store × T) : Prop :=
  match lex x.2 with
  | none => True
  | some ws =>
      match readArgs (ws.map String.ofList) with
      | some (.etcd c) => etcdctl c w.1 r u.1 ∧ u.2 = w.2
      | some c => hosts.ip x.1 c w.2 r u.2 ∧ u.1 = w.1
      | none => incomplete (ws.map String.ofList) = true → r = ⟨false, []⟩ ∧ u = w

/-- An interface is not moved to a namespace without a name. -/
def Hosts.run (node : Text) : IpCmd → T → Reply → T → Prop
  | .other (.linkToNetns _ []), t, r, u => r = ⟨false, []⟩ ∧ u = t
  | c, t, r, u => hosts.ip node (.ip c) t r u

def Hosts.netlink (node : Text) (c : NetlinkCmd) (t : T) (b : Bool) (u : T) : Prop :=
  (netlinkIpCmd c).Exec (hosts.run node) t (.ok b) u

/-- A command that is carried out on a host. -/
def perform (x : Text × Cmd) (w : Store × T) (r : Reply) (u : Store × T) : Prop :=
  serve etcdctl (hosts.netlink x.1) x.2 w r u ∧ ∀ c, x.2 = .netlink c → r.out = []

theorem netlink_iff (node : Text) (c : NetlinkCmd) (t : T) (b : Bool) (u : T) :
    hosts.netlink node c t b u ↔ ∃ r, hosts.run node (issued c) t r u ∧ b = told c r := by
  simp only [Hosts.netlink, netlinkIpCmd_eq, Program.Exec]
  constructor
  · intro h
    obtain ⟨r, v, hr, hb, rfl⟩ := h
    exact ⟨r, hr, Except.ok.inj hb⟩
  · intro h
    obtain ⟨r, hr, rfl⟩ := h
    exact ⟨r, u, hr, rfl, rfl⟩

/-! ### Plain values -/

/-- A name that a tool takes as one. -/
structure Name (t : Text) : Prop where
  plain : Plain t
  ne_nil : t ≠ []
  shown : t ∉ showWords

/-- A name, path or address as the plugin gets them. -/
structure Word (t : Text) : Prop extends Name t where
  comma : ',' ∉ t

/-- The keys of the stored routes. -/
def RouteKey (key : Text) : Prop := etcdKeyPrefixNode <+: key ∧ partRoute <:+ key

/-- A stored route has a next hop. -/
def Hop (item : Text) : Prop := ∀ r, parseRoute item = .ok r → r.via ≠ []

/-- What etcd stores under a key. -/
def Value (key value : Text) : Prop :=
  ∀ x ∈ value.splitOn ',', Word x ∧ (RouteKey key → Hop x)

def PlainStore (s : Store) : Prop := ∀ k v, s k = some v → Value k v

section Values
variable {key v x : Text}

theorem Word.value (h : Word x) (hr : RouteKey key → Hop x) : Value key x := by
  have hone : x.splitOn ',' = [x] := by
    simpa using List.splitOn_intercalate ',' (by simpa using h.comma) (List.cons_ne_nil x [])
  intro y hy
  rw [hone, List.mem_singleton] at hy
  exact hy ▸ ⟨h, hr⟩

theorem Value.ne_nil (h : Value key v) : v ≠ [] := by
  intro hn
  exact (h [] (by simp [hn])).1.ne_nil rfl

theorem mem_splitOn_of_mem_split (h : x ∈ split ',' v) : x ∈ v.splitOn ',' := by
  rw [splitOn_eq]
  split_ifs
  · exact List.mem_append_left _ h
  · exact h

theorem Value.plain (h : Value key v) : Plain v := by
  have hjoin : join ',' (v.splitOn ',') = v := List.intercalate_splitOn ','
  rw [← hjoin]
  intro c hc
  rcases mem_join ',' hc with rfl | ⟨x, hx, hc⟩
  · decide
  · exact (h x hx).1.plain c hc

theorem plain_noNewline (h : Plain x) : eraseNewlines x = x := by
  apply eraseNewlines_eq_self
  intro hn
  have hplain := h _ hn
  revert hplain
  decide

theorem Value.item (h : Value key v) (hx : x ∈ split ',' v) :
    Word x ∧ (RouteKey key → Hop x) := h x (mem_splitOn_of_mem_split hx)

theorem Value.append (h : Value key v) (hx : Word x) (hr : RouteKey key → Hop x) :
    Value key (v ++ ',' :: x) := by
  have hsplit : (v ++ ',' :: x).splitOn ',' = v.splitOn ',' ++ x.splitOn ',' := by
    have hjoin : join ',' (v.splitOn ',' ++ [x]) = v ++ ',' :: x := by
      rw [join_concat ',' (List.splitOn_ne_nil ',' v)]
      exact congrArg (· ++ ',' :: x) (List.intercalate_splitOn ',')
    have hfree : ∀ y ∈ v.splitOn ',' ++ [x], ',' ∉ y := by
      intro y hy
      rcases List.mem_append.mp hy with hy | hy
      · exact (h y hy).1.comma
      · exact List.mem_singleton.mp hy ▸ hx.comma
    have hone : x.splitOn ',' = [x] := by
      simpa using List.splitOn_intercalate ',' (by simpa using hx.comma) (List.cons_ne_nil x [])
    rw [hone, ← List.splitOn_intercalate ',' hfree (by simp)]
    exact congrArg (List.splitOn ',') hjoin.symm
  intro y hy
  rw [hsplit] at hy
  rcases List.mem_append.mp hy with hy | hy
  · exact h y hy
  · exact hx.value hr y hy

theorem Value.keep (h : Value key v) {items : List Text} (hn : items ≠ [])
    (hsub : ∀ y ∈ items, y ∈ split ',' v) : Value key (join ',' items) := by
  have hfree : ∀ y ∈ items, ',' ∉ y := fun y hy => (h.item (hsub y hy)).1.comma
  intro y hy
  rw [join, List.splitOn_intercalate ',' hfree hn] at hy
  exact h.item (hsub y hy)

end Values

/-! ### Plain commands -/

structure PlainKey (key : Text) : Prop where
  plain : Plain key
  ne_nil : key ≠ []

def PlainEtcd : EtcdCmd → Prop
  | .get key => PlainKey key
  | .put key value => PlainKey key ∧ Value key value
  | .del key => PlainKey key

/-- What etcdctl prints. -/
def Shows : EtcdCmd → Reply → Prop
  | .get key, r => r.out = [] ∨ Value key r.out
  | _, _ => True

/-- The namespace may be missing where an interface is moved to it. -/
def PlainNetlink (c : NetlinkCmd) : Prop :=
  (∀ t ∈ arguments (.ip (issued c)), Plain t) ∧
    (Complete (.ip (issued c)) ∨ ∃ name, name ≠ [] ∧ c = .linkToNetns name [])

def PlainCmd : Cmd → Prop
  | .etcd c => PlainEtcd c
  | .netlink c => PlainNetlink c

def Replies : Cmd → Reply → Prop
  | .etcd c, r => Shows c r
  | .netlink _, _ => True

section Programs
variable {A : Type}

/-- An etcd client that only asks for plain things. -/
abbrev Asks (p : EtcdProgram A) (P : A → Prop) : Prop := Issues PlainEtcd Shows P p

abbrev Sends (p : OhnoProgram A) (P : A → Prop) : Prop := Issues PlainCmd Replies P p

theorem Asks.etcd {p : EtcdProgram A} {P : A → Prop} (h : Asks p P) : Sends (Netlink.etcd p) P :=
  Issues.embed h (fun _ hc => hc) fun _ _ hr => hr

theorem sends_netlink {c : NetlinkCmd} (h : PlainNetlink c) :
    Sends (Netlink.netlink c) fun _ => True := ⟨h, fun _ _ => trivial⟩

end Programs

/-! ### The etcd client -/

section Client
variable {key v : Text}

theorem asks_get (hk : PlainKey key) :
    Asks (EtcdClientShell.get key) fun r => r.out = [] ∨ Value key r.out := by
  refine ⟨hk, ?_⟩
  intro r hr
  rcases hr with hr | hr
  · left
    simp [hr]
  · right
    simpa [plain_noNewline hr.plain] using hr

theorem asks_put (hk : PlainKey key) (hv : Value key v) : Asks (put key v) fun _ => True :=
  ⟨⟨hk, hv⟩, fun _ _ => trivial⟩

theorem asks_del (hk : PlainKey key) : Asks (del key) fun _ => True :=
  ⟨hk, fun _ _ => trivial⟩

theorem asks_append (hk : PlainKey key) (hv : Word v) (hr : RouteKey key → Hop v) :
    Asks (append key v) fun _ => True := by
  apply (asks_get hk).bind
  intro r hshow
  apply asks_put hk
  split_ifs with hok hnil
  · exact hv.value hr
  · exact (hshow.resolve_left hnil).append hv hr
  · exact hv.value hr

theorem asks_list (hk : PlainKey key) : Asks (list key) fun o =>
    ∀ items, o = some items → ∀ x ∈ items, Word x ∧ (RouteKey key → Hop x) := by
  apply (asks_get hk).bind
  intro r hshow items hitems x hx
  split_ifs at hitems with hok
  · obtain rfl := Option.some.inj hitems
    rcases hshow with hnil | hvalue
    · simp [hnil, split] at hx
    · exact hvalue.item hx

theorem asks_delValue (hk : PlainKey key) : Asks (delValue key v) fun _ => True := by
  have hget := asks_get hk
  rw [delValue, Program.bind_eq, list, Program.bind_eq, Program.bind_assoc]
  apply hget.bind
  intro r hshow
  cases r.ok with
  | false => exact trivial
  | true =>
      simp only [if_true, Program.pure_eq, Program.pure_bind]
      split_ifs with hnil
      · exact asks_del hk
      · apply asks_put hk
        rcases hshow with hout | hvalue
        · simp [hout, split] at hnil
        · apply hvalue.keep
          · intro hitems
            exact hnil (by simpa using congrArg (join ',') hitems)
          · intro y hy
            exact List.mem_of_mem_filter hy

end Client

/-! ### Keys -/

theorem plain_constants : Plain etcdKeyPrefixNode ∧ Plain etcdKeySubnet ∧ Plain etcdKeyAddress ∧
    ∀ p ∈ [partPod, partNetns, partNic, partAddr, partRoute, partVtep], Plain p := by
  have hall : [etcdKeyPrefixNode, etcdKeySubnet, etcdKeyAddress, partPod, partNetns, partNic,
      partAddr, partRoute, partVtep].all (·.all plainChar) = true := by decide +kernel
  have hplain : ∀ t ∈ [etcdKeyPrefixNode, etcdKeySubnet, etcdKeyAddress, partPod,
    partNetns, partNic,
      partAddr, partRoute, partVtep], Plain t :=
    fun t ht => List.all_eq_true.mp (List.all_eq_true.mp hall t ht)
  simp only [List.forall_mem_cons] at hplain ⊢
  exact hplain

@[simp] theorem plain_partPod : Plain partPod := plain_constants.2.2.2 _ (by simp)
@[simp] theorem plain_partNetns : Plain partNetns := plain_constants.2.2.2 _ (by simp)
@[simp] theorem plain_partNic : Plain partNic := plain_constants.2.2.2 _ (by simp)
@[simp] theorem plain_partAddr : Plain partAddr := plain_constants.2.2.2 _ (by simp)
@[simp] theorem plain_partRoute : Plain partRoute := plain_constants.2.2.2 _ (by simp)
@[simp] theorem plain_partVtep : Plain partVtep := plain_constants.2.2.2 _ (by simp)

theorem constants_ne : etcdKeyPrefixNode ≠ [] ∧ etcdKeySubnet ≠ [] ∧ etcdKeyAddress ≠ [] := by
  decide +kernel

theorem plainKey_append {t u : Text} (ht : Plain t) (hn : t ≠ []) (hu : Plain u) :
    PlainKey (t ++ u) := ⟨plain_append.mpr ⟨ht, hu⟩, by simp [hn]⟩

theorem plain_join {ts : List Text} (h : ∀ t ∈ ts, Plain t) : Plain (join '/' ts) := by
  intro c hc
  rcases mem_join '/' hc with rfl | ⟨t, ht, hc⟩
  · decide
  · exact h t ht c hc

section Keys
variable {node pod nic simple : Text}

theorem plainKey_nodeKey {ps : List Text} (hn : Plain node) (h : ∀ p ∈ ps, Plain p) :
    PlainKey (nodeKey node ps) := by
  apply plainKey_append plain_constants.1 constants_ne.1
  simp [plainChar, hn, plain_join h]

theorem plainKey_subnetKey (hn : Plain node) : PlainKey (subnetKey node) := by
  apply plainKey_append plain_constants.2.1 constants_ne.2.1
  simp [plainChar, hn]

theorem plainKey_addressKey (hn : Plain node) : PlainKey (addressKey node) := by
  apply plainKey_append plain_constants.2.2.1 constants_ne.2.2
  simp [plainChar, hn]

theorem plainKey_etcdKeySubnet : PlainKey etcdKeySubnet := ⟨plain_constants.2.1, constants_ne.2.1⟩

theorem plainKey_getNetnsKey (hn : Plain node) (hp : Plain pod) : PlainKey (getNetnsKey node pod) :=
  plainKey_nodeKey hn (by simp [hp])

theorem plainKey_singlePodKey (hn : Plain node) (hs : Plain simple) :
    PlainKey (singlePodKey node simple) :=
  plainKey_nodeKey hn (by simp [hs])

theorem plainKey_getAllPodsKey (hn : Plain node) : PlainKey (getAllPodsKey node) :=
  plainKey_nodeKey hn (by simp)

theorem plainKey_getNicKey (hn : Plain node) (hp : Plain pod) : PlainKey (getNicKey node pod) :=
  plainKey_nodeKey hn (by simp [hp])

theorem plainKey_getAddrKey (hn : Plain node) (hp : Plain pod) (hi : Plain nic) :
    PlainKey (getAddrKey node pod nic) :=
  plainKey_nodeKey hn (by simp [hp, hi])

theorem plainKey_getRouteKey (hn : Plain node) (hp : Plain pod) (hi : Plain nic) :
    PlainKey (getRouteKey node pod nic) :=
  plainKey_nodeKey hn (by simp [hp, hi])

theorem plainKey_getVtepKey (hn : Plain node) : PlainKey (getVtepKey node) :=
  plainKey_nodeKey hn (by simp)

/-- What a key ends with. -/
theorem not_routeKey_nodeKey (ps : List Text) {last : Text}
    (hl : last.getLast? ≠ partRoute.getLast?) (hn : last ≠ []) :
    ¬ RouteKey (nodeKey node (ps ++ [last])) := by
  have hend : ∃ t, nodeKey node (ps ++ [last]) = t ++ last := by
    cases ps with
    | nil => exact ⟨etcdKeyPrefixNode ++ '/' :: (node ++ ['/']), by simp [nodeKey]⟩
    | cons p ps =>
        refine ⟨etcdKeyPrefixNode ++ '/' :: (node ++ '/' :: (join '/' (p :: ps) ++ ['/'])), ?_⟩
        rw [nodeKey, join_concat '/' (by simp)]
        simp
  obtain ⟨t, ht⟩ := hend
  intro h
  obtain ⟨u, hu⟩ := h.2
  rw [ht] at hu
  have hroute : partRoute ≠ [] := by decide +kernel
  apply hl
  rw [← List.getLast?_append_of_ne_nil t hn, ← hu, List.getLast?_append_of_ne_nil u hroute]

theorem lasts_ne : ∀ p ∈ [partPod, partNetns, partNic, partAddr, partVtep],
    p.getLast? ≠ partRoute.getLast? ∧ p ≠ [] := by decide +kernel

/-- What a key begins with. -/
theorem not_routeKey_of_take {key : Text} (h : key.take 7 ≠ etcdKeyPrefixNode.take 7) :
    ¬ RouteKey key := by
  intro hkey
  obtain ⟨t, rfl⟩ := hkey.1
  have hlen : 7 ≤ etcdKeyPrefixNode.length := by decide +kernel
  exact h (List.take_append_of_le_length hlen)

theorem takes_ne : etcdKeySubnet.take 7 ≠ etcdKeyPrefixNode.take 7 ∧
    etcdKeyAddress.take 7 ≠ etcdKeyPrefixNode.take 7 := by decide +kernel

theorem not_routeKey_etcdKeySubnet : ¬ RouteKey etcdKeySubnet := not_routeKey_of_take takes_ne.1

theorem not_routeKey_subnetKey : ¬ RouteKey (subnetKey node) := by
  apply not_routeKey_of_take
  rw [subnetKey, List.take_append_of_le_length etcdKey_take.2.1]
  exact takes_ne.1

theorem not_routeKey_addressKey : ¬ RouteKey (addressKey node) := by
  apply not_routeKey_of_take
  rw [addressKey, List.take_append_of_le_length etcdKey_take.2.2]
  exact takes_ne.2

theorem not_routeKey_getNetnsKey : ¬ RouteKey (getNetnsKey node pod) := by
  have h := lasts_ne partNetns (by simp)
  exact not_routeKey_nodeKey [partPod, pod] h.1 h.2

theorem not_routeKey_singlePodKey : ¬ RouteKey (singlePodKey node simple) := by
  have h := lasts_ne partPod (by simp)
  exact not_routeKey_nodeKey [partNetns, simple] h.1 h.2

theorem not_routeKey_getAllPodsKey : ¬ RouteKey (getAllPodsKey node) := by
  have h := lasts_ne partPod (by simp)
  exact not_routeKey_nodeKey [] h.1 h.2

theorem not_routeKey_getNicKey : ¬ RouteKey (getNicKey node pod) := by
  have h := lasts_ne partNic (by simp)
  exact not_routeKey_nodeKey [partPod, pod] h.1 h.2

theorem not_routeKey_getAddrKey : ¬ RouteKey (getAddrKey node pod nic) := by
  have h := lasts_ne partAddr (by simp)
  exact not_routeKey_nodeKey [partPod, pod, partNic, nic] h.1 h.2

theorem not_routeKey_getVtepKey : ¬ RouteKey (getVtepKey node) := by
  have h := lasts_ne partVtep (by simp)
  exact not_routeKey_nodeKey [] h.1 h.2

theorem routeKey_getRouteKey : RouteKey (getRouteKey node pod nic) := by
  constructor
  · exact List.prefix_append _ _
  · refine ⟨etcdKeyPrefixNode ++ '/' :: (node ++ '/' ::
      (join '/' [partPod, pod, partNic, nic] ++ ['/'])), ?_⟩
    rw [getRouteKey, nodeKey]
    simp [join_cons]

end Keys

/-! ### Texts -/

section Texts
variable {t via dev : Text} {a : BitVec 32} {n : ℕ}

theorem plain_dottedQuad : Plain (dottedQuad a) := by
  intro c hc
  rcases mem_dottedQuad hc with rfl | hd
  · decide
  · simp [plainChar, Char.isAlphanum, hd]

theorem comma_notMem_dottedQuad : ',' ∉ dottedQuad a := by
  intro h
  rcases mem_dottedQuad h with h | h <;> simp at h

theorem dot_mem_dottedQuad : '.' ∈ dottedQuad a := by simp [dottedQuad, octets, join]

theorem word_cidr : Word (cidr a n) where
  plain := by
    have hslash : plainChar '/' = true := by decide
    simp [cidr_eq, plain_dottedQuad, plain_decimal, hslash]
  ne_nil := cidr_ne_nil a n
  comma := notMem_cidr (by decide) (by decide) (by decide)
  shown := by
    have hslash : '/' ∈ cidr a n := by simp [cidr_eq]
    have hwords : ∀ w ∈ showWords, '/' ∉ w := by decide
    exact fun h => hwords _ h hslash

theorem getAddr_eq {x : Addr} (h : x.getAddr = .ok t) : t = dottedQuad x.addressV4 := by
  unfold Addr.getAddr at h
  split at h
  · cases h
  · exact (Except.ok.inj h).symm

theorem getAddrCidr_eq {x : Addr} (h : x.getAddrCidr = .ok t) :
    t = cidr x.addressV4 x.prefixLength := by
  unfold Addr.getAddrCidr at h
  cases ha : x.getAddr with
  | error e =>
      rw [ha] at h
      cases h
  | ok addr =>
      rw [ha] at h
      obtain rfl := getAddr_eq ha
      rw [cidr_eq]
      exact (Except.ok.inj h).symm

theorem word_getAddrCidr {x : Addr} (h : x.getAddrCidr = .ok t) : Word t :=
  getAddrCidr_eq h ▸ word_cidr

theorem word_routeValue (hd : Word dev) : Word (getRouteValue [] (dottedQuad a) dev) where
  plain := by simp [getRouteValue, separator, plainChar, plain_dottedQuad, hd.plain]
  ne_nil := by simp [getRouteValue]
  comma := by simp [getRouteValue, separator, comma_notMem_dottedQuad, hd.comma]
  shown := by
    have hdot : '.' ∈ getRouteValue [] (dottedQuad a) dev := by
      simp [getRouteValue, dot_mem_dottedQuad]
    have hwords : ∀ w ∈ showWords, '.' ∉ w := by decide
    exact fun h => hwords _ h hdot

theorem word_vtepValue {mac : Text} (hm : Plain mac) (hc : ',' ∉ mac) :
    Word (getVtepValue (dottedQuad a) mac) where
  plain := by simp [getVtepValue, separator, plainChar, plain_dottedQuad, hm]
  ne_nil := by simp [getVtepValue]
  comma := by simp [getVtepValue, separator, comma_notMem_dottedQuad, hc]
  shown := by
    have hdot : '.' ∈ getVtepValue (dottedQuad a) mac := by simp [getVtepValue, dot_mem_dottedQuad]
    have hwords : ∀ w ∈ showWords, '.' ∉ w := by decide
    exact fun h => hwords _ h hdot

theorem hop_routeValue : Hop (getRouteValue [] (dottedQuad a) dev) := by
  intro r hr
  have hquad : separator ∉ dottedQuad a := by
    intro h
    rcases mem_dottedQuad h with h | h <;> simp [separator] at h
  rw [parseRoute, getRouteValue, split_append separator (by simp),
    split_append separator hquad] at hr
  cases hdev : split separator dev with
  | nil =>
      rw [hdev] at hr
      cases hr
  | cons d ds =>
      rw [hdev] at hr
      obtain rfl := Except.ok.inj hr
      exact dottedQuad_ne_nil a

/-- The parts of a stored route. -/
structure PlainRoute (r : Route) : Prop where
  dest : Plain r.dest
  via : Plain r.via
  via_ne : r.via ≠ []
  dev : Plain r.dev

theorem plainRoute_parseRoute {r : Route} (hw : Word t) (hh : Hop t) (h : parseRoute t = .ok r) :
    PlainRoute r := by
  have hvia := hh r h
  unfold parseRoute at h
  split at h
  · rename_i dest via dev rest hsplit
    obtain rfl := Except.ok.inj h
    have hpart : ∀ x ∈ dest :: via :: dev :: rest, Plain x := by
      intro x hx c hc
      exact hw.plain c (mem_of_mem_split separator (hsplit ▸ hx) c hc)
    exact ⟨hpart dest (by simp), hpart via (by simp), hvia, hpart dev (by simp)⟩
  · cases h

theorem plainRoute_mapM {items : List Text} {rs : List Route} (hw : ∀ x ∈ items, Word x ∧ Hop x)
    (h : items.mapM parseRoute = .ok rs) : ∀ r ∈ rs, PlainRoute r := by
  induction items generalizing rs with
  | nil =>
      obtain rfl := Except.ok.inj h
      simp
  | cons x items ih =>
      rw [List.mapM_cons] at h
      cases hx : parseRoute x with
      | error e =>
          rw [hx] at h
          cases h
      | ok r =>
          rw [hx] at h
          cases hxs : items.mapM parseRoute with
          | error e =>
              rw [hxs] at h
              cases h
          | ok l =>
              rw [hxs] at h
              obtain rfl := Except.ok.inj h
              intro q hq
              have hhead := hw x List.mem_cons_self
              rcases List.mem_cons.mp hq with rfl | hq
              · exact plainRoute_parseRoute hhead.1 hhead.2 hx
              · exact ih (fun y hy => hw y (List.mem_cons_of_mem x hy)) hxs q hq

end Texts

/-! ### Ipam -/

section Ipam
variable {node v : Text}

theorem asks_getSubnet (hn : Plain node) : Asks (getSubnet node) fun _ => True := by
  apply (asks_get (plainKey_subnetKey hn)).bind
  intro r hr
  exact trivial

theorem asks_allocateSubnet (hn : Plain node) (hv : Word v) :
    Asks (allocateSubnet node v) fun _ => True := by
  apply (asks_getSubnet hn).bind
  intro ret hret
  split_ifs
  · exact trivial
  · apply (asks_append plainKey_etcdKeySubnet hv (absurd · not_routeKey_etcdKeySubnet)).bind
    intro ok hok
    split_ifs
    · apply (asks_put (plainKey_subnetKey hn) (hv.value (absurd · not_routeKey_subnetKey))).bind
      intro ok hok
      split_ifs
      · exact trivial
      · apply (asks_delValue plainKey_etcdKeySubnet).bind
        intro ok hok
        exact trivial
    · exact trivial

theorem asks_releaseSubnet (hn : Plain node) : Asks (releaseSubnet node v) fun _ => True := by
  apply (asks_del (plainKey_subnetKey hn)).bind
  intro ok hok
  split_ifs
  · exact asks_delValue plainKey_etcdKeySubnet
  · exact trivial

theorem asks_isIpAvailable (hn : Plain node) : Asks (isIpAvailable node v) fun _ => True := by
  apply (asks_list (plainKey_addressKey hn)).bind
  intro o ho
  cases o with
  | none => exact trivial
  | some all => exact trivial

theorem word_generateIp {s : Subnet} {i : ℕ} (h : s.generateIp i = .ok v) : Word v := by
  unfold Subnet.generateIp at h
  cases hc : s.checkIpv6 with
  | error e =>
      rw [hc] at h
      cases h
  | ok u =>
      rw [hc] at h
      cases hi : Subnet.generateIpImpl s.subnetV4 i with
      | error e =>
          rw [hi] at h
          cases h
      | ok a =>
          rw [hi] at h
          obtain rfl := Except.ok.inj h
          exact word_cidr

/-- However many hosts are tried. -/
theorem asks_findIp (hn : Plain node) (s : Subnet) (remaining i : ℕ) :
    Asks (findIp node s remaining i) fun _ => True := by
  induction remaining generalizing i with
  | zero => exact trivial
  | succ remaining ih =>
      apply (Issues.ofExcept fun c hc => word_generateIp hc).bind
      intro candidate hword
      apply (asks_isIpAvailable hn).bind
      intro free hfree
      split_ifs
      · apply (asks_append (plainKey_addressKey hn) hword (absurd · not_routeKey_addressKey)).bind
        intro ok hok
        split_ifs
        · exact trivial
        · exact ih (i + 1)
      · exact ih (i + 1)

theorem asks_allocateIp (boost : Boost) (hn : Plain node) :
    Asks (allocateIp boost node) fun _ => True := by
  apply (asks_getSubnet hn).bind
  intro ret hret
  split_ifs
  · apply (Issues.ofExcept fun s hs => trivial).bind (P := fun _ => True)
    intro s hs
    apply (Issues.ofExcept fun n hn => trivial).bind (P := fun _ => True)
    intro n hmax
    exact asks_findIp hn s _ 1
  · exact trivial

theorem asks_releaseIp (hn : Plain node) : Asks (releaseIp node v) fun _ => True :=
  asks_delValue (plainKey_addressKey hn)

end Ipam

/-! ### Storage -/

section Storage
variable {node pod nic netns v : Text}

theorem plain_simpleNetns (hn : Plain netns) (h : simpleNetns netns = .ok v) : Plain v := by
  unfold simpleNetns at h
  split_ifs at h
  · obtain rfl := Except.ok.inj h
    exact hn.subset fun c hc => List.mem_of_mem_drop hc
  · obtain rfl := Except.ok.inj h
    exact hn

theorem plainKey_getSinglePodKey (hd : Plain node) (hn : Plain netns)
    (h : getSinglePodKey node netns = .ok v) : PlainKey v ∧ ¬ RouteKey v := by
  unfold getSinglePodKey at h
  cases hs : simpleNetns netns with
  | error e =>
      rw [hs] at h
      cases h
  | ok simple =>
      rw [hs] at h
      obtain rfl := Except.ok.inj h
      exact ⟨plainKey_singlePodKey hd (plain_simpleNetns hn hs), not_routeKey_singlePodKey⟩

theorem asks_addNetns (hd : Plain node) (hp : Plain pod) (hn : Word netns) :
    Asks (Storage.addNetns node pod netns) fun _ => True :=
  asks_put (plainKey_getNetnsKey hd hp) (hn.value (absurd · not_routeKey_getNetnsKey))

theorem asks_delNetns (hd : Plain node) (hp : Plain pod) :
    Asks (delNetns node pod) fun _ => True := asks_del (plainKey_getNetnsKey hd hp)

theorem asks_getNetns (hd : Plain node) (hp : Plain pod) : Asks (getNetns node pod) Plain := by
  apply (asks_get (plainKey_getNetnsKey hd hp)).bind
  intro r hr
  rcases hr with hr | hr
  · exact hr ▸ plain_nil
  · exact hr.plain

theorem asks_addPod (hd : Plain node) (hn : Plain netns) (hp : Word pod) :
    Asks (addPod node netns pod) fun _ => True := by
  apply (Issues.ofExcept fun k hk => plainKey_getSinglePodKey hd hn hk).bind
  intro key hkey
  apply (asks_put hkey.1 (hp.value (absurd · hkey.2))).bind
  intro ok hok
  split_ifs
  · exact asks_append (plainKey_getAllPodsKey hd) hp (absurd · not_routeKey_getAllPodsKey)
  · exact trivial

theorem asks_delPod (hd : Plain node) (hn : Plain netns) :
    Asks (delPod node netns) fun _ => True := by
  apply (Issues.ofExcept fun k hk => plainKey_getSinglePodKey hd hn hk).bind
  intro key hkey
  apply (asks_get hkey.1).bind
  intro r hr
  split_ifs
  · apply (asks_del hkey.1).bind
    intro ok hok
    split_ifs
    · exact asks_delValue (plainKey_getAllPodsKey hd)
    · exact trivial
  · exact trivial

theorem asks_getPod (hd : Plain node) (hn : Plain netns) :
    Asks (getPod node netns) fun _ => True := by
  apply (Issues.ofExcept fun k hk => plainKey_getSinglePodKey hd hn hk).bind
  intro key hkey
  apply (asks_get hkey.1).bind
  intro r hr
  exact trivial

theorem asks_listOrEmpty {key : Text} (hk : PlainKey key) :
    Asks (listOrEmpty key) fun items => ∀ x ∈ items, Word x ∧ (RouteKey key → Hop x) := by
  apply (asks_list hk).bind
  intro o ho
  cases o with
  | none => simp
  | some items => exact ho items rfl

theorem asks_getAllPods (hd : Plain node) :
    Asks (getAllPods node) fun items => ∀ x ∈ items, Word x :=
  (asks_listOrEmpty (plainKey_getAllPodsKey hd)).mono fun _ h x hx => (h x hx).1

theorem asks_addNic (hd : Plain node) (hp : Plain pod) (hi : Word nic) :
    Asks (addNic node pod nic) fun _ => True :=
  asks_append (plainKey_getNicKey hd hp) hi (absurd · not_routeKey_getNicKey)

theorem asks_delNic (hd : Plain node) (hp : Plain pod) :
    Asks (delNic node pod nic) fun _ => True := asks_delValue (plainKey_getNicKey hd hp)

theorem asks_getAllNic (hd : Plain node) (hp : Plain pod) :
    Asks (getAllNic node pod) fun items => ∀ x ∈ items, Word x :=
  (asks_listOrEmpty (plainKey_getNicKey hd hp)).mono fun _ h x hx => (h x hx).1

theorem asks_addAddr (hd : Plain node) (hp : Plain pod) (hi : Plain nic) (addr : Addr) :
    Asks (addAddr node pod nic addr) fun _ => True := by
  apply (Issues.ofExcept fun t ht => word_getAddrCidr ht).bind
  intro t ht
  exact asks_append (plainKey_getAddrKey hd hp hi) ht (absurd · not_routeKey_getAddrKey)

theorem asks_delAddr (hd : Plain node) (hp : Plain pod) (hi : Plain nic) :
    Asks (delAddr node pod nic) fun _ => True := asks_del (plainKey_getAddrKey hd hp hi)

theorem asks_getAllAddrs (hd : Plain node) (hp : Plain pod) (hi : Plain nic) :
    Asks (getAllAddrs node pod nic) fun _ => True :=
  (asks_listOrEmpty (plainKey_getAddrKey hd hp hi)).mono fun _ _ => trivial

theorem asks_addRoute (hd : Plain node) (hp : Plain pod) (hi : Word nic) (a : BitVec 32) :
    Asks (addRoute node pod nic ⟨[], dottedQuad a, nic⟩) fun _ => True :=
  asks_append (plainKey_getRouteKey hd hp hi.plain) (word_routeValue hi) fun _ => hop_routeValue

theorem asks_delRoute (hd : Plain node) (hp : Plain pod) (hi : Plain nic) :
    Asks (delRoute node pod nic) fun _ => True := asks_del (plainKey_getRouteKey hd hp hi)

theorem asks_getAllRoutes (hd : Plain node) (hp : Plain pod) (hi : Plain nic) :
    Asks (getAllRoutes node pod nic) fun rs => ∀ r ∈ rs, PlainRoute r := by
  apply (asks_listOrEmpty (plainKey_getRouteKey hd hp hi)).bind
  intro items hitems
  apply Issues.ofExcept
  intro rs hrs
  exact plainRoute_mapM (fun x hx => ⟨(hitems x hx).1, (hitems x hx).2 routeKey_getRouteKey⟩) hrs

theorem asks_addVtep (hd : Plain node) (a : BitVec 32) (hm : Plain v) (hc : ',' ∉ v) :
    Asks (addVtep node (dottedQuad a) v) fun _ => True := by
  apply asks_put (plainKey_getVtepKey hd)
  exact (word_vtepValue hm hc).value (absurd · not_routeKey_getVtepKey)

theorem asks_delVtep (hd : Plain node) : Asks (delVtep node) fun _ => True :=
  asks_del (plainKey_getVtepKey hd)

end Storage

/-! ### Interfaces -/

def PlainKind : NicKind → Prop
  | .veth peer => Plain peer ∧ peer ≠ []
  | .vxlan underlayAddr underlayDev =>
      (Plain underlayAddr ∧ underlayAddr ≠ []) ∧ Plain underlayDev ∧ underlayDev ≠ []
  | _ => True

structure PlainNic (nic : Nic) : Prop where
  name : Name nic.name
  netns : Plain nic.netns
  kind : PlainKind nic.kind
  routes : ∀ r ∈ nic.routes, PlainRoute r

theorem plainNetlink_of {c : NetlinkCmd} {l : List Text}
    (hargs : ∀ t ∈ arguments (.ip (issued c)), Plain t) (hreq : required (.ip (issued c)) = some l)
    (hne : ∀ t ∈ l, t ≠ []) : PlainNetlink c := ⟨hargs, .inl ⟨l, hreq, hne⟩⟩

section Commands
variable {name netns addr peer : Text} {r : Route}

theorem plainNetlink_linkExist (h : Name name) (hn : Plain netns) :
    PlainNetlink (.linkExist name netns) := by
  have hshown : showWords.any (· = name) = false := by
    rw [List.any_eq_false]
    intro w hw heq
    exact h.shown (of_decide_eq_true heq ▸ hw)
  have hreq : required (.ip (issued (.linkExist name netns))) = some [name] := by
    simp only [required, issued, hshown, Bool.false_eq_true, if_false]
  exact plainNetlink_of (by simp [arguments, issued, h.plain, hn]) hreq (by simp [h.ne_nil])

theorem plainNetlink_linkSetStatus (h : Plain name) (hne : name ≠ []) (hn : Plain netns)
    (status : LinkStatus) : PlainNetlink (.linkSetStatus name status netns) :=
  plainNetlink_of (by simp [arguments, issued, h, hn]) rfl (by simp [hne])

theorem plainNetlink_addressIsExist (h : Name name) (hn : Plain netns) :
    PlainNetlink (.addressIsExist name addr netns) :=
  plainNetlink_of (by simp [arguments, issued, h.plain, hn]) rfl (by simp [h.ne_nil])

theorem plainNetlink_addressSetEntry (h : Name name) (ha : Word addr) (hn : Plain netns)
    (add : Bool) : PlainNetlink (.addressSetEntry name addr add netns) :=
  plainNetlink_of (by simp [arguments, issued, h.plain, ha.plain, hn]) rfl
    (by simp [h.ne_nil, ha.ne_nil])

theorem plain_destOf {dst : Text} (h : Plain dst) : Plain (destOf dst) ∧ destOf dst ≠ [] := by
  have hdefault : defaultDest.all plainChar = true ∧ defaultDest ≠ [] := by decide +kernel
  unfold destOf
  split_ifs with hd
  · exact ⟨List.all_eq_true.mp hdefault.1, hdefault.2⟩
  · exact ⟨h, hd⟩

theorem plainNetlink_routeIsExist (h : PlainRoute r) (hn : Plain netns) :
    PlainNetlink (.routeIsExist r.dest r.via r.dev netns) := by
  have hdest := plain_destOf h.dest
  exact plainNetlink_of (by simp [arguments, issued, h.via, h.dev, hn, hdest]) rfl
    (by simp [hdest, h.via_ne])

theorem plainNetlink_routeSetEntry (h : PlainRoute r) (hn : Plain netns) (add : Bool)
    (nhflags : RouteNHFlags) :
    PlainNetlink (.routeSetEntry r.dest r.via add r.dev netns nhflags) := by
  have hdest := plain_destOf h.dest
  exact plainNetlink_of (by simp [arguments, issued, h.via, h.dev, hn, hdest]) rfl
    (by simp [hdest, h.via_ne])

end Commands

section Nics
variable {nic : Nic} {name netns : Text}

theorem PlainNic.linked (h : PlainNic nic) : PlainNic { nic with netlink := true } :=
  ⟨h.name, h.netns, h.kind, h.routes⟩

theorem sends_addEntry {isExist setEntry : NetlinkCmd} {known : Nic} (h₁ : PlainNetlink isExist)
    (h₂ : PlainNetlink setEntry) (hk : PlainNic known) (hn : PlainNic nic) :
    Sends (nic.addEntry isExist setEntry known) fun r => PlainNic r.2 := by
  rw [Nic.addEntry]
  split_ifs
  · apply (sends_netlink h₁).bind
    intro there hthere
    split_ifs
    · exact hk
    · apply (sends_netlink h₂).bind
      intro ok hok
      split_ifs
      · exact hk
      · exact hn
  · exact hn

theorem sends_addAddr (h : PlainNic nic) (a : Addr) :
    Sends (nic.addAddr a) fun r => PlainNic r.2 := by
  apply (Issues.ofExcept fun t ht => word_getAddrCidr ht).bind
  intro cidr hcidr
  exact sends_addEntry (plainNetlink_addressIsExist h.name h.netns)
    (plainNetlink_addressSetEntry h.name hcidr h.netns true) ⟨h.name, h.netns, h.kind, h.routes⟩ h

theorem sends_addRoute (h : PlainNic nic) {r : Route} (hr : PlainRoute r) (nhflags : RouteNHFlags) :
    Sends (nic.addRoute r nhflags) fun r => PlainNic r.2 := by
  have hknown : PlainNic { nic with routes := nic.routes ++ [r] } := by
    refine ⟨h.name, h.netns, h.kind, ?_⟩
    intro q hq
    rcases List.mem_append.mp hq with hq | hq
    · exact h.routes q hq
    · exact List.mem_singleton.mp hq ▸ hr
  exact sends_addEntry (plainNetlink_routeIsExist hr h.netns)
    (plainNetlink_routeSetEntry hr h.netns true nhflags) hknown h

theorem sends_setup (h : PlainNic nic) : Sends nic.setup fun r => PlainNic r.2 := by
  have hlinked := h.linked
  have hexist := plainNetlink_linkExist h.name plain_nil
  have hkind := h.kind
  unfold Nic.setup
  split
  · exact hlinked
  · exact hlinked
  · apply (sends_netlink hexist).bind
    intro there hthere
    split_ifs
    · exact hlinked
    · have hcreate : PlainNetlink (.bridgeCreate nic.name) :=
        plainNetlink_of (by simp [arguments, issued, h.name.plain]) rfl (by simp [h.name.ne_nil])
      apply (sends_netlink hcreate).bind
      intro ok hok
      exact hlinked
  · rename_i peer hk
    rw [hk] at hkind
    have hcreate : PlainNetlink (.vethCreate nic.name peer) :=
      plainNetlink_of (by simp [arguments, issued, h.name.plain, hkind.1]) rfl
        (by simp [h.name.ne_nil, hkind.2])
    apply (sends_netlink hcreate).bind
    intro ok hok
    exact hlinked
  · rename_i underlayAddr underlayDev hk
    rw [hk] at hkind
    apply (sends_netlink hexist).bind
    intro there hthere
    split_ifs
    · exact hlinked
    · have hcreate : PlainNetlink (.vxlanCreate nic.name underlayAddr underlayDev) :=
        plainNetlink_of (by simp [arguments, issued, h.name.plain, hkind.1.1, hkind.2.1]) rfl
          (by simp [h.name.ne_nil, hkind.1.2, hkind.2.2])
      apply (sends_netlink hcreate).bind
      intro ok hok
      exact hlinked

theorem sends_cleanupRoutes (hn : Plain nic.netns) {rs : List Route}
    (h : ∀ r ∈ rs, PlainRoute r) : Sends (nic.cleanupRoutes rs) fun _ => True := by
  induction rs with
  | nil => exact trivial
  | cons r rs ih =>
      have hr := h r List.mem_cons_self
      have hrest := ih fun q hq => h q (List.mem_cons_of_mem r hq)
      apply (sends_netlink (plainNetlink_routeIsExist hr hn)).bind
      intro there hthere
      split_ifs
      · apply (sends_netlink (plainNetlink_routeSetEntry hr hn false .none)).bind
        intro ok hok
        exact hrest
      · exact hrest

theorem sends_cleanupAddrs (h : PlainNic nic) (as : List Addr) :
    Sends (nic.cleanupAddrs as) fun _ => True := by
  induction as with
  | nil => exact trivial
  | cons a as ih =>
      apply (Issues.ofExcept fun t ht => word_getAddrCidr ht).bind
      intro cidr hcidr
      apply (sends_netlink (plainNetlink_addressSetEntry h.name hcidr h.netns false)).bind
      intro ok hok
      exact ih

theorem sends_cleanup (h : PlainNic nic) : Sends nic.cleanup fun _ => True := by
  unfold Nic.cleanup
  split_ifs
  · apply (sends_cleanupRoutes h.netns h.routes).bind
    intro u hu
    exact trivial
  · apply (sends_cleanupRoutes h.netns h.routes).bind
    intro u hu
    apply (sends_cleanupAddrs h nic.addrs).bind
    intro u hu
    have hdestroy : PlainNetlink (.linkDestory nic.name nic.netns) :=
      plainNetlink_of (by simp [arguments, issued, h.name.plain, h.netns]) rfl
        (by simp [h.name.ne_nil])
    apply (sends_netlink hdestroy).bind
    intro ok hok
    exact trivial
  · exact trivial

theorem sends_isExist (h : PlainNic nic) : Sends nic.isExist fun _ => True := by
  unfold Nic.isExist
  split_ifs
  · exact sends_netlink (plainNetlink_linkExist h.name h.netns)
  · exact trivial

theorem sends_rename (h : PlainNic nic) (hn : Name name) :
    Sends (nic.rename name) fun r => PlainNic r.2 := by
  unfold Nic.rename
  rw [if_neg hn.ne_nil]
  split_ifs
  · have hrename : PlainNetlink (.linkRename nic.name name nic.netns) :=
      plainNetlink_of (by simp [arguments, issued, h.name.plain, hn.plain, h.netns]) rfl
        (by simp [h.name.ne_nil, hn.ne_nil])
    apply (sends_netlink hrename).bind
    intro ok hok
    split_ifs
    · exact ⟨hn, h.netns, h.kind, h.routes⟩
    · exact h
  · exact h

/-- The namespace may be empty after all. -/
theorem sends_setNetns (h : PlainNic nic) (hn : Plain netns) :
    Sends (nic.setNetns netns) fun r => PlainNic r.2 := by
  unfold Nic.setNetns
  split_ifs
  · apply (Issues.ofExcept fun t ht => plain_simpleNetns hn ht).bind
    intro simple hsimple
    have hin : PlainNetlink (.linkIsInNetns nic.name simple) :=
      plainNetlink_of (by simp [arguments, issued, h.name.plain, hsimple]) rfl
        (by simp [h.name.ne_nil])
    have hto : PlainNetlink (.linkToNetns nic.name simple) := by
      refine ⟨by simp [arguments, issued, h.name.plain, hsimple], ?_⟩
      by_cases hs : simple = []
      · exact .inr ⟨nic.name, h.name.ne_nil, by rw [hs]⟩
      · exact .inl ⟨[nic.name, simple], rfl, by simp [h.name.ne_nil, hs]⟩
    apply (sends_netlink hin).bind
    intro there hthere
    split_ifs
    · exact ⟨h.name, hsimple, h.kind, h.routes⟩
    · apply (sends_netlink hto).bind
      intro ok hok
      split_ifs
      · exact ⟨h.name, hsimple, h.kind, h.routes⟩
      · exact h
  · exact h

theorem sends_setStatus (h : PlainNic nic) (status : LinkStatus) :
    Sends (nic.setStatus status) fun _ => True := by
  have hown := plainNetlink_linkSetStatus h.name.plain h.name.ne_nil h.netns status
  have hkind := h.kind
  unfold Nic.setStatus
  split_ifs
  · cases hk : nic.kind with
    | veth peer =>
        rw [hk] at hkind
        apply (sends_netlink (plainNetlink_linkSetStatus hkind.1 hkind.2 plain_nil status)).bind
        intro ok hok
        split_ifs
        · exact sends_netlink hown
        · exact trivial
    | _ => exact sends_netlink hown
  · exact trivial

theorem sends_setMaster (h : PlainNic nic) (hp : Plain name) (hn : name ≠ []) :
    Sends (nic.setMaster name) fun _ => True := by
  unfold Nic.setMaster
  split_ifs
  · have hmaster : PlainNetlink (.bridgeSetStatus name true nic.name nic.netns) :=
      plainNetlink_of (by simp [arguments, issued, h.name.plain, hp, h.netns]) rfl
        (by simp [h.name.ne_nil, hn])
    exact sends_netlink hmaster
  · exact trivial

end Nics

end Ohno.PlainPrograms
