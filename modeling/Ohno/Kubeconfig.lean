import Ohno.EtcdClientShell
import Ohno.TextSearch

/-!
# Reading the API server from the kubeconfig

`Center` reads the kubeconfig as one text. It takes every line break out, finds
the first `server:` behind the first `clusters:`, and reads up to the next
space. So the value ends where the next line of the file begins with a space,
which is not where every next line begins.
-/
namespace Ohno.Kubeconfig
open DelimitedLists AddressText EtcdClientShell TextSearch

/-- The files of the host; one that is not there cannot be opened. -/
abbrev Files := Text → Option Text

def hostFile : Text := "/etc/kubernetes/kubelet.conf".toList
def keyClusters : Text := "clusters:".toList

/-- `SERVER` -/
def server : Text := "server:".toList

/-- `std::string::substr` -/
def substr (text : Text) (pos count : ℕ) : Except Thrown Text :=
  if text.length < pos then .error .standard else .ok ((text.drop pos).take count)

/-- The comment speaks of the line break at the end; all of them go. -/
def readFile (files : Files) (filename : Text) : Except Thrown Text :=
  match files filename with
  | none => .error (.exception ("File:\"" ++ String.ofList filename ++ "\" is not exist"))
  | some content => .ok (eraseNewlines content)

def getServerUrl (files : Files) (confPath : Text) : Except Thrown Text := do
  let yaml ← readFile files confPath
  if yaml = [] then
    pure []
  else
    match find keyClusters yaml 0 with
    | none => pure []
    | some clustersPos =>
        match find server yaml clustersPos with
        | none => pure []
        | some serverPos =>
            let serverPos := serverPos + (server.length + 1)
            let endPos := (find [' '] yaml serverPos).getD yaml.length
            substr yaml serverPos (endPos - serverPos)

/-- The part of `getEtcdClusters` that can throw. Three behind a position that
was not found is two. -/
def etcdCluster (files : Files) : Except Thrown Text := do
  let uri ← getServerUrl files hostFile
  let startPos := ((find "://".toList uri 0).map (· + 3)).getD 2
  let endPos := (find [':'] uri startPos).getD uri.length
  let host ← substr uri startPos (endPos - startPos)
  pure ("https://".toList ++ host ++ ":2379".toList)

def getEtcdClusters (files : Files) : Text :=
  match etcdCluster files with
  | .ok cluster => cluster
  | .error _ => []

/-! ### What is read -/

/-- The value that stands where the search ends. -/
def serverUrl (yaml : Text) : Except Thrown Text :=
  match yaml.dropInfix? keyClusters with
  | none => .ok []
  | some (_, y) =>
      match (keyClusters ++ y).dropInfix? server with
      | none => .ok []
      | some (_, []) => .error .standard
      | some (_, _ :: rest) => .ok (rest.takeWhile (· ≠ ' '))

/-- From a position on, up to a character. -/
theorem substr_find (c : Char) {text rest : Text} {pos : ℕ} (hpos : pos ≤ text.length)
    (hrest : text.drop pos = rest) :
    substr text pos ((find [c] text pos).getD text.length - pos) =
      .ok (rest.takeWhile (· ≠ c)) := by
  rw [substr, if_neg (by omega), take_find, hrest]

theorem getServerUrl_eq {files : Files} {confPath content : Text}
    (h : files confPath = some content) :
    getServerUrl files confPath = serverUrl (eraseNewlines content) := by
  have hread : readFile files confPath = .ok (eraseNewlines content) := by rw [readFile, h]
  generalize eraseNewlines content = yaml at hread
  simp only [getServerUrl, hread, bind, Except.bind]
  by_cases hnil : yaml = []
  · subst hnil
    rfl
  rw [if_neg hnil, serverUrl]
  cases hc : yaml.dropInfix? keyClusters with
  | none =>
      have hfind : find keyClusters yaml 0 = none := by
        rw [find, List.drop_zero, hc, Option.map_none]
      rw [hfind]
      rfl
  | some cut =>
      obtain ⟨x, y⟩ := cut
      have hyaml : yaml = x ++ (keyClusters ++ y) := by
        rw [(dropInfix?_eq_some.mp hc).1, List.append_assoc]
      have hfind : find keyClusters yaml 0 = some x.length := by
        rw [find_of_dropInfix? (by rwa [List.drop_zero]), Nat.zero_add]
      have hdrop : yaml.drop x.length = keyClusters ++ y := by rw [hyaml, List.drop_left]
      simp only [hfind]
      cases hs : (keyClusters ++ y).dropInfix? server with
      | none =>
          have hserver : find server yaml x.length = none := by
            rw [find, hdrop, hs, Option.map_none]
          rw [hserver]
          rfl
      | some cut =>
          obtain ⟨u, v⟩ := cut
          have hserver : find server yaml x.length = some (x.length + u.length) :=
            find_of_dropInfix? (by rwa [hdrop])
          have htext : yaml = (x ++ (u ++ server)) ++ v := by
            rw [hyaml, (dropInfix?_eq_some.mp hs).1]
            simp only [List.append_assoc]
          have hlen := congrArg List.length htext
          simp only [List.length_append] at hlen
          simp only [hserver]
          cases v with
          | nil =>
              rw [List.length_nil] at hlen
              rw [substr, if_pos (by omega)]
          | cons c rest =>
              rw [List.length_cons] at hlen
              apply substr_find ' ' (by omega)
              have hpos : x.length + u.length + (server.length + 1) =
                  (x ++ (u ++ server)).length + 1 := by
                simp only [List.length_append]
                omega
              rw [hpos, htext, ← List.drop_drop, List.drop_left]
              rfl

/-! ### Files with a server -/

/-- A file by its lines: the first with `clusters:`, and behind it the first
with `server:`, which is a URL alone. -/
structure Document where
  front : List Text
  clustersLine : Text
  between : List Text
  indent : Text
  scheme : Text
  host : Text
  port : Option Text
  further : List Text
deriving Repr, DecidableEq

namespace Document
variable (doc : Document)

/-- `host` or `host:port` -/
def authority : Text :=
  doc.host ++ match doc.port with
    | none => []
    | some port => ':' :: port

def url : Text := doc.scheme ++ "://".toList ++ doc.authority

def serverLine : Text := doc.indent ++ server ++ ' ' :: doc.url

def lines : List Text :=
  doc.front ++ doc.clustersLine :: doc.between ++ doc.serverLine :: doc.further

def text : Text := join '\n' doc.lines

structure Valid : Prop where
  lines : ∀ l ∈ doc.lines, '\n' ∉ l
  front : ∀ l ∈ doc.front, ¬ keyClusters <:+: l
  clusters : keyClusters <:+: doc.clustersLine
  between : ∀ l ∈ doc.between, ¬ server <:+: l
  indent : ∀ c ∈ doc.indent, c = ' ' ∨ c = '\t'
  space : ' ' ∉ doc.url
  scheme : ':' ∉ doc.scheme
  host : ':' ∉ doc.host

/-- What is in front of `server:` in the line, without line breaks. -/
def before : Text := doc.front.flatten ++ doc.clustersLine ++ doc.between.flatten ++ doc.indent

/-- What is behind the line, without line breaks. -/
def after : Text := doc.further.flatten

/-- The line's `server:` and what follows it. -/
def rest : Text := server ++ ' ' :: (doc.url ++ doc.after)

/-- The URL of the file is read, and the address of etcd made of its host. -/
structure Read (files : Files) : Prop where
  server : getServerUrl files hostFile = .ok doc.url
  etcd : getEtcdClusters files = "https://".toList ++ doc.host ++ ":2379".toList

/-- Nothing follows, or a space does. -/
def Ends (t : Text) : Prop := t = [] ∨ t.head? = some ' '

/-- Without line breaks, the text behind the line is empty or begins with a
space. If the text between the first `clusters:` and the line has a `server:`
too, the first of these has the URL and then a space or nothing behind it. -/
def Legible : Prop :=
  ∀ x y, doc.before.dropInfix? keyClusters = some (x, y) →
    match (keyClusters ++ y).dropInfix? Kubeconfig.server with
    | none => Ends doc.after
    | some (_, v) => ∃ c z, v ++ doc.rest = c :: (doc.url ++ z) ∧ Ends z

end Document

open Document
variable {doc : Document}

theorem eraseNewlines_join {lines : List Text} (h : ∀ l ∈ lines, '\n' ∉ l) :
    eraseNewlines (join '\n' lines) = lines.flatten := by
  induction lines with
  | nil => rfl
  | cons l lines ih =>
      have hl : eraseNewlines l = l := eraseNewlines_eq_self (h l List.mem_cons_self)
      have hlines := ih fun l hl => h l (List.mem_cons_of_mem _ hl)
      by_cases hnil : lines = []
      · rw [hnil, join_singleton, hl]
        simp
      · have hcons : '\n' :: join '\n' lines = ['\n'] ++ join '\n' lines := rfl
        rw [join_cons '\n' l hnil, hcons, eraseNewlines_append, eraseNewlines_append, hl, hlines]
        rfl

theorem eraseNewlines_text (valid : doc.Valid) :
    eraseNewlines doc.text = doc.before ++ doc.rest := by
  rw [Document.text, eraseNewlines_join valid.lines]
  simp [Document.lines, before, rest, after, serverLine]

theorem infix_before (valid : doc.Valid) : keyClusters <:+: doc.before := by
  obtain ⟨s, t, h⟩ := valid.clusters
  refine ⟨doc.front.flatten ++ s, t ++ doc.between.flatten ++ doc.indent, ?_⟩
  rw [before, ← h]
  simp

theorem takeWhile_eq_iff {t z : Text} (h : ' ' ∉ t) :
    (t ++ z).takeWhile (· ≠ ' ') = t ↔ Ends z := by
  have hall : ∀ c ∈ t, decide (c ≠ ' ') = true := by
    intro c hc
    simpa using fun he : c = ' ' => h (he ▸ hc)
  rw [List.takeWhile_append_of_pos hall, List.append_right_eq_self]
  cases z with
  | nil => simp [Ends]
  | cons c z => simp [Ends]

theorem borderless_server : Borderless server := by
  unfold Borderless
  decide

/-- The URL is read from a legible file and from no other. -/
theorem serverUrl_eq_iff (valid : doc.Valid) :
    serverUrl (doc.before ++ doc.rest) = .ok doc.url ↔ doc.Legible := by
  obtain ⟨x, y, hbefore⟩ := exists_dropInfix? (infix_before valid)
  have hclusters : (doc.before ++ doc.rest).dropInfix? keyClusters = some (x, y ++ doc.rest) :=
    dropInfix?_append hbefore doc.rest
  have hlegible : doc.Legible ↔
      match (keyClusters ++ y).dropInfix? server with
      | none => Ends doc.after
      | some (_, v) => ∃ c z, v ++ doc.rest = c :: (doc.url ++ z) ∧ Ends z := by
    constructor
    · intro h
      exact h x y hbefore
    · intro h x' y' hcut
      rw [hbefore] at hcut
      cases hcut
      exact h
  rw [hlegible, serverUrl, hclusters]
  simp only
  cases hy : (keyClusters ++ y).dropInfix? server with
  | none =>
      have hserver : (keyClusters ++ (y ++ doc.rest)).dropInfix? server =
          some (keyClusters ++ y, ' ' :: (doc.url ++ doc.after)) := by
        have hself := dropInfix?_append_self borderless_server (dropInfix?_eq_none.mp hy)
          (' ' :: (doc.url ++ doc.after))
        simpa only [rest, List.append_assoc] using hself
      rw [hserver]
      simp only [Except.ok.injEq]
      exact takeWhile_eq_iff valid.space
  | some cut =>
      obtain ⟨u, v⟩ := cut
      have hserver : (keyClusters ++ (y ++ doc.rest)).dropInfix? server =
          some (u, v ++ doc.rest) := by
        have happ := dropInfix?_append hy doc.rest
        rwa [List.append_assoc] at happ
      rw [hserver]
      cases hv : v ++ doc.rest with
      | nil =>
          have hrest : doc.rest = [] := (List.append_eq_nil_iff.mp hv).2
          rw [rest, List.append_eq_nil_iff] at hrest
          exact absurd hrest.2 (List.cons_ne_nil _ _)
      | cons c w =>
          simp only [Except.ok.injEq]
          constructor
          · intro hw
            have hsplit : w.takeWhile (· ≠ ' ') ++ w.dropWhile (· ≠ ' ') = w :=
              List.takeWhile_append_dropWhile
            rw [hw] at hsplit
            refine ⟨c, w.dropWhile (· ≠ ' '), by rw [hv, hsplit], ?_⟩
            rw [← hsplit] at hw
            exact (takeWhile_eq_iff valid.space).mp hw
          · intro h
            obtain ⟨c', z, heq, hz⟩ := h
            rw [hv] at heq
            rw [(List.cons.inj heq).2]
            exact (takeWhile_eq_iff valid.space).mpr hz

/-! ### The host -/

theorem takeWhile_authority (valid : doc.Valid) :
    doc.authority.takeWhile (· ≠ ':') = doc.host := by
  have hall : ∀ c ∈ doc.host, decide (c ≠ ':') = true := by
    intro c hc
    simpa using fun he : c = ':' => valid.host (he ▸ hc)
  rw [authority, List.takeWhile_append_of_pos hall]
  cases doc.port <;> simp

/-- From the URL the address of etcd is right, with a port in it or without. -/
theorem getEtcdClusters_eq (valid : doc.Valid) {files : Files}
    (h : getServerUrl files hostFile = .ok doc.url) :
    getEtcdClusters files = "https://".toList ++ doc.host ++ ":2379".toList := by
  have hcut : doc.url.dropInfix? "://".toList = some (doc.scheme, doc.authority) :=
    dropInfix?_append_of_notMem valid.scheme doc.authority
  have hfind : find "://".toList doc.url 0 = some doc.scheme.length := by
    rw [find_of_dropInfix? (by rwa [List.drop_zero]), Nat.zero_add]
  have hpos : doc.scheme.length + 3 = (doc.scheme ++ "://".toList).length := by simp
  have hle : doc.scheme.length + 3 ≤ doc.url.length := by
    rw [hpos, url]
    exact (List.prefix_append _ _).length_le
  have hdrop : doc.url.drop (doc.scheme.length + 3) = doc.authority := by
    rw [hpos, url, List.drop_left]
  have hhost : substr doc.url (doc.scheme.length + 3)
      ((find [':'] doc.url (doc.scheme.length + 3)).getD doc.url.length -
        (doc.scheme.length + 3)) = .ok doc.host := by
    rw [substr_find ':' hle hdrop, takeWhile_authority valid]
  have hcluster : etcdCluster files = .ok ("https://".toList ++ doc.host ++ ":2379".toList) := by
    simp only [etcdCluster, h, bind, Except.bind, hfind, Option.map_some, Option.getD_some, hhost]
    rfl
  rw [getEtcdClusters, hcluster]

/-- The URL and the address of etcd are read from a legible file and from no other. -/
theorem read_iff (valid : doc.Valid) {files : Files} (h : files hostFile = some doc.text) :
    doc.Read files ↔ doc.Legible := by
  have hurl : getServerUrl files hostFile = .ok doc.url ↔ doc.Legible := by
    rw [getServerUrl_eq h, eraseNewlines_text valid, serverUrl_eq_iff valid]
  constructor
  · intro hread
    exact hurl.mp hread.server
  · intro hlegible
    have hserver := hurl.mpr hlegible
    exact ⟨hserver, getEtcdClusters_eq valid hserver⟩

/-- A file in which the rest of the cluster follows the server. -/
def named : Document where
  front := ["apiVersion: v1".toList]
  clustersLine := "clusters:".toList
  between := ["- cluster:".toList]
  indent := "    ".toList
  scheme := "https".toList
  host := "10.0.0.1".toList
  port := some "6443".toList
  further := ["  name: kubernetes".toList, "contexts:".toList]

/-- The same with the name in front. -/
def renamed : Document :=
  { named with
    between := ["- name: kubernetes".toList, "  cluster:".toList]
    further := ["contexts:".toList, "- context:".toList] }

theorem indent_named : ∀ c ∈ named.indent, c = ' ' ∨ c = '\t' := by
  intro c hc
  have hspaces : named.indent = List.replicate 4 ' ' := by decide +kernel
  rw [hspaces] at hc
  exact .inl (List.eq_of_mem_replicate hc)

theorem valid_named : named.Valid where
  lines := by decide +kernel
  front := by decide +kernel
  clusters := by decide +kernel
  between := by decide +kernel
  indent := indent_named
  space := by decide +kernel
  scheme := by decide +kernel
  host := by decide +kernel

theorem valid_renamed : renamed.Valid where
  lines := by decide +kernel
  front := by decide +kernel
  clusters := by decide +kernel
  between := by decide +kernel
  indent := indent_named
  space := by decide +kernel
  scheme := by decide +kernel
  host := by decide +kernel

theorem read_iff_named : named.Read (fun _ => some named.text) ↔ named.Legible :=
  read_iff valid_named rfl

/-- The next key of the file becomes part of the URL. -/
theorem not_read : renamed.Valid ∧
    getServerUrl (fun _ => some renamed.text) hostFile =
      .ok "https://10.0.0.1:6443contexts:-".toList ∧
    ¬ renamed.Read (fun _ => some renamed.text) := by
  have hurl : getServerUrl (fun _ => some renamed.text) hostFile =
      .ok "https://10.0.0.1:6443contexts:-".toList := by decide +kernel
  refine ⟨valid_renamed, hurl, ?_⟩
  intro hread
  rw [hread.server] at hurl
  exact absurd hurl (by decide +kernel)

end Ohno.Kubeconfig
