import Ohno.PlainPrograms
import Ohno.RouteRecords

/-!
# Stored routes over the shell

`EtcdClientShell` puts its keys and values into a line of text as they are, and
`/bin/sh` reads the line. What it makes of a character that is not plain is its
own affair: `e$x` becomes `e`. Routes come back from such a shell as they were
exactly when the names in them are plain words that no delimiter cuts.
-/
namespace Ohno.RouteLines
open CommandPrograms CommandPools CommandTraces DelimitedLists AddressText EtcdClientShell Nics
open Storage RouteRecords ShellWords CommandLines

/-! ### The shell -/

/-- The command that is carried out for a line of plain words. -/
def carried (x : Text) : Option EtcdCmd :=
  if (words x).all (·.all plainChar) then
    match (words x).map String.ofList with
    | "etcdctl" :: _ :: _ :: _ :: _ :: rest =>
        match readEtcd rest with
        | some (.etcd c) => some c
        | _ => none
    | _ => none
  else none

/-- Every line succeeds, and one that is not of plain words may do anything. -/
def obliging (x : Text) (s : Store) (r : Reply) (t : Store) : Prop :=
  r.ok = true ∧ ∀ c, carried x = some c → (r, t) = Etcd.ok c s

/-- The client as it runs, with lines for commands. -/
def overShell (d : EtcdData) {A : Type} (p : EtcdProgram A) : Program Text Reply Thrown A :=
  relay (fun c => line d (.etcd c)) (fun _ r => r) p

/-- `addRoute` for one route after the other, and `getAllRoutes`. -/
def addAndGet (node pod nic : Text) (routes : List Route) : EtcdProgram (List Route) :=
  (addRoutes node pod nic routes).bind fun _ => getAllRoutes node pod nic

/-- Whatever the shell does, all routes are read back in order, each stored text
having three parts. -/
def ReadBackOver (d : EtcdData) (node pod nic : Text) (routes : List Route) (s : Store) : Prop :=
  ∀ o t, (overShell d (addAndGet node pod nic routes)).Exec obliging s o t →
    o = .ok routes ∧ ∀ x ∈ t.values (getRouteKey node pod nic), (split separator x).length = 3

/-! ### Lines of plain words -/

section Plain
variable {d : EtcdData} {c : EtcdCmd} {x key : Text}

theorem argv_commandPrefix (d : EtcdData) (ts : List Text) :
    argv (commandPrefix d ++ ts) =
      "etcdctl" :: String.ofList ("--endpoints=".toList ++ d.endpoints) ::
      String.ofList ("--cacert=".toList ++ d.caCert) ::
      String.ofList ("--cert=".toList ++ d.cert) ::
      String.ofList ("--key=".toList ++ d.key) :: argv ts := by
  simp [commandPrefix]

theorem carried_of_words {ts : List Text}
    (hx : (words x).map String.ofList = argv (commandPrefix d ++ ts))
    (hplain : ∀ w ∈ words x, Plain w) :
    carried x = match readEtcd (argv ts) with
      | some (.etcd c) => some c
      | _ => none := by
  have hall : (words x).all (·.all plainChar) = true := by
    simp only [List.all_eq_true]
    exact hplain
  rw [carried, if_pos hall, hx, argv_commandPrefix]
  simp

theorem carried_line (hd : d.Plain) (h : ∀ t ∈ arguments (.etcd c), Plain t)
    (hc : Complete (.etcd c)) : carried (line d (.etcd c)) = some c := by
  have hparts := plain_etcdParts hd h
  have hwords : words (line d (.etcd c)) = (etcdParts d c).filter (· ≠ []) :=
    words_unwords fun t ht => Token.blank_notMem (.inl (hparts t ht))
  have hplain : ∀ w ∈ words (line d (.etcd c)), Plain w := by
    rw [hwords]
    exact fun w hw => hparts w (List.mem_of_mem_filter hw)
  have hread := read_etcdParts d hc
  cases c with
  | get key =>
      rw [etcdParts, read_etcd] at hread
      rw [carried_of_words (congrArg _ hwords) hplain, hread]
  | put key value =>
      rw [etcdParts, read_etcd] at hread
      rw [carried_of_words (congrArg _ hwords) hplain, hread]
  | del key =>
      rw [etcdParts, read_etcd] at hread
      rw [carried_of_words (congrArg _ hwords) hplain, hread]

theorem plain_of_carried (h : carried x = some c) : ∀ w ∈ words x, Plain w := by
  unfold carried at h
  split_ifs at h with hall
  simp only [List.all_eq_true] at hall
  exact hall

/-- A value that is stored is a word of its line. -/
theorem plain_of_put {value : Text} (h : carried x = some (.put key value)) : Plain value := by
  have hplain := plain_of_carried h
  unfold carried at h
  split_ifs at h
  split at h
  · rename_i rest hx
    split at h
    · rename_i c hread
      obtain rfl := Option.some.inj h
      have hmem : String.ofList value ∈ rest := by
        unfold readEtcd at hread
        split at hread
        · cases hread
        · cases hread
          simp
        · cases hread
        · cases hread
      have hword : String.ofList value ∈ (words x).map String.ofList := by
        rw [hx]
        simp [hmem]
      obtain ⟨w, hw, he⟩ := List.mem_map.mp hword
      exact String.ofList_injective he ▸ hplain w hw
    · cases h
  · cases h

theorem exists_word {c : Char} {t : Text} (hc : c ∈ t) (hb : c ≠ ' ') : ∃ w ∈ words t, c ∈ w := by
  have hjoin : join ' ' (t.splitOn ' ') = t := List.intercalate_splitOn ' '
  rw [← hjoin] at hc
  rcases mem_join ' ' hc with rfl | ⟨w, hw, hcw⟩
  · exact absurd rfl hb
  · exact ⟨w, List.mem_filter.mpr ⟨hw, by simp [List.ne_nil_of_mem hcw]⟩, hcw⟩

theorem ne_nil_of_mem_words {t w : Text} (h : w ∈ words t) : w ≠ [] :=
  of_decide_eq_true (List.mem_filter.mp h).2

/-- The words of a query, whatever its key is. -/
theorem words_get (hd : d.Plain) (key : Text) : words (line d (.etcd (.get key))) =
    (commandPrefix d).filter (· ≠ []) ++
      "get".toList :: (words key ++ ["--print-value-only".toList]) := by
  have hget : Plain "get".toList ∧ Plain "--print-value-only".toList := by simp [plainChar]
  have hline : line d (.etcd (.get key)) =
      unwords ((commandPrefix d ++ ["get".toList, key]) ++ ["--print-value-only".toList]) := by
    simp [line, parts, etcdParts]
  have hlast : words (unwords ["--print-value-only".toList]) = ["--print-value-only".toList] := by
    rw [unwords, List.intercalate_singleton, words_of_plain hget.2]
    simp
  rw [hline, words_unwords_append _ (by simp), hlast, List.flatMap_append,
    flatMap_words (plain_commandPrefix hd), List.flatMap_cons, List.flatMap_singleton,
    words_of_plain hget.1]
  simp

theorem length_of_readEtcd_get {l : List String} {c : Line}
    (h : readEtcd ("get" :: (l ++ ["--print-value-only"])) = some c) : l.length = 1 := by
  match l with
  | [] => simp [readEtcd] at h
  | [k] => rfl
  | [k, k'] => simp [readEtcd] at h
  | k :: k' :: k'' :: rest => simp [readEtcd] at h

/-- A query is carried out only if its key is one word. -/
theorem word_of_get (hd : d.Plain) (h : carried (line d (.etcd (.get key))) = some c) :
    (words key).length = 1 := by
  have hfilter : ("get".toList :: (words key ++ ["--print-value-only".toList])).filter (· ≠ []) =
      "get".toList :: (words key ++ ["--print-value-only".toList]) := by
    rw [List.filter_eq_self]
    intro w hw
    have hget : "get".toList ≠ [] ∧ "--print-value-only".toList ≠ [] := by simp
    rcases List.mem_cons.mp hw with rfl | hw
    · exact decide_eq_true hget.1
    · rcases List.mem_append.mp hw with hw | hw
      · exact decide_eq_true (ne_nil_of_mem_words hw)
      · exact List.mem_singleton.mp hw ▸ decide_eq_true hget.2
  have hwords : (words (line d (.etcd (.get key)))).map String.ofList =
      argv (commandPrefix d ++ "get".toList :: (words key ++ ["--print-value-only".toList])) := by
    rw [words_get hd, argv, List.filter_append, hfilter]
  have hargv : argv ("get".toList :: (words key ++ ["--print-value-only".toList])) =
      "get" :: ((words key).map String.ofList ++ ["--print-value-only"]) := by
    rw [argv, hfilter]
    simp
  rw [carried_of_words hwords (plain_of_carried h), hargv] at h
  split at h
  · rename_i hread
    simpa using length_of_readEtcd_get hread
  · cases h

/-- A key that begins and ends with no blank is handed over only if it is plain. -/
theorem plain_of_get (hd : d.Plain) {a b : Char} {t u : Text} (hfirst : key = a :: t) (ha : a ≠ ' ')
    (hlast : key = u ++ [b]) (hb : b ≠ ' ') (h : carried (line d (.etcd (.get key))) = some c) :
    Plain key := by
  have hone := word_of_get hd h
  intro x hx
  by_cases hblank : x = ' '
  · -- a blank would leave a word on each side
    obtain ⟨v, w, hvw⟩ := List.append_of_mem (hblank ▸ hx)
    have hv : words v ≠ [] := by
      cases v with
      | nil => exact absurd (List.cons.inj (hfirst.symm.trans hvw)).1 ha
      | cons x v =>
          obtain ⟨rfl, -⟩ := List.cons.inj (hfirst.symm.trans hvw)
          obtain ⟨y, hy, -⟩ := exists_word List.mem_cons_self ha
          exact List.ne_nil_of_mem hy
    have hw : words w ≠ [] := by
      rcases List.eq_nil_or_concat w with rfl | ⟨w, x, rfl⟩
      · exact absurd (List.append_inj' (hlast.symm.trans hvw) rfl).2 (by simpa using hb)
      · rw [List.concat_eq_append] at hvw ⊢
        have he : u ++ [b] = (v ++ ' ' :: w) ++ [x] := by
          simpa using hlast.symm.trans hvw
        obtain ⟨-, hbx⟩ := List.append_inj' he rfl
        obtain rfl := List.singleton_inj.mp hbx
        obtain ⟨y, hy, -⟩ := exists_word (List.mem_append_right w (List.mem_singleton_self b)) hb
        exact List.ne_nil_of_mem hy
    rw [hvw, words_append, List.length_append] at hone
    have hv' := List.length_pos_of_ne_nil hv
    have hw' := List.length_pos_of_ne_nil hw
    omega
  · obtain ⟨w, hw, hxw⟩ := exists_word hx hblank
    apply plain_of_carried h w _ x hxw
    rw [words_get hd]
    simp [hw]

end Plain

/-! ### Plain commands -/

section Runs
variable {d : EtcdData} {key node pod nic v : Text} {routes : List Route} {s t : Store} {A : Type}

/-- The commands for a list of plain words under one key. -/
def Ours (key : Text) : EtcdCmd → Prop
  | .get k => k = key
  | .put k v => k = key ∧ Plain v ∧ v ≠ []
  | .del _ => False

def Shown : EtcdCmd → Reply → Prop
  | .get _, r => Plain r.out
  | _, _ => True

theorem issues_get : Issues (Ours key) Shown (fun r => Plain r.out) (EtcdClientShell.get key) := by
  refine ⟨rfl, ?_⟩
  intro r hr
  have hplain : Plain r.out := hr
  cases hok : r.ok with
  | false => simpa [hok] using hplain
  | true =>
      have hsub : Plain (eraseNewlines r.out) :=
        hplain.subset fun c hc => List.mem_of_mem_filter hc
      simpa [hok] using hsub

theorem issues_append (hv : Plain v) (hn : v ≠ []) :
    Issues (Ours key) Shown (fun _ => True) (append key v) := by
  apply issues_get.bind
  intro r hr
  refine ⟨⟨rfl, ?_, ?_⟩, fun _ _ => trivial⟩
  · split_ifs
    · exact hv
    · simp [hr, hv, plainChar]
    · exact hv
  · split_ifs
    · exact hn
    · simp
    · exact hn

theorem issues_addAndGet (h : ∀ r ∈ routes, Plain (routeText r)) :
    Issues (Ours (getRouteKey node pod nic)) Shown (fun _ => True)
      (addAndGet node pod nic routes) := by
  have hadd : Issues (Ours (getRouteKey node pod nic)) Shown (fun _ => True)
      (addRoutes node pod nic routes) := by
    induction routes with
    | nil => exact trivial
    | cons r routes ih =>
        obtain ⟨hr, hrest⟩ := List.forall_mem_cons.mp h
        apply (issues_append hr (by simp [routeText, getRouteValue])).bind
        intro _ _
        exact ih hrest
  apply hadd.bind
  intro _ _
  apply Issues.bind (P := fun _ => True)
  · apply Issues.bind (P := fun _ => True)
    · exact issues_get.bind fun _ _ => trivial
    · exact fun _ _ => trivial
  · exact fun _ _ => Issues.ofExcept fun _ _ => trivial

/-- A line of plain words is carried out, and what is stored stays plain. -/
theorem ok_of_obliging (hd : d.Plain) (hk : Plain key) (hn : key ≠ []) {c : EtcdCmd} {r : Reply}
    (hc : Ours key c) (hs : Plain (s.shown key)) (h : obliging (line d (.etcd c)) s r t) :
    (r, t) = Etcd.ok c s ∧ Shown c r ∧ Plain (t.shown key) := by
  cases c with
  | get k =>
      obtain rfl := hc
      have hcarried : carried (line d (.etcd (.get k))) = some (.get k) :=
        carried_line hd (by simpa [arguments] using hk) ⟨[k], rfl, by simpa using hn⟩
      have hok := h.2 _ hcarried
      obtain ⟨rfl, rfl⟩ := Prod.mk.inj hok
      exact ⟨rfl, hs, hs⟩
  | put k v =>
      obtain ⟨rfl, hv, hvn⟩ := hc
      have hcarried : carried (line d (.etcd (.put k v))) = some (.put k v) :=
        carried_line hd (by simpa [arguments] using And.intro hk hv)
          ⟨[k, v], rfl, by simpa using And.intro hn hvn⟩
      have hok := h.2 _ hcarried
      obtain ⟨rfl, rfl⟩ := Prod.mk.inj hok
      refine ⟨rfl, trivial, ?_⟩
      simpa [Store.shown] using hv
  | del k => exact hc.elim

theorem run_of_exec (hd : d.Plain) (hk : Plain key) (hn : key ≠ []) {p : EtcdProgram A}
    {P : A → Prop} (hp : Issues (Ours key) Shown P p) (hs : Plain (s.shown key))
    {o : Except Thrown A} (h : (overShell d p).Exec obliging s o t) : (o, t) = p.run Etcd.ok s := by
  induction p generalizing s with
  | pure a =>
      obtain ⟨rfl, rfl⟩ := h
      rfl
  | throw e =>
      obtain ⟨rfl, rfl⟩ := h
      rfl
  | call c next ih =>
      obtain ⟨r, u, hr, hrest⟩ := h
      obtain ⟨hok, hshown, hplain⟩ := ok_of_obliging hd hk hn hp.1 hs hr
      rw [ih r (hp.2 r hshown) hplain hrest, Program.run, ← hok]

/-! ### A shell that does nothing with other lines -/

/-- It prints `junk` instead. -/
def curt (junk x : Text) (s : Store) : Reply × Store :=
  match carried x with
  | some c => Etcd.ok c s
  | none => (⟨true, junk⟩, s)

theorem obliging_curt (junk x : Text) (s : Store) :
    obliging x s (curt junk x s).1 (curt junk x s).2 := by
  unfold curt
  cases hx : carried x with
  | none => exact ⟨rfl, fun c hc => by rw [hx] at hc; cases hc⟩
  | some c =>
      refine ⟨by cases c <;> rfl, fun c' hc' => ?_⟩
      obtain rfl := Option.some.inj (hx.symm.trans hc')
      rfl

/-- What is stored by lines of plain words is plain. -/
theorem plain_curt {x : Text} (hs : Plain (s.shown key)) : Plain ((curt [] x s).2.shown key) := by
  unfold curt
  cases hx : carried x with
  | none => exact hs
  | some c =>
      cases c with
      | get k => exact hs
      | put k v =>
          have hv := plain_of_put hx
          by_cases hkey : key = k
          · simpa [Etcd.ok, Store.shown, hkey] using hv
          · simpa [Etcd.ok, Store.shown, Store.set_of_ne hkey] using hs
      | del k =>
          by_cases hkey : key = k
          · simp [Etcd.ok, Store.shown, hkey]
          · simpa [Etcd.ok, Store.shown, Store.erase_of_ne hkey] using hs

theorem plain_run (p : EtcdProgram A) (hs : Plain (s.shown key)) :
    Plain (((overShell d p).run (curt []) s).2.shown key) := by
  induction p generalizing s with
  | pure a => exact hs
  | throw e => exact hs
  | call c next ih => exact ih _ (plain_curt hs)

/-- The result of the whole is that of the last query. -/
theorem run_addAndGet (h : Text → Store → Reply × Store) (s : Store) :
    (overShell d (addAndGet node pod nic routes)).run h s =
      (overShell d (getAllRoutes node pod nic)).run h
        ((overShell d (addRoutes node pod nic routes)).run h s).2 := by
  have hadd : ∀ s, ((overShell d (addRoutes node pod nic routes)).run h s).1 = .ok () := by
    induction routes with
    | nil => exact fun s => rfl
    | cons r routes ih => exact fun s => ih _
  have hrun : (overShell d (addRoutes node pod nic routes)).run h s =
      (.ok (), ((overShell d (addRoutes node pod nic routes)).run h s).2) := Prod.ext (hadd s) rfl
  rw [overShell, addAndGet, relay_bind, Program.run_bind, ← overShell, hrun,
    Program.Final.andThen_ok]
  rfl

theorem run_getAllRoutes_line (h : Text → Store → Reply × Store) (s : Store) :
    ((overShell d (getAllRoutes node pod nic)).run h s).1 =
      let r := (h (line d (.etcd (.get (getRouteKey node pod nic)))) s).1
      if r.ok then (split ',' (eraseNewlines r.out)).mapM parseRoute else .ok [] := by
  simp only [overShell, getAllRoutes, listOrEmpty, list, EtcdClientShell.get, Program.request,
    Program.bind_eq, Program.bind, relay, Program.pure_eq, Program.run]
  cases (h (line d (.etcd (.get (getRouteKey node pod nic)))) s).1.ok with
  | false => rfl
  | true =>
      simp only [if_true, Option.getD_some]
      cases (split ',' (eraseNewlines
        (h (line d (.etcd (.get (getRouteKey node pod nic)))) s).1.out)).mapM parseRoute <;> rfl

end Runs

/-! ### Routes that ADD can store -/

section Routes
variable {d : EtcdData} {node pod nic : Text} {routes : List Route} {s : Store}

theorem plain_getRouteKey_iff :
    Plain (getRouteKey node pod nic) ↔ Plain node ∧ Plain pod ∧ Plain nic := by
  constructor
  · intro h
    simp only [getRouteKey, nodeKey, join_cons, ne_eq, reduceCtorEq, not_false_eq_true,
      plain_append, plain_cons] at h
    exact ⟨h.2.2.1, by tauto, by tauto⟩
  · intro h
    exact (PlainPrograms.plainKey_getRouteKey h.1 h.2.1 h.2.2).plain

theorem plain_of_digits {x : Text} (h : ∀ c ∈ x, c = '.' ∨ c = '/' ∨ c.isDigit) : Plain x := by
  intro c hc
  rcases h c hc with rfl | rfl | hdigit
  · decide
  · decide
  · simp [plainChar, Char.isAlphanum, hdigit]

theorem plain_routeText {r : Route} (h : Addable r) (hd : Plain r.dev) : Plain (routeText r) := by
  have hdest : Plain r.dest := by
    rcases h.dest with hn | hm
    · simp [hn]
    · exact plain_of_digits (mem_of_matchesIpv4 hm)
  have hvia : Plain r.via :=
    plain_of_digits fun c hc => mem_of_matchesIpv4 h.via c (List.mem_append_left _ hc)
  simp [routeText, getRouteValue, separator, plainChar, hdest, hvia, hd]

/-- A result of the whole is one of the last query, whatever other lines print. -/
theorem ReadBackOver.last (h : ReadBackOver d node pod nic routes s) (junk : Text) :
    ((overShell d (getAllRoutes node pod nic)).run (curt junk)
      ((overShell d (addRoutes node pod nic routes)).run (curt junk) s).2).1 = .ok routes := by
  have hexec := h _ _ (Program.exec_run (obliging_curt junk) _ s)
  rw [run_addAndGet] at hexec
  exact hexec.1

theorem ReadBackOver.plain_key (hd : d.Plain) (h : ReadBackOver d node pod nic routes s) :
    Plain (getRouteKey node pod nic) := by
  have hlast := h.last ['!']
  rw [run_getAllRoutes_line] at hlast
  cases hc : carried (line d (.etcd (.get (getRouteKey node pod nic)))) with
  | none =>
      have hjunk : (split ',' (eraseNewlines ['!'])).mapM parseRoute = .error .segfault := by
        decide +kernel
      simp [curt, hc, hjunk] at hlast
  | some c =>
      have hprefix : etcdKeyPrefixNode = '/' :: etcdKeyPrefixNode.tail := by decide +kernel
      have hroute : partRoute = partRoute.dropLast ++ ['e'] := by decide +kernel
      have hfirst : getRouteKey node pod nic = '/' :: (etcdKeyPrefixNode.tail ++
          '/' :: (node ++ '/' :: join '/' [partPod, pod, partNic, nic, partRoute])) := by
        rw [getRouteKey, nodeKey, hprefix]
        rfl
      have hlast' : getRouteKey node pod nic = (etcdKeyPrefixNode ++ '/' :: (node ++ '/' ::
          (partPod ++ '/' :: (pod ++
            '/' :: (partNic ++ '/' :: (nic ++ '/' :: partRoute.dropLast)))))) ++
            ['e'] := by
        rw [getRouteKey, nodeKey]
        simp only [join_cons, ne_eq, reduceCtorEq, not_false_eq_true, join_singleton]
        rw [hroute]
        simp
      exact plain_of_get hd hfirst (by decide) hlast' (by decide) hc

theorem carried_key (hd : d.Plain) (hk : Plain (getRouteKey node pod nic)) :
    carried (line d (.etcd (.get (getRouteKey node pod nic)))) =
      some (.get (getRouteKey node pod nic)) :=
  carried_line hd (by simpa [arguments] using hk)
    ⟨_, rfl, by simp [getRouteKey, nodeKey]⟩

/-- A device that was read stood in a plain text. -/
theorem ReadBackOver.plain_dev (hd : d.Plain) (hs : s (getRouteKey node pod nic) = none)
    (h : ReadBackOver d node pod nic routes s) : ∀ r ∈ routes, Plain r.dev := by
  have hlast := h.last []
  have hplain : Plain (((overShell d (addRoutes node pod nic routes)).run (curt []) s).2.shown
      (getRouteKey node pod nic)) := plain_run _ (by simp [Store.shown, hs])
  rw [run_getAllRoutes_line] at hlast
  simp only [curt, carried_key hd (h.plain_key hd), Etcd.ok, if_true, Store.eraseNewlines_shown]
    at hlast
  intro r hr
  obtain ⟨x, hx, hparse⟩ := exists_of_mapM hlast r hr
  apply hplain.subset
  intro c hc
  have hcx := (dev_of_parseRoute hparse).2 c hc
  exact List.mem_of_mem_filter (mem_of_mem_split ',' hx c hcx)

/-- Where everything is plain, the shell changes nothing. -/
theorem end_of_plain (hd : d.Plain) (hs : s (getRouteKey node pod nic) = none)
    (hr : ∀ r ∈ routes, Addable r) (hk : Plain (getRouteKey node pod nic))
    (hdev : ∀ r ∈ routes, Plain r.dev) {o : Except Thrown (List Route)} {t : Store}
    (h : (overShell d (addAndGet node pod nic routes)).Exec obliging s o t) :
    t = afterRoutes node pod nic routes s ∧ o = ((getAllRoutes node pod nic).run Etcd.ok t).1 := by
  have hissues : Issues (Ours (getRouteKey node pod nic)) Shown (fun _ => True)
      (addAndGet node pod nic routes) :=
    issues_addAndGet fun r hmem => plain_routeText (hr r hmem) (hdev r hmem)
  have hrun := run_of_exec hd hk (by simp [getRouteKey, nodeKey]) hissues
    (by simp [Store.shown, hs]) h
  have hadd : ∀ s, ((addRoutes node pod nic routes).run Etcd.ok s).1 = .ok () := by
    clear hrun hissues h hdev hr hs
    induction routes with
    | nil => exact fun s => rfl
    | cons r routes ih => exact fun s => by simpa [addRoutes, addRoute] using ih _
  have hend : (addRoutes node pod nic routes).run Etcd.ok s =
      (.ok (), afterRoutes node pod nic routes s) := Prod.ext (hadd s) rfl
  rw [addAndGet, Program.run_bind, hend, Program.Final.andThen_ok, run_getAllRoutes] at hrun
  obtain ⟨rfl, rfl⟩ := Prod.mk.inj hrun
  rw [run_getAllRoutes]
  exact ⟨rfl, rfl⟩

/-- Over any shell, routes that ADD can store are read back exactly when all names
are plain words and no device name has a dash or a comma in it. -/
theorem readBackOver_iff (hd : d.Plain) (hs : s (getRouteKey node pod nic) = none)
    (hr : ∀ r ∈ routes, Addable r) :
    ReadBackOver d node pod nic routes s ↔ (Plain node ∧ Plain pod ∧ Plain nic) ∧
      ∀ r ∈ routes, Plain r.dev ∧ '-' ∉ r.dev ∧ ',' ∉ r.dev := by
  have hverbatim := readBack_iff_of_verbatim node pod nic s hs routes hr
  constructor
  · intro h
    have hk := h.plain_key hd
    have hdev := h.plain_dev hd hs
    refine ⟨plain_getRouteKey_iff.mp hk, ?_⟩
    have hexec := Program.exec_run (obliging_curt [])
      (overShell d (addAndGet node pod nic routes)) s
    obtain ⟨ht, ho⟩ := end_of_plain hd hs hr hk hdev hexec
    obtain ⟨hread, hthree⟩ := h _ _ hexec
    rw [ho, ht] at hread
    rw [ht] at hthree
    intro r hmem
    obtain ⟨hdash, hcomma, -⟩ := hverbatim.mp ⟨hread, hthree⟩ r hmem
    exact ⟨hdev r hmem, hdash, hcomma⟩
  · intro h o t hexec
    obtain ⟨hkey, hdev⟩ := h
    obtain ⟨rfl, rfl⟩ := end_of_plain hd hs hr (plain_getRouteKey_iff.mpr hkey)
      (fun r hmem => (hdev r hmem).1) hexec
    apply hverbatim.mpr
    intro r hmem
    have hline : '\n' ∉ r.dev := by
      intro hn
      have hplain := (hdev r hmem).1 _ hn
      revert hplain
      decide
    exact ⟨(hdev r hmem).2.1, (hdev r hmem).2.2, hline⟩

/-- The default route and one with a destination, through `eth0`. -/
def twoRoutes : List Route :=
  [⟨[], "10.244.1.1".toList, "eth0".toList⟩,
    ⟨"10.96.0.0/12".toList, "10.244.1.1".toList, "eth0".toList⟩]

theorem readBackOver_eth0 : ReadBackOver dataA ['n'] ['c'] "eth0".toList twoRoutes (fun _ => none) ↔
    (Plain ['n'] ∧ Plain ['c'] ∧ Plain "eth0".toList) ∧
      ∀ r ∈ twoRoutes, Plain r.dev ∧ '-' ∉ r.dev ∧ ',' ∉ r.dev := by
  apply readBackOver_iff plain_dataA rfl
  simp only [twoRoutes, List.forall_mem_cons, List.not_mem_nil, false_imp_iff, implies_true,
    and_true]
  exact ⟨⟨by decide +kernel, by decide +kernel, by decide +kernel⟩,
    ⟨by decide +kernel, by decide +kernel, by decide +kernel⟩⟩

/-- Through `net-a` the default route comes back with another device. -/
theorem dash_not_readBack :
    ¬ ReadBackOver dataA ['n'] ['c'] "net-a".toList [⟨[], "10.244.1.1".toList, "net-a".toList⟩]
      fun _ => none := by
  intro h
  have hr : ∀ r ∈ [(⟨[], "10.244.1.1".toList, "net-a".toList⟩ : Route)], Addable r := by
    simp only [List.forall_mem_cons, List.not_mem_nil, false_imp_iff, implies_true, and_true]
    exact ⟨by decide +kernel, by decide +kernel, by decide +kernel⟩
  have hexec := Program.exec_run (obliging_curt [])
    (overShell dataA (addAndGet ['n'] ['c'] "net-a".toList
      [⟨[], "10.244.1.1".toList, "net-a".toList⟩])) fun _ => none
  obtain ⟨ht, ho⟩ := end_of_plain plain_dataA rfl hr (h.plain_key plain_dataA)
    (h.plain_dev plain_dataA rfl) hexec
  have hread := (h _ _ hexec).1
  rw [ho, ht] at hread
  have hdev : ((getAllRoutes ['n'] ['c'] "net-a".toList).run Etcd.ok
      (afterRoutes ['n'] ['c'] "net-a".toList [⟨[], "10.244.1.1".toList, "net-a".toList⟩]
        fun _ => none)).1 = .ok [⟨[], "10.244.1.1".toList, "net".toList⟩] := by decide +kernel
  exact absurd (hdev.symm.trans hread) (by decide +kernel)

end Routes

end Ohno.RouteLines
