import Ohno.Backends

/-!
# Reads that fail during a poll

A poll keeps two logs: the reads of etcd, each with what was stored at that
moment and whether the command succeeded, and the network commands with their
answers. Any read may fail and then prints nothing; network commands answer
anything. The handlers take a failed read for an absent record. What they tear
down is traced to the reads of the deletion loop, for both backends by the same
lemmas.
-/
namespace Ohno.TransientFailures
open CommandPrograms DelimitedLists AddressText EtcdClientShell Ipam Netlink Nics Storage Backends

/-! ### Logs -/

structure Read where
  key : Text
  store : Store
  ok : Bool

namespace Read

/-- What etcd holds, the empty text for an absent record. -/
def stored (r : Read) : Text := r.store.value r.key

/-- What the client returns. -/
def output (r : Read) : Text := if r.ok then r.stored else []

end Read

abbrev Answered := List (NetlinkCmd × Bool)

/-- The store may change from read to read. -/
def anyGet : EtcdCmd → List Read → Reply → List Read → Prop
  | .get k, log, r, log' =>
      ∃ s : Store, r.out = (if r.ok then s.shown k else []) ∧ log' = log ++ [⟨k, s, r.ok⟩]
  | _, log, _, log' => log' = log

def anyAnswer (c : NetlinkCmd) (log : Answered) (b : Bool) (log' : Answered) : Prop :=
  log' = log ++ [(c, b)]

/-- Every execution of `p` adds reads and commands to the logs for which `P` holds. -/
def Issues {A : Type} (p : OhnoProgram A) (P : Except Thrown A → List Read → Answered → Prop) :
    Prop :=
  ∀ w, p.Safe (serve anyGet anyAnswer)
    (fun o u => ∃ rs cs, u = (w.1 ++ rs, w.2 ++ cs) ∧ P o rs cs) w

section Issues
variable {A B : Type} {P : Except Thrown A → List Read → Answered → Prop}
variable {R : Except Thrown B → List Read → Answered → Prop}

theorem issues_pure {a : A} (h : P (.ok a) [] []) : Issues (.pure a) P :=
  fun w => ⟨[], [], by simp, h⟩

theorem issues_throw {e : Thrown} (h : P (.error e) [] []) : Issues (.throw e) P :=
  fun w => ⟨[], [], by simp, h⟩

theorem issues_bind {p : OhnoProgram A} {f : A → OhnoProgram B} (hp : Issues p P)
    (hf : ∀ a rs cs, P (.ok a) rs cs → Issues (f a) fun o rs' cs' => R o (rs ++ rs') (cs ++ cs'))
    (he : ∀ e rs cs, P (.error e) rs cs → R (.error e) rs cs) : Issues (p.bind f) R := by
  intro w
  rw [Program.safe_bind]
  apply (hp w).mono
  intro o u h
  obtain ⟨rs, cs, rfl, h⟩ := h
  cases o with
  | error e => exact ⟨rs, cs, rfl, he e rs cs h⟩
  | ok a =>
      apply (hf a rs cs h _).mono
      intro o u h'
      obtain ⟨rs', cs', rfl, h'⟩ := h'
      exact ⟨rs ++ rs', cs ++ cs', by simp, h'⟩

theorem Issues.mono {p : OhnoProgram A} {P' : Except Thrown A → List Read → Answered → Prop}
    (hp : Issues p P) (h : ∀ o rs cs, P o rs cs → P' o rs cs) : Issues p P' := by
  intro w
  apply (hp w).mono
  intro o u hu
  obtain ⟨rs, cs, rfl, hP⟩ := hu
  exact ⟨rs, cs, rfl, h o rs cs hP⟩

theorem Issues.exec {p : OhnoProgram A} (hp : Issues p P) {o : Except Thrown A} {rs : List Read}
    {cs : Answered} (h : p.Exec (serve anyGet anyAnswer) ([], []) o (rs, cs)) : P o rs cs := by
  obtain ⟨rs', cs', hw, h'⟩ := (hp ([], [])).exec h
  simp only [List.nil_append, Prod.mk.injEq] at hw
  rwa [hw.1, hw.2]

/-- The reply to a `get` is the output of the read it adds to the log. -/
theorem issues_get {k : Text} {f : Reply → OhnoProgram A}
    (h : ∀ r : Read, r.key = k → Issues (f ⟨r.ok, r.output⟩) fun o rs cs => P o (r :: rs) cs) :
    Issues ((etcd (EtcdClientShell.get k)).bind f) P := by
  intro w
  simp only [Program.safe_bind, safe_etcd, EtcdClientShell.get, Program.bind_eq,
    Program.safe_request, Program.onward_ok, Program.pure_eq, Program.safe_pure, anyGet]
  intro r log hr
  obtain ⟨s, hout, rfl⟩ := hr
  have hr : (if r.ok = true then eraseNewlines r.out else r.out) = (Read.mk k s r.ok).output := by
    rw [hout]
    cases r.ok <;> rfl
  rw [hr]
  apply (h ⟨k, s, r.ok⟩ rfl _).mono
  intro o u hu
  obtain ⟨rs, cs, rfl, hP⟩ := hu
  exact ⟨_ :: rs, cs, by simp, hP⟩

theorem issues_getSubnet {name : Text} {f : Bool × Text → OhnoProgram A}
    (h : ∀ r : Read, r.key = subnetKey name → ∀ ret,
      Issues (f (ret, r.output)) fun o rs cs => P o (r :: rs) cs) :
    Issues ((etcd (getSubnet name)).bind f) P := by
  simp only [getSubnet, etcd, Program.bind_eq, Program.embed_bind, Program.pure_eq,
    Program.embed_pure, Program.bind_assoc, Program.pure_bind]
  exact issues_get fun r hr => h r hr _

/-- A record that is there but has no second part ends the process. -/
theorem issues_getVtep {name : Text} {f : Text × Text → OhnoProgram A}
    (h : ∀ r : Read, r.key = getVtepKey name → ∀ vtep, parseVtep r.output = .ok vtep →
      Issues (f vtep) fun o rs cs => P o (r :: rs) cs)
    (he : ∀ r : Read, r.key = getVtepKey name → ∀ e, P (.error e) [r] []) :
    Issues ((etcd (getVtep name)).bind f) P := by
  simp only [getVtep, etcd, Program.bind_eq, Program.embed_bind, Program.bind_assoc]
  apply issues_get
  intro r hr
  cases hok : r.ok with
  | false =>
      have hout : parseVtep r.output = .ok ([], []) := by
        rw [Read.output, hok]
        rfl
      exact h r hr _ hout
  | true =>
      cases hp : parseVtep r.output with
      | ok vtep => simpa [hp] using h r hr vtep hp
      | error e => simpa [hp] using issues_throw (he r hr e)

/-- The end of `addEntry` and `delEntry`: no other command was issued, and a
result of `false` stems from the second one. -/
structure Edits (isExist setEntry : NetlinkCmd) (o : Except Thrown (Bool × Nic)) (rs : List Read)
    (cs : Answered) : Prop where
  noRead : rs = []
  issued : ∀ c ∈ cs, c.1 = isExist ∨ c.1 = setEntry
  result : ∃ ret, o = .ok ret ∧ ret.2.netlink = true ∧ (ret.1 = false → (setEntry, false) ∈ cs)

variable {nic other : Nic} {isExist setEntry : NetlinkCmd}

theorem issues_addEntry (hn : nic.netlink = true) (ho : other.netlink = true) :
    Issues (nic.addEntry isExist setEntry other) (Edits isExist setEntry) := by
  intro w
  apply Nic.safe_addEntry hn
  · intro t ht
    refine ⟨[], [(isExist, true)], ?_, rfl, by simp, _, rfl, ho, by simp⟩
    simpa [anyAnswer] using ht
  · intro t u ht hu
    refine ⟨[], [(isExist, false), (setEntry, true)], ?_, rfl, by simp, _, rfl, ho, by simp⟩
    simp_all [anyAnswer]
  · intro t u ht hu
    refine ⟨[], [(isExist, false), (setEntry, false)], ?_, rfl, by simp, _, rfl, hn, by simp⟩
    simp_all [anyAnswer]

theorem issues_delEntry (hn : nic.netlink = true) (ho : other.netlink = true) :
    Issues (nic.delEntry isExist setEntry other) (Edits isExist setEntry) := by
  intro w
  apply Nic.safe_delEntry hn
  · intro t ht
    refine ⟨[], [(isExist, false)], ?_, rfl, by simp, _, rfl, hn, by simp⟩
    simpa [anyAnswer] using ht
  · intro t u ht hu
    refine ⟨[], [(isExist, true), (setEntry, true)], ?_, rfl, by simp, _, rfl, ho, by simp⟩
    simp_all [anyAnswer]
  · intro t u ht hu
    refine ⟨[], [(isExist, true), (setEntry, false)], ?_, rfl, by simp, _, rfl, hn, by simp⟩
    simp_all [anyAnswer]

theorem issues_edit {p : OhnoProgram (Bool × Nic)} {f : Bool × Nic → OhnoProgram A}
    (hp : Issues p (Edits isExist setEntry))
    (hf : ∀ ret cs, ret.2.netlink = true → (∀ c ∈ cs, c.1 = isExist ∨ c.1 = setEntry) →
      (ret.1 = false → (setEntry, false) ∈ cs) →
      Issues (f ret) fun o rs cs' => P o rs (cs ++ cs')) :
    Issues (p.bind f) P := by
  apply issues_bind hp
  · intro ret rs cs h
    obtain ⟨ret', ho, hn, hfalse⟩ := h.result
    cases ho
    rw [h.noRead]
    exact hf ret cs hn h.issued hfalse
  · intro e rs cs h
    obtain ⟨ret', ho, -⟩ := h.result
    cases ho

end Issues

/-! ### Polls -/

/-- The two handlers. -/
inductive Mode where
  | hostGw
  | vxlan
deriving Repr, DecidableEq

def Mode.handler : Mode → VisitOrder → Text → NodeMap → Backend → OhnoProgram Backend
  | .hostGw => HostGw.eventHandler
  | .vxlan => Vxlan.eventHandler

/-- The key of the record that the handler reads for a node. -/
def Mode.recordKey : Mode → Text → Text
  | .hostGw => subnetKey
  | .vxlan => getVtepKey

/-- The part of a record that the handler looks at. -/
def Mode.told : Mode → Text → Text
  | .hostGw, record => record
  | .vxlan, record => (split separator record).headD []

def removes : NetlinkCmd → Bool
  | .routeSetEntry _ _ add _ _ _ => !add
  | .neighSetEntry _ _ add _ _ => !add
  | .fdbSetEntry _ _ _ add _ => !add
  | _ => false

/-- The command removes an entry of the peer `info`, whose record is `record`. -/
def Mode.removesFor (mode : Mode) (info : NodeInfo) (record : Text) (c : NetlinkCmd) : Prop :=
  ∃ netns, match mode with
    | .hostGw => c = .routeSetEntry info.podCidr info.internalIp false [] netns .none
    | .vxlan => ∃ addr mac, parseVtep record = .ok (addr, mac) ∧
        (c = .routeSetEntry info.podCidr addr false nameVxlan netns .none ∨
          c = .neighSetEntry addr mac false nameVxlan netns ∨
          c = .fdbSetEntry mac info.internalIp nameVxlan false netns)

/-- One poll: the cache it starts from, the snapshot, its logs and its end. -/
structure Poll where
  before : Backend
  cluster : NodeMap
  reads : List Read
  commands : Answered
  after : Except Thrown Backend

/-- The polls of a daemon on `current` and how the last one ended. A poll that
throws ends the process. -/
inductive Run (mode : Mode) (current : Text) : List Poll → Except Thrown Backend → Prop where
  | start : Run mode current [] (.ok {})
  | poll {polls : List Poll} {p : Poll} (o : VisitOrder)
      (past : Run mode current polls (.ok p.before))
      (now : (mode.handler o current p.cluster p.before).Exec (serve anyGet anyAnswer) ([], [])
        p.after (p.reads, p.commands)) :
      Run mode current (polls ++ [p]) p.after

variable {mode : Mode} {current : Text}

/-- At a read of the poll no record of the node was stored. -/
def Poll.Absent (p : Poll) (mode : Mode) (name : Text) : Prop :=
  ∃ r ∈ p.reads, r.key = mode.recordKey name ∧ r.stored = []

/-- Entries are removed, and peers dropped, for want of a record alone. -/
structure Poll.Justified (p : Poll) (mode : Mode) (current : Text) : Prop where
  removed : ∀ c, (c, true) ∈ p.commands → removes c = true →
    ∃ e, (e ∈ p.before.nodeCache ∨ e ∈ p.cluster) ∧
      (∃ r ∈ p.reads, r.key = mode.recordKey e.1 ∧ mode.removesFor e.2 r.output c) ∧
      (p.Absent mode current ∨ p.Absent mode e.1)
  dropped : ∀ b, p.after = .ok b → ∀ name, p.before.cached name = true → b.cached name = false →
    p.Absent mode current ∨ p.Absent mode name

/-- The reads of the second loop: one read of the own record and, unless it
told nothing, one for each other node of the snapshot come before them. -/
def deletionReads (mode : Mode) (current : Text) (cluster : NodeMap) : List Read → List Read
  | [] => []
  | own :: rest =>
      if mode.told own.output = [] then rest
      else rest.drop (cluster.filter (·.1 ≠ current)).length

/-- In vxlan mode no command that adds an entry fails. -/
def Unfailing (mode : Mode) (cs : Answered) : Prop :=
  mode = .vxlan → ∀ c ∈ cs, adds c.1 = true → c.2 = true

/-- No read that decides on a deletion fails while both records are stored. In
vxlan mode also: records begin with an address, and no addition fails. -/
structure Poll.Reliable (p : Poll) (mode : Mode) (current : Text) : Prop where
  reads : ∀ own ∈ p.reads.head?, ∀ r ∈ deletionReads mode current p.cluster p.reads,
    own.stored ≠ [] → r.stored ≠ [] → own.ok = true ∧ r.ok = true
  records : ∀ r ∈ p.reads, r.stored ≠ [] → mode.told r.stored ≠ []
  additions : Unfailing mode p.commands

/-! ### The deletion loop -/

/-- Nothing is torn down but for a peer that was read, and only if the own
record or that read told nothing. -/
structure Deletes (mode : Mode) (gone : Prop) (l : NodeMap) (b : Backend)
    (o : Except Thrown Backend)
    (rs : List Read) (cs : Answered) : Prop where
  removed : ∀ c ∈ cs, removes c.1 = true → ∃ e ∈ l, ∃ r ∈ rs, r.key = mode.recordKey e.1 ∧
    mode.removesFor e.2 r.output c.1 ∧ (gone ∨ mode.told r.output = [])
  dropped : ∀ b', o = .ok b' → b'.nic.netlink = true ∧ ∀ name, b.cached name = true →
    b'.cached name = false →
      ∃ r ∈ rs, r.key = mode.recordKey name ∧ (gone ∨ mode.told r.output = [])

section Deletes
variable {gone : Prop} {l : NodeMap} {b : Backend} {o : Except Thrown Backend}

theorem Deletes.nil (hb : b.nic.netlink = true) : Deletes mode gone [] b (.ok b) [] [] := by
  refine ⟨by simp, ?_⟩
  intro b' ho
  cases ho
  refine ⟨hb, ?_⟩
  intro name h h'
  rw [h] at h'
  cases h'

/-- One peer, then the others. `b₁` is the backend after the peer. -/
theorem Deletes.cons {e : Text × NodeInfo} {b₁ : Backend} {r : Read} {rs : List Read}
    {cs₁ cs : Answered} (h : Deletes mode gone l b₁ o rs cs) (hr : r.key = mode.recordKey e.1)
    (hcs : ∀ c ∈ cs₁, removes c.1 = true → mode.removesFor e.2 r.output c.1)
    (hkept : ∀ name, b.cached name = true → name ≠ e.1 → b₁.cached name = true)
    (htorn : gone ∨ mode.told r.output = [] ∨ cs₁ = [] ∧ b₁ = b) :
    Deletes mode gone (e :: l) b o (r :: rs) (cs₁ ++ cs) := by
  constructor
  · intro c hc hrem
    rcases List.mem_append.mp hc with hc | hc
    · refine ⟨e, by simp, r, by simp, hr, hcs c hc hrem, ?_⟩
      rcases htorn with hg | ht | ⟨hnil, -⟩
      · exact .inl hg
      · exact .inr ht
      · simp [hnil] at hc
    · obtain ⟨e', he', r', hr', h'⟩ := h.removed c hc hrem
      exact ⟨e', List.mem_cons_of_mem _ he', r', List.mem_cons_of_mem _ hr', h'⟩
  · intro b' ho
    obtain ⟨hn, hd⟩ := h.dropped b' ho
    refine ⟨hn, ?_⟩
    intro name hc hc'
    by_cases h₁ : b₁.cached name = true
    · obtain ⟨r', hr', h'⟩ := hd name h₁ hc'
      exact ⟨r', List.mem_cons_of_mem _ hr', h'⟩
    · have hname : name = e.1 := by
        by_contra hne
        exact h₁ (hkept name hc hne)
      refine ⟨r, by simp, hname ▸ hr, ?_⟩
      rcases htorn with hg | ht | ⟨-, hb⟩
      · exact .inl hg
      · exact .inr ht
      · exact absurd (hb ▸ hc) h₁

/-- A peer that stays. -/
theorem Deletes.pass {e : Text × NodeInfo} {r : Read} {rs : List Read} {cs : Answered}
    (h : Deletes mode gone l b o rs cs) (hr : r.key = mode.recordKey e.1) :
    Deletes mode gone (e :: l) b o (r :: rs) cs := by
  have hcs : ∀ c ∈ ([] : Answered), removes c.1 = true → mode.removesFor e.2 r.output c.1 := by
    simp
  exact h.cons hr hcs (fun n hc _ => hc) (.inr (.inr ⟨rfl, rfl⟩))

theorem issues_delNodes_hostGw (cur : Text) (l : NodeMap) {b : Backend}
    (hb : b.nic.netlink = true) :
    Issues (HostGw.delNodes cur l b) (Deletes .hostGw (cur = []) l b) := by
  induction l generalizing b with
  | nil => exact issues_pure (Deletes.nil hb)
  | cons e l ih =>
      obtain ⟨name, info⟩ := e
      simp only [HostGw.delNodes, Program.bind_eq]
      apply issues_getSubnet
      intro r hr ret
      split_ifs with hgone
      · have htorn : ∀ (cs : Answered) (b₁ : Backend),
            cur = [] ∨ Mode.hostGw.told r.output = [] ∨ cs = [] ∧ b₁ = b :=
          fun _ _ => hgone.imp_right .inl
        apply issues_edit (issues_delEntry hb (by exact hb))
        intro ret cs hn hcs _
        have hfor : ∀ c ∈ cs, removes c.1 = true → Mode.hostGw.removesFor info r.output c.1 := by
          intro c hc hrem
          rcases hcs c hc with h | h
          · simp [h, removes] at hrem
          · exact ⟨_, h⟩
        split_ifs
        · apply (ih (b := ({ b with nic := ret.2 } : Backend).erase name) hn).mono
          intro o rs cs' h
          apply h.cons hr hfor _ (htorn _ _)
          intro n hc hne
          exact (Backend.cached_erase ..).mpr ⟨hc, hne⟩
        · apply (ih (b := { b with nic := ret.2 }) hn).mono
          intro o rs cs' h
          apply h.cons hr hfor _ (htorn _ _)
          exact fun n hc _ => hc
      · apply (ih hb).mono
        intro o rs cs h
        exact h.pass hr

theorem issues_delPeer (name : Text) (info : NodeInfo) (vtep : Text × Text) {b : Backend}
    (hb : b.nic.netlink = true) :
    Issues (Vxlan.delPeer name info vtep b) fun o rs cs => rs = [] ∧
      (∀ c ∈ cs, removes c.1 = true → ∀ record, parseVtep record = .ok vtep →
        Mode.vxlan.removesFor info record c.1) ∧
      ∃ nic : Nic, nic.netlink = true ∧ o = .ok (({ b with nic := nic } : Backend).erase name) := by
  simp only [Vxlan.delPeer, Program.bind_eq]
  apply issues_edit (issues_delEntry hb (by exact hb))
  intro ret cs₁ hn hcs₁ _
  apply issues_edit (issues_delEntry hn (by exact hn))
  intro ret cs₂ hn hcs₂ _
  apply issues_edit (issues_delEntry hn (by exact hn))
  intro ret cs₃ hn hcs₃ _
  apply issues_pure
  refine ⟨rfl, ?_, ret.2, hn, rfl⟩
  intro c hc hrem record hrec
  simp only [List.append_nil, List.mem_append] at hc
  rcases hc with hc | hc | hc
  · rcases hcs₁ c hc with h | h
    · simp [h, removes] at hrem
    · exact ⟨_, vtep.1, vtep.2, hrec, .inl h⟩
  · rcases hcs₂ c hc with h | h
    · simp [h, removes] at hrem
    · exact ⟨_, vtep.1, vtep.2, hrec, .inr (.inl h)⟩
  · rcases hcs₃ c hc with h | h
    · simp [h, removes] at hrem
    · exact ⟨_, vtep.1, vtep.2, hrec, .inr (.inr h)⟩

theorem told_of_parseVtep {record : Text} {vtep : Text × Text} (h : parseVtep record = .ok vtep) :
    Mode.vxlan.told record = vtep.1 := by
  unfold parseVtep at h
  change (split separator record).headD [] = vtep.1
  generalize split separator record = parts at h ⊢
  rcases parts with _ | ⟨addr, _ | ⟨mac, rest⟩⟩
  · cases h
    rfl
  · cases h
  · cases h
    rfl

theorem issues_delNodes_vxlan (cur : Text) (l : NodeMap) {b : Backend} (hb : b.nic.netlink = true) :
    Issues (Vxlan.delNodes cur l b) (Deletes .vxlan (cur = []) l b) := by
  induction l generalizing b with
  | nil => exact issues_pure (Deletes.nil hb)
  | cons e l ih =>
      obtain ⟨name, info⟩ := e
      simp only [Vxlan.delNodes, Program.bind_eq]
      apply issues_getVtep
      · intro r hr vtep hvtep
        split_ifs with hgone
        · rw [← told_of_parseVtep hvtep] at hgone
          apply issues_bind (issues_delPeer name info vtep hb)
          · intro b₁ rs₁ cs₁ h
            obtain ⟨rfl, hfor, nic, hn, hb₁⟩ := h
            cases hb₁
            apply (ih (b := ({ b with nic := nic } : Backend).erase name) hn).mono
            intro o rs cs' h
            apply h.cons hr (fun c hc hrem => hfor c hc hrem _ hvtep) _ (hgone.imp_right .inl)
            intro n hc hne
            exact (Backend.cached_erase ..).mpr ⟨hc, hne⟩
          · intro e rs cs h
            obtain ⟨-, -, nic, -, ho⟩ := h
            cases ho
        · apply (ih hb).mono
          intro o rs cs h
          exact h.pass hr
      · intro r hr e
        exact ⟨by simp, fun b' ho => by cases ho⟩

end Deletes

/-! ### The loop over the snapshot -/

/-- One read for each other node. Nothing is removed unless an addition failed. -/
structure Adds (mode : Mode) (current : Text) (l : NodeMap) (b : Backend)
    (o : Except Thrown Backend)
    (rs : List Read) (cs : Answered) : Prop where
  quiet : Unfailing mode cs → ∀ c ∈ cs, removes c.1 = false
  ended : ∀ b', o = .ok b' → b'.nic.netlink = true ∧
    rs.length = (l.filter (·.1 ≠ current)).length ∧
    (∀ name, b.cached name = true → b'.cached name = true) ∧
    ∀ e ∈ b'.nodeCache, e ∈ b.nodeCache ∨ e ∈ l

section Adds
variable {l : NodeMap} {b : Backend} {o : Except Thrown Backend}

theorem Adds.nil (hb : b.nic.netlink = true) : Adds mode current [] b (.ok b) [] [] := by
  refine ⟨by simp, ?_⟩
  intro b' ho
  cases ho
  exact ⟨hb, rfl, fun _ h => h, fun _ h => .inl h⟩

/-- The current node, which is skipped. -/
theorem Adds.skip {info : NodeInfo} {rs : List Read} {cs : Answered}
    (h : Adds mode current l b o rs cs) : Adds mode current ((current, info) :: l) b o rs cs := by
  refine ⟨h.quiet, ?_⟩
  intro b' ho
  obtain ⟨hn, hlen, hkept, hfrom⟩ := h.ended b' ho
  refine ⟨hn, by simpa using hlen, hkept, ?_⟩
  intro e he
  exact (hfrom e he).imp_right (List.mem_cons_of_mem _)

/-- Another node, then the others. `b₁` is the backend after the node. -/
theorem Adds.cons {name : Text} {info : NodeInfo} {b₁ : Backend} {r : Read} {rs : List Read}
    {cs₁ cs : Answered} (h : Adds mode current l b₁ o rs cs) (hne : current ≠ name)
    (hquiet : Unfailing mode cs₁ → ∀ c ∈ cs₁, removes c.1 = false)
    (hb₁ : b₁.nodeCache = b.nodeCache ∨ b₁.nodeCache = b.nodeCache ++ [(name, info)]) :
    Adds mode current ((name, info) :: l) b o (r :: rs) (cs₁ ++ cs) := by
  constructor
  · intro hadd c hc
    rcases List.mem_append.mp hc with hc | hc
    · exact hquiet (fun hm c hc => hadd hm c (List.mem_append_left _ hc)) c hc
    · exact h.quiet (fun hm c hc => hadd hm c (List.mem_append_right _ hc)) c hc
  · intro b' ho
    obtain ⟨hn, hlen, hkept, hfrom⟩ := h.ended b' ho
    refine ⟨hn, ?_, ?_, ?_⟩
    · have hname : name ≠ current := Ne.symm hne
      simp [hname, hlen]
    · intro n hc
      apply hkept n
      rcases hb₁ with hb₁ | hb₁
      · simpa only [Backend.cached, hb₁] using hc
      · simp only [Backend.cached, hb₁, List.any_append, Bool.or_eq_true]
        exact .inl hc
    · intro e he
      rcases hfrom e he with he | he
      · rcases hb₁ with hb₁ | hb₁
        · exact .inl (hb₁ ▸ he)
        · rw [hb₁, List.mem_append, List.mem_singleton] at he
          rcases he with he | he
          · exact .inl he
          · exact .inr (he ▸ List.mem_cons_self ..)
      · exact .inr (List.mem_cons_of_mem _ he)

/-- A node for which nothing is done. -/
theorem Adds.pass {name : Text} {info : NodeInfo} {r : Read} {rs : List Read} {cs : Answered}
    (h : Adds mode current l b o rs cs) (hne : current ≠ name) :
    Adds mode current ((name, info) :: l) b o (r :: rs) cs := by
  have hquiet : ∀ c ∈ ([] : Answered), removes c.1 = false := by simp
  exact h.cons hne (fun _ => hquiet) (.inl rfl)

theorem quiet_of_addition {isExist setEntry : NetlinkCmd} (hi : removes isExist = false)
    (hs : removes setEntry = false) {cs : Answered}
    (h : ∀ c ∈ cs, c.1 = isExist ∨ c.1 = setEntry) : ∀ c ∈ cs, removes c.1 = false := by
  intro c hc
  rcases h c hc with h | h
  · rw [h, hi]
  · rw [h, hs]

theorem issues_addNodes_hostGw (l : NodeMap) {b : Backend} (hb : b.nic.netlink = true) :
    Issues (HostGw.addNodes current l b) (Adds .hostGw current l b) := by
  induction l generalizing b with
  | nil => exact issues_pure (Adds.nil hb)
  | cons e l ih =>
      obtain ⟨name, info⟩ := e
      simp only [HostGw.addNodes, Program.bind_eq]
      split_ifs with hcur
      · subst hcur
        exact (ih hb).mono fun o rs cs h => h.skip
      · apply issues_getSubnet
        intro r hr ret
        split_ifs with hnew
        · apply issues_edit (issues_addEntry hb (by exact hb))
          intro ret cs hn hcs _
          have hquiet := quiet_of_addition (by rfl) (by rfl) hcs
          split_ifs
          · apply (ih (b := ({ b with nic := ret.2 } : Backend).emplace name info) hn).mono
            intro o rs cs' h
            apply h.cons hcur fun _ => hquiet
            exact .inr rfl
          · apply (ih (b := { b with nic := ret.2 }) hn).mono
            intro o rs cs' h
            apply h.cons hcur fun _ => hquiet
            exact .inl rfl
        · apply (ih hb).mono
          intro o rs cs h
          exact h.pass hcur

/-- Entries are only taken back after a failed addition. -/
theorem issues_addPeer (name : Text) (info : NodeInfo) (vtep : Text × Text) {b : Backend}
    (hb : b.nic.netlink = true) :
    Issues (Vxlan.addPeer name info vtep b) fun o rs cs => rs = [] ∧
      (Unfailing .vxlan cs → ∀ c ∈ cs, removes c.1 = false) ∧
      ∃ b₁, o = .ok b₁ ∧ b₁.nic.netlink = true ∧
        (b₁.nodeCache = b.nodeCache ∨ b₁.nodeCache = b.nodeCache ++ [(name, info)]) := by
  simp only [Vxlan.addPeer, Program.bind_eq]
  apply issues_edit (issues_addEntry hb (by exact hb))
  intro ret cs₁ hn hcs₁ _
  have hquiet₁ := quiet_of_addition (by rfl) (by rfl) hcs₁
  split_ifs with hroute
  · apply issues_edit (issues_addEntry hn (by exact hn))
    intro ret cs₂ hn hcs₂ hneigh
    have hquiet₂ := quiet_of_addition (by rfl) (by rfl) hcs₂
    split_ifs with hret
    · apply issues_edit (issues_addEntry hn (by exact hn))
      intro ret cs₃ hn hcs₃ hfdb
      have hquiet₃ := quiet_of_addition (by rfl) (by rfl) hcs₃
      split_ifs with hret
      · apply issues_pure
        refine ⟨rfl, fun _ => ?_, _, rfl, hn, .inr rfl⟩
        simp only [List.append_nil, List.forall_mem_append]
        exact ⟨hquiet₁, hquiet₂, hquiet₃⟩
      · apply issues_edit (issues_delEntry hn (by exact hn))
        intro ret₄ cs₄ hn _ _
        apply issues_edit (issues_delEntry hn (by exact hn))
        intro ret₅ cs₅ hn _ _
        apply issues_pure
        refine ⟨rfl, fun hadd => ?_, _, rfl, hn, .inl rfl⟩
        have hmem := hfdb (by simpa using hret)
        have hfailed := hadd rfl _ (List.mem_append_right _ (List.mem_append_right _
          (List.mem_append_left _ hmem))) rfl
        cases hfailed
    · apply issues_edit (issues_delEntry hn (by exact hn))
      intro ret₃ cs₃ hn _ _
      apply issues_pure
      refine ⟨rfl, fun hadd => ?_, _, rfl, hn, .inl rfl⟩
      have hmem := hneigh (by simpa using hret)
      have hfailed := hadd rfl _ (List.mem_append_right _ (List.mem_append_left _ hmem)) rfl
      cases hfailed
  · apply issues_pure
    refine ⟨rfl, fun _ => by simpa using hquiet₁, _, rfl, hn, .inl rfl⟩

theorem issues_addNodes_vxlan (l : NodeMap) {b : Backend} (hb : b.nic.netlink = true) :
    Issues (Vxlan.addNodes current l b) (Adds .vxlan current l b) := by
  induction l generalizing b with
  | nil => exact issues_pure (Adds.nil hb)
  | cons e l ih =>
      obtain ⟨name, info⟩ := e
      simp only [Vxlan.addNodes, Program.bind_eq]
      split_ifs with hcur
      · subst hcur
        exact (ih hb).mono fun o rs cs h => h.skip
      · apply issues_getVtep
        · intro r hr vtep hvtep
          split_ifs with hnew
          · apply issues_bind (issues_addPeer name info vtep hb)
            · intro b₁ rs₁ cs₁ h
              obtain ⟨rfl, hquiet, b₂, hb₂, hn, hcache⟩ := h
              cases hb₂
              apply (ih hn).mono
              intro o rs cs' h
              exact h.cons hcur hquiet hcache
            · intro e rs cs h
              obtain ⟨-, -, b₁, ho, -⟩ := h
              cases ho
          · apply (ih hb).mono
            intro o rs cs h
            exact h.pass hcur
        · intro r hr e
          exact ⟨by simp, fun b' ho => by cases ho⟩

end Adds

/-! ### One poll -/

/-- What a poll adds to the logs after its first read, cut before the deletion
loop: `l` is what that loop visits and `b₁` the backend it starts from. -/
structure Phases (mode : Mode) (current : Text) (cluster : NodeMap) (b : Backend) (own : Read)
    (o : Except Thrown Backend) (skipped dels : List Read) (added deleted : Answered) (l : NodeMap)
    (b₁ : Backend) : Prop where
  quiet : Unfailing mode added → ∀ c ∈ added, removes c.1 = false
  deletion : ∀ r ∈ dels, r ∈ deletionReads mode current cluster (own :: (skipped ++ dels))
  visited : ∀ e ∈ l, e ∈ b.nodeCache ∨ e ∈ cluster
  kept : ∀ name, b.cached name = true → b₁.cached name = true
  deletes : Deletes mode (mode.told own.output = []) l b₁ o dels deleted

/-- The logs of a poll after its first read. -/
def LoopsEnd (mode : Mode) (current : Text) (cluster : NodeMap) (b : Backend) (own : Read)
    (o : Except Thrown Backend) (rs : List Read) (cs : Answered) : Prop :=
  ∃ skipped dels added deleted l b₁, rs = skipped ++ dels ∧ cs = added ++ deleted ∧
    Phases mode current cluster b own o skipped dels added deleted l b₁

section Polls
variable {cluster : NodeMap} {b : Backend} {own : Read} {addLoop : OhnoProgram Backend}
variable {delLoop : Backend → OhnoProgram Backend}

theorem LoopsEnd.error {e : Thrown} {rs : List Read} {cs : Answered}
    (h : Adds mode current cluster b (.error e) rs cs) :
    LoopsEnd mode current cluster b own (.error e) rs cs := by
  refine ⟨rs, [], cs, [], [], b, by simp, by simp, h.quiet, by simp, by simp, fun _ h => h, ?_⟩
  exact ⟨by simp, fun b' ho => by cases ho⟩

/-- The own record told nothing, and the first loop is skipped. -/
theorem issues_delLoop (mode : Mode) (current : Text) (cluster : NodeMap) (o : VisitOrder)
    (hown : mode.told own.output = [])
    (hdel : Issues (delLoop b)
      (Deletes mode (mode.told own.output = []) (o.order b.nodeCache) b)) :
    Issues (delLoop b) (LoopsEnd mode current cluster b own) := by
  apply hdel.mono
  intro out rs cs h
  refine ⟨[], rs, [], cs, _, b, rfl, rfl, by simp, ?_, ?_, fun _ h => h, h⟩
  · intro r hr
    simp only [deletionReads, if_pos hown]
    exact hr
  · intro e he
    exact .inl ((o.perm _).mem_iff.mp he)

theorem issues_loops (mode : Mode) (current : Text) (o : VisitOrder)
    (hown : mode.told own.output ≠ [])
    (hadd : Issues addLoop (Adds mode current cluster b))
    (hdel : ∀ b₁ : Backend, b₁.nic.netlink = true → Issues (delLoop b₁)
      (Deletes mode (mode.told own.output = []) (o.order b₁.nodeCache) b₁)) :
    Issues (addLoop.bind delLoop) (LoopsEnd mode current cluster b own) := by
  apply issues_bind hadd
  · intro b₁ rs cs h
    obtain ⟨hn, hlen, hkept, hfrom⟩ := h.ended b₁ rfl
    apply (hdel b₁ hn).mono
    intro out rs' cs' h'
    refine ⟨rs, rs', cs, cs', _, b₁, rfl, rfl, h.quiet, ?_, ?_, hkept, h'⟩
    · intro r hr
      simp only [deletionReads, if_neg hown, ← hlen, List.drop_left]
      exact hr
    · intro e he
      exact hfrom e ((o.perm _).mem_iff.mp he)
  · intro e rs cs h
    exact .error h

end Polls

/-- The logs of a poll. A first record that ends the process leaves one read. -/
def PollEnd (mode : Mode) (current : Text) (cluster : NodeMap) (b : Backend)
    (o : Except Thrown Backend) (rs : List Read) (cs : Answered) : Prop :=
  ∃ own rest, rs = own :: rest ∧ own.key = mode.recordKey current ∧
    (LoopsEnd mode current cluster b own o rest cs ∨ rest = [] ∧ cs = [] ∧ ∃ e, o = .error e)

theorem issues_handler_hostGw (o : VisitOrder) (cluster : NodeMap) {b : Backend}
    (hb : b.nic.netlink = true) :
    Issues (HostGw.eventHandler o current cluster b) (PollEnd .hostGw current cluster b) := by
  simp only [HostGw.eventHandler, Program.bind_eq]
  apply issues_getSubnet
  intro own hown ret
  have hend : ∀ out rs cs, LoopsEnd .hostGw current cluster b own out rs cs →
      PollEnd .hostGw current cluster b out (own :: rs) cs :=
    fun out rs cs h => ⟨own, rs, rfl, hown, .inl h⟩
  split_ifs with hcur
  · have hloops := issues_loops .hostGw current o hcur (issues_addNodes_hostGw cluster hb)
      fun b₁ hn => issues_delNodes_hostGw own.output (o.order b₁.nodeCache) hn
    exact hloops.mono hend
  · have hloop := issues_delLoop .hostGw current cluster o (not_not.mp hcur)
      (issues_delNodes_hostGw own.output (o.order b.nodeCache) hb)
    exact hloop.mono hend

theorem issues_handler_vxlan (o : VisitOrder) (cluster : NodeMap) {b : Backend}
    (hb : b.nic.netlink = true) :
    Issues (Vxlan.eventHandler o current cluster b) (PollEnd .vxlan current cluster b) := by
  simp only [Vxlan.eventHandler, Program.bind_eq]
  apply issues_getVtep
  · intro own hown vtep hvtep
    have htold := told_of_parseVtep hvtep
    have hend : ∀ out rs cs, LoopsEnd .vxlan current cluster b own out rs cs →
        PollEnd .vxlan current cluster b out (own :: rs) cs :=
      fun out rs cs h => ⟨own, rs, rfl, hown, .inl h⟩
    rw [← htold]
    split_ifs with hcur
    · have hloops := issues_loops .vxlan current o hcur (issues_addNodes_vxlan cluster hb)
        fun b₁ hn => issues_delNodes_vxlan _ (o.order b₁.nodeCache) hn
      exact hloops.mono hend
    · have hloop := issues_delLoop .vxlan current cluster o (not_not.mp hcur)
        (issues_delNodes_vxlan _ (o.order b.nodeCache) hb)
      exact hloop.mono hend
  · intro own hown e
    exact ⟨own, [], rfl, hown, .inr ⟨rfl, rfl, e, rfl⟩⟩

theorem issues_handler (mode : Mode) (o : VisitOrder) (cluster : NodeMap) {b : Backend}
    (hb : b.nic.netlink = true) :
    Issues (mode.handler o current cluster b) (PollEnd mode current cluster b) := by
  cases mode with
  | hostGw => exact issues_handler_hostGw o cluster hb
  | vxlan => exact issues_handler_vxlan o cluster hb

/-- A read that decided on a deletion found no record, or the first read did. -/
theorem Poll.Reliable.absent {p : Poll} (hp : p.Reliable mode current) {own r : Read}
    {rest : List Read} (hreads : p.reads = own :: rest) (hown : own.key = mode.recordKey current)
    (hr : r ∈ deletionReads mode current p.cluster p.reads) (hmem : r ∈ p.reads) {name : Text}
    (hkey : r.key = mode.recordKey name)
    (htorn : mode.told own.output = [] ∨ mode.told r.output = []) :
    p.Absent mode current ∨ p.Absent mode name := by
  by_contra hnot
  have hownIn : own ∈ p.reads := by simp [hreads]
  have hown' : own.stored ≠ [] := fun h => hnot (.inl ⟨own, hownIn, hown, h⟩)
  have hr' : r.stored ≠ [] := fun h => hnot (.inr ⟨r, hmem, hkey, h⟩)
  obtain ⟨hok, hok'⟩ := hp.reads own (by simp [hreads]) r hr hown' hr'
  rcases htorn with h | h
  · apply hp.records own hownIn hown'
    simpa only [Read.output, hok, if_true] using h
  · apply hp.records r hmem hr'
    simpa only [Read.output, hok', if_true] using h

theorem netlink_of_phases {cluster : NodeMap} {b : Backend} {o : Except Thrown Backend}
    {rs : List Read} {cs : Answered} (h : PollEnd mode current cluster b o rs cs) {b' : Backend}
    (ho : o = .ok b') : b'.nic.netlink = true := by
  obtain ⟨own, rest, -, -, ⟨_, _, _, _, _, _, -, -, hph⟩ | ⟨-, -, e, he⟩⟩ := h
  · exact (hph.deletes.dropped b' ho).1
  · rw [ho] at he
    cases he

theorem justified_of_end {p : Poll}
    (h : PollEnd mode current p.cluster p.before p.after p.reads p.commands)
    (hp : p.Reliable mode current) : p.Justified mode current := by
  obtain ⟨own, rest, hreads, hown, hend⟩ := h
  rcases hend with ⟨skipped, dels, added, deleted, l, b₁, rfl, hcs, hph⟩ | ⟨-, hcs, e, ho⟩
  · have hdels : ∀ r ∈ dels, r ∈ p.reads ∧ r ∈ deletionReads mode current p.cluster p.reads := by
      intro r hr
      rw [hreads]
      exact ⟨by simp [hr], hph.deletion r hr⟩
    constructor
    · intro c hc hrem
      rw [hcs, List.mem_append] at hc
      rcases hc with hc | hc
      · have hunf : Unfailing mode added := by
          intro hm c hc
          exact hp.additions hm c (hcs ▸ List.mem_append_left _ hc)
        have hquiet := hph.quiet hunf _ hc
        rw [hrem] at hquiet
        cases hquiet
      · obtain ⟨e, he, r, hr, hkey, hfor, htorn⟩ := hph.deletes.removed _ hc hrem
        obtain ⟨hmem, hdel⟩ := hdels r hr
        exact ⟨e, hph.visited e he, ⟨r, hmem, hkey, hfor⟩,
          hp.absent hreads hown hdel hmem hkey htorn⟩
    · intro b' ho name hc hc'
      obtain ⟨r, hr, hkey, htorn⟩ := (hph.deletes.dropped b' ho).2 name (hph.kept name hc) hc'
      obtain ⟨hmem, hdel⟩ := hdels r hr
      exact hp.absent hreads hown hdel hmem hkey htorn
  · constructor
    · intro c hc
      simp [hcs] at hc
    · intro b' ho'
      rw [ho] at ho'
      cases ho'

/-! ### Runs -/

theorem run_netlink {polls : List Poll} {o : Except Thrown Backend} (h : Run mode current polls o)
    {b : Backend} (ho : o = .ok b) : b.nic.netlink = true := by
  induction h generalizing b with
  | start =>
      cases ho
      rfl
  | poll o past now ih =>
      have hend := (issues_handler mode o _ (ih rfl)).exec now
      exact netlink_of_phases hend ho

theorem mem_of_mem_deletionReads {cluster : NodeMap} {rs : List Read} {r : Read}
    (h : r ∈ deletionReads mode current cluster rs) : r ∈ rs := by
  cases rs with
  | nil => exact h
  | cons own rest =>
      apply List.mem_cons_of_mem
      simp only [deletionReads] at h
      split_ifs at h
      · exact h
      · exact List.mem_of_mem_drop h

theorem Poll.Reliable.of_no_failure {p : Poll} (h : ∀ r ∈ p.reads, r.ok = true) :
    p.Reliable .hostGw current where
  reads own hown r hr _ _ :=
    ⟨h own (List.mem_of_mem_head? hown), h r (mem_of_mem_deletionReads hr)⟩
  records _ _ hne := hne
  additions hm := by cases hm

/-- In a run of reliable polls nothing is torn down while both records are stored. -/
theorem torn_down_only_if_absent {polls : List Poll} {o : Except Thrown Backend}
    (h : Run mode current polls o) (hp : ∀ p ∈ polls, p.Reliable mode current) :
    ∀ p ∈ polls, p.Justified mode current := by
  induction h with
  | start => simp
  | @poll polls p o past now ih =>
      intro q hq
      rcases List.mem_append.mp hq with hq | hq
      · exact ih (fun q hq => hp q (List.mem_append_left _ hq)) q hq
      · rw [List.mem_singleton.mp hq]
        have hend := (issues_handler mode o p.cluster (run_netlink past rfl)).exec now
        exact justified_of_end hend (hp p (by simp))

/-! Two polls of node a. The first one adds the route of node b. -/

/-- The store stays as it is; the reads with the given numbers fail. -/
def replay (s : Store) (fails : List ℕ) : EtcdCmd → List Read → Reply × List Read
  | .get k, log =>
      let ok := decide (log.length ∉ fails)
      (⟨ok, if ok then s.shown k else []⟩, log ++ [⟨k, s, ok⟩])
  | _, log => (⟨true, []⟩, log)

/-- Changes succeed, and queries are answered by `known`. -/
def answer (known : Bool) (c : NetlinkCmd) (log : Answered) : Bool × Answered :=
  (adds c || removes c || known, log ++ [(c, adds c || removes c || known)])

def pollA (before : Backend) (s : Store) (fails : List ℕ) (known : Bool) : Poll :=
  let cluster := [(['b'], nodeB)]
  let w := (HostGw.eventHandler .asListed ['a'] cluster before).run
    (serveBy (replay s fails) (answer known)) ([], [])
  ⟨before, cluster, w.2.1, w.2.2, w.1⟩

theorem run_pollA {polls : List Poll} {before : Backend} (s : Store) (fails : List ℕ) (known : Bool)
    (past : Run .hostGw ['a'] polls (.ok before)) :
    Run .hostGw ['a'] (polls ++ [pollA before s fails known])
      (pollA before s fails known).after := by
  refine .poll (p := pollA before s fails known) .asListed past ?_
  apply Program.exec_run
  intro c w
  apply serveBy_serve
  · intro c log
    cases c with
    | get k => exact ⟨s, rfl, rfl⟩
    | put k v => rfl
    | del k => rfl
  · exact fun c log => rfl

/-- Node b cached, with its route. -/
def backendA : Backend :=
  { nodeCache := [(['b'], nodeB)],
    nic := { netlink := true, routes := [⟨nodeB.podCidr, nodeB.internalIp, []⟩] } }

theorem first_pollA : (pollA {} subnetsStored [] false).after = .ok backendA := by decide +kernel

/-- The own record is stored, but the read of it fails: node b is dropped. -/
theorem failed_read_drops_peer :
    Run .hostGw ['a'] ([] ++ [pollA {} subnetsStored [] false] ++
        [pollA backendA subnetsStored [0] true]) (.ok { nic := { netlink := true } }) ∧
      ¬ (pollA backendA subnetsStored [0] true).Justified .hostGw ['a'] := by
  have hafter : (pollA backendA subnetsStored [0] true).after =
      .ok { nic := { netlink := true } } := by decide +kernel
  have hfirst := run_pollA subnetsStored [] false .start
  rw [first_pollA] at hfirst
  constructor
  · rw [← hafter]
    exact run_pollA subnetsStored [0] true hfirst
  · intro h
    have habsent := h.dropped _ hafter ['b'] (by decide) (by decide)
    revert habsent
    unfold Poll.Absent
    decide +kernel

/-- The record of node b is gone, and no read fails. -/
theorem torn_down_only_if_absent_gone :
    (pollA backendA (subnetsStored.erase (subnetKey ['b'])) [] true).Justified .hostGw ['a'] := by
  have hfirst := run_pollA subnetsStored [] false .start
  rw [first_pollA] at hfirst
  have hrun := run_pollA (subnetsStored.erase (subnetKey ['b'])) [] true hfirst
  refine torn_down_only_if_absent hrun ?_ _ (by simp)
  have hreliable : ∀ p ∈ [pollA {} subnetsStored [] false,
      pollA backendA (subnetsStored.erase (subnetKey ['b'])) [] true],
      ∀ r ∈ p.reads, r.ok = true := by decide +kernel
  exact fun p hp => .of_no_failure (hreliable p (by simpa using hp))

end Ohno.TransientFailures
