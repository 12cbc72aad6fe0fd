import Ohno.RestoredCommands

/-!
# What the plugin does to restored interfaces

A call touches the root namespace for a restored interface exactly if the
interface was not let in and something recorded for it is missing, or it is the
one that is deleted.
-/
namespace Ohno.RestoredInterfaces
open CommandPrograms DelimitedLists AddressText EtcdClientShell Subnets Ipam Netlink Nics Storage
open CniPlugin Conducts RestoredNode NodeHistories CommandTraces RestoredCommands

/-! ### Restoring the node -/

abbrev NotedEntry := (Tag × Cmd) × Reply

/-- The commands that restore an interface. -/
def restoring (pod nic : Text) (L : List NotedEntry) : List Entry :=
  entriesOf (some (.restoring, pod, nic)) L

/-- The commands of ADD or DEL on a restored interface. -/
def handling (pod nic : Text) (L : List NotedEntry) : List Entry :=
  entriesOf (some (.handling, pod, nic)) L

section Parts
variable {cni : Cni} {pod nic : Text} {L : List NotedEntry}

theorem restoring_append (L L' : List NotedEntry) :
    restoring pod nic (L ++ L') = restoring pod nic L ++ restoring pod nic L' :=
  entriesOf_append L L'

theorem handling_append (L L' : List NotedEntry) :
    handling pod nic (L ++ L') = handling pod nic L ++ handling pod nic L' :=
  entriesOf_append L L'

/-- Restoring is fair to each interface and goes by its records, and nothing is
changed or deleted later. -/
structure Settled (cni : Cni) (L : List NotedEntry) : Prop where
  fair : ∀ pod nic inside, Fair inside (restoring pod nic L)
  asks : ∀ pod nic, ∀ x ∈ restoring pod nic L, Asks cni pod nic (restoring pod nic L) x.1
  clean : ∀ pod nic, Clean (handling pod nic L)
  keeps : ∀ pod nic, ¬ Deletes (handling pod nic L)

theorem Settled.append {L' : List NotedEntry} (h : Settled cni L) (h' : Settled cni L') :
    Settled cni (L ++ L') := by
  constructor
  · intro pod nic inside
    rw [restoring_append]
    exact (h.fair pod nic inside).append (h'.fair pod nic _)
  · intro pod nic x hx n hn hl
    rw [restoring_append] at hx ⊢
    rcases List.mem_append.mp hx with hx | hx
    · exact (h.asks pod nic x hx n hn hl).mono (List.subset_append_left _ _)
    · exact (h'.asks pod nic x hx n hn hl).mono (List.subset_append_right _ _)
  · intro pod nic
    rw [handling_append, clean_append]
    exact ⟨h.clean pod nic, h'.clean pod nic⟩
  · intro pod nic
    rw [handling_append, deletes_append]
    exact fun hd => hd.elim (h.keeps pod nic) (h'.keeps pod nic)

/-- Nothing is done to a restored interface. -/
def Silence (L : List NotedEntry) : Prop := ∀ t, t ≠ none → entriesOf t L = []

theorem silence_nil : Silence [] := fun _ _ => rfl

theorem Silence.restoring (h : Silence L) : restoring pod nic L = [] := h _ (by simp)

theorem Silence.handling (h : Silence L) : handling pod nic L = [] := h _ (by simp)

theorem Silence.append {L' : List NotedEntry} (h : Silence L) (h' : Silence L') :
    Silence (L ++ L') := by
  intro t ht
  rw [entriesOf_append, h t ht, h' t ht]
  rfl

theorem Silence.settled (h : Silence L) : Settled cni L := by
  constructor
  · intro pod nic inside
    rw [h.restoring]
    exact fair_nil
  · intro pod nic x hx
    rw [h.restoring] at hx
    cases hx
  · intro pod nic
    rw [h.handling]
    exact clean_nil
  · intro pod nic
    rw [h.handling]
    exact not_deletes_nil

end Parts

/-- Every path is settled, and `P` holds of the result. -/
structure SettlesAll (cni : Cni) {A : Type} (p : NotedProgram A) (P : A → List NotedEntry → Prop) :
    Prop where
  marks : Marks p fun o L => Settled cni L ∧ ∀ a, o = .ok a → P a L

namespace SettlesAll
variable {cni : Cni} {A B : Type} {p : NotedProgram A} {f : A → NotedProgram B}
variable {P : A → List NotedEntry → Prop} {Q : B → List NotedEntry → Prop}

theorem pure {a : A} (h : P a []) : SettlesAll cni (.pure a) P := by
  constructor
  apply Marks.pure
  refine ⟨silence_nil.settled, fun a' he => ?_⟩
  cases he
  exact h

theorem mono {P' : A → List NotedEntry → Prop} (hp : SettlesAll cni p P)
    (h : ∀ a L, P a L → P' a L) : SettlesAll cni p P' :=
  ⟨hp.marks.mono fun _ L hL => ⟨hL.1, fun a he => h a L (hL.2 a he)⟩⟩

theorem bind (hp : SettlesAll cni p P)
    (hf : ∀ a L, P a L → SettlesAll cni (f a) fun b L' => Q b (L ++ L')) :
    SettlesAll cni (p.bind f) Q := by
  constructor
  apply Marks.bind hp.marks
  · intro a L hL
    apply (hf a L (hL.2 a rfl)).marks.mono
    intro o L' hL'
    exact ⟨hL.1.append hL'.1, hL'.2⟩
  · intro e L hL
    exact ⟨hL.1, fun b he => by cases he⟩

/-- What is not done to a restored interface. -/
theorem untagged (p : OhnoProgram A) : SettlesAll cni (tag none p) fun _ L => Silence L := by
  have hp : Marks p fun _ _ => True := ⟨fun _ _ _ => trivial⟩
  constructor
  apply hp.tag.mono
  intro o L hL
  have hsilence : Silence L := hL.2
  exact ⟨hsilence.settled, fun _ _ => hsilence⟩

theorem ofExcept {x : Except Thrown A} :
    SettlesAll cni (Program.ofExcept x) fun a L => x = .ok a ∧ L = [] := by
  cases x with
  | error e =>
      constructor
      apply Marks.throw
      exact ⟨silence_nil.settled, fun a he => by cases he⟩
  | ok a => exact pure ⟨rfl, rfl⟩

end SettlesAll

section Maps
variable {V : Type} {m : List (Text × V)} {k' : Text} {w : V}

theorem lookup_emplace_of_some (h : m.lookup k' = some w) (k : Text) (v : V) :
    (emplace m k v).lookup k' = some w := by
  rw [lookup_emplace]
  split_ifs with hk
  · rw [← hk, h]
    rfl
  · exact h

theorem lookup_emplace_of_none (h : m.lookup k' = none) (k : Text) (v : V) :
    (emplace m k v).lookup k' = if k' = k then some v else none := by
  rw [lookup_emplace]
  split_ifs with hk
  · rw [← hk, h]
    rfl
  · exact h

end Maps

/-- The interfaces that a pod object has were restored by commands of `L`. -/
def Keeps (pod : Text) (obj : Netns) (L : List NotedEntry) : Prop :=
  ∀ nic iface, obj.nics.lookup nic = some iface → Restored nic iface (restoring pod nic L)

section Node
variable {cni : Cni}

theorem settles_restoreNic_noted {pod : Text} (hp : pod ≠ host) (nic : Text)
    (gateway : Option Addr) :
    SettlesAll cni (tag (nicTag .restoring pod nic) (cni.restoreNic pod nic gateway)) fun ret L =>
      (∀ p i, (p, i) ≠ (pod, nic) → restoring p i L = []) ∧
      (ret.1 = none → moves (restoring pod nic L) = []) ∧
      ∀ obj, ret.1 = some obj → Restored nic obj (restoring pod nic L) := by
  constructor
  rw [nicTag, if_neg hp]
  have hmarks : Marks (cni.restoreNic pod nic gateway) fun o l => ∀ inside, Fair inside l ∧
      ∀ ret, o = .ok ret → (ret.1 = none → moves l = []) ∧
        ∀ obj, ret.1 = some obj → Restored nic obj l :=
    ⟨fun o l h inside => (settles_restoreNic cni hp gateway).marks.path o l h⟩
  have hground : Grounded cni pod nic [] (cni.restoreNic pod nic gateway) fun _ _ => True :=
    grounded_restoreNic hp gateway
  apply (hmarks.and hground.marks).tag.mono
  intro o L hL
  have hnil : ∀ p i, (p, i) ≠ (pod, nic) → restoring p i L = [] := by
    intro p i hpi
    exact hL.2 _ fun he => hpi (Prod.mk.inj (Option.some.inj he)).2
  have hhandling : ∀ p i, handling p i L = [] := fun p i => hL.2 _ (by simp)
  obtain ⟨⟨hsettles, hgrounded⟩, hother⟩ := hL
  refine ⟨⟨fun p i inside => ?_, fun p i x hx n hn hl => ?_, fun p i => ?_, fun p i => ?_⟩,
    fun ret he => ⟨hnil, (hsettles false).2 ret he⟩⟩
  · by_cases hpi : (p, i) = (pod, nic)
    · cases hpi
      exact (hsettles inside).1
    · rw [hnil p i hpi]
      exact fair_nil
  · by_cases hpi : (p, i) = (pod, nic)
    · cases hpi
      obtain ⟨c, r⟩ := x
      cases hn
      exact hgrounded.1 n r hx hl
    · rw [hnil p i hpi] at hx
      cases hx
  · rw [hhandling]
    exact clean_nil
  · rw [hhandling]
    exact not_deletes_nil

theorem Keeps.append {pod : Text} {obj : Netns} {L : List NotedEntry} (h : Keeps pod obj L)
    (L' : List NotedEntry) : Keeps pod obj (L ++ L') := by
  intro nic iface hl
  rw [restoring_append]
  exact (h nic iface hl).append _

theorem Keeps.after {pod : Text} {obj : Netns} {L L' : List NotedEntry} (h : Keeps pod obj L)
    (h' : ∀ nic, restoring pod nic L' = []) : Keeps pod obj (L' ++ L) := by
  intro nic iface hl
  rw [restoring_append, h' nic, List.nil_append]
  exact h nic iface hl

/-- The first interface of a name stays, so its first commands are those that count. -/
theorem settles_restoreNicsNoted {pod : Text} (hp : pod ≠ host) (nics : List Text) (obj : Netns)
    (gateway : Option Addr) :
    SettlesAll cni (restoreNicsNoted cni pod nics obj gateway) fun ret L =>
      (∀ p i, p ≠ pod → restoring p i L = []) ∧
      ∀ i iface, ret.1.nics.lookup i = some iface → obj.nics.lookup i = some iface ∨
        obj.nics.lookup i = none ∧ Restored i iface (restoring pod i L) := by
  induction nics generalizing obj gateway with
  | nil => exact SettlesAll.pure ⟨fun _ _ _ => rfl, fun i iface hl => .inl hl⟩
  | cons nic rest ih =>
      apply SettlesAll.bind (settles_restoreNic_noted hp nic gateway)
      intro ret L hL
      obtain ⟨hother, hnone, hsome⟩ := hL
      have hpods : ∀ p i, p ≠ pod → restoring p i L = [] := by
        intro p i hne
        exact hother p i fun he => hne (Prod.mk.inj he).1
      have hnics : ∀ i, i ≠ nic → restoring pod i L = [] := by
        intro i hne
        exact hother pod i fun he => hne (Prod.mk.inj he).2
      cases hret : ret.1 with
      | none =>
          apply (ih obj ret.2).mono
          intro ret' L' hL'
          refine ⟨fun p i hne => ?_, fun i iface hl => ?_⟩
          · rw [restoring_append, hpods p i hne, hL'.1 p i hne]
            rfl
          · rcases hL'.2 i iface hl with hl | ⟨hl, hrest⟩
            · exact .inl hl
            · refine .inr ⟨hl, ?_⟩
              rw [restoring_append]
              by_cases hi : i = nic
              · rw [hi] at hrest ⊢
                exact hrest.after (hnone hret)
              · rw [hnics i hi]
                exact hrest
      | some nicObj =>
          have hobj := hsome nicObj hret
          apply (ih (obj.addNic nicObj) ret.2).mono
          intro ret' L' hL'
          refine ⟨fun p i hne => ?_, fun i iface hl => ?_⟩
          · rw [restoring_append, hpods p i hne, hL'.1 p i hne]
            rfl
          · rw [restoring_append]
            have hl := hL'.2 i iface hl
            rw [Netns.addNic, hobj.name] at hl
            cases hi : obj.nics.lookup i with
            | some old =>
                rw [lookup_emplace_of_some hi] at hl
                exact .inl (hl.resolve_right fun h => Option.some_ne_none _ h.1)
            | none =>
                rw [lookup_emplace_of_none hi] at hl
                refine .inr ⟨rfl, ?_⟩
                split_ifs at hl with hn
                · have he := hl.resolve_right fun h => h.1
                  rw [← Option.some.inj he, hn]
                  exact hobj.append _
                · have hrest := hl.resolve_left id
                  rw [hnics i hn]
                  exact hrest.2

theorem settles_restoreNicsNoted_host (nics : List Text) (obj : Netns) (gateway : Option Addr) :
    SettlesAll cni (restoreNicsNoted cni host nics obj gateway) fun _ L => Silence L := by
  induction nics generalizing obj gateway with
  | nil => exact SettlesAll.pure silence_nil
  | cons nic rest ih =>
      have htag : nicTag .restoring host nic = none := by simp [nicTag]
      simp only [restoreNicsNoted, htag]
      apply SettlesAll.bind (SettlesAll.untagged _)
      intro ret L hL
      cases ret.1 with
      | none => exact (ih obj ret.2).mono fun _ L' hL' => hL.append hL'
      | some nicObj => exact (ih _ ret.2).mono fun _ L' hL' => hL.append hL'

theorem settles_restorePodsNoted (pods : List Text) (node : Node) (gateway : Option Addr) :
    SettlesAll cni (restorePodsNoted cni pods node gateway) fun ret L =>
      ∀ p, p ≠ host → ∀ obj, ret.1.netns.lookup p = some obj → node.netns.lookup p = some obj ∨
        node.netns.lookup p = none ∧ Keeps p obj L := by
  induction pods generalizing node gateway with
  | nil => exact SettlesAll.pure fun p _ obj hl => .inl hl
  | cons pod rest ih =>
      apply SettlesAll.bind (SettlesAll.untagged _)
      intro nics L₀ hL₀
      have hpod : SettlesAll cni (restoreNicsNoted cni pod nics { name := pod } gateway)
          fun ret L => (∀ p i, p ≠ pod → restoring p i L = []) ∧
            (pod ≠ host → Keeps pod ret.1 L) := by
        by_cases hp : pod = host
        · rw [hp]
          apply (settles_restoreNicsNoted_host nics _ gateway).mono
          intro ret L hL
          exact ⟨fun p i _ => hL.restoring, fun hne => absurd rfl hne⟩
        · apply (settles_restoreNicsNoted hp nics _ gateway).mono
          intro ret L hL
          refine ⟨hL.1, fun _ i iface hl => ?_⟩
          rcases hL.2 i iface hl with hl | ⟨-, hrest⟩
          · cases hl
          · exact hrest
      apply SettlesAll.bind hpod
      intro ret L hL
      apply (ih _ ret.2).mono
      intro ret' L' hL' p hp obj hl
      have hl := hL' p hp obj hl
      have hnil : ∀ i, restoring p i L₀ = [] := fun i => hL₀.restoring
      cases hold : node.netns.lookup p with
      | some old =>
          rw [lookup_emplace_of_some hold] at hl
          exact .inl (hl.resolve_right fun h => Option.some_ne_none _ h.1)
      | none =>
          rw [lookup_emplace_of_none hold] at hl
          refine .inr ⟨rfl, Keeps.after ?_ hnil⟩
          split_ifs at hl with hpp
          · have he := hl.resolve_right fun h => h.1
            rw [← Option.some.inj he, hpp]
            exact (hL.2 (hpp ▸ hp)).append L'
          · have hkeeps := hl.resolve_left id
            exact hkeeps.2.after fun i => hL.1 p i hpp

/-- The other pods that the restored node has. -/
def Kept (cni : Cni) (loaded : Loaded) (L : List NotedEntry) : Prop :=
  ∀ node, loaded.cluster.lookup cni.node = some node → ∀ p, p ≠ host → ∀ obj,
    node.netns.lookup p = some obj → Keeps p obj L

theorem settles_getKubernetesClusterNoted :
    SettlesAll cni (getKubernetesClusterNoted cni) (Kept cni) := by
  apply SettlesAll.bind (SettlesAll.untagged _)
  intro ret L hL
  split_ifs
  · apply SettlesAll.bind SettlesAll.ofExcept
    intro node L₁ hL₁
    have hnode : node.netns = [] := by
      have hinit := hL₁.1
      unfold Cni.initKubernetesNode at hinit
      cases hs : Subnet.init cni.boost ret.2 with
      | error e =>
          rw [hs] at hinit
          cases hinit
      | ok subnet =>
          rw [hs] at hinit
          cases hinit
          rfl
    apply SettlesAll.bind (SettlesAll.untagged _)
    intro pods L₂ hL₂
    apply SettlesAll.bind (settles_restorePodsNoted pods node none)
    intro restored L₃ hL₃
    apply SettlesAll.pure
    intro node' hl p hp obj hobj
    rw [lookup_emplace_of_none rfl, if_pos rfl] at hl
    rw [← Option.some.inj hl] at hobj
    have hkeeps := hL₃ p hp obj hobj
    rw [hnode] at hkeeps
    have hkeeps := (hkeeps.resolve_left (by simp)).2
    rw [List.append_nil]
    apply Keeps.after _ fun i => hL.restoring
    rw [hL₁.2, List.nil_append]
    exact hkeeps.after fun i => hL₂.restoring
  · apply SettlesAll.pure
    intro node hl
    cases hl

end Node

/-! ### Deleting and reusing an interface -/

section Use
variable {cni : Cni} {iface : Nic}

/-- An interface that is used again is asked for and renamed at most. -/
theorem only_reuseNic (nic : Text) : Only Idle (cni.reuseNic iface nic) := by
  have hexist : Only Idle iface.isExist := by
    unfold Nic.isExist
    split_ifs
    · exact ⟨⟨rfl, id⟩, fun _ => trivial⟩
    · trivial
  have hrename : Only Idle (iface.rename nic) := by
    simp only [Nic.rename]
    split_ifs
    · trivial
    · refine ⟨⟨rfl, id⟩, fun r => ?_⟩
      change Only Idle (if r.ok = true then _ else _)
      split_ifs <;> trivial
    · trivial
  unfold Cni.reuseNic
  cases iface.getAddr with
  | none => trivial
  | some addr =>
      apply Only.bind (Only.ofExcept _)
      intro cidr
      apply Only.bind (Only.ofExcept _)
      intro subnet
      apply Only.bind (Only.ofExcept _)
      intro inside
      split_ifs
      · apply Only.bind hexist
        intro found
        split_ifs
        · trivial
        · apply Only.bind hrename
          intro ret
          split_ifs <;> trivial
      · trivial

/-- A command that changes nothing but in one namespace. -/
def Within (netns : Text) : Cmd → Prop
  | .etcd _ => True
  | .netlink n => changes n = none ∨ changes n = some netns

theorem clean_of_within {netns : Text} (hn : netns ≠ []) {l : List Entry}
    (h : ∀ x ∈ l, Within netns x.1) : Clean l := by
  intro n r hm hc
  rcases h _ hm with hnone | hsome
  · exact Option.some_ne_none _ (hc.symm.trans hnone)
  · exact hn (Option.some.inj (hsome.symm.trans hc))

theorem only_etcd {A : Type} {netns : Text} (p : EtcdProgram A) : Only (Within netns) (etcd p) := by
  unfold etcd
  induction p with
  | pure a => trivial
  | throw e => trivial
  | call c next ih => exact ⟨trivial, fun r => ih r⟩

theorem within_cleanupRoutes (routes : List Route) :
    Only (Within iface.netns) (iface.cleanupRoutes routes) := by
  induction routes with
  | nil => trivial
  | cons r rest ih =>
      refine ⟨.inl rfl, fun reply => ?_⟩
      change Only (Within iface.netns) (if reply.ok = true then _ else _)
      split_ifs
      · exact ⟨.inr rfl, fun _ => ih⟩
      · exact ih

theorem within_cleanupAddrs (addrs : List Addr) :
    Only (Within iface.netns) (iface.cleanupAddrs addrs) := by
  induction addrs with
  | nil => trivial
  | cons a rest ih =>
      apply Only.bind (Only.ofExcept _)
      intro cidr
      exact ⟨.inr rfl, fun _ => ih⟩

theorem within_cleanup : Only (Within iface.netns) iface.cleanup := by
  have hlink : Only (Within iface.netns) (iface.cleanupAddrs iface.addrs >>= fun _ =>
      netlink (.linkDestory iface.name iface.netns) >>= fun _ => pure ()) := by
    apply Only.bind (within_cleanupAddrs _)
    intro _
    exact ⟨.inr rfl, fun _ => trivial⟩
  simp only [Nic.cleanup]
  split_ifs
  · exact Only.bind (within_cleanupRoutes _) fun _ => trivial
  · exact Only.bind (within_cleanupRoutes _) fun _ => hlink
  · trivial

variable (cni) in
theorem within_delKubernetesNic {pod : Netns} {nic : Text}
    (h : pod.nics.lookup nic = some iface) :
    Only (Within iface.netns) (cni.delKubernetesNic pod nic) := by
  have hrelease : ∀ addr, Only (Within iface.netns) (cni.releaseNicIp pod iface addr) := by
    intro addr
    unfold Cni.releaseNicIp
    split_ifs
    · trivial
    · exact only_etcd _
  have hvtep : Only (Within iface.netns) cni.delNicVtep := by
    unfold Cni.delNicVtep
    split_ifs
    · exact only_etcd _
    · trivial
  unfold Cni.delKubernetesNic
  rw [h]
  apply Only.bind (Only.ofExcept _)
  intro addr
  apply Only.bind within_cleanup
  intro _
  apply Only.bind (hrelease addr)
  intro _
  apply Only.bind (only_etcd _)
  intro addrs
  split_ifs
  · apply Only.bind (only_etcd _)
    intro routes
    split_ifs
    · apply Only.bind (only_etcd _)
      intro nics
      split_ifs
      · apply Only.bind hvtep
        intro vtep
        split_ifs <;> trivial
      · trivial
    · trivial
  · trivial

theorem marks_cleanupRoutes (routes : List Route) :
    Marks (iface.cleanupRoutes routes) fun o _ => o = .ok () := by
  induction routes with
  | nil => exact Marks.pure rfl
  | cons r rest ih =>
      apply marks_netlink
      intro reply
      split_ifs
      · apply marks_netlink
        intro _
        exact ih
      · exact ih

theorem marks_cleanupAddrs {addrs : List Addr} (h : ∀ a ∈ addrs, ∃ t, a.getAddrCidr = .ok t) :
    Marks (iface.cleanupAddrs addrs) fun o _ => o = .ok () := by
  induction addrs with
  | nil => exact Marks.pure rfl
  | cons a rest ih =>
      obtain ⟨cidr, hcidr⟩ := h a List.mem_cons_self
      simp only [Nic.cleanupAddrs, hcidr, Program.ofExcept_ok, Program.bind_eq, Program.pure_bind]
      apply marks_netlink
      intro _
      exact ih fun b hb => h b (List.mem_cons_of_mem _ hb)

/-- In the end the link is deleted. -/
theorem marks_cleanup (hr : Ready iface) :
    Marks iface.cleanup fun o l => o = .ok () ∧
      ∃ r, (Cmd.netlink (.linkDestory iface.name iface.netns), r) ∈ l := by
  simp only [Nic.cleanup, hr.netlink, hr.kind, if_true, if_false, Program.bind_eq]
  apply Marks.bind (marks_cleanupRoutes iface.routes)
  · intro _ l _
    apply Marks.bind (marks_cleanupAddrs hr.printable)
    · intro _ l' _
      apply marks_netlink
      intro r
      apply Marks.pure
      exact ⟨rfl, r, by simp⟩
    · intro e l' he
      cases he
  · intro e l he
    cases he

theorem marks_releaseNicIp {pod : Netns} (addr : Text) :
    Marks (cni.releaseNicIp pod iface addr) fun o _ => ∃ b, o = .ok b := by
  have hvalue : Marks (releaseIp cni.node addr) fun o _ => ∃ b, o = .ok b := by
    unfold releaseIp
    rw [← Program.bind_pure (delValue _ _), delValue_bind]
    apply Marks.call
    intro r
    split_ifs
    · simp only
      split_ifs
      · exact Marks.call fun r' => Marks.pure ⟨_, rfl⟩
      · exact Marks.call fun r' => Marks.pure ⟨_, rfl⟩
    · exact Marks.pure ⟨_, rfl⟩
  unfold Cni.releaseNicIp
  split_ifs
  · exact Marks.pure ⟨_, rfl⟩
  · apply hvalue.embed.mono
    intro o l h
    obtain ⟨l', hb, -⟩ := h
    exact hb

variable (cni) in
theorem marks_delKubernetesNic {pod : Netns} {nic : Text} (h : pod.nics.lookup nic = some iface)
    (hr : Ready iface) :
    Marks (cni.delKubernetesNic pod nic) fun _ l =>
      (∃ r, (Cmd.netlink (.linkDestory iface.name iface.netns), r) ∈ l) ∧ Deletes l := by
  have haddr : ∃ t, Cni.addrText iface [] = .ok t := by
    unfold Cni.addrText Nic.getAddr
    cases ha : iface.addrs with
    | nil => exact ⟨_, rfl⟩
    | cons a rest => exact hr.printable a (ha ▸ List.mem_cons_self)
  obtain ⟨addr, haddr⟩ := haddr
  unfold Cni.delKubernetesNic
  rw [h]
  simp only [haddr, Program.ofExcept_ok, Program.bind_eq, Program.pure_bind]
  apply Marks.bind (marks_cleanup hr)
  · intro _ l hl
    obtain ⟨-, r, hlink⟩ := hl
    apply Marks.bind (marks_releaseNicIp addr)
    · intro _ l' _
      apply Marks.call
      intro r'
      constructor
      intro o l'' _
      constructor
      · exact ⟨r, List.mem_append_left _ hlink⟩
      · exact ⟨_, r', List.mem_append_right _ (List.mem_append_right _ List.mem_cons_self)⟩
    · intro e l' he
      obtain ⟨b, he⟩ := he
      cases he
  · intro e l hl
    cases hl.1

end Use

/-! ### What a call does to the interfaces -/

/-- No address, route or link of the root namespace was set or deleted for an
interface of another pod. -/
def Untouched (L : List NotedEntry) : Prop :=
  ∀ pod nic, Clean (restoring pod nic L) ∧ Clean (handling pod nic L)

/-- Each address and route recorded for an interface is there when it is looked
for, unless the interface was let in before; and an interface whose records are
deleted was let in. -/
def Admitted (cni : Cni) (L : List NotedEntry) : Prop :=
  ∀ pod nic,
    Sheltered (Recorded cni pod nic (restoring pod nic L)) false (restoring pod nic L) ∧
      (Deletes (handling pod nic L) → Entered (moves (restoring pod nic L)))

theorem Settled.sheltered_iff {cni : Cni} {L : List NotedEntry} (h : Settled cni L)
    (pod nic : Text) :
    Clean (restoring pod nic L) ↔
      Sheltered (Recorded cni pod nic (restoring pod nic L)) false (restoring pod nic L) := by
  rw [(h.fair pod nic false).clean]
  apply sheltered_congr
  intro n r hm
  exact ⟨h.asks pod nic _ hm n rfl, Recorded.looksFor⟩

theorem Settled.admitted_iff {cni : Cni} {L : List NotedEntry} (h : Settled cni L) :
    Untouched L ↔ Admitted cni L := by
  constructor
  · intro hu pod nic
    exact ⟨(h.sheltered_iff pod nic).mp (hu pod nic).1, fun hd => absurd hd (h.keeps pod nic)⟩
  · intro ha pod nic
    exact ⟨(h.sheltered_iff pod nic).mpr (ha pod nic).1, h.clean pod nic⟩

section Calls
variable {cni : Cni}

/-- A restored interface is deleted in its own namespace exactly if it was let in. -/
theorem clean_delNic {l l' : List Entry} {iface : Nic} {nic : Text} (hrest : Restored nic iface l)
    (hwithin : ∀ x ∈ l', Within iface.netns x.1)
    (hlink : ∃ r, (Cmd.netlink (.linkDestory iface.name iface.netns), r) ∈ l') (hdel : Deletes l') :
    Clean l' ↔ (Deletes l' → Entered (moves l)) := by
  by_cases hn : iface.netns = []
  · have hnot : ¬ Clean l' := by
      intro hc
      obtain ⟨r, hm⟩ := hlink
      exact hc _ r hm (by simp [changes, hn])
    constructor
    · intro hc
      exact absurd hc hnot
    · intro he
      exact absurd hn (hrest.entered.mpr (he hdel))
  · exact iff_of_true (clean_of_within hn hwithin) fun _ => hrest.entered.mp hn

/-- A program that does nothing to restored interfaces. -/
def Silent {A : Type} (p : NotedProgram A) : Prop := Marks p fun _ L => Silence L

theorem silent_untagged {A : Type} (p : OhnoProgram A) : Silent (tag none p) := by
  have hp : Marks p fun _ _ => True := ⟨fun _ _ _ => trivial⟩
  exact hp.tag.mono fun _ L hL => hL.2

theorem Silent.bind {A B : Type} {p : NotedProgram A} {f : A → NotedProgram B} (hp : Silent p)
    (hf : ∀ a, Silent (f a)) : Silent (p.bind f) := by
  apply Marks.bind hp
  · intro a L hL
    apply (hf a).mono
    intro o L' hL'
    exact hL.append hL'
  · exact fun e L hL => hL

theorem silent_pure {A : Type} (a : A) : Silent (.pure a) := Marks.pure silence_nil

theorem settles_reuseNic_noted {c i : Text} (iface : Nic) :
    SettlesAll cni (tag (nicTag .handling c i) (cni.reuseNic iface i)) fun _ _ => True := by
  constructor
  apply (only_reuseNic i).marks.tag.mono
  intro o L hL
  have hrestoring : ∀ p n, restoring p n L = [] := by
    intro p n
    apply hL.2
    unfold nicTag
    split_ifs <;> simp
  have hidle : ∀ p n, Clean (handling p n L) ∧ ¬ Deletes (handling p n L) := by
    intro p n
    by_cases htag : some (.handling, p, n) = nicTag .handling c i
    · rw [handling, htag]
      exact clean_of_idle hL.1
    · rw [handling, hL.2 _ htag]
      exact ⟨clean_nil, not_deletes_nil⟩
  refine ⟨⟨fun p n inside => ?_, fun p n x hx => ?_, fun p n => (hidle p n).1,
    fun p n => (hidle p n).2⟩, fun _ _ => trivial⟩
  · rw [hrestoring]
    exact fair_nil
  · rw [hrestoring] at hx
    cases hx

variable (cni) in
/-- Nothing is deleted in an ADD, nor changed but by restoring. -/
theorem settles_addNoted (c netns i : Text) :
    SettlesAll cni (addNoted cni c netns i) fun _ _ => True := by
  have hfree : ∀ {A : Type} (p : OhnoProgram A), SettlesAll cni (tag none p) fun _ _ => True :=
    fun p => (SettlesAll.untagged p).mono fun _ _ _ => trivial
  have hresult : ∀ {A : Type} (x : Except Thrown A),
      SettlesAll cni (Program.ofExcept x) fun _ _ => True :=
    fun x => SettlesAll.ofExcept.mono fun _ _ _ => trivial
  have hreuse : ∀ (iface : Nic), SettlesAll cni (tag (nicTag .handling c i) (cni.reuseNic iface i))
      fun _ _ => True :=
    fun iface => settles_reuseNic_noted iface
  simp only [addNoted, Program.bind_eq]
  split_ifs
  · apply SettlesAll.bind settles_getKubernetesClusterNoted
    intro loaded L _
    apply SettlesAll.bind (hfree _)
    intro ret L _
    apply SettlesAll.bind (hfree _)
    intro found L _
    have hnic : ∀ loaded' host', SettlesAll cni (getPodNicNoted cni loaded' found.1 c i host' netns)
        fun _ _ => True := by
      intro loaded' host'
      unfold getPodNicNoted
      cases found.1.nics.lookup i with
      | some iface => exact hreuse iface
      | none => exact hfree _
    apply SettlesAll.bind (hnic _ _)
    intro nic L _
    exact hresult _
  · exact hfree _

theorem marks_getKubernetesPod (node : Node) (c : Text) :
    Marks (Cni.getKubernetesPod node c false) fun o _ =>
      ∀ ret, o = .ok ret → node.netns.lookup c = some ret.1 := by
  unfold Cni.getKubernetesPod
  cases node.netns.lookup c with
  | some pod =>
      apply Marks.pure
      intro ret he
      cases he
      rfl
  | none =>
      apply Marks.throw
      intro ret he
      cases he

theorem untouched_append_silence {L L' : List NotedEntry} (h : Silence L') :
    (Untouched (L ++ L') ↔ Admitted cni (L ++ L')) ↔ (Untouched L ↔ Admitted cni L) := by
  simp only [Untouched, Admitted, restoring_append, handling_append, h.restoring, h.handling,
    List.append_nil]

/-- The interface that a DEL deletes, after the node was restored by `L`. -/
theorem marks_delNic_noted {c i : Text} {pod : Netns} {L : List NotedEntry} (hL : Settled cni L)
    (hkeeps : c ≠ host → Keeps c pod L) :
    Marks (tag (nicTag .handling c i) (cni.delKubernetesNic pod i)) fun _ L' =>
      Untouched (L ++ L') ↔ Admitted cni (L ++ L') := by
  have hsilent : ∀ {p : NotedProgram Netns}, Silent p →
      Marks p fun _ L' => Untouched (L ++ L') ↔ Admitted cni (L ++ L') :=
    fun hp => Marks.mono hp fun _ L' hL' => (untouched_append_silence hL').mpr hL.admitted_iff
  by_cases hc : c = host
  · have htag : nicTag .handling c i = none := by simp [nicTag, hc]
    rw [htag]
    exact hsilent (silent_untagged _)
  · have htag : nicTag .handling c i = some (.handling, c, i) := by simp [nicTag, hc]
    rw [htag]
    cases hl : pod.nics.lookup i with
    | none =>
        have hpure : cni.delKubernetesNic pod i = .pure pod := by
          unfold Cni.delKubernetesNic
          rw [hl]
          rfl
        rw [hpure]
        exact hsilent (silent_pure pod)
    | some iface =>
        have hrest := hkeeps hc i iface hl
        have hmarks := (within_delKubernetesNic cni hl).marks.and
          (marks_delKubernetesNic cni hl hrest.ready)
        apply hmarks.tag.mono
        intro o L' hL'
        obtain ⟨⟨hwithin, hlink, hdel⟩, hother⟩ := hL'
        have hrestoring : ∀ p n, restoring p n L' = [] := fun p n => hother _ (by simp)
        have hdeleted : ∀ p n, Clean (handling p n L') ↔
            (Deletes (handling p n L') → Entered (moves (restoring p n L))) := by
          intro p n
          by_cases hpn : (p, n) = (c, i)
          · cases hpn
            exact clean_delNic hrest hwithin hlink hdel
          · have hnil : handling p n L' = [] :=
              hother _ fun he => hpn (Prod.mk.inj (Option.some.inj he)).2
            rw [hnil]
            exact iff_of_true clean_nil fun hd => absurd hd not_deletes_nil
        have heach : ∀ p n, Clean (restoring p n (L ++ L')) ∧ Clean (handling p n (L ++ L')) ↔
            Sheltered (Recorded cni p n (restoring p n (L ++ L'))) false (restoring p n (L ++ L')) ∧
              (Deletes (handling p n (L ++ L')) → Entered (moves (restoring p n (L ++ L')))) := by
          intro p n
          rw [restoring_append, handling_append, hrestoring, List.append_nil, clean_append,
            deletes_append, hL.sheltered_iff, hdeleted]
          simp [hL.clean p n, hL.keeps p n]
        exact ⟨fun hu p n => (heach p n).mp (hu p n), fun ha p n => (heach p n).mpr (ha p n)⟩

variable (cni) in
theorem marks_delBodyNoted (c i : Text) :
    Marks (delBodyNoted cni c i) fun _ L => Untouched L ↔ Admitted cni L := by
  have hsilent : ∀ {A : Type} {p : NotedProgram A} {L : List NotedEntry}, Silent p →
      (Untouched L ↔ Admitted cni L) →
        Marks p fun _ L' => Untouched (L ++ L') ↔ Admitted cni (L ++ L') :=
    fun hp hL => Marks.mono hp fun _ L' hL' => (untouched_append_silence hL').mpr hL
  simp only [delBodyNoted, Program.bind_eq]
  split_ifs
  · apply Marks.bind settles_getKubernetesClusterNoted.marks
    · intro loaded L hL
      obtain ⟨hsettled, hkept⟩ := hL
      cases hnode : loaded.cluster.lookup cni.node with
      | none => exact hsilent (silent_untagged _) hsettled.admitted_iff
      | some node =>
          have hpods : c ≠ host → ∀ pod, node.netns.lookup c = some pod → Keeps c pod L :=
            fun hc pod hl => hkept loaded rfl node hnode c hc pod hl
          apply Marks.bind (marks_getKubernetesPod node c).tag
          · intro found L₁ hL₁
            have hsilence : Silence L₁ := hL₁.2
            apply Marks.bind (marks_delNic_noted (hsettled.append hsilence.settled) fun hc =>
              (hpods hc found.1 (hL₁.1 found rfl)).append L₁)
            · intro pod L₂ hL₂
              have hrest : Silent ((tag none (cni.delKubernetesPod node c)).bind fun node =>
                  if node.netns.length = 1 then tag none (cni.tearDown node) else pure ()) := by
                apply Silent.bind (silent_untagged _)
                intro node'
                split_ifs
                · exact silent_untagged _
                · exact silent_pure ()
              apply (hsilent hrest hL₂).mono
              intro o L₃ hL₃
              simpa only [List.append_assoc] using hL₃
            · intro e L₂ hL₂
              simpa only [List.append_assoc] using hL₂
          · intro e L₁ hL₁
            exact (untouched_append_silence hL₁.2).mpr hsettled.admitted_iff
    · exact fun e L hL => hL.1.admitted_iff
  · exact (silent_untagged _).mono fun _ L hL => Silence.settled hL |>.admitted_iff

/-- In a call of the plugin, whatever the commands reply, no address, route or
link of the root namespace is touched for a restored interface exactly if each
interface was let in before anything of it was missing or deleted. -/
theorem untouched_iff {m : Conduct} {op : Op} {c netns i : Text} {w w' : World}
    {o : Except Thrown (Option CniResult)} {L : List NotedEntry}
    (h : Traces (fun k => m.handle k.2) (callNoted cni op c netns i) w o w' L) :
    Untouched L ↔ Admitted cni L := by
  cases op with
  | add =>
      have hcall : Marks (callNoted cni .add c netns i) fun _ L => Settled cni L := by
        apply Marks.bind (settles_addNoted cni c netns i).marks
        · intro r L₁ hL₁
          apply Marks.pure
          rw [List.append_nil]
          exact hL₁.1
        · exact fun e L₁ hL₁ => hL₁.1
      exact (hcall.path o L h.path).admitted_iff
  | del =>
      have hbody := marks_delBodyNoted cni c i
      have hdel : Marks (delNoted cni c i) fun _ L => Untouched L ↔ Admitted cni L := by
        constructor
        intro o L hpath
        rcases (path_catch _ _ o L).mp hpath with ⟨a, hp, -⟩ | ⟨e, L₁, L₂, hp, hh, rfl⟩
        · exact hbody.path _ L hp
        · have hnil : L₂ = [] := by
            split_ifs at hh
            · exact hh.2
            · exact hh.2
          rw [hnil, List.append_nil]
          exact hbody.path _ L₁ hp
      have hcall : Marks (callNoted cni .del c netns i)
          fun _ L => Untouched L ↔ Admitted cni L := by
        apply Marks.bind hdel
        · intro r L₁ hL₁
          apply Marks.pure
          rw [List.append_nil]
          exact hL₁
        · exact fun e L₁ hL₁ => hL₁
      exact hcall.path o L h.path

end Calls

/-! ### A namespace that cannot be entered -/

/-- The network lets no interface into its namespace and denies every query. -/
def shut (c : Cmd) (w : World) : Reply × World :=
  match c with
  | .etcd e => ((Etcd.ok e w.store).1, { w with store := (Etcd.ok e w.store).2 })
  | .netlink n =>
      (⟨(changes n).isSome, []⟩, { w with log := w.log ++ [(n, (changes n).isSome)] })

theorem handle_shut (c : Cmd) (w : World) :
    Conduct.anyNetwork.handle c w (shut c w).1 (shut c w).2 := by
  cases c with
  | etcd e => exact .inl ⟨rfl, rfl⟩
  | netlink n => exact .inl ⟨trivial, rfl⟩

/-- The DEL of the only container of node `a`. -/
def shutOut : List NotedEntry :=
  record (fun k => shut k.2) (callNoted cniA .del containerA.id [] containerA.nic)
    ⟨(addA.finish cniA noRecords).2, [], none⟩

theorem traces_shutOut : ∃ o w, Traces (fun k => Conduct.anyNetwork.handle k.2)
    (callNoted cniA .del containerA.id [] containerA.nic)
    ⟨(addA.finish cniA noRecords).2, [], none⟩ o w shutOut :=
  ⟨_, _, traces_record (fun k w => handle_shut k.2 w) _ _⟩

theorem untouched_iff_shutOut : Untouched shutOut ↔ Admitted cniA shutOut := by
  obtain ⟨o, w, h⟩ := traces_shutOut
  exact untouched_iff h

/-- The device of the node with the name of the interface is deleted. -/
theorem touched : ¬ ∀ (s : Store) (op : Op) (c netns i : Text)
    (o : Except Thrown (Option CniResult)) (w : World) (L : List NotedEntry),
    (∀ p ∈ s.values (getAllPodsKey cniA.node), p ≠ host →
      s.value (getNetnsKey cniA.node p) ≠ []) →
      Traces (fun k => Conduct.anyNetwork.handle k.2) (callNoted cniA op c netns i)
        ⟨s, [], none⟩ o w L →
        Untouched L := by
  intro hall
  obtain ⟨o, w, h⟩ := traces_shutOut
  have hnetns : ∀ p ∈ (addA.finish cniA noRecords).2.values (getAllPodsKey cniA.node), p ≠ host →
      (addA.finish cniA noRecords).2.value (getNetnsKey cniA.node p) ≠ [] := by decide +kernel
  have hclean := (hall _ _ _ _ _ o w _ hnetns h containerA.id containerA.nic).2
  have hmem : (Cmd.netlink (.linkDestory containerA.nic []), Reply.mk true []) ∈
      handling containerA.id containerA.nic shutOut := by decide +kernel
  exact hclean _ _ hmem rfl

end Ohno.RestoredInterfaces
