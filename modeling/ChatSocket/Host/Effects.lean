/-
# `Host.Effects` — what a step changes, and for whom

The step lemmas of the invariants ask the same few questions: which threads are
there after a step and where, which nodes, which descriptors are open, and what has become
of the name of a client whose own thread did not move.  The answers are here,
once for all kinds of steps.
-/
import ChatSocket.Host.Sound
import ChatSocket.Server.Sections

namespace ChatSocket

open Kit Registry

namespace Host

variable {h h' : Host} {m : Move} {acts : List Act}

/-! ## Threads -/

/-- What holds of the thread that moves, of a thread that starts and of all others holds of
all threads after a step. -/
theorem forall_threads (hstep : Stepped h m h' acts) {P : Nat → Thread → Prop}
    (hstart : ∀ t fd, h.loop.fd? = some fd → P t ⟨fd, .starting⟩)
    (hself : ∀ t answer th th', m = .thread t answer → h.threads t = some th →
      h'.threads t = some th' → P t th')
    (hother : ∀ t th, (∀ answer, m ≠ .thread t answer) → h.threads t = some th → P t th) :
    ∀ t th, h'.threads t = some th → P t th := by
  intro t th ht
  rcases em (∃ answer, m = .thread t answer) with ⟨answer, rfl⟩ | hm
  · cases hstep with
    | registers hth | greets hth | serves hth | closes hth | quiet hth =>
        exact hself t _ _ th rfl hth ht
    | loops hl => cases hl
  · have hm : ∀ answer, m ≠ .thread t answer := fun answer he => hm ⟨answer, he⟩
    cases hstep with
    | loops | accepts | turnsAway | frees | terminates => exact hother t th hm ht
    | spawns hl _ hc =>
        replace ht : Function.update h.threads _ _ t = some th := ht
        rw [Function.update_apply] at ht
        split at ht
        · cases ht
          exact hstart t _ (by rw [hl]; rfl)
        · exact hother t th hm ht
    | registers hth | greets hth | serves hth | closes hth | quiet hth =>
        rw [threads_goto, if_neg] at ht
        · exact hother t th hm ht
        · rintro rfl
          exact hm _ rfl

theorem thread_of_step {t : Nat} {answer : Answer}
    (hstep : Stepped h (.thread t answer) h' acts) : ∃ th, h.threads t = some th := by
  cases hstep with
  | loops hl => cases hl
  | registers ht | greets ht | serves ht | closes ht | quiet ht => exact ⟨_, ht⟩

/-- Where a thread is after its own step. -/
inductive Goes (h : Host) : Thread → Answer → Thread → Prop where
  | registers {fd ok stage} : stage = .exited ∨ stage = .greeting →
      Goes h ⟨fd, .starting⟩ (.malloc ok) ⟨fd, stage⟩
  | greets {fd} : Goes h ⟨fd, .greeting⟩ (.sent true) ⟨fd, .awaitingAck⟩
  | serves {fd p} : p ≠ .done →
      Goes h ⟨fd, .serving p⟩ .none ⟨fd, .serving (p.next fd h.registry)⟩
  | closes {fd} : Goes h ⟨fd, .closing⟩ .none ⟨fd, .exited⟩
  | quiet {fd stage answer stage'} : Quiets h.registry h.terminate stage answer stage' →
      Goes h ⟨fd, stage⟩ answer ⟨fd, stage'⟩

theorem goes_of_step {t : Nat} {answer : Answer} {th th' : Thread}
    (hstep : Stepped h (.thread t answer) h' acts) (ht : h.threads t = some th)
    (ht' : h'.threads t = some th') : h.Goes th answer th' := by
  obtain ⟨fd, stage⟩ := th
  cases hstep with
  | loops hl => cases hl
  | registers hth hst =>
      rw [ht] at hth
      cases hth
      cases hst
      cases eq_of_goto ht'
      refine .registers ?_
      split
      · exact Or.inl rfl
      · exact Or.inr rfl
  | greets hth hst =>
      rw [ht] at hth
      cases hth
      cases hst
      cases eq_of_goto ht'
      exact .greets
  | serves hth hst hdone =>
      rw [ht] at hth
      cases hth
      cases hst
      cases eq_of_goto ht'
      exact .serves hdone
  | closes hth hst =>
      rw [ht] at hth
      cases hth
      cases hst
      cases eq_of_goto ht'
      exact .closes
  | quiet hth hq =>
      rw [ht] at hth
      cases hth
      cases eq_of_goto ht'
      exact .quiet hq

/-- A thread that is in a handler goes on in it. -/
theorem serving_step {t : Nat} {answer : Answer} {fd : Int} {p : Point}
    (hstep : Stepped h (.thread t answer) h' acts) (ht : h.threads t = some ⟨fd, .serving p⟩)
    (hp : p ≠ .done) :
    answer = .none ∧ (p.locks = true → h.server.mutexHeld = false) ∧
      h' = (h.perform (p.acts fd h.registry)
        (if p.locks then p.leavesHeld fd h.registry else h.server.mutexHeld)).goto t
          ⟨fd, .serving p⟩ (.serving (p.next fd h.registry)) := by
  cases hstep with
  | loops hl => cases hl
  | registers hth hst | greets hth hst | closes hth hst =>
      rw [ht] at hth
      cases hth
      cases hst
  | serves hth hst hdone hfree =>
      rw [ht] at hth
      cases hth
      cases hst
      exact ⟨rfl, hfree, rfl⟩
  | quiet hth hq =>
      rw [ht] at hth
      cases hth
      cases hq with
      | stops | polls => exact absurd rfl hp

/-- A thread that does not move stays where it is. -/
theorem threads_kept (hs : h.Sound) (hstep : Stepped h m h' acts) {t : Nat} {th : Thread}
    (ht : h.threads t = some th) (hm : ∀ answer, m ≠ .thread t answer) :
    h'.threads t = some th := by
  cases hstep with
  | loops | accepts | turnsAway | frees | terminates => exact ht
  | spawns hl _ hc =>
      refine (Function.update_of_ne ?_ _ _).trans ht
      rintro rfl
      obtain ⟨t', hc', hnone⟩ := hs.pending _ (by rw [hl]; rfl)
      rw [hc] at hc'
      cases hc'
      rw [ht] at hnone
      cases hnone
  | registers | greets | serves | closes | quiet =>
      rw [threads_goto, if_neg]
      · exact ht
      · rintro rfl
        exact hm _ rfl

theorem terminate_step (hstep : Stepped h m h' acts) (hterm : h.terminate = true) :
    h'.terminate = true := by
  cases hstep with
  | terminates => rfl
  | _ => exact hterm

/-! ## Nodes and descriptors -/

/-- The thread of `fd` sees its connection closed in this step. -/
def Closes (h : Host) (m : Move) (fd : Int) : Prop :=
  ∃ t th, m = .thread t .none ∧ h.threads t = some th ∧ th.stage = .closing ∧ th.fd = fd

/-- The thread of `fd` registers in this step. -/
def Registers (h : Host) (m : Move) (fd : Int) : Prop :=
  ∃ t th ok, m = .thread t (.malloc ok) ∧ h.threads t = some th ∧ th.stage = .starting ∧
    th.fd = fd ∧ h.registry.Accepts ok

/-- A descriptor that is open after a step was open before, or `accept` has just returned it. -/
theorem conns_step (hstep : Stepped h m h' acts) {fd : Int} {t : Nat}
    (hc : h'.conns fd = some t) :
    h.conns fd = some t ∨ (m = .accepts fd ∧ t = h.accepts ∧ h.conns fd = none) := by
  have hperform : ∀ {acts : List Act}, closeRemoved h.registry acts h.conns fd = some t →
      h.conns fd = some t := by
    intro acts hc
    rw [closeRemoved] at hc
    split at hc
    · cases hc
    · exact hc
  cases hstep with
  | loops | spawns | frees | terminates | quiet => exact Or.inl hc
  | @accepts g _ _ _ hfree =>
      replace hc : Function.update h.conns g (some h.accepts) fd = some t := hc
      rw [Function.update_apply] at hc
      split at hc
      · next hg =>
          cases hc
          exact Or.inr ⟨by rw [hg], rfl, hg ▸ hfree⟩
      · exact Or.inl hc
  | turnsAway | greets => exact Or.inl (by simpa using hc)
  | registers | serves | closes => exact Or.inl (hperform hc)

/-- Addresses are handed out upwards. -/
theorem mallocs_step (hstep : Stepped h m h' acts) : h.registry.mallocs ≤ h'.registry.mallocs := by
  cases hstep with
  | loops | accepts | spawns | terminates | quiet | frees => exact Nat.le_refl _
  | turnsAway | registers | greets | serves | closes => exact mallocs_le_replay _ _

/-- A node that is there after a step was there before, or its thread has just registered. -/
theorem node_step (hs : h.Sound) (hstep : Stepped h m h' acts) {n : ClientNode}
    (hn : n ∈ h'.registry.clientList) :
    (∃ n₀ ∈ h.registry.clientList, n₀.addr = n.addr ∧ n₀.fd = n.fd) ∨
      (h.Registers m n.fd ∧ n = h.registry.newNode n.fd) := by
  have hself : ∀ {l : List ClientNode}, n ∈ l → ∃ n₀ ∈ l, n₀.addr = n.addr ∧ n₀.fd = n.fd :=
    fun hn => ⟨n, hn, rfl, rfl⟩
  cases hstep with
  | loops | accepts | spawns | terminates | quiet | turnsAway | greets => exact Or.inl (hself hn)
  | frees _ hlist => exact Or.inl (hself (hlist ▸ List.mem_cons_of_mem _ hn))
  | @registers t th ok ht hst _ =>
      replace hn : n ∈ (replay h.registry (registerActs h.registry th.fd ok)).clientList := hn
      rw [replay_registerActs, Write.apply] at hn
      rcases em (h.registry.Accepts ok) with ha | ha
      · rw [h.registry.addClientNodeToQueue_eq th.fd ha] at hn
        rcases List.mem_append.mp hn with hn | hn
        · exact Or.inl (hself hn)
        · obtain rfl := List.mem_singleton.mp hn
          exact Or.inr ⟨⟨t, th, ok, rfl, ht, hst, rfl, ha⟩, rfl⟩
      · rw [(h.registry.addClientNodeToQueue_full th.fd ha).2] at hn
        exact Or.inl (hself hn)
  | serves => exact Or.inl ((sameNodes_replay _ _ (Point.inner_acts _ _ _)).exists_mem hn)
  | @closes t th ht hst _ =>
      have hinner := inner_closedActs h.registry th.fd
      replace hn : n ∈ (replay h.registry (closedActs h.registry th.fd)).clientList := hn
      rw [closedActs, replay_append] at hn
      exact Or.inl ((sameNodes_replay _ _ hinner).exists_mem
        ((hs.wf.replay_inner hinner).mem_remove hn).1)

/-- A descriptor that is open stays open, unless its thread closes it with its node. -/
theorem conns_kept (hstep : Stepped h m h' acts) {fd : Int} {t : Nat}
    (hc : h.conns fd = some t) (hclose : h.Closes m fd → h.registry.node fd = none) :
    h'.conns fd = some t := by
  have hinner : ∀ {acts : List Act}, (∀ a ∈ acts, a.Inner) →
      closeRemoved h.registry acts h.conns fd = some t := by
    intro acts hacts
    exact (congrFun (conns_perform_of_inner hacts false) fd).trans hc
  cases hstep with
  | loops | spawns | frees | terminates | quiet => exact hc
  | @accepts g _ _ _ hfree =>
      refine (Function.update_of_ne ?_ _ _).trans hc
      rintro rfl
      rw [hfree] at hc
      cases hc
  | turnsAway | greets => simpa using hc
  | serves => exact hinner (Point.inner_acts _ _ _)
  | registers => exact (congrFun (conns_register _ _ _ false) fd).trans hc
  | @closes t' th ht hst _ =>
      refine (if_neg fun hr => ?_).trans hc
      rcases List.mem_append.mp hr.1 with hmem | hmem
      · exact (inner_closedActs h.registry th.fd _ hmem : Act.Inner (.wrote (.remove fd)))
      · have hfd : fd = th.fd := by simpa using hmem
        have hnone := hclose ⟨t', th, rfl, ht, hst, hfd.symm⟩
        rw [hnone] at hr
        cases hr.2

/-- So does a node, until the nodes are freed. -/
theorem node_kept (hs : h.Sound) (hstep : Stepped h m h' acts) {n : ClientNode}
    (hn : n ∈ h.registry.clientList) (hclose : ¬ h.Closes m n.fd)
    (hfree : ∀ a b, m = .acceptLoop a b → h.loop ≠ .freeing) :
    ∃ n' ∈ h'.registry.clientList, n'.addr = n.addr ∧ n'.fd = n.fd := by
  have hself : ∀ {l : List ClientNode}, n ∈ l → ∃ n' ∈ l, n'.addr = n.addr ∧ n'.fd = n.fd :=
    fun hn => ⟨n, hn, rfl, rfl⟩
  cases hstep with
  | loops | accepts | spawns | terminates | quiet | turnsAway | greets => exact hself hn
  | frees hl _ => exact absurd hl (hfree _ _ rfl)
  | @registers t th ok ht hst _ =>
      show ∃ n' ∈ (replay h.registry (registerActs h.registry th.fd ok)).clientList, _
      rw [replay_registerActs, Write.apply]
      rcases em (h.registry.Accepts ok) with ha | ha
      · rw [h.registry.addClientNodeToQueue_eq th.fd ha]
        exact hself (List.mem_append_left _ hn)
      · rw [(h.registry.addClientNodeToQueue_full th.fd ha).2]
        exact hself hn
  | serves => exact (sameNodes_replay _ _ (Point.inner_acts _ _ _)).exists_mem_after hn
  | @closes t th ht hst _ =>
      have hne : n.fd ≠ th.fd := fun he => hclose ⟨t, th, rfl, ht, hst, he.symm⟩
      have hinner := inner_closedActs h.registry th.fd
      obtain ⟨n', hn', ha, hfd⟩ := (sameNodes_replay _ _ hinner).exists_mem_after hn
      show ∃ n' ∈ (replay h.registry (closedActs h.registry th.fd)).clientList, _
      rw [closedActs, replay_append]
      refine ⟨n', ?_, ha, hfd⟩
      show n' ∈ ((Write.remove th.fd).apply _).clientList
      rw [(hs.wf.replay_inner hinner).clientList_remove]
      exact (List.mem_eraseP_of_neg (by simpa [hfd] using hne)).mpr hn'

theorem step_of_closes (hstep : Stepped h m h' acts) {fd : Int} (hclose : h.Closes m fd) :
    ∃ t th, th.fd = fd ∧ h' = (h.perform (closedActs h.registry fd) false).goto t th .exited := by
  obtain ⟨t, th, rfl, ht, hst, rfl⟩ := hclose
  cases hstep with
  | loops hl => cases hl
  | serves hth hsrv =>
      rw [ht] at hth
      cases hth
      rw [hst] at hsrv
      cases hsrv
  | quiet hth hq =>
      rw [ht] at hth
      cases hth
      rw [hst] at hq
      cases hq
  | closes hth =>
      rw [ht] at hth
      cases hth
      exact ⟨t, th, rfl, rfl⟩

/-- A thread that sees its connection closed takes its node away. -/
theorem no_node_of_closes (hs : h.Sound) (hstep : Stepped h m h' acts) {fd : Int}
    (hclose : h.Closes m fd) {n : ClientNode} (hn : n ∈ h'.registry.clientList) : n.fd ≠ fd := by
  obtain ⟨t, th, -, rfl⟩ := step_of_closes hstep hclose
  have hinner := inner_closedActs h.registry fd
  replace hn : n ∈ (replay h.registry (closedActs h.registry fd)).clientList := hn
  rw [closedActs, replay_append] at hn
  exact ((hs.wf.replay_inner hinner).mem_remove hn).2

/-- With its node, a descriptor is closed. -/
theorem conns_of_closes (hstep : Stepped h m h' acts) {fd : Int} (hclose : h.Closes m fd)
    (hn : (h.registry.node fd).isSome) : h'.conns fd = none := by
  obtain ⟨t, th, -, rfl⟩ := step_of_closes hstep hclose
  exact if_pos ⟨List.mem_append_right _ (List.mem_singleton_self _), hn⟩

/-- What is sent is written on the connection its descriptor stands for. -/
theorem written_step (hstep : Stepped h m h' acts) (c : Nat) :
    h'.written c = h.written c ++ msgsOn h.conns c acts := by
  cases hstep with
  | loops | accepts | spawns | frees | terminates | quiet => exact (List.append_nil _).symm
  | turnsAway | registers | greets | serves | closes => rfl

theorem mem_msgsOn {conns : Int → Option Nat} {c : Nat} {msg : Msg} :
    msg ∈ msgsOn conns c acts ↔ ∃ g, .sent g msg ∈ acts ∧ conns g = some c := by
  rw [msgsOn, List.mem_filterMap]
  constructor
  · rintro ⟨a, ha, he⟩
    cases a with
    | wrote w => cases he
    | sent g m =>
        simp only at he
        split at he
        · next hc =>
            cases he
            exact ⟨g, ha, hc⟩
        · cases he
  · rintro ⟨g, ha, hc⟩
    exact ⟨_, ha, by simp only [if_pos hc]⟩

/-! ## Links -/

/-- Links change where a section makes or cuts some. -/
theorem links_step {Q : Int → Int → Prop} (hs : h.Sound) (hstep : Stepped h m h' acts)
    (hl : h.registry.Links Q) (hcut : ∀ g, g ≠ invalidFd → Q g invalidFd)
    (hnew : ∀ t th p g, m = .thread t .none → h.threads t = some th → th.stage = .serving p →
      p.links? = some g → Q th.fd g ∧ Q g th.fd) : h'.registry.Links Q := by
  cases hstep with
  | loops | accepts | spawns | terminates | quiet | turnsAway | greets => exact hl
  | frees _ hlist => exact fun n hn => hl n (hlist ▸ List.mem_cons_of_mem _ hn)
  | registers ht hst _ =>
      show (replay h.registry _).Links Q
      rw [replay_registerActs]
      exact links_apply hs.wf hl (hcut _ (hs.fd_ne_invalidFd ht (by simp [hst])))
  | serves ht hst _ _ =>
      exact links_replay _ hs.wf hl (Point.inner_acts _ _ _)
        (Point.links_acts (hs.fd_ne_invalidFd ht (by simp [hst])) hcut
          fun g hg => hnew _ _ _ g rfl ht hst hg)
  | @closes _ th ht hst _ =>
      have hfd := hs.fd_ne_invalidFd ht (by simp [hst])
      have hinner := inner_closedActs h.registry th.fd
      show (replay h.registry (closedActs h.registry th.fd)).Links Q
      rw [closedActs, replay_append]
      refine links_apply (hs.wf.replay_inner hinner) ?_ (w := .remove _) trivial
      refine links_replay _ hs.wf hl hinner fun w hw => ?_
      split at hw <;> revert w <;> simp [Write.Links, hfd, hcut]

/-! ## Names -/

/-- A handler names nobody but its own client. -/
theorem names_point (p : Point) {fd g : Int} (hfd : fd ≠ invalidFd) (hg : g ≠ fd) (r : Registry) :
    (replay r (p.acts fd r)).names g = r.names g := by
  rcases em (∃ msg, p = .setName msg) with ⟨msg, rfl⟩ | hset
  · rw [Point.acts]
    split
    · rfl
    · rw [replay, replay, Write.apply_name r hfd, names, r.node_modify (fun _ => by rfl), if_neg hg]
      rfl
  · have hnameless := Point.nameless_acts (fun msg he => hset ⟨msg, he⟩) fd r
    exact congrFun (names_replay _ r hnameless) g

/-- A node that is not the one freed is still there. -/
theorem node_tail {r : Registry} (hr : r.Wf) {n : ClientNode} {rest : List ClientNode}
    (hlist : r.clientList = n :: rest) (g : Int) :
    Registry.node { r with clientList := rest } g = r.node g ∨
      Registry.node { r with clientList := rest } g = none := by
  have hnd := hr.fds
  rw [hlist, List.map_cons, List.nodup_cons] at hnd
  rcases eq_or_ne n.fd g with rfl | hn
  · right
    exact look_eq_none_iff.mpr fun m hm he => hnd.1 (he ▸ List.mem_map_of_mem hm)
  · left
    rw [node, node, hlist, look_cons, if_neg hn]

theorem names_tail {r : Registry} (hr : r.Wf) {n : ClientNode} {rest : List ClientNode}
    (hlist : r.clientList = n :: rest) (g : Int) :
    Registry.names { r with clientList := rest } g = r.names g ∨
      Registry.names { r with clientList := rest } g = none := by
  rcases node_tail hr hlist g with he | he
  · left
    rw [names, names, he]
  · right
    rw [names, he]
    rfl

theorem names_closed_other {r : Registry} (hr : r.Wf) {fd g : Int} (hg : g ≠ fd) :
    (replay r (closedActs r fd)).names g = r.names g := by
  have hplain := hr.replay_inner (inner_closedActs r fd)
  rw [closedActs, replay_append]
  show ((Write.remove fd).apply _).names g = _
  rw [names, hplain.node_remove, if_neg hg]
  refine congrFun (names_replay _ r fun w hw => ?_) g
  split at hw <;> revert w <;> simp [Write.Nameless]

/-- The name of a client changes under no step of another thread than its own. -/
theorem Sound.names_kept (hs : h.Sound) (hstep : Stepped h m h' acts) {fd : Int} {t : Nat}
    (hc : h.conns fd = some t) (hm : ∀ answer, m ≠ .thread t answer) :
    h'.registry.names fd = h.registry.names fd ∨ h'.registry.names fd = none := by
  have hfd : ∀ {t' : Nat} {th' : Thread} {a : Answer},
      (∀ answer, .thread t' a ≠ Move.thread t answer) →
      h.threads t' = some th' → th'.stage ≠ .exited → fd ≠ th'.fd := by
    intro t' th' a hm' ht' hex' he
    have hc' := hs.holds t' th' ht' hex'
    rw [← he, hc] at hc'
    cases hc'
    exact hm' a rfl
  cases hstep with
  | loops | accepts | spawns | terminates | quiet | turnsAway | greets => exact Or.inl rfl
  | frees _ hlist => exact names_tail hs.wf hlist fd
  | registers ht' hst _ =>
      have hne := hfd hm ht' (by simp [hst])
      left
      show (replay h.registry _).names fd = _
      rw [replay_registerActs, names, node_add (hs.node_starting ht' hst),
        if_neg fun hc => hne hc.1]
      rfl
  | serves ht' hst _ _ =>
      have hne := hfd hm ht' (by simp [hst])
      exact Or.inl (names_point _ (hs.fd_ne_invalidFd ht' (by simp [hst])) hne _)
  | closes ht' hst _ =>
      exact Or.inl (names_closed_other hs.wf (hfd hm ht' (by simp [hst])))

theorem Sound.names_other (hs : h.Sound) (hstep : Stepped h m h' acts) {t : Nat} {th : Thread}
    (ht : h.threads t = some th) (hex : th.stage ≠ .exited) (hm : ∀ answer, m ≠ .thread t answer) :
    h'.registry.names th.fd = h.registry.names th.fd ∨ h'.registry.names th.fd = none :=
  hs.names_kept hstep (hs.holds t th ht hex) hm

end Host

end ChatSocket
