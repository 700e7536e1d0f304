/-
# `Host.Joins` — the threads are joined before the nodes are freed

`join_all_client_threads` takes no mutex.  It waits for the thread of one node
after another, and the threads it waits for may take their own nodes out of the
list.  As long as each node is still there when the walk goes on from it, the walk
comes by every node: the list is in the order of its addresses (`Host.Ordered`), and a
node that is added meanwhile is ahead of the walk.  If then nobody registers once
the walk is over, `free_all_client_nodes` frees nodes of ended threads only
(`ended_before_freed`), so that nobody is left to read what it frees.
-/
import ChatSocket.Host.Pointers
import ChatSocket.Host.Walks

namespace ChatSocket

open Kit Registry

/-- The walk has come by the nodes at this address. -/
def LoopPoint.Passed : LoopPoint → Nat → Prop
  | joining (some b), a | joinWait b _, a => a < b
  | joining none, _ | freeing, _ | freed, _ => True
  | waiting, _ | accepting, _ | accepted _, _ | counted _ _, _ | failed, _ => False

/-- The walk is over. -/
def LoopPoint.Joined : LoopPoint → Prop
  | joining none | freeing | freed => True
  | _ => False

instance : DecidablePred LoopPoint.Joined
  | .joining none | .freeing | .freed => inferInstanceAs (Decidable True)
  | .joining (some _) | .joinWait _ _ | .waiting | .accepting | .accepted _ | .counted _ _
  | .failed => inferInstanceAs (Decidable False)

namespace Host

variable {h h' : Host} {m : Move} {acts : List Act}

/-- The thread of the node has ended. -/
def Ended (h : Host) (n : ClientNode) : Prop :=
  ∃ t th, h.conns n.fd = some t ∧ h.threads t = some th ∧ th.stage = .exited

/-- The walk finds the node it is at, and nobody registers once it is over. -/
def JoinsAll (h : Host) : Move → Prop
  | .acceptLoop a b => (Move.acceptLoop a b).ReadsPresent h
  | .thread _ (.malloc _) => ¬ h.loop.Joined
  | _ => True

instance (h : Host) : DecidablePred h.JoinsAll
  | .acceptLoop a b => inferInstanceAs (Decidable ((Move.acceptLoop a b).ReadsPresent h))
  | .thread _ (.malloc _) => inferInstanceAs (Decidable ¬ _)
  | .thread _ .none | .thread _ (.sent _) | .thread _ (.recv _) | .thread _ (.poll _)
  | .accepts _ | .acceptFails _ | .sigint => inferInstanceAs (Decidable True)

/-- How far the walk has come. -/
structure JoinedSoFar (h : Host) : Prop where
  passed : ∀ n ∈ h.registry.clientList, h.loop.Passed n.addr → h.Ended n
  waits : ∀ a t, h.loop = .joinWait a t → ∀ n ∈ h.registry.clientList, n.addr = a →
    h.conns n.fd = some t
  handedOut : ∀ a ∈ h.loop.held, a < h.registry.mallocs

theorem joinedSoFar_boot : boot.JoinedSoFar where
  passed := fun _ hn => by cases hn
  waits := fun _ _ hl => by cases hl
  handedOut := fun _ hl => absurd hl List.not_mem_nil

/-- Who has ended makes no step. -/
theorem exited_kept (hs : h.Sound) (hstep : Stepped h m h' acts) {t : Nat} {th : Thread}
    (ht : h.threads t = some th) (hex : th.stage = .exited) : h'.threads t = some th := by
  refine threads_kept hs hstep ht fun answer he => ?_
  subst he
  obtain ⟨th', ht'⟩ := thread_after hstep
  cases goes_of_step hstep ht ht' with
  | registers | greets | serves | closes => cases hex
  | quiet hq =>
      cases hex
      cases hq

/-- A node that stays stays under its connection. -/
theorem conns_of_node (hs : h.Sound) (hs' : h'.Sound) (hstep : Stepped h m h' acts)
    {n n₀ : ClientNode} (hn : n ∈ h'.registry.clientList) (hn₀ : n₀ ∈ h.registry.clientList)
    (hfd : n₀.fd = n.fd) : h'.conns n.fd = h.conns n₀.fd := by
  obtain ⟨t, -, hc, -⟩ := hs'.owner n hn
  obtain ⟨t₀, -, hc₀, -⟩ := hs.owner n₀ hn₀
  rcases conns_step hstep hc with hbefore | ⟨-, -, hnone⟩
  · rw [hc, hfd, hbefore]
  · rw [hfd, hnone] at hc₀
    cases hc₀

/-- What has ended stays so. -/
theorem Ended.kept (hs : h.Sound) (hs' : h'.Sound) (hstep : Stepped h m h' acts)
    {n n₀ : ClientNode} (hn : n ∈ h'.registry.clientList) (hn₀ : n₀ ∈ h.registry.clientList)
    (hfd : n₀.fd = n.fd) (he : h.Ended n₀) : h'.Ended n := by
  obtain ⟨t, th, hc, ht, hex⟩ := he
  exact ⟨t, th, (conns_of_node hs hs' hstep hn hn₀ hfd).trans hc,
    exited_kept hs hstep ht hex, hex⟩

/-! ## The steps of the walk -/

/-- A step that leaves the walk where it is. -/
theorem JoinedSoFar.stays (hj : h.JoinedSoFar) (hs : h.Sound) (hs' : h'.Sound)
    (hstep : Stepped h m h' acts) (hloop : h'.loop = h.loop)
    (hnew : ∀ n : ClientNode, h.Registers m n.fd → ¬ h.loop.Joined) : h'.JoinedSoFar := by
  have hcome : ∀ n ∈ h'.registry.clientList, (n.addr < h.registry.mallocs ∨ h.loop.Joined) →
      ∃ n₀ ∈ h.registry.clientList, n₀.addr = n.addr ∧ n₀.fd = n.fd := by
    intro n hn hold
    rcases node_step hs hstep hn with hn₀ | ⟨hreg, he⟩
    · exact hn₀
    · rcases hold with hlt | hover
      · rw [he] at hlt
        exact absurd hlt (Nat.lt_irrefl _)
      · exact absurd hover (hnew n hreg)
  refine ⟨fun n hn hp => ?_, fun a t hl n hn ha => ?_, fun a hl => ?_⟩
  · rw [hloop] at hp
    have hold : n.addr < h.registry.mallocs ∨ h.loop.Joined := by
      cases hl : h.loop with
      | joining node =>
          cases node with
          | none => exact Or.inr trivial
          | some b =>
              rw [hl] at hp
              exact Or.inl (Nat.lt_trans hp (hj.handedOut b (by rw [hl]; exact List.mem_singleton_self b)))
      | joinWait b t =>
          rw [hl] at hp
          exact Or.inl (Nat.lt_trans hp (hj.handedOut b (by rw [hl]; exact List.mem_singleton_self b)))
      | freeing | freed => exact Or.inr trivial
      | _ =>
          rw [hl] at hp
          exact hp.elim
    obtain ⟨n₀, hn₀, ha, hfd⟩ := hcome n hn hold
    exact Ended.kept hs hs' hstep hn hn₀ hfd (hj.passed n₀ hn₀ (ha ▸ hp))
  · rw [hloop] at hl
    have hlt := hj.handedOut a (by rw [hl]; exact List.mem_singleton_self a)
    obtain ⟨n₀, hn₀, ha₀, hfd⟩ := hcome n hn (Or.inl (ha ▸ hlt))
    rw [conns_of_node hs hs' hstep hn hn₀ hfd]
    exact hj.waits a t hl n₀ hn₀ (ha₀.trans ha)
  · rw [hloop] at hl
    exact Nat.lt_of_lt_of_le (hj.handedOut a hl) (mallocs_step hstep)

/-- The walk starts at the first node. -/
theorem joinedSoFar_head (hw : h.Walked) : (h.loopAt h.joinHead).JoinedSoFar := by
  have hhead : h.joinHead = .joining h.addrs.head? := by
    rw [joinHead, addrs, List.head?_map]
  have hnone : ∀ n ∈ h.registry.clientList, ¬ (h.joinHead).Passed n.addr := by
    intro n hn hp
    have ha : n.addr ∈ h.addrs := List.mem_map_of_mem hn
    rw [hhead] at hp
    cases hfirst : h.addrs.head? with
    | none =>
        rw [List.head?_eq_none_iff.mp hfirst] at ha
        cases ha
    | some b =>
        rw [hfirst] at hp
        exact absurd (head_le hw.ordered hfirst _ ha) (Nat.not_le.mpr hp)
  refine ⟨fun n hn hp => absurd hp (hnone n hn), fun a t hl => ?_, fun a hl => ?_⟩
  · rw [show (h.loopAt h.joinHead).loop = .joining h.addrs.head? from hhead] at hl
    cases hl
  · rw [show (h.loopAt h.joinHead).loop = .joining h.addrs.head? from hhead] at hl
    exact hw.turning.sound.addr_lt a (List.mem_of_mem_head? (Option.mem_toList.mp hl))

/-- The walk goes on behind a node whose thread has ended. -/
theorem JoinedSoFar.joined (hj : h.JoinedSoFar) (hw : h.Walked) {a t : Nat}
    (hl : h.loop = .joinWait a t) (hex : (h.threads t).map Thread.stage = some .exited)
    (ha : a ∈ h.addrs) :
    (h.loopAt (.joining (nextAddr a h.registry.clientList))).JoinedSoFar := by
  obtain ⟨th, ht, hst⟩ := Option.map_eq_some_iff.mp hex
  have hle : ∀ n ∈ h.registry.clientList, n.addr ≤ a → h.Ended n := by
    intro n hn hle
    rcases Nat.lt_or_eq_of_le hle with hlt | heq
    · exact hj.passed n hn (by rw [hl]; exact hlt)
    · exact ⟨t, th, hj.waits a t hl n hn heq, ht, hst⟩
  rw [nextAddr_eq_after]
  refine ⟨fun n hn hp => hle n hn ?_, fun b t' hl' => ?_, fun b hb => ?_⟩
  · have hmem : n.addr ∈ h.addrs := List.mem_map_of_mem hn
    cases hnext : after a h.addrs with
    | none => exact le_of_after_none hw.ordered ha hnext _ hmem
    | some b =>
        have hp : (LoopPoint.joining (after a h.addrs)).Passed n.addr := hp
        rw [hnext] at hp
        by_contra hgt
        exact absurd ((after_spec hw.ordered hnext).2 _ hmem (Nat.not_le.mp hgt))
          (Nat.not_le.mpr hp)
  · cases hl'
  · exact hw.turning.sound.addr_lt b (mem_of_after (Option.mem_toList.mp hb))

/-- Before the walk. -/
theorem joinedSoFar_before (hp : ∀ a, ¬ h.loop.Passed a) (hl : h.loop.held = []) :
    h.JoinedSoFar where
  passed := fun n _ hn => absurd hn (hp n.addr)
  waits := fun a t he => by
    rw [he] at hl
    cases hl
  handedOut := fun a ha => by
    rw [hl] at ha
    cases ha

/-- After the walk. -/
theorem JoinedSoFar.over (hj : h.JoinedSoFar) (hover : h.loop.Joined) {l : LoopPoint}
    (hl : l.Joined) : (h.loopAt l).JoinedSoFar := by
  refine ⟨fun n hn _ => hj.passed n hn ?_, fun a t he => ?_, fun a ha => ?_⟩
  · cases hloop : h.loop with
    | joining node =>
        cases node with
        | none => trivial
        | some b =>
            rw [hloop] at hover
            exact hover.elim
    | freeing | freed => trivial
    | _ =>
        rw [hloop] at hover
        exact hover.elim
  · replace he : l = .joinWait a t := he
    rw [he] at hl
    exact hl.elim
  · replace ha : a ∈ l.held := ha
    cases l with
    | joining node =>
        cases Option.mem_toList.mp ha
        exact hl.elim
    | freeing | freed => cases ha
    | _ => exact hl.elim

theorem JoinedSoFar.loopGoes (hj : h.JoinedSoFar) (hw : h.Walked) (hg : h.JoinsAll m)
    {l : LoopPoint} (hgo : LoopGoes h m l) : (h.loopAt l).JoinedSoFar := by
  cases hgo with
  | tests hl | fails hl =>
      split
      · exact joinedSoFar_head hw
      · exact joinedSoFar_before (fun _ => id) rfl
  | counts | noMemory | noThread => exact joinedSoFar_before (fun _ => id) rfl
  | allJoined hl | allFreed hl => exact hj.over (by rw [hl]; trivial) trivial
  | joinsGone hl hn =>
      have hmem := hg _ (by rw [hl]; exact List.mem_singleton_self _)
      obtain ⟨n, hn', ha⟩ := List.mem_map.mp hmem
      exact absurd ha (look_eq_none_iff.mp hn n hn')
  | joins hl hn hc =>
      refine ⟨fun n' hn' hp => hj.passed n' hn' (by rw [hl]; exact hp), fun a t he n' hn' ha => ?_,
        fun a ha => hj.handedOut a (by rw [hl]; exact ha)⟩
      cases he
      have hsame := look_of_mem hw.turning.sound.wf.addrs hn'
      rw [ha, hn] at hsame
      cases hsame
      exact hc
  | joined hl hex =>
      exact hj.joined hw hl hex (hg _ (by rw [hl]; exact List.mem_singleton_self _))

theorem JoinedSoFar.step (hj : h.JoinedSoFar) (hw : h.Walked) (hw' : h'.Walked)
    (hg : h.JoinsAll m) (hstep : Stepped h m h' acts) : h'.JoinedSoFar := by
  have hs := hw.turning.sound
  have hs' := hw'.turning.sound
  have hnew : ∀ n : ClientNode, h.Registers m n.fd → ¬ h.loop.Joined := by
    rintro n ⟨t, th, ok, rfl, -⟩
    exact hg
  cases hstep with
  | loops hgo => exact hj.loopGoes hw hg hgo
  | accepts => exact joinedSoFar_before (fun _ => id) rfl
  | spawns => exact joinedSoFar_before (fun _ => id) rfl
  | turnsAway => exact joinedSoFar_before (fun _ => id) rfl
  | frees hl hlist => exact hj.stays hs hs' (.frees hl hlist) rfl hnew
  | terminates => exact hj.stays hs hs' .terminates rfl hnew
  | registers ht hst hfree => exact hj.stays hs hs' (.registers ht hst hfree) rfl hnew
  | greets ht hst => exact hj.stays hs hs' (.greets ht hst) rfl hnew
  | serves ht hst hp hfree => exact hj.stays hs hs' (.serves ht hst hp hfree) rfl hnew
  | closes ht hst hfree => exact hj.stays hs hs' (.closes ht hst hfree) rfl hnew
  | quiet ht hq => exact hj.stays hs hs' (.quiet ht hq) rfl hnew

theorem joinedSoFar_of_run {ms : List Move} (hplay : play hostStep .boot ms = some h)
    (hjoins : EveryStep hostStep JoinsAll .boot ms) : h.JoinedSoFar :=
  (everywhere_of_everyStep (fun _ _ _ _ hw hs => Walked.step hw hs)
    (fun _ _ _ _ hw hj hs hg => hj.step hw (hw.step hs) hg (stepped_of_hostStep hs)) ms
    walked_boot joinedSoFar_boot hjoins).at_play hplay

end Host

/-- If the walk of `join_all_client_threads` finds every node it is at, and nobody registers once it
is over, then the nodes that are freed, and those that are left to be freed, are those of threads
that have ended. -/
theorem ended_before_freed {h : Host} {ms : List Move} (hplay : play hostStep .boot ms = some h)
    (hjoins : EveryStep hostStep Host.JoinsAll .boot ms) (hshut : h.loop.Shut) :
    ∀ n ∈ h.registry.clientList, ∃ t th, h.conns n.fd = some t ∧ h.threads t = some th ∧
      th.stage = .exited := by
  have hpassed : ∀ a, h.loop.Passed a := by
    intro a
    cases hl : h.loop with
    | freeing | freed => trivial
    | _ =>
        rw [hl] at hshut
        exact hshut.elim
  intro n hn
  exact (Host.joinedSoFar_of_run hplay hjoins).passed n hn (hpassed n.addr)

/-- A third client registers while the first one is waited for; all three are joined. -/
@[irreducible] def joinsThree : List Move :=
  arrives 0 4 ++ arrives 1 5 ++ calls 6 ++ [loopGo, .sigint, .acceptFails true, loopGo] ++
    shakes 2 ++ [tells 0 (.ofType .clientTxType), go 0, go 0, loopGo, loopGo,
      tells 1 (.ofType .clientTxType), go 1, go 1, loopGo, loopGo, loopGo, loopGo, loopGo]

theorem two_left_to_free : (afterMoves joinsThree).loop = .freeing ∧
    ∀ n ∈ (afterMoves joinsThree).registry.clientList, ∃ t th,
      (afterMoves joinsThree).conns n.fd = some t ∧ (afterMoves joinsThree).threads t = some th ∧
        th.stage = .exited := by
  have hfreeing : (afterMoves joinsThree).loop = .freeing := by decide +kernel
  exact ⟨hfreeing, ended_before_freed
    (show play hostStep .boot joinsThree = _ from play_final (by decide +kernel))
    (by decide +kernel) (by rw [hfreeing]; trivial)⟩

end ChatSocket
