/-
# `Host.Pointers` — nodes that are read after they are gone

A node is read without the mutex in three ways: through a name pointer that
`get_client_name_by_fd` returned in an earlier section, by the walk of
`get_client_list`, and by the walk of `join_all_client_threads`.  `held` is
what a thread or the accept loop can still read so.  A pointer is taken while its
node is there; it dangles once the node is removed by its own thread or freed.

`held_present_everywhere` says that these are all the ways: no pointer that is
still held ever dangles exactly as long as no node is removed or freed that
somebody else holds a pointer to, and then every read is of a node that is
there.
-/
import ChatSocket.Host.Effects

namespace ChatSocket

open Kit Registry

/-- The node behind a name pointer. -/
def CharPtr.node : CharPtr → List Nat
  | undefName => []
  | nodeName addr => [addr]

/-- The node the next step reads without the mutex. -/
def Point.reads : Point → List Nat
  | copyAsker _ p _ | copyRefused p | checkConn _ p _ | checkMine _ _ p | copyMine _ _ p
  | copyConn _ p _ | copyDecliner _ p => p.node
  | _ => []

/-- The nodes that can still be read without the mutex. -/
def Point.held : Point → List Nat
  | claim _ p | link _ p _ | copyAsker _ p _ | refuse p | copyRefused p | copyConn _ p _
  | copyDecliner _ p => p.node
  | checkConn _ p q | checkMine _ p q | copyMine _ p q => p.node ++ q.node
  | _ => []

def Stage.reads : Stage → List Nat
  | serving p => p.reads
  | listing node _ _ => [node]
  | _ => []

def Stage.held : Stage → List Nat
  | serving p => p.held
  | listing node _ _ => [node]
  | _ => []

/-- The node `join_all_client_threads` is at. -/
def LoopPoint.held : LoopPoint → List Nat
  | joining node => node.toList
  | joinWait node _ => [node]
  | _ => []

/-- The node has not been removed. -/
def Registry.Present (r : Registry) (addr : Nat) : Prop := addr ∈ r.clientList.map ClientNode.addr

instance (r : Registry) (addr : Nat) : Decidable (r.Present addr) :=
  inferInstanceAs (Decidable (_ ∈ _))

/-- The step reads no node that has been removed. -/
def Move.ReadsPresent (h : Host) : Move → Prop
  | .thread t _ => ∀ th ∈ h.threads t, ∀ addr ∈ th.stage.reads, h.registry.Present addr
  | .acceptLoop _ _ => ∀ addr ∈ h.loop.held, h.registry.Present addr
  | _ => True

instance (h : Host) : ∀ m : Move, Decidable (m.ReadsPresent h)
  | .thread t _ => inferInstanceAs (Decidable (∀ th ∈ h.threads t, _))
  | .acceptLoop _ _ => inferInstanceAs (Decidable (∀ addr ∈ h.loop.held, _))
  | .accepts _ | .acceptFails _ | .sigint => inferInstanceAs (Decidable True)

namespace Host

/-- Somebody can still read the node. -/
def Held (h : Host) (addr : Nat) : Prop :=
  (∃ t th, h.threads t = some th ∧ addr ∈ th.stage.held) ∨ addr ∈ h.loop.held

/-- Every node that can still be read is there. -/
def HeldPresent (h : Host) : Prop := ∀ addr, h.Held addr → h.registry.Present addr

end Host

/-- The steps that spare what others hold: a thread that sees its connection closed removes no
node, and `free_all_client_nodes` frees none, that somebody can still read. -/
def Move.SparesHeld (h : Host) : Move → Prop
  | .thread t _ => ∀ th, h.threads t = some th → th.stage = .closing →
      ∀ n, h.registry.node th.fd = some n → ¬ h.Held n.addr
  | .acceptLoop _ _ =>
      h.loop = .freeing → ∀ n, h.registry.clientList.head? = some n → ¬ h.Held n.addr
  | _ => True

/-! ## Where pointers come from -/

theorem present_of_mem {r : Registry} {n : ClientNode} (hn : n ∈ r.clientList) : r.Present n.addr :=
  List.mem_map_of_mem hn

theorem present_getClientNameByFd (r : Registry) (fd : Int) :
    ∀ addr ∈ (r.getClientNameByFd fd).node, r.Present addr := by
  intro addr ha
  rw [getClientNameByFd_eq] at ha
  split at ha
  · cases ha
  · cases hn : r.node fd with
    | none =>
        rw [hn] at ha
        cases ha
    | some n =>
        rw [hn] at ha
        obtain rfl := List.mem_singleton.mp ha
        exact present_of_mem (look_mem hn)

theorem present_head (r : Registry) {addr : Nat}
    (h : r.clientList.head?.map ClientNode.addr = some addr) : r.Present addr := by
  obtain ⟨n, hn, rfl⟩ := Option.map_eq_some_iff.mp h
  exact present_of_mem (List.mem_of_mem_head? hn)

/-- What follows a node in the list is in the list. -/
theorem mem_of_nextAddr {a b : Nat} : ∀ {l : List ClientNode}, nextAddr a l = some b →
    b ∈ l.map ClientNode.addr
  | [], h => nomatch h
  | n :: l, h => by
      rw [nextAddr] at h
      split at h
      · obtain ⟨m, hm, rfl⟩ := Option.map_eq_some_iff.mp h
        exact List.mem_map_of_mem (List.mem_cons_of_mem n (List.mem_of_mem_head? hm))
      · exact List.mem_cons_of_mem _ (mem_of_nextAddr h)

/-- A handler holds no pointer but those it held, and those of nodes that are there. -/
theorem Point.held_next (fd : Int) (r : Registry) (p : Point) :
    ∀ addr ∈ (p.next fd r).held, addr ∈ p.held ∨ r.Present addr := by
  have hname : ∀ g, ∀ addr ∈ (r.getClientNameByFd g).node, r.Present addr :=
    present_getClientNameByFd r
  cases p with
  | connect name =>
      simp only [next]
      split
      · exact List.forall_mem_nil _
      split
      · exact List.forall_mem_nil _
      split
      · exact fun addr ha => Or.inr (hname fd addr ha)
      all_goals exact List.forall_mem_nil _
  | claim name myName =>
      simp only [next]
      split
      · exact List.forall_mem_nil _
      · exact fun _ ha => Or.inl ha
  | accept =>
      simp only [next]
      split
      · exact List.forall_mem_nil _
      split
      · exact List.forall_mem_nil _
      split
      · exact fun addr ha => Or.inr (hname _ addr ha)
      split
      · exact List.forall_mem_nil _
      · exact List.forall_mem_nil _
  | pair connFd =>
      intro addr ha
      rcases List.mem_append.mp ha with ha | ha
      · exact Or.inr (hname _ addr ha)
      · exact Or.inr (hname _ addr ha)
  | checkConn | checkMine =>
      simp only [next]
      split
      · exact List.forall_mem_nil _
      · exact fun _ ha => Or.inl ha
  | copyMine connFd connName myName => exact fun _ ha => Or.inl (List.mem_append_left _ ha)
  | decline =>
      simp only [next]
      split
      · exact List.forall_mem_nil _
      · exact fun addr ha => Or.inr (hname _ addr ha)
  | link | refuse => exact fun _ ha => Or.inl ha
  | setName msg =>
      simp only [next]
      repeat' split
      all_goals exact List.forall_mem_nil _
  | tx msg =>
      simp only [next]
      repeat' split
      all_goals exact List.forall_mem_nil _
  | _ => exact List.forall_mem_nil _

theorem Point.held_start (msg : Msg) : (start msg).held = [] := by
  unfold start
  split <;> rfl

theorem Point.reads_subset (p : Point) : ∀ addr ∈ p.reads, addr ∈ p.held := by
  cases p with
  | checkConn => exact fun addr ha => List.mem_append_left _ ha
  | checkMine | copyMine => exact fun addr ha => List.mem_append_right _ ha
  | copyAsker | copyRefused | copyConn | copyDecliner => exact fun addr ha => ha
  | _ => exact fun addr ha => nomatch ha

/-! ## The steps -/

namespace Host

variable {h h' : Host} {m : Move} {acts : List Act}

/-- A quiet step takes no pointer but to a node that is there. -/
theorem held_quiets {r : Registry} {terminate : Bool} {stage stage' : Stage} {answer : Answer}
    (hq : Quiets r terminate stage answer stage') :
    ∀ addr ∈ stage'.held, r.Present addr := by
  cases hq with
  | hears =>
      refine rx_cases (P := fun s => ∀ addr ∈ s.held, r.Present addr) _ (fun _ ha => nomatch ha) ?_
      show ∀ addr ∈ (Point.start _).held, _
      rw [Point.held_start]
      exact fun _ ha => nomatch ha
  | lists =>
      refine listOn_cases (P := fun s => ∀ addr ∈ s.held, r.Present addr) _ _
        (fun _ _ ha => nomatch ha) fun b hb addr ha => ?_
      obtain rfl := List.mem_singleton.mp ha
      exact present_head r hb
  | visits =>
      refine visit_cases (P := fun s => ∀ addr ∈ s.held, r.Present addr) _ _ _ _
        (fun _ _ ha => nomatch ha) fun b _ _ hb addr ha => ?_
      obtain rfl := List.mem_singleton.mp ha
      exact mem_of_nextAddr hb
  | _ => exact fun _ ha => nomatch ha

/-- The accept loop takes no pointer but to a node that is there. -/
theorem held_loopGoes {l : LoopPoint} (hl : LoopGoes h m l) :
    ∀ addr ∈ l.held, addr ∈ h.loop.held ∨ h.registry.Present addr := by
  have hhead : ∀ addr ∈ h.joinHead.held, h.registry.Present addr :=
    fun addr ha => present_head _ (Option.mem_toList.mp ha)
  cases hl with
  | tests | fails =>
      intro addr ha
      split at ha
      · exact Or.inr (hhead addr ha)
      · cases ha
  | joins hj _ _ =>
      intro addr ha
      obtain rfl := List.mem_singleton.mp ha
      left
      rw [hj]
      exact List.mem_singleton_self _
  | joined _ _ => exact fun addr ha => Or.inr (mem_of_nextAddr (Option.mem_toList.mp ha))
  | _ => exact fun _ ha => nomatch ha

/-- After a step, what can be read could be read before, or is taken from the list. -/
theorem held_step (hstep : Stepped h m h' acts) {addr : Nat} (ha : h'.Held addr) :
    h.Held addr ∨ h.registry.Present addr := by
  rcases ha with ⟨t, th, ht, ha⟩ | ha
  · revert ht ha
    refine forall_threads hstep
      (P := fun _ th => addr ∈ th.stage.held → h.Held addr ∨ h.registry.Present addr)
      (fun _ _ _ ha => nomatch ha) ?_ ?_ t th
    · rintro t answer th th' rfl ht ht' ha
      cases goes_of_step hstep ht ht' with
      | registers hst => rcases hst with rfl | rfl <;> cases ha
      | greets | closes => cases ha
      | serves =>
          rcases Point.held_next _ _ _ addr ha with ha | ha
          · exact Or.inl (Or.inl ⟨t, _, ht, ha⟩)
          · exact Or.inr ha
      | quiet hq => exact Or.inr (held_quiets hq addr ha)
    · exact fun t th _ ht ha => Or.inl (Or.inl ⟨t, th, ht, ha⟩)
  · cases hstep with
    | loops hl =>
        rcases held_loopGoes hl addr ha with ha | ha
        · exact Or.inl (Or.inr ha)
        · exact Or.inr ha
    | accepts | spawns | turnsAway => cases ha
    | frees | terminates | registers | greets | serves | closes | quiet =>
        exact Or.inl (Or.inr ha)

/-- A node that is there stays, unless its thread removes it or it is freed. -/
theorem present_kept (hs : h.Sound) (hstep : Stepped h m h' acts) {addr : Nat}
    (ha : h.registry.Present addr)
    (hclose : ∀ n, h.Closes m n.fd → n ∈ h.registry.clientList → n.addr ≠ addr)
    (hfree : ∀ a b, m = .acceptLoop a b → h.loop ≠ .freeing) : h'.registry.Present addr := by
  obtain ⟨n, hn, rfl⟩ := List.mem_map.mp ha
  obtain ⟨n', hn', ha', -⟩ := node_kept hs hstep hn (fun hc => hclose n hc hn rfl) hfree
  exact ha' ▸ present_of_mem hn'

/-- A thread that exits takes no pointer with it. -/
theorem held_of_closes (hstep : Stepped h m h' acts) {fd : Int} (hclose : h.Closes m fd)
    {addr : Nat} (ha : h'.Held addr) : h.Held addr := by
  obtain ⟨t, th, -, rfl⟩ := step_of_closes hstep hclose
  rcases ha with ⟨t', th', ht', ha⟩ | ha
  · rw [threads_goto] at ht'
    split at ht'
    · cases ht'
      cases ha
    · exact Or.inl ⟨t', th', ht', ha⟩
  · exact Or.inr ha

/-- A step that spares what others hold leaves no pointer dangling. -/
theorem heldPresent_step (hs : h.Sound) (hp : h.HeldPresent) (hstep : Stepped h m h' acts)
    (hm : m.SparesHeld h) : h'.HeldPresent := by
  intro addr ha
  rcases em (∃ fd, h.Closes m fd) with ⟨fd, hclose⟩ | hclose
  · have hheld := held_of_closes hstep hclose ha
    obtain ⟨t, th, rfl, ht, hst, rfl⟩ := hclose
    refine present_kept hs hstep (hp addr hheld) (fun n hc hn hna => ?_) (fun _ _ he => nomatch he)
    obtain ⟨t', th', he, ht', hst', hfd⟩ := hc
    cases he
    refine hm th' ht' hst' n ?_ (hna ▸ hheld)
    rw [hfd]
    exact hs.wf.node_of_mem hn
  · have hpres : h.registry.Present addr := (held_step hstep ha).elim (hp addr) id
    rcases em (∃ a b, m = .acceptLoop a b ∧ h.loop = .freeing) with ⟨a, b, rfl, hl⟩ | hfree
    · cases hstep with
      | @frees n rest _ _ _ hlist =>
          have hheld : h.Held addr := ha
          rw [Registry.Present, hlist] at hpres
          rcases List.mem_cons.mp hpres with rfl | hrest
          · exact absurd hheld (hm hl n (by rw [hlist]; rfl))
          · exact hrest
      | loops => exact hpres
      | spawns hl' | turnsAway hl' =>
          rw [hl] at hl'
          cases hl'
    · exact present_kept hs hstep hpres (fun n hc _ => absurd ⟨_, hc⟩ hclose)
        fun a b he hl => hfree ⟨a, b, he, hl⟩

/-- Nobody is left with a dangling pointer exactly by the steps that spare what others hold. -/
theorem heldPresent_step_iff (hs : h.Sound) (hp : h.HeldPresent) (hstep : Stepped h m h' acts) :
    h'.HeldPresent ↔ m.SparesHeld h := by
  refine ⟨fun hp' => ?_, heldPresent_step hs hp hstep⟩
  cases hstep with
  | @closes t th ht hst hfree =>
      intro th' ht' _ n hn hheld
      rw [ht] at ht'
      cases ht'
      have hclose : h.Closes (.thread t .none) th.fd := ⟨t, th, rfl, ht, hst, rfl⟩
      have hstep := Stepped.closes ht hst hfree
      -- whoever holds the node is another thread, and still holds it
      have hheld' : Held ((h.perform (closedActs h.registry th.fd) false).goto t th .exited)
          n.addr := by
        rcases hheld with ⟨t', th', ht', ha⟩ | ha
        · refine Or.inl ⟨t', th', ?_, ha⟩
          rw [threads_goto, if_neg]
          · exact ht'
          · rintro rfl
            rw [ht] at ht'
            cases ht'
            rw [hst] at ha
            cases ha
        · exact Or.inr ha
      obtain ⟨n', hn', ha⟩ := List.mem_map.mp (hp' n.addr hheld')
      obtain ⟨n₀, hn₀, ha₀, hfd₀⟩ := (node_step hs hstep hn').resolve_right
        fun ⟨⟨_, _, _, he, _⟩, _⟩ => nomatch he
      have hsame : n₀ = n :=
        List.inj_on_of_nodup_map hs.wf.addrs hn₀ (look_mem hn) (ha₀.trans ha)
      have hfd : n.fd = th.fd := look_key hn
      exact no_node_of_closes hs hstep hclose hn' (by rw [← hfd₀, hsame, hfd])
  | @frees n rest _ _ hl hlist =>
      intro _ m hm hheld
      rw [hlist] at hm
      cases hm
      have hnd := hs.wf.addrs
      rw [hlist, List.map_cons, List.nodup_cons] at hnd
      exact hnd.1 (hp' n.addr hheld)
  | loops hgoes =>
      cases hgoes with
      | fails => trivial
      | allFreed _ hlist =>
          intro _ n hn
          rw [hlist] at hn
          cases hn
      | tests hl | counts hl | noMemory hl | noThread hl | allJoined hl | joinsGone hl | joins hl
      | joined hl =>
          intro hf
          rw [hl] at hf
          cases hf
  | spawns hl | turnsAway hl =>
      intro hf
      rw [hl] at hf
      cases hf
  | registers ht hst | greets ht hst | serves ht hst =>
      intro th ht' hcl
      rw [ht] at ht'
      cases ht'
      rw [hst] at hcl
      cases hcl
  | quiet ht hq =>
      intro th ht' hcl
      rw [ht] at ht'
      cases ht'
      rw [hcl] at hq
      cases hq
  | accepts | terminates => trivial

end Host

/-- The next step reads nothing but what is held. -/
theorem Host.HeldPresent.reads {h : Host} (hp : h.HeldPresent) (m : Move) : m.ReadsPresent h := by
  cases m with
  | thread t answer =>
      intro th ht addr ha
      refine hp addr (Or.inl ⟨t, th, ht, ?_⟩)
      cases hst : th.stage with
      | serving p =>
          rw [hst] at ha
          exact p.reads_subset addr ha
      | listing =>
          rw [hst] at ha
          exact ha
      | _ =>
          rw [hst] at ha
          cases ha
  | acceptLoop a b => exact fun addr ha => hp addr (Or.inr ha)
  | accepts | acceptFails | sigint => trivial

/-- Over whole runs, no pointer that can still be read dangles exactly as long as every step
spares what others hold; and then every node that is read is there. -/
theorem held_present_everywhere (ms : List Move) :
    (Everywhere hostStep Host.HeldPresent .boot ms ↔
      EveryStep hostStep (fun h m => m.SparesHeld h) .boot ms) ∧
    (EveryStep hostStep (fun h m => m.SparesHeld h) .boot ms →
      EveryStep hostStep (fun h m => m.ReadsPresent h) .boot ms) := by
  have hboot : Host.HeldPresent .boot := by
    rintro addr (⟨t, th, ht, -⟩ | ha)
    · cases ht
    · cases ha
  have hiff : Everywhere hostStep Host.HeldPresent .boot ms ↔
      EveryStep hostStep (fun h m => m.SparesHeld h) .boot ms :=
    everywhere_iff (fun _ _ _ _ hs hstep => Host.Sound.step hs hstep)
      (fun _ _ _ _ hs hp hstep => Host.heldPresent_step_iff hs hp (stepped_of_hostStep hstep)) ms
      Host.sound_boot hboot
  exact ⟨hiff, fun hm => (hiff.mpr hm).everyStep fun _ m hp => hp.reads m⟩

/-- A client disconnects while another is sent the list of clients. -/
theorem list_walk_reads_removed_node :
    ¬ ∀ ms, EveryStep hostStep (fun h m => m.ReadsPresent h) .boot ms := by
  intro h
  have hrun := h (arrives 0 4 ++ arrives 1 5 ++
    [tells 0 (.ofType .getClientListType), go 0, go 0, hangs 1, go 1, go 0])
  revert hrun
  decide +kernel

end ChatSocket
