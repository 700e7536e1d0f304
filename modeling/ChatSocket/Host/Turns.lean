/-
# `Host.Turns` — every handler returns

A handler is a few sections, sends and looks (`Point.rank`).  The walk of
`send_client_list_handler` is a loop over a list that others change under it; it
ends because every name it has written makes its text longer, and the text has to
fit into one message.

So a thread that has started to handle a message is done with it after a bounded
number of its own steps, whatever happens between them, and each of these steps can
be made unless it needs the mutex and somebody holds it: `handlers_return`.  A
message sent is one such step; that the kernel can hold up a `send` to a peer that
does not read is not in the model.

If a handler leaves the mutex held, that is for good.  From then on nobody
registers, nobody's status, link or name changes, whoever needs the mutex waits for
ever, and one more connection is accepted at most: `mutex_held_stalls`.
-/
import ChatSocket.Host.Alone
import ChatSocket.Server.Listing
import ChatSocket.Kit.Turns

namespace ChatSocket

open Kit Registry

/-- The thread is in `handle_rx_msg`. -/
def Stage.Handling : Stage → Prop
  | serving p => p ≠ .done
  | listHead | listing _ _ _ => True
  | _ => False

instance : DecidablePred Stage.Handling
  | .serving p => inferInstanceAs (Decidable (p ≠ .done))
  | .listHead | .listing _ _ _ => inferInstanceAs (Decidable True)
  | .starting | .greeting | .awaitingAck | .polling | .closing | .exited =>
      inferInstanceAs (Decidable False)

/-- The thread needs the mutex for its next step. -/
def Stage.Waits : Stage → Prop
  | starting | closing => True
  | serving p => p.locks = true
  | _ => False

/-- What a thread in a handler still does there, at most. -/
def Stage.turns : Stage → Nat
  | serving p => p.rank
  | listHead => maxMsgLen + 2
  | listing _ _ listLen => maxMsgLen - listLen + 1
  | _ => 0

/-- No handler does more. -/
def handlerTurns : Nat := maxMsgLen + 2

theorem Stage.Handling.turns_pos {s : Stage} (hs : s.Handling) : 0 < s.turns := by
  cases s with
  | serving p =>
      cases p with
      | done => exact absurd rfl hs
      | _ => simp [turns, Point.rank]
  | listHead | listing => simp [turns]
  | _ => exact hs.elim

theorem Stage.turns_le (s : Stage) : s.turns ≤ handlerTurns := by
  cases s with
  | serving p => cases p <;> simp [turns, Point.rank, handlerTurns, maxMsgLen]
  | listing _ _ listLen =>
      simp only [turns, handlerTurns]
      omega
  | _ => simp [turns, handlerTurns]

/-! ## The walk of the list -/

/-- `list_len` is the length of the text in the list. -/
def Stage.Tracked : Stage → Prop
  | listing _ list listLen => list.str.length = listLen ∧ listLen < maxMsgLen
  | _ => True

section
variable {name : List UInt8} {list list' : Buf maxMsgLen} {listLen listLen' : Nat}

/-- A name that fits is written behind the text, with a space. -/
theorem listNode_eq_some (hlist : list.str.length = listLen)
    (h : listNode name list listLen = some (list', listLen')) :
    list'.str = list.str ++ cstr name ++ [space] ∧ list'.str.length = listLen' ∧
      listLen < listLen' ∧ listLen' < maxMsgLen := by
  unfold listNode at h
  split at h
  · cases h
  · next hfits =>
      have hfits := Nat.not_le.mp hfits
      obtain ⟨hlen, hstr, hnext⟩ := str_append_name hlist hfits
      simp only [hlen, if_pos hfits, Option.some.injEq, Prod.mk.injEq] at h
      obtain ⟨rfl, rfl⟩ := h
      exact ⟨hstr, hnext, by omega, hfits⟩

theorem tracked_listOn (next : Option Nat) (hlist : list.str.length = listLen)
    (hlt : listLen < maxMsgLen) : (listOn next list listLen).Tracked :=
  listOn_cases (P := Stage.Tracked) list listLen (fun _ => trivial) fun _ _ => ⟨hlist, hlt⟩

theorem tracked_visit (r : Registry) (a : Nat) (hlist : list.str.length = listLen) :
    (visit r a list listLen).Tracked := by
  unfold visit
  split
  · trivial
  · split
    · trivial
    · next hnode =>
        obtain ⟨-, hlen, -, hlt⟩ := listNode_eq_some hlist hnode
        exact tracked_listOn _ hlen hlt

/-- A visit of a node. -/
theorem turns_visit (r : Registry) (a : Nat) (hlist : list.str.length = listLen)
    (hlt : listLen < maxMsgLen) : (visit r a list listLen).turns < maxMsgLen - listLen + 1 := by
  have hreply : ∀ list : Buf maxMsgLen, (listReply list).turns < maxMsgLen - listLen + 1 := by
    intro list
    show 1 < _
    omega
  unfold visit
  split
  · exact hreply list
  · split
    · exact hreply list
    · next hnode =>
        obtain ⟨-, -, hgrows, hlt'⟩ := listNode_eq_some hlist hnode
        cases nextAddr a r.clientList with
        | none => exact hreply _
        | some b =>
            show maxMsgLen - _ + 1 < _
            omega

end

namespace Host

variable {h h' : Host} {m : Move} {acts : List Act}

/-- The walks of all threads. -/
def ListsTracked (h : Host) : Prop := ∀ t th, h.threads t = some th → th.stage.Tracked

theorem ListsTracked.step (hl : h.ListsTracked) (hstep : Stepped h m h' acts) :
    h'.ListsTracked := by
  refine forall_threads hstep (fun _ _ _ => trivial) ?_ fun t th _ ht => hl t th ht
  intro t answer th th' he ht ht'
  subst he
  cases goes_of_step hstep ht ht' with
  | registers hst =>
      rcases hst with rfl | rfl
      · trivial
      · trivial
  | greets | serves | closes => trivial
  | quiet hq =>
      cases hq with
      | hears => exact rx_cases (P := Stage.Tracked) _ trivial trivial
      | lists => exact tracked_listOn _ rfl (by decide)
      | visits => exact tracked_visit _ _ (hl t _ ht).1
      | _ => trivial

/-- The process as far as the turns of its handlers go. -/
structure Turning (h : Host) : Prop where
  sound : h.Sound
  lists : h.ListsTracked

theorem turning_boot : boot.Turning := ⟨sound_boot, fun _ _ ht => by cases ht⟩

theorem Turning.step (ht : h.Turning) (hs : hostStep h m = some (h', acts)) : h'.Turning :=
  ⟨ht.sound.step hs, ht.lists.step (stepped_of_hostStep hs)⟩

theorem turning_of_reachable (hr : Reachable hostStep boot h) : h.Turning :=
  hr.inv (fun _ _ _ _ ht hs => ht.step hs) turning_boot

/-- A step of a thread. -/
theorem threads_of_step {t : Nat} {answer : Answer}
    (hstep : Stepped h (.thread t answer) h' acts) :
    ∃ th th', h.threads t = some th ∧ h'.threads = Function.update h.threads t (some th') ∧
      h'.accepts = h.accepts ∧ h'.loop = h.loop ∧ h'.terminate = h.terminate := by
  cases hstep with
  | loops hl => cases hl
  | registers ht | greets ht | serves ht | closes ht | quiet ht =>
      exact ⟨_, _, ht, rfl, rfl, rfl, rfl⟩

theorem thread_after {t : Nat} {answer : Answer} (hstep : Stepped h (.thread t answer) h' acts) :
    ∃ th', h'.threads t = some th' := by
  obtain ⟨th, th', -, hthreads, -⟩ := threads_of_step hstep
  exact ⟨th', by rw [hthreads, Function.update_self]⟩

/-- A handler goes on or returns. -/
theorem handling_next (p : Point) (fd : Int) (r : Registry) :
    (Stage.serving (p.next fd r)).Handling ∨ Stage.serving (p.next fd r) = .serving .done := by
  rcases em (p.next fd r = .done) with he | hne
  · exact Or.inr (congrArg Stage.serving he)
  · exact Or.inl hne

theorem handling_visit (r : Registry) (a : Nat) (list : Buf maxMsgLen) (listLen : Nat) :
    (visit r a list listLen).Handling :=
  visit_cases (P := Stage.Handling) r a list listLen (fun _ => Point.noConfusion)
    fun _ _ _ _ => trivial

/-- An own step of a thread in a handler: it is still there, or has returned, and has fewer steps
left. -/
theorem handling_step (hl : h.ListsTracked) {t : Nat} {answer : Answer} {th th' : Thread}
    (hstep : Stepped h (.thread t answer) h' acts) (ht : h.threads t = some th)
    (ht' : h'.threads t = some th') (hh : th.stage.Handling) :
    (th'.stage.Handling ∨ th'.stage = .serving .done) ∧ th'.stage.turns < th.stage.turns := by
  cases goes_of_step hstep ht ht' with
  | registers | greets | closes => exact hh.elim
  | serves hp => exact ⟨handling_next _ _ _, Point.rank_next hp _ _⟩
  | quiet hq =>
      cases hq with
      | stops | polls => exact absurd rfl hh
      | lists =>
          refine listOn_cases
            (P := fun s => (s.Handling ∨ s = .serving .done) ∧ s.turns < maxMsgLen + 2)
            _ _ (fun _ => ?_) fun _ _ => ?_
          · exact ⟨Or.inl Point.noConfusion, (by decide : 1 < maxMsgLen + 2)⟩
          · exact ⟨Or.inl trivial, Nat.lt_succ_self _⟩
      | visits =>
          obtain ⟨hlist, hlt⟩ := hl t _ ht
          exact ⟨Or.inl (handling_visit _ _ _ _), turns_visit _ _ hlist hlt⟩
      | _ => exact hh.elim

/-- A step of somebody who waits for the mutex would need it. -/
theorem not_waits_of_step (hheld : h.server.mutexHeld = true) {t : Nat} {answer : Answer}
    (hstep : Stepped h (.thread t answer) h' acts) {th : Thread} (ht : h.threads t = some th) :
    ¬ th.stage.Waits := by
  have hne : ¬ h.server.mutexHeld = false := by simp [hheld]
  obtain ⟨fd, stage⟩ := th
  cases hstep with
  | loops hl => cases hl
  | registers _ _ hfree | closes _ _ hfree => exact absurd hfree hne
  | greets hth hst =>
      rw [ht] at hth
      cases hth
      cases hst
      exact id
  | serves hth hst _ hfree =>
      rw [ht] at hth
      cases hth
      cases hst
      exact fun hw => hne (hfree hw)
  | quiet hth hq =>
      rw [ht] at hth
      cases hth
      cases hq with
      | stops | polls => exact Bool.false_ne_true
      | _ => exact id

/-- In a handler, the mutex is all there is to wait for. -/
theorem possible_iff_of_handling {t : Nat} {th : Thread} (ht : h.threads t = some th)
    (hh : th.stage.Handling) :
    (hostStep h (go t)).isSome ↔ (th.stage.Waits → h.server.mutexHeld = false) := by
  constructor
  · intro hstep hw
    obtain ⟨⟨h', acts⟩, hstep⟩ := Option.isSome_iff_exists.mp hstep
    refine Bool.eq_false_iff.mpr fun hheld => ?_
    exact not_waits_of_step hheld (stepped_of_hostStep hstep) ht hw
  · intro hfree
    obtain ⟨fd, stage⟩ := th
    cases stage with
    | serving p =>
        have hlocks : (p.locks && h.server.mutexHeld) = false := by
          cases hl : p.locks with
          | false => rfl
          | true => exact hfree hl
        rw [step_serving ht hh hlocks]
        rfl
    | listHead | listing =>
        show ((h.threads t).bind fun th => h.threadStep t th .none).isSome
        rw [ht]
        rfl
    | _ => exact hh.elim

/-- Thread `t` has returned from `handle_rx_msg`. -/
def DoneHandling (h : Host) (t : Nat) : Prop :=
  ∃ th, h.threads t = some th ∧ th.stage = .serving .done

/-- Thread `t` is in `handle_rx_msg`. -/
def InHandler (h : Host) (t : Nat) : Prop :=
  ∃ th, h.threads t = some th ∧ th.stage.Handling

/-- What thread `t` still does in its handler, at most. -/
def turnsOf (h : Host) (t : Nat) : Nat := (h.threads t).elim 0 fun th => th.stage.turns

theorem turnsOf_of_thread {t : Nat} {th : Thread} (ht : h.threads t = some th) :
    h.turnsOf t = th.stage.turns := by
  rw [turnsOf, ht]
  rfl

end Host

/-- The move is a step of thread `t`. -/
def Move.isOf (t : Nat) : Move → Bool
  | .thread t' _ => t' = t
  | _ => false

namespace Host

variable {h h' : Host} {m : Move} {acts : List Act} {t : Nat}

/-- An own step. -/
theorem InHandler.own_step (hi : h.InHandler t) (hs : h.Turning)
    (hstep : hostStep h m = some (h', acts)) (hown : m.isOf t = true) :
    (h'.InHandler t ∨ h'.DoneHandling t) ∧ h'.turnsOf t < h.turnsOf t := by
  obtain ⟨th, ht, hh⟩ := hi
  cases m with
  | thread t' answer =>
      obtain rfl : t' = t := of_decide_eq_true hown
      have hstep := stepped_of_hostStep hstep
      obtain ⟨th', ht'⟩ := thread_after hstep
      obtain ⟨hnext, hturns⟩ := handling_step hs.lists hstep ht ht' hh
      rw [turnsOf_of_thread ht, turnsOf_of_thread ht']
      exact ⟨hnext.imp (fun hn => ⟨th', ht', hn⟩) fun hn => ⟨th', ht', hn⟩, hturns⟩
  | _ => cases hown

/-- A step of somebody else. -/
theorem InHandler.other_step (hi : h.InHandler t) (hs : h.Turning)
    (hstep : hostStep h m = some (h', acts)) (hother : m.isOf t = false) :
    h'.InHandler t ∧ h'.turnsOf t = h.turnsOf t := by
  obtain ⟨th, ht, hh⟩ := hi
  have hkept := threads_kept hs.sound (stepped_of_hostStep hstep) ht fun answer he => by
    rw [he] at hother
    exact absurd (of_decide_eq_false hother) (by simp)
  exact ⟨⟨th, hkept, hh⟩, (turnsOf_of_thread hkept).trans (turnsOf_of_thread ht).symm⟩

end Host

/-- However the steps of the others come in between: when a thread has made as many own steps as
its handler takes at most, it has returned.  Until then each can be made unless it needs the mutex
and somebody holds it. -/
theorem handlers_return {h : Host} (hr : Reachable hostStep .boot h) {t : Nat} {th : Thread}
    (ht : h.threads t = some th) (hh : th.stage.Handling) :
    (∀ ms h', play hostStep h ms = some h' →
        (∃ ms₁ ms₂ h₁, ms = ms₁ ++ ms₂ ∧ play hostStep h ms₁ = some h₁ ∧ h₁.DoneHandling t ∧
          ms₁.countP (Move.isOf t) ≤ th.stage.turns) ∨
        h'.InHandler t ∧ ms.countP (Move.isOf t) < th.stage.turns) ∧
      th.stage.turns ≤ handlerTurns ∧
      ((hostStep h (go t)).isSome ↔ (th.stage.Waits → h.server.mutexHeld = false)) := by
  refine ⟨fun ms h' hplay => ?_, th.stage.turns_le, Host.possible_iff_of_handling ht hh⟩
  have hrun := left_or_countP_add_rank_le (I := Host.Turning) (B := fun s => s.InHandler t)
    (L := fun s => s.DoneHandling t) (Move.isOf t) (fun s => s.turnsOf t)
    (fun _ _ _ _ hs hstep => hs.step hstep) ?_
    (fun s m s' acts hs hi hstep hown => (hi.own_step hs hstep hown).2)
    (fun s m s' acts hs hi hstep hother => Nat.le_of_eq (hi.other_step hs hstep hother).2)
    ms (Host.turning_of_reachable hr) ⟨th, ht, hh⟩ hplay
  · rw [Host.turnsOf_of_thread ht] at hrun
    refine hrun.imp_right fun ⟨hi, hle⟩ => ⟨hi, ?_⟩
    obtain ⟨th', ht', hh'⟩ := hi
    have hpos := hh'.turns_pos
    rw [Host.turnsOf_of_thread ht'] at hle
    omega
  · intro s m s' acts hs hi hstep
    cases hm : m.isOf t with
    | true => exact (hi.own_step hs hstep hm).1
    | false => exact Or.inl (hi.other_step hs hstep hm).1

/-- 4 has asked for the list, and nobody else is there. -/
@[irreducible] def asksForList : List Move :=
  arrives 0 4 ++ [tells 0 (.ofType .getClientListType)]

theorem list_handler_returns :
    (∀ ms h', play hostStep (afterMoves asksForList) ms = some h' →
        (∃ ms₁ ms₂ h₁, ms = ms₁ ++ ms₂ ∧ play hostStep (afterMoves asksForList) ms₁ = some h₁ ∧
          h₁.DoneHandling 0 ∧ ms₁.countP (Move.isOf 0) ≤ Stage.listHead.turns) ∨
        h'.InHandler 0 ∧ ms.countP (Move.isOf 0) < Stage.listHead.turns) ∧
      Stage.listHead.turns ≤ handlerTurns ∧
      ((hostStep (afterMoves asksForList) (go 0)).isSome ↔
        (Stage.listHead.Waits → (afterMoves asksForList).server.mutexHeld = false)) :=
  @handlers_return _ ⟨asksForList, play_final (by decide +kernel)⟩ 0 ⟨4, .listHead⟩
    (by decide +kernel) trivial

/-! ## A mutex that is left held -/

/-- What has become of the process while somebody who is gone holds the mutex. -/
structure Host.Stalls (h h' : Host) : Prop where
  held : h'.server.mutexHeld = true
  /-- Nodes are freed at the end, and otherwise left as they are. -/
  nodes : h'.registry.clientList <:+ h.registry.clientList
  accepts : h'.accepts = h.accepts ∨
    h'.accepts = h.accepts + 1 ∧ ∃ fd, h'.loop = .accepted fd
  waits : ∀ t th, h.threads t = some th → th.stage.Waits → h'.threads t = some th

namespace Host

variable {h h' : Host} {m : Move} {acts : List Act}

theorem Stalls.refl (hheld : h.server.mutexHeld = true) : h.Stalls h where
  held := hheld
  nodes := List.suffix_refl _
  accepts := Or.inl rfl
  waits := fun _ _ ht _ => ht

/-- Outside of a section a handler writes nothing. -/
theorem replay_acts_of_not_locks {p : Point} (hp : p.locks = false) (fd : Int) (r : Registry) :
    replay r (p.acts fd r) = r := by
  cases p <;> first | rfl | cases hp

theorem Stalls.step {s : Host} (hs : s.Sound) (hst : h.Stalls s) (hstep : Stepped s m h' acts) :
    h.Stalls h' := by
  have hne : ¬ s.server.mutexHeld = false := by simp [hst.held]
  have hwaits : ∀ t th, h.threads t = some th → th.stage.Waits → h'.threads t = some th := by
    intro t th ht hw
    have hts := hst.waits t th ht hw
    refine threads_kept hs hstep hts fun answer he => ?_
    subst he
    exact not_waits_of_step hst.held hstep hts hw
  -- the steps that leave the accept loop where it is, or take it on from elsewhere
  have hloop : ∀ {l : LoopPoint}, (∀ fd, s.loop ≠ .accepted fd) →
      (s.accepts = h.accepts ∨ s.accepts = h.accepts + 1 ∧ ∃ fd, l = .accepted fd) := by
    intro l hl
    rcases hst.accepts with he | ⟨-, fd, he⟩
    · exact Or.inl he
    · exact absurd he (hl fd)
  cases hstep with
  | loops hl =>
      refine ⟨hst.held, hst.nodes, hloop fun fd he => ?_, hwaits⟩
      cases hl with
      | counts _ hfree => exact hne hfree
      | tests hj | fails hj | noMemory hj | noThread hj | allJoined hj | joinsGone hj | joins hj
      | joined hj | allFreed hj =>
          rw [he] at hj
          cases hj
  | accepts hj =>
      refine ⟨hst.held, hst.nodes, Or.inr ⟨?_, _, rfl⟩, hwaits⟩
      rcases hst.accepts with he | ⟨-, fd, he⟩
      · exact congrArg (· + 1) he
      · rw [hj] at he
        cases he
  | spawns hj | turnsAway hj =>
      refine ⟨hst.held, hst.nodes, hloop fun fd he => ?_, hwaits⟩
      rw [hj] at he
      cases he
  | frees hj hlist =>
      refine ⟨hst.held, ?_, hst.accepts, hwaits⟩
      exact (hlist ▸ List.suffix_cons _ _ : _ <:+ s.registry.clientList).trans hst.nodes
  | terminates | greets | quiet => exact ⟨hst.held, hst.nodes, hst.accepts, hwaits⟩
  | registers _ _ hfree | closes _ _ hfree => exact absurd hfree hne
  | @serves t th p _ _ _ hfree =>
      have hlocks : p.locks = false := by
        cases hl : p.locks with
        | false => rfl
        | true => exact absurd (hfree hl) hne
      refine ⟨?_, ?_, hst.accepts, hwaits⟩
      · show (if p.locks = true then _ else s.server.mutexHeld) = true
        rw [hlocks]
        exact hst.held
      · show (replay s.registry (p.acts th.fd s.registry)).clientList <:+ _
        rw [replay_acts_of_not_locks hlocks]
        exact hst.nodes

end Host

/-- Once the mutex is left held, it is held in every later state. -/
theorem mutex_held_stalls {h : Host} (hr : Reachable hostStep .boot h)
    (hheld : h.server.mutexHeld = true) (ms : List Move) :
    Everywhere hostStep (fun h' => h.Stalls h') h ms := by
  have hboth : Everywhere hostStep (fun h' => h'.Sound ∧ h.Stalls h') h ms :=
    everywhere_of_inv (fun s m s' acts hs hstep =>
      ⟨hs.1.step hstep, hs.2.step hs.1 (stepped_of_hostStep hstep)⟩) ms
      ⟨Host.sound_of_reachable hr, .refl hheld⟩
  exact hboth.mono fun _ hs => hs.2

/-- 4 has accepted a request that nobody made. -/
@[irreducible] def acceptsNothing : List Move :=
  arrives 0 4 ++ [tells 0 (.ofType .clientAcceptConnection), go 0]

theorem accept_of_nothing_stalls :
    Everywhere hostStep (fun h' => (afterMoves acceptsNothing).Stalls h') (afterMoves acceptsNothing)
      (calls 5 ++ [tells 0 (.ofType .setNameReqType), go 0]) :=
  mutex_held_stalls ⟨acceptsNothing, play_final (by decide +kernel)⟩ (by decide +kernel) _

end ChatSocket
