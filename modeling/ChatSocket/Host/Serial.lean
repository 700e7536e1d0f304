/-
# `Host.Serial` — where no handler is interrupted, the server is the atomic one

The atomic server of `Server.Atomic` handles one event after the other; the process
does so in many steps, and its threads can come in between.  In a run in which no
thread makes a step while another is in a handler, they do not: such a run is a run of
the atomic server, and the beginning of one more handler (`serial_runs_are_atomic`).
The two have the same registry, and do the same, act by act, but for the handshake and
for the connections that the accept loop turns away.

So what holds of every run of the atomic server holds of every run of the process whose
handlers do not overlap, and needs overlapping handlers to fail.
-/
import ChatSocket.Host.Turns
import ChatSocket.Host.Alone
import ChatSocket.Kit.Serial

namespace ChatSocket

open Kit Registry

/-- Not a message of the handshake or of a full server. -/
def Act.Handled : Act → Prop
  | sent _ msg => msg.msgType ≠ .connEstablishReq ∧ msg.msgType ≠ .maxClientReached
  | wrote _ => True

instance : DecidablePred Act.Handled
  | .sent _ _ => inferInstanceAs (Decidable (_ ∧ _))
  | .wrote _ => inferInstanceAs (Decidable True)

/-- What is compared of a step and of an event. -/
def handlerActs {σ ε : Type} (_ : σ) (_ : ε) (acts : List Act) : List Act := acts.filter Act.Handled

namespace Host

/-- Nobody but `t` is in a handler. -/
def OthersOut (h : Host) (t : Nat) : Prop :=
  ∀ t' th, t' ≠ t → h.threads t' = some th → ¬ th.stage.Handling

def AllOut (h : Host) : Prop := ∀ t th, h.threads t = some th → ¬ th.stage.Handling

/-- The nodes are not freed yet, and whoever makes a step interrupts no handler. -/
def InTurn (h : Host) : Move → Prop
  | .thread t _ => ¬ h.loop.Shut ∧
      ∀ t' < h.accepts, t' ≠ t → ∀ th ∈ h.threads t', ¬ th.stage.Handling
  | _ => ¬ h.loop.Shut

instance : DecidablePred LoopPoint.Shut
  | .freeing | .freed => inferInstanceAs (Decidable True)
  | .waiting | .accepting | .accepted _ | .counted _ _ | .joining _ | .joinWait _ _ | .failed =>
      inferInstanceAs (Decidable False)

instance (h : Host) : DecidablePred h.InTurn
  | .thread _ _ => inferInstanceAs (Decidable (_ ∧ _))
  | .accepts _ | .acceptFails _ | .acceptLoop _ _ | .sigint =>
      inferInstanceAs (Decidable (¬ h.loop.Shut))

theorem InTurn.up {h : Host} {m : Move} (hturn : h.InTurn m) : ¬ h.loop.Shut := by
  cases m with
  | thread t answer => exact hturn.1
  | _ => exact hturn

theorem InTurn.othersOut {h : Host} {t : Nat} {answer : Answer}
    (hturn : h.InTurn (.thread t answer)) (hs : h.Sound) : h.OthersOut t :=
  fun t' th hne ht => hturn.2 t' (hs.numbered t' th ht) hne th ht

end Host

/-! ## What is left of a handler -/

/-- The handler ends, if nobody interrupts it, with `acts`, of which it has done `past`. -/
def Stage.Ends (fd : Int) (r : Registry) (past acts : List Act) : Stage → Prop
  | serving p => ∃ s, (p.prog fd).run sem (⟨r, false⟩, past) = some ((), s, acts)
  | listHead => acts = past ++ [.sent fd
      { Msg.ofType .getClientListType with buffer := (r.getClientList (.zero _)).2 }]
  | listing a list listLen => ∃ pre n rest, r.clientList = pre ++ n :: rest ∧ n.addr = a ∧
      acts = past ++ [.sent fd { Msg.ofType .getClientListType with
        buffer := getClientListLoop (n :: rest) list listLen }]
  | _ => False

section
variable {fd : Int} {r : Registry} {past acts : List Act}

theorem ends_done (h : (Stage.serving .done).Ends fd r past acts) : acts = past := by
  obtain ⟨s, hs⟩ := h
  cases hs
  rfl

theorem ends_listReply (list : Buf maxMsgLen)
    (h : acts = past ++ [.sent fd { Msg.ofType .getClientListType with buffer := list }]) :
    (listReply list).Ends fd r past acts := by
  subst h
  exact ⟨_, rfl⟩

theorem ends_serves {p : Point} (hfd : fd ≠ invalidFd) (hp : p ≠ .done)
    (h : (Stage.serving p).Ends fd r past acts) :
    (Stage.serving (p.next fd r)).Ends fd (replay r (p.acts fd r)) (past ++ p.acts fd r) acts := by
  obtain ⟨s, hs⟩ := h
  rw [Point.run_step fd r past hfd hp, Bool.and_false, if_neg Bool.false_ne_true] at hs
  cases hheld : (if p.locks then p.leavesHeld fd r else false) with
  | false =>
      rw [hheld] at hs
      exact ⟨s, hs⟩
  | true =>
      -- only an accept that finds nobody keeps the mutex, and it is over
      have hover : p.next fd r = .done := by
        cases p with
        | accept =>
            have hc : r.getConnFdByFd fd = invalidFd := by simpa [Point.locks, Point.leavesHeld] using hheld
            simp [Point.next, hc]
        | _ => simp [Point.locks, Point.leavesHeld] at hheld
      rw [hover] at hs ⊢
      cases hs
      exact ⟨_, rfl⟩

theorem ends_visit (hwf : r.Wf) {a : Nat} {list : Buf maxMsgLen} {listLen : Nat}
    (h : (Stage.listing a list listLen).Ends fd r past acts) :
    (visit r a list listLen).Ends fd r past acts := by
  obtain ⟨pre, n, rest, hlist, rfl, hacts⟩ := h
  have hnd := hwf.addrs
  rw [hlist] at hnd
  have hlook : look ClientNode.addr n.addr r.clientList = some n :=
    look_of_mem hwf.addrs (by rw [hlist]; simp)
  have hnext : nextAddr n.addr r.clientList = rest.head?.map ClientNode.addr := by
    rw [hlist, nextAddr_append hnd]
  rw [getClientListLoop_cons] at hacts
  cases hnode : listNode n.data.name.bytes list listLen with
  | none =>
      have hvisit : visit r n.addr list listLen = listReply list := by
        simp only [visit, hlook, hnode]
      rw [hnode] at hacts
      rw [hvisit]
      exact ends_listReply _ hacts
  | some q =>
      have hvisit : visit r n.addr list listLen =
          listOn (rest.head?.map ClientNode.addr) q.1 q.2 := by
        simp only [visit, hlook, hnode, hnext]
      rw [hnode] at hacts
      rw [hvisit]
      cases rest with
      | nil => exact ends_listReply _ hacts
      | cons m rest => exact ⟨pre ++ [n], m, rest, by rw [hlist]; simp, rfl, hacts⟩

theorem ends_lists (h : Stage.listHead.Ends fd r past acts) :
    (listOn (r.clientList.head?.map ClientNode.addr) (.zero _) 0).Ends fd r past acts := by
  have hacts : acts = past ++ [.sent fd { Msg.ofType .getClientListType with
      buffer := (r.getClientList (.zero _)).2 }] := h
  cases hlist : r.clientList with
  | nil =>
      rw [getClientList, if_pos hlist] at hacts
      exact ends_listReply _ hacts
  | cons n rest =>
      rw [getClientList, if_neg (by rw [hlist]; simp), hlist] at hacts
      exact ⟨[], n, rest, hlist, rfl, hacts⟩

/-- What is done is the beginning of what will be done. -/
theorem ends_initial (hfd : fd ≠ invalidFd) (p : Point) :
    ∀ {r : Registry} {past : List Act}, (Stage.serving p).Ends fd r past acts → past <+: acts := by
  intro r past h
  rcases eq_or_ne p .done with rfl | hp
  · rw [ends_done h]
  · have hdec := Point.rank_next hp fd r
    have hnext := ends_initial hfd (p.next fd r) (ends_serves hfd hp h)
    exact (List.prefix_append _ _).trans hnext
termination_by p.rank

theorem Stage.Ends.initial (hfd : fd ≠ invalidFd) {stage : Stage} (h : stage.Ends fd r past acts) :
    past <+: acts := by
  cases stage with
  | serving p => exact ends_initial hfd p h
  | listHead => exact ⟨_, Eq.symm h⟩
  | listing a list listLen =>
      obtain ⟨_, _, _, _, _, hacts⟩ := h
      exact ⟨_, hacts.symm⟩
  | _ => exact h.elim

/-- A handler starts with all it will do before it. -/
theorem ends_rx (hfd : fd ≠ invalidFd) (r : Registry) (msg : Msg) :
    (Stage.rx msg).Ends fd r [] ((Event.rxMsg fd msg).acts r) := by
  unfold Stage.rx
  split
  · next hlist =>
      show (Event.rxMsg fd msg).acts r = _
      simp [Event.acts, rxActs, hlist, clientListActs, hfd]
  · next hlist =>
      have hrun := run_prog r [] (.rxMsg fd msg)
      rw [show (Event.rxMsg fd msg).prog = (Point.start msg).prog fd from
        (Point.prog_start fd msg hlist).symm] at hrun
      exact ⟨_, hrun⟩

end

/-! ## The process beside the atomic server -/

namespace Host

variable {h h' : Host} {m : Move} {acts : List Act} {t : Nat} {answer : Answer} {r : Registry}

theorem OthersOut.step (ho : h.OthersOut t) (hstep : Stepped h m h' acts)
    (hm : ∀ t' answer, m = .thread t' answer → t' = t) : h'.OthersOut t := by
  intro t' th hne ht
  refine forall_threads hstep (P := fun t' th => t' ≠ t → ¬ th.stage.Handling)
    (fun _ _ _ _ => id) ?_ (fun t' th _ ht hne => ho t' th hne ht) t' th ht hne
  intro t' answer _ _ he _ _ hne
  exact absurd (hm t' answer he) hne

/-- A step of the accept loop is no event. -/
theorem loop_step (hstep : Stepped h m h' acts) (hup : ¬ h.loop.Shut)
    (hm : ∀ t answer, m ≠ .thread t answer) :
    h'.registry = h.registry ∧ acts.filter Act.Handled = [] := by
  cases hstep with
  | loops | accepts | spawns | terminates => exact ⟨rfl, rfl⟩
  | turnsAway => exact ⟨rfl, by simp [Act.Handled]⟩
  | frees hl =>
      rw [hl] at hup
      exact absurd trivial hup
  | registers | greets | serves | closes | quiet => exact absurd rfl (hm _ _)

/-- Nobody is in a handler. -/
structure Between (h : Host) (r : Registry) : Prop where
  sound : h.Sound
  registry : h.registry = r
  out : h.AllOut

/-- Thread `t` is in the handler of `e`, and has done `past` of it. -/
structure Handles (h : Host) (t : Nat) (fd : Int) (r : Registry) (e : Event) (past : List Act) :
    Prop where
  sound : h.Sound
  possible : e.Possible r
  registry : h.registry = replay r past
  others : h.OthersOut t
  stage : ∃ stage, h.threads t = some ⟨fd, stage⟩ ∧ stage.Handling ∧
    stage.Ends fd h.registry past (e.acts r)

/-- Somebody is, and has done `part` of what is compared. -/
def During (h : Host) (r : Registry) (e : Event) (part : List Act) : Prop :=
  ∃ t fd past, h.Handles t fd r e past ∧ part = past.filter Act.Handled

theorem Handles.fd_ne_invalidFd {fd : Int} {e : Event} {past : List Act}
    (hd : h.Handles t fd r e past) : fd ≠ invalidFd := by
  obtain ⟨stage, ht, hin, -⟩ := hd.stage
  refine hd.sound.fd_ne_invalidFd ht ?_
  rintro rfl
  exact hin

/-- A thread that is in no handler makes a step. -/
theorem Between.thread_step (hb : h.Between r) (hup : ¬ h.loop.Shut)
    (hstep : Stepped h (.thread t answer) h' acts) (hs' : h'.Sound) :
    h'.Between r ∧ acts.filter Act.Handled = [] ∨
      (∃ e r' acts', atomicStep r e = some (r', acts') ∧ h'.Between r' ∧
        acts.filter Act.Handled = acts'.filter Act.Handled) ∨
      ∃ e, h'.During r e (acts.filter Act.Handled) := by
  obtain ⟨hs, rfl, hout⟩ := hb
  have hothers : h'.OthersOut t := by
    refine OthersOut.step (fun t' th _ => hout t' th) hstep ?_
    intro t' answer' he
    cases he
    rfl
  have hbetween : ∀ r, h'.registry = r → (∀ th', h'.threads t = some th' → ¬ th'.stage.Handling) →
      h'.Between r := by
    intro r hr hself
    refine ⟨hs', hr, fun t' th ht => ?_⟩
    rcases eq_or_ne t' t with rfl | hne
    · exact hself th ht
    · exact hothers t' th hne ht
  cases hstep with
  | loops hl => cases hl
  | @registers _ th ok hth hst =>
      right
      left
      have hopen := hs.opened th.fd t (hs.holds t th hth (by simp [hst]))
      refine ⟨.accepted th.fd ok, _, _,
        atomicStep_eq_some_iff.mpr ⟨⟨hopen.2.1, hs.node_starting hth hst⟩, rfl, rfl⟩,
        hbetween _ rfl fun th' ht' => ?_, rfl⟩
      cases eq_of_goto ht'
      dsimp only
      split <;> exact id
  | greets hth hst =>
      left
      refine ⟨hbetween _ rfl fun th' ht' => ?_, by simp [Act.Handled, connEstablishReq]⟩
      cases eq_of_goto ht'
      exact id
  | serves hth hst hp =>
      refine absurd ?_ (hout t _ hth)
      rw [hst]
      exact hp
  | @closes _ th hth hst =>
      right
      left
      have hreg := hs.registered t th hth (by rw [hst]; trivial) hup
      refine ⟨.closed th.fd, _, _, atomicStep_eq_some_iff.mpr ⟨hreg, rfl, rfl⟩,
        hbetween _ rfl fun th' ht' => ?_, rfl⟩
      cases eq_of_goto ht'
      exact id
  | @quiet _ th _ stage hth hq =>
      have hbefore := hout t th hth
      have hquiet : ¬ stage.Handling → (h.goto t th stage).Between h.registry := by
        intro hnot
        refine hbetween _ rfl fun th' ht' => ?_
        cases eq_of_goto ht'
        exact hnot
      have hreg := hs.registered t th hth
      generalize th.stage = st at hq hbefore hreg
      cases hq with
      | @hears chunk =>
          rcases em (Stage.rx (recvInto (.zero _) chunk.bytes).msg).Handling with hin | hnot
          · right
            right
            refine ⟨.rxMsg th.fd (recvInto (.zero _) chunk.bytes).msg, t, th.fd, [],
              ⟨hs', hreg trivial hup, rfl, hothers, _, threads_goto_self, hin, ?_⟩, rfl⟩
            exact ends_rx (hs'.fd_ne_invalidFd threads_goto_self
              (rx_cases (P := (· ≠ .exited)) _ (by simp) (by simp))) _ _
          · exact Or.inl ⟨hquiet hnot, rfl⟩
      | lists | visits => exact absurd trivial hbefore
      | acked | again | notGreeted | notAcked | stops | polls | hangsUp =>
          exact Or.inl ⟨hquiet (by simp [Stage.Handling]), rfl⟩

/-- The thread that is in a handler makes a step. -/
theorem Handles.step {fd : Int} {e : Event} {past : List Act} (hd : h.Handles t fd r e past)
    (hstep : Stepped h (.thread t answer) h' acts) (hs' : h'.Sound) :
    h'.Handles t fd r e (past ++ acts) ∨
      past ++ acts = e.acts r ∧ h'.Between (replay r (e.acts r)) ∧
        h'.threads t = some ⟨fd, .serving .done⟩ := by
  have hfd := hd.fd_ne_invalidFd
  obtain ⟨hs, hpossible, hr, hothers, stage, ht, hin, hends⟩ := hd
  have hothers' : h'.OthersOut t := by
    refine hothers.step hstep ?_
    intro t₁ answer' he
    cases he
    rfl
  have hafter : ∀ {stage' : Stage}, h'.threads t = some ⟨fd, stage'⟩ →
      h'.registry = replay r (past ++ acts) →
      stage'.Ends fd h'.registry (past ++ acts) (e.acts r) →
      stage' = .serving .done ∨ stage'.Handling →
      h'.Handles t fd r e (past ++ acts) ∨
        past ++ acts = e.acts r ∧ h'.Between (replay r (e.acts r)) ∧
          h'.threads t = some ⟨fd, .serving .done⟩ := by
    intro stage' ht' hr' hends' hwhere
    rcases hwhere with rfl | hin'
    · right
      have hall := ends_done hends'
      refine ⟨hall.symm, ⟨hs', by rw [hr', hall], ?_⟩, ht'⟩
      intro t₁ th ht₁
      rcases eq_or_ne t₁ t with rfl | hne
      · cases ht'.symm.trans ht₁
        exact fun hp => hp rfl
      · exact hothers' t₁ th hne ht₁
    · exact Or.inl ⟨hs', hpossible, hr', hothers', stage', ht', hin', hends'⟩
  cases hstep with
  | loops hl => cases hl
  | registers hth hst | greets hth hst | closes hth hst =>
      cases ht.symm.trans hth
      cases hst
      exact hin.elim
  | @serves _ _ p hth hst hp =>
      cases ht.symm.trans hth
      cases hst
      refine hafter threads_goto_self ?_ ?_ ?_
      · rw [replay_append, ← hr]
        rfl
      · exact ends_serves hfd hp hends
      · rcases eq_or_ne (p.next fd h.registry) .done with he | he
        · exact Or.inl (by rw [he])
        · exact Or.inr he
  | quiet hth hq =>
      cases ht.symm.trans hth
      rw [← List.append_nil past] at hr hends
      have hreply : ∀ msg, (Stage.serving (.reply msg)).Handling := fun _ => by simp [Stage.Handling]
      cases hq with
      | lists =>
          exact hafter threads_goto_self hr (ends_lists hends)
            (Or.inr (listOn_cases _ _ hreply fun _ _ => trivial))
      | visits =>
          exact hafter threads_goto_self hr (ends_visit hs.wf hends)
            (Or.inr (visit_cases _ _ _ _ hreply fun _ _ _ _ => trivial))
      | _ => exact absurd hin (by simp [Stage.Handling])

theorem During.thread_step {e : Event} {part : List Act} (hd : h.During r e part)
    (hout : h.OthersOut t) (hstep : Stepped h (.thread t answer) h' acts) (hs' : h'.Sound) :
    h'.During r e (part ++ acts.filter Act.Handled) ∨
      ∃ r' acts', atomicStep r e = some (r', acts') ∧ h'.Between r' ∧
        part ++ acts.filter Act.Handled = acts'.filter Act.Handled := by
  obtain ⟨t', fd, past, hd, rfl⟩ := hd
  rw [← List.filter_append]
  rcases eq_or_ne t' t with rfl | hne
  · rcases hd.step hstep hs' with hd' | ⟨hall, hb, -⟩
    · exact Or.inl ⟨t', fd, _, hd', rfl⟩
    · exact Or.inr ⟨_, _, atomicStep_eq_some_iff.mpr ⟨hd.possible, rfl, rfl⟩, hb, by rw [hall]⟩
  · obtain ⟨stage, ht, hin, -⟩ := hd.stage
    exact absurd hin (hout t' _ hne ht)

theorem During.sound {e : Event} {part : List Act} (hd : h.During r e part) : h.Sound := by
  obtain ⟨t, fd, past, hd, -⟩ := hd
  exact hd.sound

/-- A step of the accept loop interrupts nobody. -/
theorem During.loop_step {e : Event} {part : List Act} (hd : h.During r e part)
    (hstep : Stepped h m h' acts) (hs' : h'.Sound) (hup : ¬ h.loop.Shut)
    (hm : ∀ t answer, m ≠ .thread t answer) :
    h'.During r e (part ++ acts.filter Act.Handled) := by
  obtain ⟨t, fd, past, ⟨hs, hpossible, hr, hothers, stage, ht, hin, hends⟩, hpart⟩ := hd
  obtain ⟨hsame, hnone⟩ := Host.loop_step hstep hup hm
  rw [hnone, List.append_nil]
  refine ⟨t, fd, past, ⟨hs', hpossible, hsame.trans hr,
    hothers.step hstep fun t' answer he => absurd he (hm t' answer), stage,
    threads_kept hs hstep ht (hm t), hin, ?_⟩, hpart⟩
  rwa [hsame]

theorem Between.loop_step (hb : h.Between r) (hstep : Stepped h m h' acts) (hs' : h'.Sound)
    (hup : ¬ h.loop.Shut) (hm : ∀ t answer, m ≠ .thread t answer) :
    h'.Between r ∧ acts.filter Act.Handled = [] := by
  obtain ⟨hsame, hnone⟩ := Host.loop_step hstep hup hm
  refine ⟨⟨hs', hsame.trans hb.registry, ?_⟩, hnone⟩
  exact forall_threads hstep (P := fun _ th => ¬ th.stage.Handling) (fun _ _ _ => id)
    (fun t answer _ _ he => absurd he (hm t answer)) fun t th _ ht => hb.out t th ht

/-- The steps of the process, in turn, are parts of the events of the atomic server. -/
def handlers : Parts hostStep atomicStep handlerActs handlerActs InTurn where
  At := Between
  Within := During
  between := by
    intro h h' r m acts hb hturn hs
    have hs' := hb.sound.step hs
    have hstep := stepped_of_hostStep hs
    rcases em (∃ t answer, m = .thread t answer) with ⟨t, answer, rfl⟩ | hm
    · exact hb.thread_step hturn.up hstep hs'
    · exact Or.inl (hb.loop_step hstep hs' hturn.up fun t answer he => hm ⟨t, answer, he⟩)
  inside := by
    intro h h' r m acts e part hd hturn hs
    have hs' := hd.sound.step hs
    have hstep := stepped_of_hostStep hs
    rcases em (∃ t answer, m = .thread t answer) with ⟨t, answer, rfl⟩ | hm
    · exact hd.thread_step (hturn.othersOut hd.sound) hstep hs'
    · exact Or.inl (hd.loop_step hstep hs' hturn.up fun t answer he => hm ⟨t, answer, he⟩)

end Host

/-- A run of the process in which nobody interrupts a handler is a run of the atomic server, and a
part of one more handler: from the registry the events lead to, and after all they do, the process
has done the beginning of what this handler does, and all of it if no thread is in a handler. -/
theorem serial_runs_are_atomic {ms : List Move} {h : Host}
    (hturn : EveryStep hostStep Host.InTurn .boot ms) (hplay : play hostStep .boot ms = some h) :
    ∃ es r past, play atomicStep .empty es = some r ∧ h.registry = replay r past ∧
      gather hostStep handlerActs .boot ms
        = gather atomicStep handlerActs .empty es ++ past.filter Act.Handled ∧
      (past = [] ∧ h.AllOut ∨ ¬ h.AllOut ∧ ∃ e : Event, e.Possible r ∧ past <+: e.acts r) := by
  have hboot : Host.handlers.At .boot .empty := ⟨Host.sound_boot, rfl, fun _ _ ht => by cases ht⟩
  obtain ⟨es, r, hes, ⟨hb, hnoted⟩ | ⟨e, part, hd, hnoted⟩⟩ :=
    Parts.Follows.of_play hboot hturn hplay
  · exact ⟨es, r, [], hes, hb.registry, by rw [hnoted]; exact (List.append_nil _).symm,
      Or.inl ⟨rfl, hb.out⟩⟩
  · obtain ⟨t, fd, past, hd, rfl⟩ := hd
    obtain ⟨stage, ht, hin, hends⟩ := hd.stage
    exact ⟨es, r, past, hes, hd.registry, hnoted,
      Or.inr ⟨fun hout => hout t _ ht hin, e, hd.possible, hends.initial hd.fd_ne_invalidFd⟩⟩

/-- 4 and 5 begin to chat, one handler after the other, and 4 is about to pass a text on. -/
@[irreducible] def oneAtATime : List Move :=
  arrives 0 4 ++ arrives 1 5 ++ [tells 0 (asksFor 5)] ++ List.replicate 7 (go 0) ++
    [tells 1 (.ofType .clientAcceptConnection)] ++ List.replicate 9 (go 1) ++
    [tells 0 (.withText .clientTxType (ascii "hi")), go 0]

theorem oneAtATime_is_atomic :
    ∃ es r past, play atomicStep .empty es = some r ∧
      (afterMoves oneAtATime).registry = replay r past ∧
      gather hostStep handlerActs .boot oneAtATime
        = gather atomicStep handlerActs .empty es ++ past.filter Act.Handled ∧
      (past = [] ∧ (afterMoves oneAtATime).AllOut ∨
        ¬ (afterMoves oneAtATime).AllOut ∧ ∃ e : Event, e.Possible r ∧ past <+: e.acts r) :=
  serial_runs_are_atomic (by decide +kernel) (play_final (by decide +kernel))

end ChatSocket
