/-
# `Host.Answers` — every request is answered, in order, with what it asked for

Three kinds of messages ask the server for something that it always answers: a
name, the list of clients, and a connection to a client.  A handler that has
started with one of them owes the reply (`Point.Owes`), and goes on owing it until it has sent it;
no other handler sends a reply, and no thread sends one for another.

So on every connection the replies match the requests one by one
(`requests_answered_in_order`), however the threads are interleaved; at most the last
request is still without its reply, and then the thread is in its handler.  This
holds until the nodes are freed.
-/
import ChatSocket.Host.Relays

namespace ChatSocket

open Kit Registry

/-- A message that is always answered. -/
def Msg.IsRequest (msg : Msg) : Prop :=
  msg.msgType = .setNameReqType ∨ msg.msgType = .getClientListType ∨
    msg.msgType = .connectToClient

instance (msg : Msg) : Decidable msg.IsRequest := inferInstanceAs (Decidable (_ ∨ _ ∨ _))

/-- What is said of the client that somebody asks to be connected to. -/
def MsgType.TellsOfClient (t : MsgType) : Prop :=
  t ∈ [clientFree, clientBusy, clientStatusReqPending, clientNotExist, attemptToConnectToSelf]

instance : DecidablePred MsgType.TellsOfClient := fun _ => inferInstanceAs (Decidable (_ ∈ _))

/-- A reply to a request. -/
def Msg.IsReply (msg : Msg) : Prop :=
  msg.msgType = .setNameAckType ∨ msg.msgType = .setNameNackType ∨
    msg.msgType = .getClientListType ∨ msg.msgType.TellsOfClient

instance (msg : Msg) : Decidable msg.IsReply := inferInstanceAs (Decidable (_ ∨ _ ∨ _ ∨ _))

/-- The reply is one to this request; where it is about a client it brings the name back. -/
def Answers (request reply : Msg) : Prop :=
  match request.msgType with
  | .setNameReqType => reply.msgType = .setNameAckType ∨ reply.msgType = .setNameNackType
  | .getClientListType => reply.msgType = .getClientListType
  | .connectToClient => reply.msgType.TellsOfClient ∧
      reply.buffer = (Buf.zero _).memcpy request.buffer.bytes maxClientNameLen
  | _ => False

theorem Answers.isReply {request reply : Msg} (h : Answers request reply) : reply.IsReply := by
  unfold Answers at h
  split at h
  · exact h.imp_right Or.inl
  · exact Or.inr (Or.inr (Or.inl h))
  · exact Or.inr (Or.inr (Or.inr h.1))
  · exact h.elim

/-- An answer about the client of the name that was asked for. -/
theorem answers_answer {request : Msg} (hr : request.msgType = .connectToClient) {t : MsgType}
    (ht : t.TellsOfClient) : Answers request (Point.answer request.buffer.bytes t) := by
  simp only [Answers, hr]
  exact ⟨ht, rfl⟩

/-! ## What a handler owes -/

/-- The handler has still to reply to the request. -/
def Point.Owes : Point → Msg → Prop
  | setName msg, q => q = msg ∧ q.msgType = .setNameReqType
  | connect name, q | claim name _, q | link name _ _, q | copyAsker name _ _, q
  | ask name _ _, q => q.msgType = .connectToClient ∧ name = q.buffer.bytes
  | reply msg, q => Answers q msg
  | _, _ => False

/-- The handler will not send a reply. -/
def Point.Silent : Point → Prop
  | setName _ | connect _ | claim _ _ | link _ _ _ | copyAsker _ _ _ | ask _ _ _ => False
  | reply msg | tell _ msg => ¬ msg.IsReply
  | _ => True

def Stage.Owes : Stage → Msg → Prop
  | serving p, q => p.Owes q
  | listHead, q | listing _ _ _, q => q.msgType = .getClientListType
  | _, _ => False

def Stage.Silent : Stage → Prop
  | serving p => p.Silent
  | listHead | listing _ _ _ => False
  | _ => True

/-- Who owes a reply is in a handler. -/
theorem Stage.Owes.handling {s : Stage} {q : Msg} (h : s.Owes q) : s.Handling := by
  cases s with
  | serving p =>
      rintro rfl
      exact h
  | listHead | listing => trivial
  | _ => exact h

/-- A handler goes on owing its reply until it sends it. -/
theorem Point.owes_next {p : Point} {q : Msg} (h : p.Owes q) {fd : Int} {r : Registry}
    (hd : r.Distinct) (hreg : (r.node fd).isSome) :
    (∃ m, p = reply m) ∨ (p.next fd r).Owes q ∧ ∀ g m, .sent g m ∈ p.acts fd r → ¬ m.IsReply := by
  have htells : ∀ {t : MsgType}, q.msgType = .connectToClient → t.TellsOfClient →
      (reply (answer q.buffer.bytes t)).Owes q := fun hq ht => answers_answer hq ht
  cases p with
  | reply m => exact Or.inl ⟨m, rfl⟩
  | setName msg =>
      obtain ⟨rfl, hq⟩ := h
      obtain ⟨n, hn⟩ := Option.isSome_iff_exists.mp hreg
      have hset : (r.setNameOfClientByClientFd fd q.buffer.bytes).1 = .succ := by
        rw [setNameOfClientByClientFd, if_neg (List.ne_nil_of_mem (look_mem hn)),
          if_neg (hd.ne_invalidFd hreg), hn]
      have hname : ∀ {t : MsgType}, t = .setNameAckType ∨ t = .setNameNackType →
          (reply (.ofType t)).Owes q := by
        intro t ht
        simp only [Owes, Answers, hq]
        exact ht
      refine Or.inr ⟨?_, ?_⟩
      · simp only [next, hset, ne_eq, not_true_eq_false, if_false]
        split
        · exact hname (Or.inr rfl)
        · exact hname (Or.inl rfl)
      · intro g m hm
        simp only [acts] at hm
        split at hm <;> simp at hm
  | connect name =>
      obtain ⟨hq, rfl⟩ := h
      refine Or.inr ⟨?_, by simp [acts]⟩
      simp only [next]
      split
      · exact htells hq (by decide)
      split
      · exact htells hq (by decide)
      split
      · exact ⟨hq, rfl⟩
      · exact htells hq (by decide)
      · exact htells hq (by decide)
      · exact htells hq (by decide)
      · exact htells hq (by decide)
  | claim name myName =>
      obtain ⟨hq, rfl⟩ := h
      refine Or.inr ⟨?_, by simp [acts]⟩
      simp only [next]
      split
      · exact htells hq (by decide)
      · exact ⟨hq, rfl⟩
  | link name myName connFd => exact Or.inr ⟨h, by simp [acts]⟩
  | copyAsker name myName connFd => exact Or.inr ⟨h, by simp [acts]⟩
  | ask name connFd asker =>
      obtain ⟨hq, rfl⟩ := h
      refine Or.inr ⟨htells hq (by decide), ?_⟩
      intro g m hm
      cases List.mem_singleton.mp hm
      simp [Msg.IsReply, MsgType.TellsOfClient]
  | _ => exact h.elim

/-- A handler that owes no reply sends none. -/
theorem Point.silent_next {p : Point} (h : p.Silent) (fd : Int) (r : Registry) :
    (p.next fd r).Silent ∧ ∀ g m, .sent g m ∈ p.acts fd r → ¬ m.IsReply := by
  cases p with
  | tell g msg | reply msg =>
      refine ⟨trivial, fun g m hm => ?_⟩
      cases List.mem_singleton.mp hm
      exact h
  | tx msg =>
      refine ⟨?_, by simp [acts]⟩
      simp only [next]
      repeat' split
      all_goals simp [Silent, Msg.IsReply, MsgType.TellsOfClient]
  | setName | connect | claim | link | copyAsker | ask => exact h.elim
  | _ =>
      refine ⟨?_, by simp [acts, Msg.IsReply, MsgType.TellsOfClient]⟩
      simp only [next]
      repeat' split
      all_goals simp [Silent, Msg.IsReply, MsgType.TellsOfClient]

/-- Where `handle_rx_msg` starts. -/
theorem Stage.owes_rx {msg : Msg} (h : msg.IsRequest) : (Stage.rx msg).Owes msg := by
  rcases h with h | h | h
  · rw [Stage.rx, if_neg (by rw [h]; simp)]
    simp only [Owes, Point.start, h]
    exact ⟨rfl, h⟩
  · rw [Stage.rx, if_pos h]
    exact h
  · rw [Stage.rx, if_neg (by rw [h]; simp)]
    simp only [Owes, Point.start, h]
    exact ⟨h, rfl⟩

theorem Stage.silent_rx {msg : Msg} (h : ¬ msg.IsRequest) : (Stage.rx msg).Silent := by
  simp only [Msg.IsRequest, not_or] at h
  rw [Stage.rx, if_neg h.2.1]
  simp only [Silent, Point.start]
  split
  · next he => exact absurd he h.1
  · next he => exact absurd he h.2.2
  · trivial
  · trivial
  · trivial
  · trivial

/-- What `get_client_list` returns is replied. -/
theorem owes_listOn {q : Msg} (hq : q.msgType = .getClientListType) (next : Option Nat)
    (list : Buf maxMsgLen) (listLen : Nat) : (listOn next list listLen).Owes q := by
  have hreply : (listReply list).Owes q := by
    show Answers q _
    simp only [Answers, hq]
    rfl
  cases next with
  | none => exact hreply
  | some b => exact hq

theorem owes_visit {q : Msg} (hq : q.msgType = .getClientListType) (r : Registry) (a : Nat)
    (list : Buf maxMsgLen) (listLen : Nat) : (visit r a list listLen).Owes q := by
  unfold visit
  split
  · exact owes_listOn hq none list listLen
  · split
    · exact owes_listOn hq none list listLen
    · exact owes_listOn hq _ _ _

/-- No reply is among the acts. -/
def NoReply (acts : List Act) : Prop := ∀ g m, .sent g m ∈ acts → ¬ m.IsReply

namespace Host

variable {h h' : Host} {m : Move} {acts : List Act} {t : Nat} {answer : Answer} {th th' : Thread}

/-- A thread that owes a reply goes on owing it, or sends it. -/
theorem owes_step (hs : h.Sound) (hup : ¬ h.loop.Shut) {q : Msg}
    (hstep : Stepped h (.thread t answer) h' acts) (ht : h.threads t = some th)
    (ht' : h'.threads t = some th') (hq : th.stage.Owes q) :
    (Move.thread t answer).hears t = [] ∧
      (th'.stage.Owes q ∧ NoReply acts ∨
        ∃ m, acts = [.sent th.fd m] ∧ Answers q m ∧ th'.stage.Silent) := by
  obtain ⟨fd, stage⟩ := th
  cases hstep with
  | loops hl => cases hl
  | registers hth hst | greets hth hst | closes hth hst =>
      cases ht.symm.trans hth
      cases hst
      exact hq.elim
  | @serves _ _ p hth hst hp =>
      cases ht.symm.trans hth
      cases hst
      cases eq_of_goto ht'
      refine ⟨rfl, ?_⟩
      have hreg := hs.registered t _ ht trivial hup
      rcases Point.owes_next hq hs.wf.distinct hreg with ⟨m, rfl⟩ | hnext
      · exact Or.inr ⟨m, rfl, hq, trivial⟩
      · exact Or.inl hnext
  | quiet hth hqu =>
      cases ht.symm.trans hth
      cases eq_of_goto ht'
      have hnone : NoReply [] := fun _ _ hm => absurd hm List.not_mem_nil
      cases hqu with
      | lists => exact ⟨rfl, Or.inl ⟨owes_listOn hq _ _ _, hnone⟩⟩
      | visits => exact ⟨rfl, Or.inl ⟨owes_visit hq _ _ _ _, hnone⟩⟩
      | _ => exact hq.elim

/-- A thread that owes no reply sends none; it owes one when it has received a request. -/
theorem silent_step (hstep : Stepped h (.thread t answer) h' acts) (ht : h.threads t = some th)
    (ht' : h'.threads t = some th') (hsilent : th.stage.Silent) :
    NoReply acts ∧
      (((Move.thread t answer).hears t).filter Msg.IsRequest = [] ∧ th'.stage.Silent ∨
        ∃ q, ((Move.thread t answer).hears t).filter Msg.IsRequest = [q] ∧ th'.stage.Owes q) := by
  obtain ⟨fd, stage⟩ := th
  cases hstep with
  | loops hl => cases hl
  | registers hth hst =>
      cases ht.symm.trans hth
      cases eq_of_goto ht'
      refine ⟨fun g m hm => ?_, Or.inl ⟨rfl, ?_⟩⟩
      · simp only [registerActs] at hm
        split at hm <;> simp_all [Msg.IsReply, MsgType.TellsOfClient]
      · show Stage.Silent (if _ then _ else _)
        split <;> trivial
  | greets hth hst =>
      cases ht.symm.trans hth
      cases eq_of_goto ht'
      refine ⟨fun g m hm => ?_, Or.inl ⟨rfl, trivial⟩⟩
      cases List.mem_singleton.mp hm
      simp [Msg.IsReply, MsgType.TellsOfClient, connEstablishReq]
  | closes hth hst =>
      cases ht.symm.trans hth
      cases eq_of_goto ht'
      refine ⟨fun g m hm => ?_, Or.inl ⟨rfl, trivial⟩⟩
      simp only [closedActs] at hm
      split at hm <;> simp_all [Msg.IsReply, MsgType.TellsOfClient]
  | serves hth hst =>
      cases ht.symm.trans hth
      cases hst
      cases eq_of_goto ht'
      obtain ⟨hnext, hnone⟩ := Point.silent_next hsilent fd h.registry
      exact ⟨hnone, Or.inl ⟨rfl, hnext⟩⟩
  | quiet hth hqu =>
      cases ht.symm.trans hth
      cases eq_of_goto ht'
      refine ⟨fun _ _ hm => absurd hm List.not_mem_nil, ?_⟩
      cases hqu with
      | @hears chunk =>
          rw [Move.hears, if_pos rfl]
          by_cases hreq : (recvInto (.zero _) chunk.bytes).msg.IsRequest
          · exact Or.inr ⟨_, by simp [hreq], Stage.owes_rx hreq⟩
          · exact Or.inl ⟨by simp [hreq], Stage.silent_rx hreq⟩
      | hangsUp hp =>
          rcases hp with rfl | rfl
          · exact Or.inl ⟨rfl, trivial⟩
          · exact Or.inl ⟨rfl, trivial⟩
      | again hp =>
          rcases hp with rfl | rfl | rfl
          · exact Or.inl ⟨rfl, trivial⟩
          · exact Or.inl ⟨rfl, trivial⟩
          · exact Or.inl ⟨rfl, trivial⟩
      | lists | visits => exact hsilent.elim
      | notGreeted | acked | notAcked | stops | polls => exact Or.inl ⟨rfl, trivial⟩

/-! ## Requests and replies of a connection -/

/-- The replies that were sent on a connection. -/
def replies (h : Host) (t : Nat) : List Msg := (h.written t).filter Msg.IsReply

/-- The requests that came on a connection. -/
def requests (t : Nat) (ms : List Move) : List Msg := (heard t ms).filter Msg.IsRequest

/-- What the replies on a connection answer, and what is still to be answered. -/
inductive Accounted (h : Host) (ms : List Move) (t : Nat) : Prop where
  | silent : List.Forall₂ Answers (requests t ms) (h.replies t) →
      (∀ th, h.threads t = some th → th.stage.Silent) → Accounted h ms t
  | owes {answered q th} : List.Forall₂ Answers answered (h.replies t) →
      requests t ms = answered ++ [q] → h.threads t = some th → th.stage.Owes q →
      Accounted h ms t

theorem Accounted.owes_or_silent {ms : List Move} (ha : h.Accounted ms t)
    (ht : h.threads t = some th) : th.stage.Silent ∨ ∃ q, th.stage.Owes q := by
  cases ha with
  | silent _ hsilent => exact Or.inl (hsilent th ht)
  | owes _ _ hth hq =>
      cases ht.symm.trans hth
      exact Or.inr ⟨_, hq⟩

theorem requests_concat (t : Nat) (ms : List Move) (m : Move) :
    requests t (ms ++ [m]) = requests t ms ++ (m.hears t).filter Msg.IsRequest := by
  rw [requests, heard_concat, List.filter_append, requests]

theorem replies_step (hstep : Stepped h m h' acts) (t : Nat) :
    h'.replies t = h.replies t ++ (msgsOn h.conns t acts).filter Msg.IsReply := by
  rw [replies, written_step hstep, List.filter_append, replies]

theorem replies_of_noReply (hstep : Stepped h m h' acts) (hno : NoReply acts) (t : Nat) :
    h'.replies t = h.replies t := by
  rw [replies_step hstep, List.filter_eq_nil_iff.mpr, List.append_nil]
  intro msg hmsg hr
  obtain ⟨g, hg, -⟩ := mem_msgsOn.mp hmsg
  exact hno g msg hg (of_decide_eq_true hr)

/-- The thread of `t` makes a step. -/
theorem Accounted.own_step {ms : List Move} (ha : h.Accounted ms t) (hs : h.Sound)
    (hup : ¬ h.loop.Shut) (hstep : Stepped h (.thread t answer) h' acts) :
    h'.Accounted (ms ++ [.thread t answer]) t := by
  obtain ⟨th, th', ht, hthreads, -⟩ := threads_of_step hstep
  have ht' : h'.threads t = some th' := by rw [hthreads, Function.update_self]
  have hrequests := requests_concat t ms (.thread t answer)
  have hsilent' : th'.stage.Silent → ∀ th, h'.threads t = some th → th.stage.Silent := by
    intro hs' th₁ ht₁
    cases ht'.symm.trans ht₁
    exact hs'
  cases ha with
  | silent hmatch hsilent =>
      obtain ⟨hno, hnext⟩ := silent_step hstep ht ht' (hsilent th ht)
      rw [← replies_of_noReply hstep hno t] at hmatch
      rcases hnext with ⟨hnone, hs'⟩ | ⟨q, hq, howes⟩
      · rw [hnone, List.append_nil] at hrequests
        exact .silent (hrequests ▸ hmatch) (hsilent' hs')
      · rw [hq] at hrequests
        exact .owes hmatch hrequests ht' howes
  | @owes answered q th₁ hmatch hasked hth hq =>
      cases ht.symm.trans hth
      obtain ⟨hnone, hnext⟩ := owes_step hs hup hstep ht ht' hq
      rw [hnone, List.filter_nil, List.append_nil, hasked] at hrequests
      rcases hnext with ⟨howes, hno⟩ | ⟨m, rfl, hm, hs'⟩
      · exact .owes (replies_of_noReply hstep hno t ▸ hmatch) hrequests ht' howes
      · have hopen : h.conns th.fd = some t := by
          refine hs.holds t th ht ?_
          rintro he
          rw [he] at hq
          exact hq
        have hsent : h'.replies t = h.replies t ++ [m] := by
          rw [replies_step hstep]
          simp [msgsOn, hopen, hm.isReply]
        refine .silent ?_ (hsilent' hs')
        rw [hrequests, hsent]
        exact List.rel_append hmatch (.cons hm .nil)

/-- Nobody sends a reply for another. -/
theorem replies_of_other {ms : List Move} (ha : ∀ t, h.Accounted ms t) (hs : h.Sound)
    (hup : ¬ h.loop.Shut) (hstep : Stepped h m h' acts) (hm : ∀ answer, m ≠ .thread t answer) :
    h'.replies t = h.replies t := by
  cases hmove : m with
  | thread t' answer =>
      subst hmove
      obtain ⟨th, th', ht, hthreads, -⟩ := threads_of_step hstep
      have ht' : h'.threads t' = some th' := by rw [hthreads, Function.update_self]
      rcases (ha t').owes_or_silent ht with hsilent | ⟨q, hq⟩
      · exact replies_of_noReply hstep (silent_step hstep ht ht' hsilent).1 t
      · obtain ⟨-, ⟨-, hno⟩ | ⟨msg, rfl, -⟩⟩ := owes_step hs hup hstep ht ht' hq
        · exact replies_of_noReply hstep hno t
        · have hne : t' ≠ t := fun he => hm answer (by rw [he])
          have hopen : h.conns th.fd = some t' := by
            refine hs.holds t' th ht ?_
            rintro he
            rw [he] at hq
            exact hq
          rw [replies_step hstep]
          simp [msgsOn, hopen, hne]
  | _ =>
      subst hmove
      refine replies_of_noReply hstep ?_ t
      cases hstep <;> simp [NoReply, Msg.IsReply, MsgType.TellsOfClient]

/-- Somebody else makes a step. -/
theorem Accounted.other_step {ms : List Move} (ha : ∀ t, h.Accounted ms t) (hs : h.Sound)
    (hup : ¬ h.loop.Shut) (hstep : Stepped h m h' acts) (hm : ∀ answer, m ≠ .thread t answer) :
    h'.Accounted (ms ++ [m]) t := by
  have hhears : m.hears t = [] := by
    unfold Move.hears
    split
    · next t' chunk => exact if_neg fun he => hm _ (by rw [he])
    · rfl
  have hrequests : requests t (ms ++ [m]) = requests t ms := by
    rw [requests_concat, hhears, List.filter_nil, List.append_nil]
  have hreplies : h'.replies t = h.replies t := replies_of_other ha hs hup hstep hm
  have hkept : ∀ th, h'.threads t = some th → h.threads t = some th ∨ th.stage = .starting := by
    intro th ht
    refine forall_threads hstep
      (P := fun t' th => t' = t → h.threads t = some th ∨ th.stage = .starting)
      (fun _ _ _ _ => Or.inr rfl) ?_ ?_ t th ht rfl
    · rintro t' answer _ _ he _ _ rfl
      exact absurd he (hm answer)
    · rintro t' th _ hth rfl
      exact Or.inl hth
  cases ha t with
  | silent hmatch hsilent =>
      refine .silent (by rwa [hrequests, hreplies]) fun th ht => ?_
      rcases hkept th ht with hth | hst
      · exact hsilent th hth
      · rw [hst]
        trivial
  | owes hmatch hasked ht hq =>
      exact .owes (by rwa [hreplies]) (hrequests.trans hasked) (threads_kept hs hstep ht hm) hq

/-- The freeing of the nodes is not undone. -/
theorem shut_step (hstep : Stepped h m h' acts) (hup : ¬ h'.loop.Shut) : ¬ h.loop.Shut := by
  intro hshut
  cases hstep with
  | loops hl =>
      cases hl with
      | allFreed => exact hup trivial
      | tests hj | fails hj | counts hj | noMemory hj | noThread hj | allJoined hj | joinsGone hj
      | joins hj | joined hj =>
          rw [hj] at hshut
          exact hshut
  | accepts hj | spawns hj | turnsAway hj =>
      rw [hj] at hshut
      exact hshut
  | frees | terminates | registers | greets | serves | closes | quiet => exact hup hshut

theorem accounted_of_play {ms : List Move} (hplay : play hostStep boot ms = some h)
    (hup : ¬ h.loop.Shut) (t : Nat) : h.Accounted ms t := by
  refine (play_induction (J := fun ms s => s.Sound ∧ (¬ s.loop.Shut → ∀ t, s.Accounted ms t)) ?_
    ⟨sound_boot, fun _ t => .silent .nil fun _ ht => by cases ht⟩ hplay).2 hup t
  rintro ms s m s' acts ⟨hs, ha⟩ hstep
  refine ⟨hs.step hstep, fun hup t => ?_⟩
  have hstep := stepped_of_hostStep hstep
  have hup := shut_step hstep hup
  rcases em (∃ answer, m = .thread t answer) with ⟨answer, rfl⟩ | hm
  · exact (ha hup t).own_step hs hup hstep
  · exact Accounted.other_step (ha hup) hs hup hstep fun answer he => hm ⟨answer, he⟩

end Host

/-- In every run up to the freeing of the nodes, the replies on a connection are those to its
requests, in order; only the last request may still have none, and then its handler is not done. -/
theorem requests_answered_in_order {ms : List Move} {h : Host}
    (hplay : play hostStep .boot ms = some h) (hup : ¬ h.loop.Shut) (t : Nat) :
    List.Forall₂ Answers (Host.requests t ms) (h.replies t) ∨
      ∃ answered q th, Host.requests t ms = answered ++ [q] ∧
        List.Forall₂ Answers answered (h.replies t) ∧ h.threads t = some th ∧ th.stage.Handling := by
  cases Host.accounted_of_play hplay hup t with
  | silent hmatch _ => exact Or.inl hmatch
  | owes hmatch hasked ht hq => exact Or.inr ⟨_, _, _, hasked, hmatch, ht, hq.handling⟩

/-- 4 has asked for a name and for 5, which has asked for the list. -/
@[irreducible] def asksThrice : List Move :=
  arrives 0 4 ++ arrives 1 5 ++ [tells 0 (.withText .setNameReqType (ascii "ann")),
    tells 1 (.ofType .getClientListType), go 0, go 1, go 0, go 1, go 0, tells 0 (asksFor 5), go 0]

theorem three_requests_answered :
    List.Forall₂ Answers (Host.requests 0 asksThrice) ((afterMoves asksThrice).replies 0) ∨
      ∃ answered q th, Host.requests 0 asksThrice = answered ++ [q] ∧
        List.Forall₂ Answers answered ((afterMoves asksThrice).replies 0) ∧
        (afterMoves asksThrice).threads 0 = some th ∧ th.stage.Handling :=
  requests_answered_in_order (play_final (by decide +kernel))
    (by rw [show (afterMoves asksThrice).loop = .waiting by decide +kernel]; exact id) 0

end ChatSocket
