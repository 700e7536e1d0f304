/-
# `Host.Called` — a client is called what it was told it is called

A client gets a generated name when it registers, and another one each time
`set_name_handler` accepts its request.  The name is stored in one step and
acknowledged in a later one, and other threads come in between.  But they leave it
alone (`names_kept`), and the thread itself does nothing else before it has replied.

So the name in the registry is always the one that the requests and replies on the
connection say, taken in order and one by one, with the reply that is still in the
hands of the thread: `names_as_acknowledged`.
-/
import ChatSocket.Host.Answers

namespace ChatSocket

open Kit Registry

/-- The names that were asked for and acknowledged. -/
def acknowledged (requests replies : List Msg) : List (List UInt8) :=
  (requests.zip replies).flatMap fun q =>
    if q.2.msgType = .setNameAckType then [storedName q.1.buffer.bytes] else []

/-- What the client under `fd` is called after these requests and replies. -/
def nameAfter (fd : Int) (requests replies : List Msg) : List UInt8 :=
  (acknowledged requests replies).getLastD (tempClientName fd).str

section
variable {fd : Int} {requests replies : List Msg} {q a : Msg}

@[simp] theorem nameAfter_nil : nameAfter fd [] replies = (tempClientName fd).str := rfl

/-- A request that has no reply makes no difference. -/
theorem nameAfter_request (hlen : requests.length = replies.length) :
    nameAfter fd (requests ++ [q]) replies = nameAfter fd requests replies := by
  have hzip : (requests ++ [q]).zip replies = requests.zip replies := by
    conv_lhs => rw [← List.append_nil replies]
    rw [List.zip_append hlen, List.zip_nil_right, List.append_nil]
  rw [nameAfter, acknowledged, hzip, nameAfter, acknowledged]

theorem acknowledged_concat (hlen : requests.length = replies.length) :
    acknowledged (requests ++ [q]) (replies ++ [a]) = acknowledged requests replies ++
      if a.msgType = .setNameAckType then [storedName q.buffer.bytes] else [] := by
  rw [acknowledged, List.zip_append hlen, List.flatMap_append, acknowledged]
  exact congrArg _ (List.flatMap_singleton _ _)

theorem nameAfter_ack (hlen : requests.length = replies.length)
    (ha : a.msgType = .setNameAckType) :
    nameAfter fd (requests ++ [q]) (replies ++ [a]) = storedName q.buffer.bytes := by
  rw [nameAfter, acknowledged_concat hlen, if_pos ha, List.getLastD_concat]

theorem nameAfter_other (hlen : requests.length = replies.length)
    (ha : a.msgType ≠ .setNameAckType) :
    nameAfter fd (requests ++ [q]) (replies ++ [a]) = nameAfter fd requests replies := by
  rw [nameAfter, acknowledged_concat hlen, if_neg ha, List.append_nil, nameAfter]

end

/-! ## The reply in the hands of a thread -/

def Stage.telling : Stage → List Msg
  | serving (.reply msg) => if msg.IsReply then [msg] else []
  | _ => []

section
variable {q a : Msg} {s : Stage}

theorem Stage.telling_of_silent (h : s.Silent) : s.telling = [] := by
  cases s with
  | serving p =>
      cases p with
      | reply msg => exact if_neg h
      | _ => rfl
  | _ => rfl

/-- Only a request for a name is answered by an acknowledgement. -/
theorem Answers.ne_ack (h : Answers q a) (hq : q.msgType ≠ .setNameReqType) :
    a.msgType ≠ .setNameAckType := by
  intro ha
  unfold Answers at h
  split at h
  · next he => exact hq he
  · rw [ha] at h
    cases h
  · have htells := h.1
    rw [ha] at htells
    exact absurd htells (by decide)
  · exact h

theorem Stage.telling_of_owes (h : s.Owes q) :
    s.telling = [] ∨ ∃ a, s.telling = [a] ∧ Answers q a := by
  cases s with
  | serving p =>
      cases p with
      | reply msg =>
          have hm : Answers q msg := h
          exact Or.inr ⟨msg, if_pos hm.isReply, hm⟩
      | _ => exact Or.inl rfl
  | _ => exact Or.inl rfl

/-- Where no name was asked for, the reply to come makes no difference. -/
theorem nameAfter_owes {fd : Int} {answered replies : List Msg}
    (hlen : answered.length = replies.length) (h : s.Owes q) (hq : q.msgType ≠ .setNameReqType) :
    nameAfter fd (answered ++ [q]) (replies ++ s.telling) = nameAfter fd answered replies := by
  rcases Stage.telling_of_owes h with htelling | ⟨a, htelling, ha⟩
  · rw [htelling, List.append_nil, nameAfter_request hlen]
  · rw [htelling, nameAfter_other hlen (ha.ne_ack hq)]

/-- The handler that has a name to store, or to tell what came of it. -/
theorem Stage.owes_name (h : s.Owes q) (hq : q.msgType = .setNameReqType) :
    s = .serving (.setName q) ∨ ∃ a, s = .serving (.reply a) ∧ Answers q a := by
  cases s with
  | serving p =>
      cases p with
      | setName msg =>
          obtain ⟨rfl, -⟩ := h
          exact Or.inl rfl
      | reply a => exact Or.inr ⟨a, rfl, h⟩
      | connect | claim | link | copyAsker | ask => cases hq.symm.trans h.1
      | _ => exact h.elim
  | listHead | listing => cases hq.symm.trans h
  | _ => exact h.elim

theorem Stage.telling_rx (msg : Msg) : (Stage.rx msg).telling = [] := by
  refine rx_cases (P := fun s => s.telling = []) msg rfl ?_
  unfold Point.start
  split <;> rfl

end

namespace Host

variable {h h' : Host} {m : Move} {acts : List Act} {t : Nat} {answer : Answer} {ms : List Move}

/-- What the client of thread `t` is told in reply, up to what its thread is about to send. -/
def told (h : Host) (t : Nat) : List Msg :=
  h.replies t ++ (h.threads t).elim [] fun th => th.stage.telling

theorem told_of_thread {th : Thread} (ht : h.threads t = some th) :
    h.told t = h.replies t ++ th.stage.telling := by
  rw [told, ht]
  rfl

/-- The names of the registry are those that the connections have been told. -/
def Named (h : Host) (ms : List Move) (t : Nat) : Prop :=
  ∀ fd, h.conns fd = some t → ∀ x, h.registry.names fd = some x →
    x = nameAfter fd (requests t ms) (h.told t)

/-! ## The thread itself -/

/-- A thread that has not registered has heard nothing. -/
def Unheard (h : Host) (ms : List Move) : Prop :=
  ∀ t, (∀ th, h.threads t = some th → th.stage = .starting) → heard t ms = []

theorem hears_eq_nil (hm : ∀ answer, m ≠ .thread t answer) : m.hears t = [] := by
  unfold Move.hears
  split
  · next t' chunk => exact if_neg fun he => hm _ (by rw [he])
  · rfl

theorem not_starting_of_goes {th th' : Thread} (hg : h.Goes th answer th') :
    th'.stage ≠ .starting := by
  cases hg with
  | registers hst =>
      rintro rfl
      rcases hst with hst | hst <;> cases hst
  | greets | serves | closes => simp
  | quiet hq =>
      exact after_quiets hq (P := (· ≠ .starting)) (by simp) (by simp) (by simp) (by simp) (by simp)
        (by simp) (by simp) (by simp)

theorem Unheard.step (hn : h.Unheard ms) (hs : h.Sound) (hstep : Stepped h m h' acts) :
    h'.Unheard (ms ++ [m]) := by
  intro t hfresh
  have hm : ∀ answer, m ≠ .thread t answer := by
    rintro answer rfl
    obtain ⟨th, th', ht, hthreads, -⟩ := threads_of_step hstep
    have ht' : h'.threads t = some th' := by rw [hthreads, Function.update_self]
    exact not_starting_of_goes (goes_of_step hstep ht ht') (hfresh th' ht')
  rw [heard_concat, hears_eq_nil hm, List.append_nil]
  refine hn t fun th ht => hfresh th (threads_kept hs hstep ht hm)

/-- The name of a thread's client changes in `set_name_handler`. -/
theorem names_own_step (hs : h.Sound) (hstep : Stepped h (.thread t answer) h' acts) {th : Thread}
    (ht : h.threads t = some th) (hst : th.stage ≠ .starting)
    (hset : ∀ msg, th.stage ≠ .serving (.setName msg)) :
    h'.registry.names th.fd = h.registry.names th.fd ∨ h'.registry.names th.fd = none := by
  cases hstep with
  | loops hl => cases hl
  | registers hth hst' =>
      cases ht.symm.trans hth
      exact absurd hst' hst
  | greets | quiet => exact Or.inl rfl
  | serves hth hsrv =>
      cases ht.symm.trans hth
      refine Or.inl (congrFun (names_replay _ _ (Point.nameless_acts ?_ _ _)) _)
      rintro msg rfl
      exact hset msg hsrv
  | closes hth =>
      cases ht.symm.trans hth
      right
      have hnames : (replay h.registry ((Event.closed th.fd).acts h.registry)).names
          = Function.update h.registry.names th.fd none := names_closed hs.wf
      exact (congrFun hnames th.fd).trans (Function.update_self _ _ _)

/-- Who has heard something has no reply in hands. -/
theorem telling_of_hears (hstep : Stepped h (.thread t answer) h' acts) {th' : Thread}
    (ht' : h'.threads t = some th') (hheard : (Move.thread t answer).hears t ≠ []) :
    th'.stage.telling = [] := by
  cases hstep with
  | loops hl => cases hl
  | registers | greets | serves | closes => exact absurd rfl hheard
  | quiet hth hq =>
      cases eq_of_goto ht'
      generalize Thread.stage _ = stage at hq
      cases hq with
      | hears => exact Stage.telling_rx _
      | hangsUp hp =>
          rcases hp with rfl | rfl
          · exact absurd rfl hheard
          · exact absurd rfl hheard
      | again hp =>
          rcases hp with rfl | rfl | rfl
          · exact absurd rfl hheard
          · exact absurd rfl hheard
          · exact absurd rfl hheard
      | _ => exact absurd rfl hheard

/-- The reply in hands is sent, or kept. -/
theorem told_reply (hs : h.Sound) (hstep : Stepped h (.thread t answer) h' acts) {th : Thread}
    (ht : h.threads t = some th) {a : Msg} (hst : th.stage = .serving (.reply a))
    (ha : a.IsReply) : h'.told t = h.told t := by
  have hopen := hs.holds t th ht (by simp [hst])
  have hreplies := replies_step hstep t
  cases hstep with
  | loops hl => cases hl
  | registers hth hst' | greets hth hst' | closes hth hst' =>
      cases ht.symm.trans hth
      cases hst.symm.trans hst'
  | quiet hth hq =>
      cases ht.symm.trans hth
      rw [hst] at hq
      cases hq
  | serves hth hst' =>
      cases ht.symm.trans hth
      cases hst.symm.trans hst'
      rw [told_of_thread threads_goto_self, told_of_thread ht, hreplies, hst]
      simp [Point.acts, Point.next, Stage.telling, msgsOn, hopen, ha]

/-- `set_name_handler` refuses the name, or stores it and goes to acknowledge it. -/
theorem setName_step (hs : h.Sound) (hstep : Stepped h (.thread t answer) h' acts) {th th' : Thread}
    (ht : h.threads t = some th) (ht' : h'.threads t = some th') {q : Msg}
    (hst : th.stage = .serving (.setName q)) (hreg : (h.registry.node th.fd).isSome) :
    h'.replies t = h.replies t ∧ ∃ a, th'.stage.telling = [a] ∧
      (a.msgType ≠ .setNameAckType ∧ h'.registry.names th.fd = h.registry.names th.fd ∨
        a.msgType = .setNameAckType ∧
          h'.registry.names th.fd = some (storedName q.buffer.bytes)) := by
  have hfd := hs.fd_ne_invalidFd ht (by simp [hst])
  have hreplies : NoReply acts → h'.replies t = h.replies t :=
    fun hno => replies_of_noReply hstep hno t
  cases hstep with
  | loops hl => cases hl
  | registers hth hst' | greets hth hst' | closes hth hst' =>
      cases ht.symm.trans hth
      cases hst.symm.trans hst'
  | quiet hth hq =>
      cases ht.symm.trans hth
      rw [hst] at hq
      cases hq
  | serves hth hst' =>
      cases ht.symm.trans hth
      cases hst.symm.trans hst'
      cases eq_of_goto ht'
      obtain ⟨n, hn⟩ := Option.isSome_iff_exists.mp hreg
      have hset : (h.registry.setNameOfClientByClientFd th.fd q.buffer.bytes).1 = .succ := by
        rw [setNameOfClientByClientFd, if_neg (List.ne_nil_of_mem (look_mem hn)), if_neg hfd, hn]
      have hno : NoReply ((Point.setName q).acts th.fd h.registry) := by
        intro g m hm
        simp only [Point.acts] at hm
        split at hm <;> simp at hm
      rcases em (h.registry.checkClientWithSameNameExistOrNot q.buffer.bytes = .nameNotExist)
        with hfree | htaken
      · refine ⟨hreplies hno, .ofType .setNameAckType, ?_, Or.inr ⟨rfl, ?_⟩⟩
        · simp [Point.next, hfree, hset, Stage.telling, Msg.IsReply]
        · show (replay h.registry _).names th.fd = _
          rw [Point.acts, if_neg (not_not.mpr hfree), replay, replay, names_rename hfd hreg,
            Function.update_self]
      · refine ⟨hreplies hno, .ofType .setNameNackType, ?_, Or.inl ⟨by simp, ?_⟩⟩
        · simp [Point.next, htaken, Stage.telling, Msg.IsReply]
        · show (replay h.registry _).names th.fd = _
          rw [Point.acts, if_pos htaken]
          rfl

/-- A thread registers. -/
theorem Named.registers (hu : h.Unheard ms) (hs : h.Sound)
    (hstep : Stepped h (.thread t answer) h' acts) {th : Thread} (ht : h.threads t = some th)
    (hst : th.stage = .starting) {x : List UInt8} (hx : h'.registry.names th.fd = some x) :
    x = nameAfter th.fd (requests t (ms ++ [.thread t answer])) (h'.told t) := by
  have hheard : requests t ms = [] := by
    rw [requests, hu t fun th₁ ht₁ => ?_]
    · rfl
    · cases ht.symm.trans ht₁
      exact hst
  cases hstep with
  | loops hl => cases hl
  | greets hth hst' | serves hth hst' | closes hth hst' =>
      cases ht.symm.trans hth
      cases hst.symm.trans hst'
  | quiet hth hq =>
      cases ht.symm.trans hth
      rw [hst] at hq
      cases hq
  | @registers _ _ ok hth _ _ =>
      cases ht.symm.trans hth
      replace hx : (replay h.registry (registerActs h.registry th.fd ok)).names th.fd = some x := hx
      rw [replay_registerActs, names, node_add (hs.node_starting ht hst),
        hs.node_starting ht hst] at hx
      rw [requests_concat, hheard]
      split at hx
      · cases hx
        rfl
      · cases hx

/-- The thread of `t` makes a step. -/
theorem Named.own_step (hn : h.Named ms t) (hu : h.Unheard ms) (ha : h.Accounted ms t)
    (hs : h.Sound) (hs' : h'.Sound) (hup : ¬ h.loop.Shut)
    (hstep : Stepped h (.thread t answer) h' acts) : h'.Named (ms ++ [.thread t answer]) t := by
  intro fd hc x hx
  obtain ⟨th, th', ht, hthreads, -⟩ := threads_of_step hstep
  have ht' : h'.threads t = some th' := by rw [hthreads, Function.update_self]
  -- the node is the thread's own
  obtain ⟨n, hnode, rfl⟩ := Option.map_eq_some_iff.mp hx
  have hfd : th.fd = fd := by
    obtain rfl : n.fd = fd := look_key hnode
    obtain ⟨th₁, ht₁, hfd, -⟩ := hs'.owner_eq (look_mem hnode) hc
    cases ht'.symm.trans ht₁
    rw [← hfd]
    cases goes_of_step hstep ht ht' <;> rfl
  subst hfd
  rcases em (th.stage = .starting) with hst | hst
  · exact Named.registers hu hs hstep ht hst hx
  have hc : h.conns th.fd = some t := by
    rcases conns_step hstep hc with hc | ⟨hm, -⟩
    · exact hc
    · cases hm
  have hkept : (∀ msg, th.stage ≠ .serving (.setName msg)) → n.data.name.str
      = nameAfter th.fd (requests t ms) (h.replies t ++ th.stage.telling) := by
    intro hset
    rw [← told_of_thread ht]
    refine hn th.fd hc _ ?_
    rcases names_own_step hs hstep ht hst hset with he | he
    · rw [← he, hx]
    · rw [he] at hx
      cases hx
  rw [requests_concat, told_of_thread ht']
  cases ha with
  | silent hmatch hsilent =>
      have hs₁ := hsilent th ht
      have hname := hkept fun msg he => by
        rw [he] at hs₁
        exact hs₁
      obtain ⟨hno, hnext⟩ := silent_step hstep ht ht' hs₁
      rw [Stage.telling_of_silent hs₁, List.append_nil] at hname
      rw [hname, replies_of_noReply hstep hno t]
      rcases hnext with ⟨hnone, hs₂⟩ | ⟨q, hq, -⟩
      · rw [hnone, Stage.telling_of_silent hs₂, List.append_nil, List.append_nil]
      · have hheard : (Move.thread t answer).hears t ≠ [] := by
          intro he
          rw [he] at hq
          cases hq
        rw [hq, telling_of_hears hstep ht' hheard, List.append_nil,
          nameAfter_request hmatch.length_eq]
  | @owes answered q th₁ hmatch hasked hth hq =>
      cases ht.symm.trans hth
      have hlen := hmatch.length_eq
      obtain ⟨hnone, hnext⟩ := owes_step hs hup hstep ht ht' hq
      rw [hnone, List.filter_nil, List.append_nil, ← told_of_thread ht', hasked]
      rw [hasked] at hkept
      rcases em (q.msgType = .setNameReqType) with hname | hother
      · rcases Stage.owes_name hq hname with hst | ⟨a, hst, ha⟩
        · have hbefore : nameAfter th.fd (requests t ms) (h.told t)
              = nameAfter th.fd answered (h.replies t) := by
            rw [hasked, told_of_thread ht, hst]
            exact (congrArg _ (List.append_nil _)).trans (nameAfter_request hlen)
          have hreg := hs.registered t th ht (by rw [hst]; trivial) hup
          obtain ⟨hsame, a, htelling, hcases⟩ := setName_step hs hstep ht ht' hst hreg
          rw [told_of_thread ht', hsame, htelling]
          rcases hcases with ⟨ha, he⟩ | ⟨ha, he⟩
          · rw [nameAfter_other hlen ha, ← hbefore]
            exact hn th.fd hc _ (by rw [← he, hx])
          · rw [nameAfter_ack hlen ha]
            exact Option.some.inj (hx.symm.trans he)
        · rw [told_reply hs hstep ht hst ha.isReply, told_of_thread ht]
          exact hkept fun msg he => by cases hst.symm.trans he
      · have hset : ∀ msg, th.stage ≠ .serving (.setName msg) := by
          intro msg he
          rw [he] at hq
          exact hother (hq.1 ▸ hq.2)
        rw [hkept hset, nameAfter_owes hlen hq hother, told_of_thread ht']
        rcases hnext with ⟨hq', hno⟩ | ⟨a, rfl, ha, hs'⟩
        · rw [replies_of_noReply hstep hno t, nameAfter_owes hlen hq' hother]
        · have hopen : h.conns th.fd = some t := hc
          have hsent : h'.replies t = h.replies t ++ [a] := by
            rw [replies_step hstep]
            simp [msgsOn, hopen, ha.isReply]
          rw [hsent, Stage.telling_of_silent hs', List.append_nil,
            nameAfter_other hlen (ha.ne_ack hother)]

/-- Somebody else makes a step. -/
theorem Named.other_step (hn : h.Named ms t) (ha : ∀ t, h.Accounted ms t) (hs : h.Sound)
    (hup : ¬ h.loop.Shut) (hstep : Stepped h m h' acts) (hm : ∀ answer, m ≠ .thread t answer) :
    h'.Named (ms ++ [m]) t := by
  have htold : h'.told t = h.told t := by
    rw [told, told, replies_of_other ha hs hup hstep hm]
    exact congrArg _ (elim_threads_step rfl hs hstep hm)
  intro fd hc x hx
  rw [requests_concat, hears_eq_nil hm, List.filter_nil, List.append_nil, htold]
  rcases conns_step hstep hc with hc | ⟨rfl, rfl, hnone⟩
  · refine hn fd hc x ?_
    rcases hs.names_kept hstep hc hm with he | he
    · rw [← he, hx]
    · rw [he] at hx
      cases hx
  · have hsame : h'.registry = h.registry := by
      cases hstep with
      | loops hl => cases hl
      | accepts => rfl
    obtain ⟨n, hnode, -⟩ := Option.map_eq_some_iff.mp (hsame ▸ hx)
    obtain ⟨t, th, hopen, -⟩ := hs.owner n (look_mem hnode)
    obtain rfl : n.fd = fd := look_key hnode
    rw [hnone] at hopen
    cases hopen

theorem named_of_play (hplay : play hostStep boot ms = some h) (hup : ¬ h.loop.Shut) (t : Nat) :
    h.Named ms t := by
  refine (play_induction (J := fun ms s => play hostStep boot ms = some s ∧ s.Sound ∧
    s.Unheard ms ∧ (¬ s.loop.Shut → ∀ t, s.Named ms t)) ?_
    ⟨rfl, sound_boot, fun _ _ => rfl, fun _ t fd hc => by cases hc⟩ hplay).2.2.2 hup t
  rintro ms s m s' acts ⟨hplay, hs, hu, hn⟩ hstep
  have hs' := hs.step hstep
  have hplay' := play_concat hplay hstep
  have hstep := stepped_of_hostStep hstep
  refine ⟨hplay', hs', hu.step hs hstep, fun hup t => ?_⟩
  have hup := shut_step hstep hup
  have ha := accounted_of_play hplay hup
  rcases em (∃ answer, m = .thread t answer) with ⟨answer, rfl⟩ | hm
  · exact (hn hup t).own_step hu (ha t) hs hs' hup hstep
  · exact (hn hup t).other_step ha hs hup hstep fun answer he => hm ⟨answer, he⟩

end Host

/-- In every run up to the freeing of the nodes, every client is called what its own connection has
been told: by the last name it has asked for and got acknowledged, as far as it fits, or the one it
came with.  An acknowledgement counts from when its thread is to send it. -/
theorem names_as_acknowledged {ms : List Move} {h : Host}
    (hplay : play hostStep .boot ms = some h) (hup : ¬ h.loop.Shut) :
    ∀ n ∈ h.registry.clientList, ∃ t, h.conns n.fd = some t ∧
      n.data.name.str = nameAfter n.fd (Host.requests t ms) (h.told t) := by
  intro n hn
  have hs := Host.sound_of_reachable ⟨ms, hplay⟩
  obtain ⟨t, th, hc, -⟩ := hs.owner n hn
  exact ⟨t, hc, Host.named_of_play hplay hup t n.fd hc _ (names_eq_some hs.wf hn)⟩

/-- 4 is called ann; 5 may not be, and is about to be told that it is bob. -/
@[irreducible] def renamedTwo : List Move :=
  arrives 0 4 ++ arrives 1 5 ++ [tells 0 (.withText .setNameReqType (ascii "ann")),
    tells 1 (.withText .setNameReqType (ascii "ann")), go 0, go 1, go 0, go 1, go 1,
    tells 1 (.withText .setNameReqType (ascii "bob")), go 1]

theorem two_are_renamed :
    (afterMoves renamedTwo).registry.clientList.map (·.data.name.str) = [ascii "ann", ascii "bob"] ∧
      ∀ n ∈ (afterMoves renamedTwo).registry.clientList, ∃ t,
        (afterMoves renamedTwo).conns n.fd = some t ∧
          n.data.name.str = nameAfter n.fd (Host.requests t renamedTwo)
            ((afterMoves renamedTwo).told t) :=
  ⟨by decide +kernel, names_as_acknowledged (play_final (by decide +kernel))
    (by rw [show (afterMoves renamedTwo).loop = .waiting by decide +kernel]; exact id)⟩

end ChatSocket
