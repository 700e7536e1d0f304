/-
# `Host.Relays` — no text is invented, doubled or overtaken

A text that a client sends is in the hands of its thread until `handle_tx_msg` has
sent it or dropped it (`Stage.text`).  A thread holds one text at a time, and the
only messages of MSG_CLIENT_RX_TYPE are those that `handle_tx_msg` makes of such a
text.

So all texts that the server has ever written, on whatever connection, can be put
down in one log of who they are from and whom they went to; what the log has from
one client is what this client has sent, in this order and none twice, with
nothing missing but texts that were dropped: `texts_relayed_in_order`.
-/
import ChatSocket.Host.Turns
import ChatSocket.Kit.Runs

namespace ChatSocket

open Kit Registry

/-- A text that thread `sender` has written on connection `conn`. -/
structure Relay where
  sender : Nat
  conn : Nat
  msg : Msg
  deriving DecidableEq

/-- Chat text, as the server sends it. -/
def Msg.IsText (msg : Msg) : Prop := msg.msgType = .clientRxType

instance (msg : Msg) : Decidable msg.IsText := inferInstanceAs (Decidable (_ = _))

/-- What `handle_tx_msg` makes of a message, unless it is the command that ends the chat. -/
def Msg.asText (msg : Msg) : List Msg :=
  if strcmp msg.buffer.bytes disconnectCmd = 0 then [] else [{ msg with msgType := .clientRxType }]

/-- The text in a message that a client has sent. -/
def Msg.text (msg : Msg) : List Msg := if msg.msgType = .clientTxType then msg.asText else []

/-- The message that thread `t` receives in this step. -/
def Move.hears (t : Nat) : Move → List Msg
  | .thread t' (.poll (.input (.bytes chunk))) =>
      if t' = t then [(recvInto (.zero _) chunk.bytes).msg] else []
  | _ => []

/-- The text a handler has in hands. -/
def Point.text : Point → List Msg
  | tx msg => msg.asText
  | tell _ msg | reply msg => if msg.IsText then [msg] else []
  | _ => []

def Stage.text : Stage → List Msg
  | serving p => p.text
  | _ => []

/-- The text an act of thread `t` passes on, and where it goes. -/
def Act.relays (conns : Int → Option Nat) (t : Nat) : Act → List Relay
  | sent fd msg => if msg.IsText then (conns fd).toList.map fun c => ⟨t, c, msg⟩ else []
  | wrote _ => []

def relayed (conns : Int → Option Nat) (t : Nat) (acts : List Act) : List Relay :=
  acts.flatMap (Act.relays conns t)

section
variable {conns : Int → Option Nat} {t : Nat} {acts : List Act}

/-- Of what is written on a connection, the texts are those of the log. -/
theorem texts_msgsOn (conns : Int → Option Nat) (t c : Nat) (acts : List Act) :
    (Host.msgsOn conns c acts).filter Msg.IsText
      = ((relayed conns t acts).filter (·.conn = c)).map Relay.msg := by
  have hone : ∀ a : Act, (Host.msgsOn conns c [a]).filter Msg.IsText
      = ((a.relays conns t).filter (·.conn = c)).map Relay.msg := by
    intro a
    cases a with
    | wrote w => rfl
    | sent fd msg =>
        simp only [Host.msgsOn, Act.relays, List.filterMap_cons, List.filterMap_nil]
        by_cases htext : msg.IsText <;> by_cases hc : conns fd = some c
        · simp [htext, hc]
        · cases hfd : conns fd with
          | none => simp
          | some c' =>
              have hne : c' ≠ c := fun he => hc (by rw [hfd, he])
              simp [htext, hne]
        · simp [htext, hc]
        · simp [htext, hc]
  induction acts with
  | nil => rfl
  | cons a acts ih =>
      rw [← List.singleton_append, Host.msgsOn_append, List.filter_append, hone, ih, relayed,
        relayed, List.flatMap_append, List.filter_append, List.map_append, List.flatMap_singleton]

theorem relayed_eq_nil (h : ∀ fd msg, .sent fd msg ∈ acts → ¬ msg.IsText) :
    relayed conns t acts = [] := by
  refine List.flatMap_eq_nil_iff.mpr fun a ha => ?_
  cases a with
  | wrote w => rfl
  | sent fd msg => exact if_neg (h fd msg ha)

theorem sender_of_relayed : ∀ r ∈ relayed conns t acts, r.sender = t := by
  intro r hr
  obtain ⟨a, -, ha⟩ := List.mem_flatMap.mp hr
  cases a with
  | wrote w => cases ha
  | sent fd msg =>
      rw [Act.relays] at ha
      split at ha
      · obtain ⟨c, -, rfl⟩ := List.mem_map.mp ha
        rfl
      · cases ha

end

/-! ## One step of a thread -/

/-- A section or a send of a handler: the text is passed on, or dropped. -/
theorem Point.text_next (p : Point) (fd : Int) (r : Registry) (conns : Int → Option Nat) (t : Nat) :
    ((relayed conns t (p.acts fd r)).map Relay.msg ++ (p.next fd r).text).Sublist p.text := by
  have hsent : ∀ g msg, ((relayed conns t [.sent g msg]).map Relay.msg).Sublist
      (if msg.IsText then [msg] else []) := by
    intro g msg
    simp only [relayed, List.flatMap_cons, List.flatMap_nil, Act.relays, List.append_nil]
    split
    · cases conns g with
      | none => exact List.nil_sublist _
      | some c => exact List.Sublist.refl _
    · exact List.Sublist.refl _
  have hquiet : (∀ g msg, .sent g msg ∈ p.acts fd r → ¬ msg.IsText) →
      ((relayed conns t (p.acts fd r)).map Relay.msg ++ (p.next fd r).text) = (p.next fd r).text := by
    intro hno
    rw [relayed_eq_nil hno]
    rfl
  cases p with
  | tell g msg | reply msg =>
      show (_ ++ []).Sublist _
      rw [List.append_nil]
      exact hsent _ msg
  | tx msg =>
      rw [hquiet (by simp [acts])]
      simp only [next]
      split
      · exact List.nil_sublist _
      split
      · exact List.nil_sublist _
      · next hcmd =>
          simp only [text, Msg.asText, if_neg hcmd]
          exact List.Sublist.refl _
  | _ =>
      rw [hquiet (by simp [acts, Msg.IsText])]
      simp only [next]
      repeat' split
      all_goals simp [text, Msg.IsText, answer]

theorem Point.text_start (msg : Msg) : (Point.start msg).text = msg.text := by
  unfold start Msg.text
  split <;> simp_all [text]

theorem Stage.text_rx (msg : Msg) : (Stage.rx msg).text = msg.text := by
  unfold Stage.rx
  split
  · next hlist =>
      rw [Msg.text, if_neg (by rw [hlist]; simp)]
      rfl
  · exact Point.text_start msg

theorem text_listOn (next : Option Nat) (list : Buf maxMsgLen) (listLen : Nat) :
    (listOn next list listLen).text = [] := by
  cases next <;> rfl

theorem text_visit (r : Registry) (a : Nat) (list : Buf maxMsgLen) (listLen : Nat) :
    (visit r a list listLen).text = [] := by
  unfold visit
  split
  · rfl
  · split
    · rfl
    · exact text_listOn _ _ _

/-- What a thread has in hands after its own step, it had before or has just heard. -/
theorem text_goes {h h' : Host} {t : Nat} {answer : Answer} {acts : List Act}
    (hstep : Stepped h (.thread t answer) h' acts) {th th' : Thread}
    (ht : h.threads t = some th) (ht' : h'.threads t = some th') :
    ((relayed h.conns t acts).map Relay.msg ++ th'.stage.text).Sublist
      (th.stage.text ++ ((Move.thread t answer).hears t).flatMap Msg.text) := by
  have hnil : ∀ {acts : List Act} {stage : Stage}, stage.text = [] →
      (∀ fd msg, .sent fd msg ∈ acts → ¬ msg.IsText) →
      ∀ l, ((relayed h.conns t acts).map Relay.msg ++ stage.text).Sublist l := by
    intro acts stage hstage hacts l
    rw [relayed_eq_nil hacts, hstage]
    exact List.nil_sublist l
  cases hstep with
  | loops hl => cases hl
  | @registers _ _ ok hth hst =>
      cases ht.symm.trans hth
      cases Host.eq_of_goto ht'
      refine hnil ?_ ?_ _
      · split <;> rfl
      · intro fd msg hmsg
        simp only [registerActs] at hmsg
        split at hmsg <;> simp_all [Msg.IsText]
  | greets hth hst =>
      cases ht.symm.trans hth
      cases Host.eq_of_goto ht'
      exact hnil rfl (by simp [Msg.IsText, connEstablishReq]) _
  | serves hth hst =>
      cases ht.symm.trans hth
      cases Host.eq_of_goto ht'
      rw [hst]
      exact (Point.text_next _ _ _ _ _).trans (List.sublist_append_left _ _)
  | closes hth hst =>
      cases ht.symm.trans hth
      cases Host.eq_of_goto ht'
      refine hnil rfl ?_ _
      intro fd msg hmsg
      simp only [closedActs] at hmsg
      split at hmsg <;> simp_all [Msg.IsText]
  | quiet hth hq =>
      cases ht.symm.trans hth
      cases Host.eq_of_goto ht'
      show ([] ++ Stage.text _).Sublist _
      generalize th.stage = stage at hq
      cases hq with
      | hears =>
          rw [Move.hears, if_pos rfl, List.flatMap_singleton, Stage.text_rx]
          exact List.Sublist.refl _
      | lists =>
          rw [text_listOn]
          exact List.nil_sublist _
      | visits =>
          rw [text_visit]
          exact List.nil_sublist _
      | _ => exact List.nil_sublist _

namespace Host

variable {h h' : Host} {m : Move} {acts : List Act}

/-- What thread `t` has in hands. -/
def inHands (h : Host) (t : Nat) : List Msg := (h.threads t).elim [] fun th => th.stage.text

/-- The messages of the client of thread `t`, in the order it has sent them. -/
def heard (t : Nat) (ms : List Move) : List Msg := ms.flatMap (Move.hears t)

theorem heard_concat (t : Nat) (ms : List Move) (m : Move) :
    heard t (ms ++ [m]) = heard t ms ++ m.hears t := by
  rw [heard, List.flatMap_append, List.flatMap_singleton, heard]

/-- The log of all texts: what has been written on each connection, and what is from each client. -/
structure Logged (h : Host) (ms : List Move) (log : List Relay) : Prop where
  written : ∀ c, (h.written c).filter Msg.IsText = (log.filter (·.conn = c)).map Relay.msg
  senders : ∀ t, ((log.filter (·.sender = t)).map Relay.msg ++ h.inHands t).Sublist
    ((heard t ms).flatMap Msg.text)

/-- The thread that makes a step. -/
def mover : Move → Nat
  | .thread t _ => t
  | _ => 0

/-- Whoever else makes a step, what thread `t` has stays there. -/
theorem elim_threads_step {β : Type} {f : Stage → List β} (hf : f .starting = []) (hs : h.Sound)
    (hstep : Stepped h m h' acts) {t : Nat} (hm : ∀ answer, m ≠ .thread t answer) :
    ((h'.threads t).elim [] fun th => f th.stage) = (h.threads t).elim [] fun th => f th.stage := by
  have hnew := forall_threads hstep (P := fun t th => h.threads t = none → f th.stage = [])
    (fun _ _ _ _ => hf) (fun _ _ _ _ _ ht _ hnone => by rw [ht] at hnone; cases hnone)
    fun _ _ _ ht hnone => by rw [ht] at hnone; cases hnone
  cases ht : h.threads t with
  | some th => rw [threads_kept hs hstep ht hm]
  | none =>
      cases ht' : h'.threads t with
      | none => rfl
      | some th' => exact hnew t th' ht' ht

theorem inHands_step (hs : h.Sound) (hstep : Stepped h m h' acts) {t : Nat}
    (hm : ∀ answer, m ≠ .thread t answer) : h'.inHands t = h.inHands t :=
  elim_threads_step rfl hs hstep hm

/-- The accept loop passes no text on. -/
theorem relayed_step_eq_nil (hstep : Stepped h m h' acts) {t : Nat}
    (hm : ∀ answer, m ≠ .thread t answer) :
    (relayed h.conns (mover m) acts).filter (·.sender = t) = [] := by
  have hnone : (∀ fd msg, .sent fd msg ∈ acts → ¬ msg.IsText) →
      (relayed h.conns (mover m) acts).filter (·.sender = t) = [] := fun hacts => by
    rw [relayed_eq_nil hacts]
    rfl
  cases hm' : m with
  | thread t' answer =>
      refine List.filter_eq_nil_iff.mpr fun r hr he => ?_
      have hsender : r.sender = t' := sender_of_relayed r hr
      have ht : r.sender = t := of_decide_eq_true he
      exact hm answer (by rw [hm', ← ht, hsender])
  | _ =>
      subst hm'
      refine hnone ?_
      cases hstep <;> simp [Msg.IsText]

theorem Logged.step {ms : List Move} {log : List Relay} (hl : h.Logged ms log) (hs : h.Sound)
    (hstep : Stepped h m h' acts) :
    h'.Logged (ms ++ [m]) (log ++ relayed h.conns (mover m) acts) where
  written := by
    intro c
    rw [written_step hstep, List.filter_append, hl.written, List.filter_append, List.map_append,
      texts_msgsOn]
  senders := by
    intro t
    rw [List.filter_append, List.map_append, heard_concat, List.flatMap_append]
    rcases em (∃ answer, m = .thread t answer) with ⟨answer, rfl⟩ | hm
    · obtain ⟨th, th', ht, hthreads, -⟩ := threads_of_step hstep
      have ht' : h'.threads t = some th' := by rw [hthreads, Function.update_self]
      have hall : (relayed h.conns t acts).filter (·.sender = t) = relayed h.conns t acts :=
        List.filter_eq_self.mpr fun r hr => decide_eq_true (sender_of_relayed r hr)
      have hgoes := text_goes hstep ht ht'
      have hsent := hl.senders t
      simp only [inHands, ht, ht', Option.elim_some, mover, hall] at hsent ⊢
      rw [List.append_assoc]
      refine ((List.Sublist.refl _).append hgoes).trans ?_
      rw [← List.append_assoc]
      exact hsent.append (List.Sublist.refl _)
    · have hm : ∀ answer, m ≠ .thread t answer := fun answer he => hm ⟨answer, he⟩
      rw [relayed_step_eq_nil hstep hm, inHands_step hs hstep hm, List.map_nil, List.append_nil]
      exact (hl.senders t).trans (List.sublist_append_left _ _)

theorem logged_of_play {ms : List Move} (hplay : play hostStep .boot ms = some h) :
    ∃ log, h.Logged ms log := by
  refine (play_induction (J := fun ms s => s.Sound ∧ ∃ log, s.Logged ms log) ?_
    ⟨sound_boot, [], fun _ => rfl, fun _ => List.Sublist.refl _⟩ hplay).2
  rintro ms s m s' acts ⟨hs, log, hl⟩ hstep
  exact ⟨hs.step hstep, _, hl.step hs (stepped_of_hostStep hstep)⟩

end Host

/-- In every run, the texts that were written on the connections can be put down in one log, where
those from one client are texts it has sent, in its order. -/
theorem texts_relayed_in_order {ms : List Move} {h : Host}
    (hplay : play hostStep .boot ms = some h) :
    ∃ log : List Relay,
      (∀ c, (h.written c).filter Msg.IsText = (log.filter (·.conn = c)).map Relay.msg) ∧
      ∀ t, ((log.filter (·.sender = t)).map Relay.msg).Sublist
        ((Host.heard t ms).flatMap Msg.text) := by
  obtain ⟨log, hl⟩ := Host.logged_of_play hplay
  exact ⟨log, hl.written, fun t => (List.sublist_append_left _ _).trans (hl.senders t)⟩

/-- 4 and 5 have begun to chat; both have said something, and 4 something that is not passed on yet. -/
@[irreducible] def bothTalk : List Move :=
  arrives 0 4 ++ arrives 1 5 ++ [tells 0 (asksFor 5)] ++ List.replicate 7 (go 0) ++
    [tells 1 (.ofType .clientAcceptConnection)] ++ List.replicate 9 (go 1) ++
    [tells 0 (.withText .clientTxType (ascii "hi")), go 0, go 0,
      tells 1 (.withText .clientTxType (ascii "hello")), go 1, go 1, go 0,
      tells 0 (.withText .clientTxType (ascii "bye")), go 0]

theorem talk_is_logged :
    ∃ log : List Relay,
      (∀ c, ((afterMoves bothTalk).written c).filter Msg.IsText
        = (log.filter (·.conn = c)).map Relay.msg) ∧
      ∀ t, ((log.filter (·.sender = t)).map Relay.msg).Sublist
        ((Host.heard t bothTalk).flatMap Msg.text) :=
  texts_relayed_in_order (play_final (by decide +kernel))

end ChatSocket
