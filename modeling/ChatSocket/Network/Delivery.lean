/-
# `Network.Delivery` — from one keyboard to the other screen

What a user says in a chat goes up to the server with the other messages of the
client, is passed on there or dropped, and comes down to another client.  The log of
the texts that the server has written (`relayed`) connects the two ends.  Of what a
client has said, the part that was passed on is in order and not doubled, and so is, of
what was passed on to a client, the part it has heard.

Texts are lost in two places: the server drops one if its sender is not BUSY or nobody
is at the end of the link, and a client that hangs up hears nothing more.  Where this
does not happen, nothing is lost: what is not heard yet is on its way.

`texts_delivered` says both, of every run and every client.  A client is known by its
connection, so whoever comes under the descriptor later is somebody else.
-/
import ChatSocket.Network.Agreement
import ChatSocket.Network.Exchange
import ChatSocket.Host.Relays

namespace ChatSocket

open Kit Registry

/-! ## The texts on their way -/

/-- A text that the server has written: whose message made it do so, and on whose connection. -/
structure Passed where
  sender : Caller
  receiver : Caller
  msg : Msg
  deriving DecidableEq

def passedBy (k : Caller) (log : List Passed) : List Msg :=
  (log.filter (·.sender = k)).map Passed.msg

def passedTo (k : Caller) (log : List Passed) : List Msg :=
  (log.filter (·.receiver = k)).map Passed.msg

namespace Conn

/-- The texts that the server has not handled. -/
def upTexts (c : Conn) : List Msg := c.up.flatMap Msg.text

/-- The texts that the client will hear, unless it hangs up. -/
def downTexts (c : Conn) : List Msg := if c.hungUp then [] else c.down.filter Msg.IsText

end Conn

namespace Exchange

def upTexts (x : Exchange) (k : Caller) : List Msg := (x.conn k).elim [] Conn.upTexts

def downTexts (x : Exchange) (k : Caller) : List Msg := (x.conn k).elim [] Conn.downTexts

/-- What the server writes on the connection of `k`. -/
def written (x : Exchange) (k : Caller) (acts : List Act) : List Msg :=
  if (x.conn k).isSome then msgsTo k.fd acts else []

end Exchange

/-- What the user of `k` says in an event: the texts that its client sends. -/
def NetEvent.said (k : Caller) (x : Exchange) : NetEvent → List Msg
  | types fd line =>
      if x.caller fd = k then
        (x.conn k).elim [] fun c => (c.client.processSendMsg line).2.flatMap Msg.text
      else []
  | _ => []

/-- What the client of `k` hears in an event. -/
def NetEvent.heard (k : Caller) (x : Exchange) : NetEvent → List Msg
  | delivers fd =>
      if x.caller fd = k then
        (x.conn k).elim [] fun c => c.down.head?.toList.filter Msg.IsText
      else []
  | _ => []

def Act.passed (x : Exchange) (sender : Caller) : Act → List Passed
  | sent fd msg =>
      if msg.IsText ∧ (x.net.conn fd).isSome then [⟨sender, x.caller fd, msg⟩] else []
  | wrote _ => []

/-- What the server passes on in an event. -/
def NetEvent.passed (x : Exchange) (acts : List Act) : NetEvent → List Passed
  | serves fd => acts.flatMap (Act.passed x (x.caller fd))
  | _ => []

/-- The server passes the text on, if it is one. -/
def NetEvent.PassesText (s : Network) : NetEvent → Prop
  | serves fd => ∀ c ∈ s.conn fd, ∀ msg ∈ c.up.head?, msg.text ≠ [] →
      s.registry.getClientChattingStatusByFd fd = .busy ∧
        s.registry.getConnFdByFd fd ≠ invalidFd ∧ (s.conn (s.registry.getConnFdByFd fd)).isSome
  | _ => True

instance (s : Network) : (e : NetEvent) → Decidable (e.PassesText s)
  | .serves fd =>
      inferInstanceAs (Decidable (∀ c ∈ s.conn fd, ∀ msg ∈ c.up.head?, msg.text ≠ [] → _ ∧ _ ∧ _))
  | .joins _ _ _ | .types _ _ | .delivers _ | .hangsUp _ | .seesEnd _ =>
      inferInstanceAs (Decidable True)

/-! ## The texts among the acts of the server -/

section
variable {r : Registry} {e : Event} {g : Int} {m : Msg}

/-- Only `handle_tx_msg` sends a text. -/
theorem not_text_of_does (hd : Does r e (.sent g m))
    (he : ∀ fd msg, e = .rxMsg fd msg → msg.msgType ≠ .clientTxType) : ¬ m.IsText := by
  cases hd with
  | turnsAway => simp [Msg.IsText]
  | answers hne => exact hne
  | loses _ _ _ ha => simp at ha
  | asks _ _ ha | pairs _ _ _ _ ha | declines _ _ _ ha | leaves ha =>
      simp only [List.mem_cons, Act.sent.injEq, reduceCtorEq, List.not_mem_nil, or_false,
        false_or] at ha
      rw [ha.2]
      simp [Msg.IsText]
  | quits htx | relays htx => exact absurd htx (he _ _ rfl)

/-- Nobody is sent a text when a connection ends. -/
theorem not_text_of_closed (h : r.Wf) {fd : Int} (he : (Event.closed fd).Possible r) :
    ∀ g m, .sent g m ∈ (Event.closed fd).acts r → ¬ m.IsText :=
  fun _ _ hm => not_text_of_does (does_of_mem h he hm) fun _ _ heq => by cases heq

variable {x : Exchange}

theorem passed_eq_nil {acts : List Act} (k : Caller)
    (hacts : ∀ g m, .sent g m ∈ acts → ¬ m.IsText) : acts.flatMap (Act.passed x k) = [] := by
  refine List.flatMap_eq_nil_iff.mpr fun a ha => ?_
  cases a with
  | wrote w => rfl
  | sent g m => exact if_neg fun h => hacts g m ha h.1

theorem texts_to_eq_nil {acts : List Act} (g : Int) (hacts : ∀ g m, .sent g m ∈ acts → ¬ m.IsText) :
    (msgsTo g acts).filter Msg.IsText = [] := by
  refine List.filter_eq_nil_iff.mpr fun m hm htext => ?_
  obtain ⟨a, ha, hsent⟩ := List.mem_filterMap.mp hm
  cases a with
  | wrote w => cases hsent
  | sent g' m' =>
      have hsent : (if g' = g then some m' else none) = some m := hsent
      split at hsent
      · cases hsent
        exact hacts g' m ha (of_decide_eq_true htext)
      · cases hsent

/-- Where no text is sent, none is written. -/
theorem written_texts_eq_nil {acts : List Act} (k : Caller)
    (hacts : ∀ g m, .sent g m ∈ acts → ¬ m.IsText) :
    (x.written k acts).filter Msg.IsText = [] := by
  rw [Exchange.written]
  split
  · exact texts_to_eq_nil k.fd hacts
  · rfl

/-- A text goes to the end of the link, or nowhere. -/
theorem passed_tx (k : Caller) (fd : Int) {msg : Msg} (hmsg : msg.msgType = .clientTxType) :
    (txActs r fd msg).flatMap (Act.passed x k)
      = if r.getClientChattingStatusByFd fd = .busy ∧ r.getConnFdByFd fd ≠ invalidFd ∧
          (x.net.conn (r.getConnFdByFd fd)).isSome then
          msg.text.map fun m => ⟨k, x.caller (r.getConnFdByFd fd), m⟩
        else [] := by
  have htext : msg.text = msg.asText := if_pos hmsg
  simp only [txActs, htext, Msg.asText]
  split
  · next hidle =>
      rw [if_neg fun h => hidle.elim (fun hst => hst h.1) fun hc => h.2.1 hc]
      rfl
  · next hlinked =>
      obtain ⟨hst, hc⟩ := not_or.mp hlinked
      split
      · simp [Act.passed, Msg.IsText]
      · by_cases hthere : (x.net.conn (r.getConnFdByFd fd)).isSome = true
        · simp [Act.passed, Msg.IsText, hthere, not_not.mp hst, hc]
        · simp [Act.passed, Msg.IsText, hthere]

/-- What the server passes on of a message. -/
theorem passed_rx (h : r.Wf) (k : Caller) {fd : Int} {msg : Msg}
    (he : (Event.rxMsg fd msg).Possible r) :
    ((Event.rxMsg fd msg).acts r).flatMap (Act.passed x k)
      = if r.getClientChattingStatusByFd fd = .busy ∧ r.getConnFdByFd fd ≠ invalidFd ∧
          (x.net.conn (r.getConnFdByFd fd)).isSome then
          msg.text.map fun m => ⟨k, x.caller (r.getConnFdByFd fd), m⟩
        else [] := by
  rcases em (msg.msgType = .clientTxType) with hmsg | hmsg
  · have hacts : (Event.rxMsg fd msg).acts r = txActs r fd msg := by
      rw [Event.acts, rxActs, hmsg]
    rw [hacts, passed_tx k fd hmsg]
  · have htext : msg.text = [] := if_neg hmsg
    rw [htext, List.map_nil, ite_self]
    refine passed_eq_nil k fun g m hm => not_text_of_does (does_of_mem h he hm) ?_
    rintro _ _ ⟨rfl, rfl⟩
    exact hmsg

/-- What is passed on to a client is what is written on its connection. -/
theorem passedTo_acts (x : Exchange) (k sender : Caller) (acts : List Act) :
    passedTo k (acts.flatMap (Act.passed x sender)) = (x.written k acts).filter Msg.IsText := by
  induction acts with
  | nil => simp [passedTo, Exchange.written, msgsTo]
  | cons a acts ih =>
      rw [List.flatMap_cons, passedTo, List.filter_append, List.map_append]
      rw [passedTo] at ih
      rw [ih]
      cases a with
      | wrote w => rfl
      | sent g m =>
          rcases eq_or_ne (x.caller g) k with rfl | hk
          · have hfd : (x.caller g).fd = g := rfl
            by_cases hm : m.IsText <;> cases hconn : (x.net.conn g).isSome <;>
              simp [Act.passed, Exchange.written, msgsTo, x.conn_caller, hfd, hm, hconn]
          · have hnone : g = k.fd → x.conn k = none := by
              rintro rfl
              exact if_neg hk
            rcases eq_or_ne g k.fd with hg | hg
            · by_cases hm : m.IsText ∧ (x.net.conn g).isSome <;>
                simp [Act.passed, Exchange.written, hm, hk, hnone hg]
            · by_cases hm : m.IsText ∧ (x.net.conn g).isSome <;>
                simp [Act.passed, Exchange.written, msgsTo, hm, hk, hg]

theorem passedBy_map (k k' receiver : Caller) (texts : List Msg) :
    passedBy k (texts.map fun m => ⟨k', receiver, m⟩) = if k' = k then texts else [] := by
  induction texts with
  | nil => simp [passedBy]
  | cons m texts ih =>
      rw [passedBy] at ih ⊢
      split
      · next hk => simpa [hk] using ih
      · next hk => simp [hk]

end

/-! ## One event -/

section
variable {x : Exchange} {e : NetEvent} {acts : List Act} {conn' : Caller → Option Conn}

@[simp] theorem Conn.upTexts_send (acts : List Act) (c : Conn) :
    (c.send acts).upTexts = c.upTexts := by
  rw [Conn.upTexts, Conn.up_send, Conn.upTexts]

theorem Conn.downTexts_send (acts : List Act) (c : Conn) :
    (c.send acts).downTexts
      = c.downTexts ++ if c.hungUp then [] else (msgsTo c.fd acts).filter Msg.IsText := by
  cases hh : c.hungUp with
  | true => simp [Conn.downTexts, hh]
  | false => simp [Conn.downTexts, Conn.send, hh]

theorem sublist_and_eq {l l' : List Msg} {P : Prop} (he : l = l') :
    l.Sublist l' ∧ (P → l = l') := ⟨he ▸ List.Sublist.refl _, fun _ => he⟩

/-- A connection that is put in its place with the same texts. -/
theorem texts_update {texts : Conn → List Msg} {k' : Caller} {oc : Option Conn}
    (hoc : oc.elim [] texts = (x.conn k').elim [] texts) (k : Caller) :
    (Function.update x.conn k' oc k).elim [] texts = (x.conn k).elim [] texts := by
  rcases eq_or_ne k k' with rfl | hk
  · rw [Function.update_self, hoc]
  · rw [Function.update_of_ne hk]

/-- What a client says goes up, and what goes up is passed on or dropped. -/
theorem up_step (h : x.net.registry.Good) (he : Exchanged x e acts conn') (k : Caller) :
    (passedBy k (e.passed x acts) ++ (conn' k).elim [] Conn.upTexts).Sublist
        (x.upTexts k ++ e.said k x) ∧
      ((e = .serves k.fd → x.caller k.fd = k → e.PassesText x.net) →
        passedBy k (e.passed x acts) ++ (conn' k).elim [] Conn.upTexts
          = x.upTexts k ++ e.said k x) := by
  -- where nothing is said and nothing is passed on
  have hquiet : ∀ {k' : Caller} {oc : Option Conn}, oc.elim [] Conn.upTexts = x.upTexts k' →
      (Function.update x.conn k' oc k).elim [] Conn.upTexts = x.upTexts k := by
    intro k' oc hoc
    exact texts_update hoc k
  have hmap : ∀ (acts : List Act) (oc : Option Conn),
      (oc.map (Conn.send acts)).elim [] Conn.upTexts = oc.elim [] Conn.upTexts := by
    intro acts oc
    cases oc <;> simp
  cases he with
  | @joined fd ok argv k' _ hfd hnone =>
      refine sublist_and_eq ((hquiet ?_).trans (List.append_nil _).symm)
      rw [Exchange.upTexts, hnone]
      cases argv <;> rfl
  | refused => exact sublist_and_eq (List.append_nil _).symm
  | @typed fd line c hc hlive =>
      refine sublist_and_eq ?_
      show (Function.update x.conn (x.caller fd) (some (c.typed line)) k).elim [] _ = _
      rcases eq_or_ne (x.caller fd) k with rfl | hk
      · rw [Function.update_self, NetEvent.said, if_pos rfl, Exchange.upTexts, hc,
          Option.elim_some, Option.elim_some, Option.elim_some, Conn.upTexts, Conn.typed,
          List.flatMap_append, Conn.upTexts]
      · rw [Function.update_of_ne hk.symm, NetEvent.said, if_neg hk, List.append_nil,
          Exchange.upTexts]
  | @delivered fd c msg down hc hlive hdown =>
      refine sublist_and_eq ((hquiet ?_).trans (List.append_nil _).symm)
      rw [Exchange.upTexts, hc]
      rfl
  | @hungUp fd c hc hlive =>
      refine sublist_and_eq ((hquiet ?_).trans (List.append_nil _).symm)
      rw [Exchange.upTexts, hc]
      rfl
  | @sawEnd fd c hc hup hgone he =>
      refine sublist_and_eq (((hmap _ _).trans (hquiet ?_)).trans (List.append_nil _).symm)
      rw [Exchange.upTexts, hc, Option.elim_some, Conn.upTexts, hup]
      rfl
  | @served fd c msg up hc hup he =>
      dsimp only
      rw [hmap]
      show (passedBy k (List.flatMap _ _) ++ _).Sublist (x.upTexts k ++ []) ∧
        (_ → passedBy k (List.flatMap _ _) ++ _ = x.upTexts k ++ [])
      rw [List.append_nil, passed_rx h.wf _ he]
      rcases eq_or_ne (x.caller fd) k with rfl | hk
      · have hold : x.upTexts (x.caller fd) = msg.text ++ up.flatMap Msg.text := by
          rw [Exchange.upTexts, hc, Option.elim_some, Conn.upTexts, hup, List.flatMap_cons]
        rw [hold, Function.update_self]
        show (_ ++ up.flatMap Msg.text).Sublist _ ∧ (_ → _ ++ up.flatMap Msg.text = _)
        split
        · rw [passedBy_map, if_pos rfl]
          exact sublist_and_eq rfl
        · next hlost =>
            refine ⟨List.sublist_append_right _ _, fun hpasses => ?_⟩
            rcases em (msg.text = []) with hnone | htext
            · rw [hnone]
              rfl
            · have hc' : x.net.conn fd = some c := (x.conn_caller fd).symm.trans hc
              exact absurd (hpasses rfl rfl c hc' msg (by rw [hup]; rfl) htext) hlost
      · rw [Function.update_of_ne hk.symm]
        refine sublist_and_eq ?_
        split
        · rw [passedBy_map, if_neg hk]
          rfl
        · rfl

/-- What is passed on comes down, and what comes down is heard unless the client hangs up. -/
theorem down_step (h : x.net.registry.Good) (he : Exchanged x e acts conn') (k : Caller) :
    (e.heard k x ++ (conn' k).elim [] Conn.downTexts).Sublist
        (x.downTexts k ++ passedTo k (e.passed x acts)) ∧
      ((∀ c, conn' k = some c → c.hungUp = false) →
        e.heard k x ++ (conn' k).elim [] Conn.downTexts
          = x.downTexts k ++ passedTo k (e.passed x acts)) := by
  have hquiet : ∀ {k' : Caller} {oc : Option Conn}, oc.elim [] Conn.downTexts = x.downTexts k' →
      (Function.update x.conn k' oc k).elim [] Conn.downTexts = x.downTexts k := by
    intro k' oc hoc
    exact texts_update hoc k
  cases he with
  | @joined fd ok argv k' _ hfd hnone =>
      refine sublist_and_eq ((hquiet ?_).trans (List.append_nil _).symm)
      rw [Exchange.downTexts, hnone]
      rfl
  | refused => exact sublist_and_eq (List.append_nil _).symm
  | @typed fd line c hc hlive =>
      refine sublist_and_eq ((hquiet ?_).trans (List.append_nil _).symm)
      rw [Exchange.downTexts, hc]
      rfl
  | @delivered fd c msg down hc hlive hdown =>
      refine sublist_and_eq ?_
      show _ = x.downTexts k ++ []
      rw [List.append_nil]
      rcases eq_or_ne (x.caller fd) k with rfl | hk
      · rw [Function.update_self, NetEvent.heard, if_pos rfl, Exchange.downTexts, hc,
          Option.elim_some, Option.elim_some, Option.elim_some, Conn.downTexts, Conn.downTexts,
          hdown, hlive, if_neg Bool.false_ne_true]
        show [msg].filter _ ++ (if c.hungUp = true then [] else down.filter _) = _
        rw [hlive, if_neg Bool.false_ne_true, ← List.filter_append]
        rfl
      · rw [Function.update_of_ne hk.symm, NetEvent.heard, if_neg hk, List.nil_append,
          Exchange.downTexts]
  | @hungUp fd c hc hlive =>
      show ((Function.update x.conn (x.caller fd) (some c.gone) k).elim [] _).Sublist
          (x.downTexts k ++ []) ∧ (_ → Option.elim _ [] _ = x.downTexts k ++ [])
      rw [List.append_nil]
      rcases eq_or_ne k (x.caller fd) with rfl | hk
      · rw [Function.update_self]
        exact ⟨List.nil_sublist _, fun hstays => by cases hstays _ rfl⟩
      · rw [Function.update_of_ne hk]
        exact sublist_and_eq rfl
  | @sawEnd fd c hc hup hgone he =>
      refine sublist_and_eq (Eq.trans ?_ (List.append_nil _).symm)
      have hold : (Function.update x.conn (x.caller fd) none k).elim [] Conn.downTexts
          = x.downTexts k := by
        refine hquiet ?_
        rw [Exchange.downTexts, hc, Option.elim_some, Conn.downTexts, hgone]
        rfl
      refine Eq.trans ?_ hold
      show (Option.map _ (Function.update x.conn (x.caller fd) none k)).elim [] _ = _
      cases hk : Function.update x.conn (x.caller fd) none k with
      | none => rfl
      | some d =>
          rw [Option.map_some, Option.elim_some, Option.elim_some, Conn.downTexts_send,
            texts_to_eq_nil d.fd (not_text_of_closed h.wf he), ite_self, List.append_nil]
  | @served fd c msg up hc hup he =>
      show (Option.elim _ [] _).Sublist (x.downTexts k ++ passedTo k (List.flatMap _ _)) ∧
        (_ → Option.elim _ [] _ = x.downTexts k ++ passedTo k (List.flatMap _ _))
      rw [passedTo_acts, Exchange.written, Exchange.downTexts]
      dsimp only
      cases hk : x.conn k with
      | none =>
          have hne : k ≠ x.caller fd := by
            rintro rfl
            rw [hc] at hk
            cases hk
          rw [Function.update_of_ne hne, hk]
          exact sublist_and_eq rfl
      | some d =>
          obtain ⟨d', hd', hfd, hgone, hdown⟩ : ∃ d',
              Function.update x.conn (x.caller fd) (some (c.served up)) k = some d' ∧
                d'.fd = k.fd ∧ d'.hungUp = d.hungUp ∧ d'.downTexts = d.downTexts := by
            rcases eq_or_ne k (x.caller fd) with rfl | hne
            · cases hc.symm.trans hk
              exact ⟨_, Function.update_self _ _ _, (Exchange.conn_fd hk : c.fd = _), rfl, rfl⟩
            · exact ⟨d, (Function.update_of_ne hne _ _).trans hk, Exchange.conn_fd hk, rfl, rfl⟩
          rw [hd', Option.map_some, Option.elim_some, Option.elim_some, Conn.downTexts_send, hfd,
            hgone, hdown, Option.isSome_some, if_pos rfl]
          cases hh : d.hungUp with
          | true =>
              refine ⟨(List.Sublist.refl _).append (List.nil_sublist _), fun hstays => ?_⟩
              have hlive := hstays _ rfl
              rw [Conn.hungUp_send, hgone, hh] at hlive
              cases hlive
          | false => exact sublist_and_eq rfl

/-- What the server passes on to a client is all the texts that it writes on its connection. -/
theorem passedTo_step (h : x.net.registry.Good) (he : Exchanged x e acts conn') (k : Caller) :
    passedTo k (e.passed x acts) = (x.written k acts).filter Msg.IsText := by
  cases he with
  | served => exact passedTo_acts x k _ _
  | typed | delivered | hungUp => exact (written_texts_eq_nil k fun _ _ hm => by cases hm).symm
  | sawEnd _ _ _ he => exact (written_texts_eq_nil k (not_text_of_closed h.wf he)).symm
  | joined he | refused he =>
      refine (written_texts_eq_nil k fun g m hm => ?_).symm
      exact not_text_of_does (does_of_mem h.wf he hm) fun _ _ heq => by cases heq

/-- The client of `k` has not hung up. -/
def Exchange.Stays (x : Exchange) (k : Caller) : Prop :=
  ∀ c, x.conn k = some c → c.hungUp = false

theorem Exchange.Stays.step {x' : Exchange} {k : Caller} (hk : x.Stays k)
    (he : Exchanged x e acts x'.conn) (hstays : e = .hangsUp k.fd → x.caller k.fd ≠ k) :
    x'.Stays k := by
  -- the connection is as it was, or another has not been hung up either
  have hupdate : ∀ {k' : Caller} {oc : Option Conn},
      (k = k' → ∀ c, oc = some c → c.hungUp = false) →
      ∀ c, Function.update x.conn k' oc k = some c → c.hungUp = false := by
    intro k' oc hoc c hc
    rcases eq_or_ne k k' with heq | hne
    · rw [heq, Function.update_self] at hc
      exact hoc heq c hc
    · rw [Function.update_of_ne hne] at hc
      exact hk c hc
  have hsent : ∀ {oc : Option Conn} {acts : List Act}, (∀ c, oc = some c → c.hungUp = false) →
      ∀ c, oc.map (Conn.send acts) = some c → c.hungUp = false := by
    intro oc acts hoc c hc
    obtain ⟨d, hd, rfl⟩ := Option.map_eq_some_iff.mp hc
    rw [Conn.hungUp_send]
    exact hoc d hd
  unfold Exchange.Stays
  generalize x'.conn = conn' at he
  cases he with
  | joined =>
      refine hupdate fun _ c hc => ?_
      cases hc
      rfl
  | refused => exact hk
  | typed _ hlive | delivered _ hlive _ =>
      refine hupdate fun _ c hc => ?_
      cases hc
      exact hlive
  | @hungUp fd c hc hlive =>
      refine hupdate fun heq => ?_
      subst heq
      exact absurd rfl (hstays rfl)
  | @served fd c msg up hc hup he =>
      refine hsent (hupdate fun heq d hd => ?_)
      cases hd
      exact hk c (heq ▸ hc)
  | sawEnd =>
      refine hsent (hupdate fun _ d hd => ?_)
      cases hd

end

/-! ## Whole runs -/

/-- All that the user of `k` says in a run. -/
def saidBy (k : Caller) : List NetEvent → List Msg :=
  gather exchangeStep (fun x e _ => e.said k x) .boot

/-- All that the client of `k` hears in a run. -/
def heardBy (k : Caller) : List NetEvent → List Msg :=
  gather exchangeStep (fun x e _ => e.heard k x) .boot

/-- All that the server writes on the connection of `k` in a run. -/
def writtenTo (k : Caller) : List NetEvent → List Msg :=
  gather exchangeStep (fun x _ acts => x.written k acts) .boot

/-- All that the server passes on in a run. -/
def passedOn : List NetEvent → List Passed :=
  gather exchangeStep (fun x e acts => e.passed x acts) .boot

/-- What is passed on connects what was said with what was heard. -/
structure Exchange.Delivers (x : Exchange) (es : List NetEvent) : Prop where
  written : ∀ k, passedTo k (passedOn es) = (writtenTo k es).filter Msg.IsText
  up : ∀ k, (passedBy k (passedOn es) ++ x.upTexts k).Sublist (saidBy k es)
  down : ∀ k, (heardBy k es ++ x.downTexts k).Sublist (passedTo k (passedOn es))
  allUp : ∀ k, EveryStep exchangeStep
      (fun x e => e = .serves k.fd → x.caller k.fd = k → e.PassesText x.net) .boot es →
    passedBy k (passedOn es) ++ x.upTexts k = saidBy k es
  allDown : ∀ k, EveryStep exchangeStep
      (fun x e => e = .hangsUp k.fd → x.caller k.fd ≠ k) .boot es →
    x.Stays k ∧ heardBy k es ++ x.downTexts k = passedTo k (passedOn es)

theorem conn_boot (k : Caller) : Exchange.boot.conn k = none := ite_self _

theorem delivers_boot : Exchange.boot.Delivers [] where
  written _ := rfl
  up k := by
    rw [Exchange.upTexts, conn_boot]
    exact List.Sublist.refl _
  down k := by
    rw [Exchange.downTexts, conn_boot]
    exact List.Sublist.refl _
  allUp k _ := by
    rw [Exchange.upTexts, conn_boot]
    rfl
  allDown k _ := by
    refine ⟨fun c hc => ?_, ?_⟩
    · rw [conn_boot] at hc
      cases hc
    · rw [Exchange.downTexts, conn_boot]
      rfl

theorem passedBy_append (k : Caller) (log log' : List Passed) :
    passedBy k (log ++ log') = passedBy k log ++ passedBy k log' := by
  rw [passedBy, List.filter_append, List.map_append, passedBy, passedBy]

theorem passedTo_append (k : Caller) (log log' : List Passed) :
    passedTo k (log ++ log') = passedTo k log ++ passedTo k log' := by
  rw [passedTo, List.filter_append, List.map_append, passedTo, passedTo]

theorem Exchange.Delivers.step {x x' : Exchange} {es : List NetEvent} (hd : x.Delivers es)
    (hplay : play exchangeStep .boot es = some x) (h : x.net.Housed) {e : NetEvent}
    {acts : List Act} (hs : exchangeStep x e = some (x', acts)) : x'.Delivers (es ++ [e]) := by
  have he := exchanged_of_step h hs
  have hsaid : ∀ k, saidBy k (es ++ [e]) = saidBy k es ++ e.said k x :=
    fun k => gather_concat (fun (x : Exchange) (e : NetEvent) _ => e.said k x) hplay hs
  have hheard : ∀ k, heardBy k (es ++ [e]) = heardBy k es ++ e.heard k x :=
    fun k => gather_concat (fun (x : Exchange) (e : NetEvent) _ => e.heard k x) hplay hs
  have hwritten : ∀ k, writtenTo k (es ++ [e]) = writtenTo k es ++ x.written k acts :=
    fun k => gather_concat (fun (x : Exchange) _ acts => x.written k acts) hplay hs
  have hlog : passedOn (es ++ [e]) = passedOn es ++ e.passed x acts :=
    gather_concat (fun (x : Exchange) (e : NetEvent) acts => e.passed x acts) hplay hs
  have hnext : (exchangeStep x e).isSome := by
    rw [hs]
    rfl
  refine ⟨fun k => ?_, fun k => ?_, fun k => ?_, fun k hpasses => ?_, fun k hstays => ?_⟩
  · rw [hlog, hwritten, passedTo_append, List.filter_append, hd.written,
      passedTo_step h.good he]
  · rw [hlog, hsaid, passedBy_append, List.append_assoc]
    refine ((List.Sublist.refl _).append (up_step h.good he k).1).trans ?_
    rw [← List.append_assoc]
    exact (hd.up k).append (List.Sublist.refl _)
  · rw [hlog, hheard, passedTo_append, List.append_assoc]
    refine ((List.Sublist.refl _).append (down_step h.good he k).1).trans ?_
    rw [← List.append_assoc]
    exact (hd.down k).append (List.Sublist.refl _)
  · have hup := (up_step h.good he k).2 (hpasses.last hplay hnext)
    rw [hlog, hsaid, passedBy_append, List.append_assoc, ← hd.allUp k hpasses.of_append,
      List.append_assoc]
    exact congrArg _ hup
  · obtain ⟨hstay, hall⟩ := hd.allDown k hstays.of_append
    have hstay' : x'.Stays k := hstay.step he (hstays.last hplay hnext)
    have hdown := (down_step h.good he k).2 hstay'
    refine ⟨hstay', ?_⟩
    rw [hlog, hheard, passedTo_append, List.append_assoc, ← hall, List.append_assoc]
    exact congrArg _ hdown

/-- Of what a user has said, the server has passed on a part, in order and nothing twice, and of
what it has passed on to a client, which is every text it has written on its connection, the client
has heard a part, in order and nothing twice.  If the server finds the client BUSY and a connection
at the end of its link whenever it handles a text of it, all that its user said is passed on or on
its way up; if the client does not hang up, all that was passed on to it is heard or on its way
down. -/
theorem texts_delivered {es : List NetEvent} {s : Network}
    (hplay : play netStep .boot es = some s) :
    ∃ x, play exchangeStep .boot es = some x ∧ x.net = s ∧ ∀ k,
      passedTo k (passedOn es) = (writtenTo k es).filter Msg.IsText ∧
      (passedBy k (passedOn es)).Sublist (saidBy k es) ∧
      (heardBy k es).Sublist (passedTo k (passedOn es)) ∧
      (EveryStep exchangeStep
          (fun x e => e = .serves k.fd → x.caller k.fd = k → e.PassesText x.net) .boot es →
        saidBy k es = passedBy k (passedOn es) ++ x.upTexts k) ∧
      (EveryStep exchangeStep (fun x e => e = .hangsUp k.fd → x.caller k.fd ≠ k) .boot es →
        passedTo k (passedOn es) = heardBy k es ++ x.downTexts k) := by
  obtain ⟨x, hx, hs⟩ := exists_exchange (x := .boot) hplay
  obtain ⟨-, -, hd⟩ := play_induction
    (J := fun es x => play exchangeStep .boot es = some x ∧ x.net.Housed ∧ x.Delivers es)
    (by
      rintro es x e x' acts ⟨hplay, h, hd⟩ hstep
      have hnet := (exchangeStep_eq_some_iff.mp hstep).1
      exact ⟨play_concat hplay hstep, h.step (netStepped_of_netStep hnet),
        hd.step hplay h hstep⟩)
    ⟨rfl, Network.housed_boot, delivers_boot⟩ hx
  refine ⟨x, hx, hs, fun k => ⟨hd.written k, ?_, ?_, fun hpasses => (hd.allUp k hpasses).symm,
    fun hstays => (hd.allDown k hstays).2.symm⟩⟩
  · exact (List.sublist_append_left _ _).trans (hd.up k)
  · exact (List.sublist_append_left _ _).trans (hd.down k)

/-- 4 and 5 chat; 4 leaves the chat and hangs up before it has heard the last text of 5.  Another
client comes under its descriptor, and is told a text by 5. -/
@[irreducible] def partingTalk : List NetEvent :=
  [.joins 4 true none, .joins 5 true (some (line "bob")), .serves 5, .delivers 5,
   .types 4 (line "connect bob"), .serves 4, .delivers 4, .delivers 5,
   .types 5 (line "yes"), .serves 5, .delivers 5, .delivers 4,
   .types 4 (line "hello"), .serves 4, .delivers 5,
   .types 5 (line "hi"), .serves 5, .delivers 4,
   .types 5 (line "how are you"), .serves 5,
   .types 4 (line "disconnect"), .serves 4, .hangsUp 4, .seesEnd 4,
   .joins 4 true none, .delivers 5,
   .types 4 (line "connect bob"), .serves 4, .delivers 4, .delivers 5,
   .types 5 (line "yes"), .serves 5, .delivers 5, .delivers 4,
   .types 5 (line "welcome"), .serves 5, .delivers 4]

theorem partingTalk_delivered :
    ∃ x, play exchangeStep .boot partingTalk = some x ∧ x.net = final netStep .boot partingTalk ∧
      ∀ k,
      passedTo k (passedOn partingTalk) = (writtenTo k partingTalk).filter Msg.IsText ∧
      (passedBy k (passedOn partingTalk)).Sublist (saidBy k partingTalk) ∧
      (heardBy k partingTalk).Sublist (passedTo k (passedOn partingTalk)) ∧
      (EveryStep exchangeStep
          (fun x e => e = .serves k.fd → x.caller k.fd = k → e.PassesText x.net) .boot partingTalk →
        saidBy k partingTalk = passedBy k (passedOn partingTalk) ++ x.upTexts k) ∧
      (EveryStep exchangeStep (fun x e => e = .hangsUp k.fd → x.caller k.fd ≠ k) .boot
          partingTalk →
        passedTo k (passedOn partingTalk) = heardBy k partingTalk ++ x.downTexts k) :=
  texts_delivered (play_final (by decide +kernel))

end ChatSocket
