/-
# `Server.Chats` — are chats pairs, and are pairs left alone?

`MutualPairs` is what a chat is meant to be: a BUSY client has a BUSY partner
that is linked back.  `RelaysToPartner` is what chat text relies on: whatever a
client sends next, it is relayed to nobody but such a partner.  Over whole runs
both hold exactly as long as every event `KeepsPairs`: no BUSY client gets a
request through or accepts, and no client that is not BUSY closes while its old
link leads to one who is.

`Chat` is one such pair, and `Event.CutsInto` says which events of others change
it: closing or disconnecting with a link to one of the two.
-/
import ChatSocket.Server.Refines
import ChatSocket.Room.Pairs

namespace ChatSocket

open Kit Registry

variable {r : Registry}

/-! ## Mutual pairs -/

/-- Every BUSY client has another BUSY client under its link, linked back to it. -/
def Registry.MutualPairs (r : Registry) : Prop :=
  ∀ a ∈ r.clientList, a.data.chatStatus = .busy →
    ∃ b ∈ r.clientList, b ≠ a ∧ b.fd = a.data.toFd ∧ b.data.chatStatus = .busy ∧
      b.data.toFd = a.fd

instance : DecidablePred MutualPairs := fun r => by
  unfold Registry.MutualPairs
  infer_instance

/-- The events that keep pairs: a BUSY client gets no request through and does not accept, and
whoever closes without being BUSY is not linked to somebody BUSY. -/
def Event.KeepsPairs (r : Registry) : Event → Prop
  | accepted _ _ => True
  | rxMsg fd msg =>
      r.getClientChattingStatusByFd fd = .busy →
        msg.msgType ≠ .clientAcceptConnection ∧
        (msg.msgType = .connectToClient → r.connectTarget fd msg.buffer.bytes = none)
  | closed fd =>
      r.getClientChattingStatusByFd fd ≠ .busy →
        r.getClientChattingStatusByFd (r.getConnFdByFd fd) ≠ .busy

theorem Registry.Wf.mutualPairs_iff (h : r.Wf) : r.MutualPairs ↔ r.room.Mutual := by
  constructor
  · intro hm fd hfd
    obtain ⟨a, ha, rfl, hbusy⟩ := mem_of_mood hfd
    obtain ⟨b, hb, hne, hto, hbb, hback⟩ := hm a ha ((mood_eq_busy_iff _).mp hbusy)
    have hfd' : b.fd ≠ a.fd := by
      intro he
      exact hne (Option.some.inj ((h.node_of_mem hb).symm.trans (he ▸ h.node_of_mem ha)))
    refine ⟨b.fd, (h.peerOf_iff_toFd ha hb).mpr hto.symm, hfd', ?_,
      (h.peerOf_iff_toFd hb ha).mpr hback⟩
    rw [h.mood_of_mem hb, hbb]
    rfl
  · intro hm a ha hbusy
    obtain ⟨fd, hp, hne, hb, hback⟩ := hm a.fd (by rw [h.mood_of_mem ha, hbusy]; rfl)
    obtain ⟨b, hbm, rfl, hbb⟩ := mem_of_mood hb
    exact ⟨b, hbm, fun he => hne (he ▸ rfl), ((h.peerOf_iff_toFd ha hbm).mp hp).symm,
      (mood_eq_busy_iff _).mp hbb, (h.peerOf_iff_toFd hbm ha).mp hback⟩

/-- The condition on an event, in the room. -/
theorem keepsPairs_iff (h : r.Good) (hm : r.room.Mutual) (e : Event) :
    e.KeepsPairs r ↔ (e.deed r).KeepsMutual r.room := by
  cases e with
  | accepted fd mallocOk =>
      refine ⟨fun _ => ?_, fun _ => trivial⟩
      simp only [Event.deed]
      split <;> trivial
  | closed fd =>
      show (_ → _) ↔ (_ → _)
      rw [ne_eq, h.wf.busy_iff, ne_eq, h.wf.busy_iff]
      refine imp_congr_right fun _ => ⟨fun hk c hc => ?_, fun hk hb => ?_⟩
      · rwa [(h.wf.peerOf_eq_some_iff.mp hc).1] at hk
      · by_cases hc : r.getConnFdByFd fd = invalidFd
        · rw [hc, moodOf_room, h.wf.node_invalidFd] at hb
          cases hb
        · exact hk _ (h.wf.peerOf_of_connFd hc) hb
  | rxMsg fd msg =>
      simp only [Event.KeepsPairs, Event.deed, rxDeed, h.wf.busy_iff]
      cases hmsg : msg.msgType with
      | connectToClient =>
          cases r.connectTarget fd msg.buffer.bytes with
          | none => simp [Deed.KeepsMutual]
          | some t => simp [Deed.KeepsMutual]
      | clientAcceptConnection =>
          constructor
          · intro hk
            have hfree : r.room.moodOf fd ≠ some .busy := fun hb => (hk hb).1 rfl
            simp only [acceptDeed]
            repeat' split
            all_goals first | exact hfree | trivial
          · intro hk hb
            -- the partner of a BUSY client is BUSY: whatever it is called, `fd` is freed
            obtain ⟨c, hc, -, hcb, -⟩ := hm fd hb
            obtain ⟨hconn, hne⟩ := h.wf.peerOf_eq_some_iff.mp hc
            have hbusy := (h.wf.busy_iff c).mpr hcb
            simp only [acceptDeed, hconn, if_neg hne, hbusy, if_true] at hk
            split at hk
            · exact absurd hb hk
            · exact absurd hb hk
      | clientTxType =>
          refine ⟨fun _ => ?_, fun _ _ => by simp⟩
          simp only [txDeed]
          repeat' split
          all_goals trivial
      | clientDeclineConnection =>
          refine ⟨fun _ => ?_, fun _ _ => by simp⟩
          simp only [declineDeed]
          split
          · trivial
          · next hst =>
              intro hb
              rw [← h.wf.busy_iff] at hb
              exact hst (Or.inl (by rw [hb]; simp))
      | _ => exact ⟨fun _ => trivial, fun _ _ => by simp⟩

/-- One event keeps the pairs exactly if it is one of those. -/
theorem mutualPairs_step {r' : Registry} {e : Event} {acts : List Act} (h : r.Good)
    (hm : r.MutualPairs) (hs : atomicStep r e = some (r', acts)) :
    r'.MutualPairs ↔ e.KeepsPairs r := by
  obtain ⟨he, rfl, -⟩ := atomicStep_eq_some_iff.mp hs
  obtain ⟨hwf, hroom, hen⟩ := refines h he
  have hmut := h.wf.mutualPairs_iff.mp hm
  rw [hwf.mutualPairs_iff, hroom, keepsPairs_iff h hmut]
  exact mutual_apply_iff h.noSelf hmut hen

/-- Over whole runs, chats are mutual pairs exactly as long as every event keeps pairs. -/
theorem mutualPairs_everywhere_iff (es : List Event) :
    Everywhere atomicStep MutualPairs .empty es ↔ EveryStep atomicStep Event.KeepsPairs .empty es :=
  everywhere_iff good_atomicStep (fun _ _ _ _ h hm hs => mutualPairs_step h hm hs) es
    good_empty fun _ ha => absurd ha List.not_mem_nil

/-- Two clients ask each other for a chat and both accept. -/
theorem mutualPairs_crossed_requests :
    ¬ Everywhere atomicStep MutualPairs .empty
      [joins 4, joins 5, asks 4 5, asks 5 4, acceptsAsker 4, acceptsAsker 5] := by
  decide +kernel

/-! ## Whom chat text reaches -/

/-- Whatever happens next: a chat text that is sent is the relayed message of a client, and goes
to a registered client that is BUSY and linked to that one. -/
def Registry.RelaysToPartner (r : Registry) : Prop :=
  ∀ e : Event, e.Possible r → ∀ f m, .sent f m ∈ e.acts r → m.msgType = .clientRxType →
    ∃ a msg, e = .rxMsg a msg ∧ msg.msgType = .clientTxType ∧
      ∃ b, r.node f = some b ∧ b.data.chatStatus = .busy ∧ b.data.toFd = a

/-- Chat text is sent by `handle_tx_msg` only, from a BUSY client to its link. -/
theorem sent_rx (h : r.Wf) {e : Event} (he : e.Possible r) {f : Int} {m : Msg}
    (ha : .sent f m ∈ e.acts r) (hm : m.msgType = .clientRxType) :
    ∃ a msg, e = .rxMsg a msg ∧ msg.msgType = .clientTxType ∧
      r.getClientChattingStatusByFd a = .busy ∧ r.getConnFdByFd a = f ∧ f ≠ invalidFd := by
  cases does_of_mem h he ha with
  | turnsAway => cases hm
  | answers hrx => exact absurd hm hrx
  | relays htx hbusy hc => exact ⟨_, _, rfl, htx, hbusy, rfl, hc⟩
  | loses _ _ _ hmem => simp at hmem
  | asks _ _ hmem | pairs _ _ _ _ hmem | quits _ _ _ hmem | declines _ _ _ hmem
  | leaves hmem =>
      simp only [List.mem_cons, reduceCtorEq, List.not_mem_nil, or_false, false_or,
        Act.sent.injEq] at hmem
      rw [hmem.2] at hm
      cases hm

theorem relaysToPartner_iff (h : r.Good) : r.RelaysToPartner ↔ r.MutualPairs := by
  rw [h.wf.mutualPairs_iff]
  constructor
  · intro hr a ha
    obtain ⟨c, hc⟩ := h.peered a .busy ha (by simp)
    obtain ⟨hconn, hne⟩ := h.wf.peerOf_eq_some_iff.mp hc
    have hbusy := (h.wf.busy_iff a).mpr ha
    have hreg : (r.node a).isSome := by
      rw [← room_isSome]
      obtain ⟨p, hp, -⟩ := Room.isSome_of_moodOf ha
      rw [hp]
      rfl
    -- an empty text is relayed
    have htext : strcmp (Msg.ofType .clientTxType).buffer.bytes disconnectCmd ≠ 0 := by
      decide +kernel
    have hsent : .sent c { Msg.ofType .clientTxType with msgType := .clientRxType } ∈
        (Event.rxMsg a (.ofType .clientTxType)).acts r := by
      show _ ∈ txActs r a _
      simp only [txActs, hconn, hbusy]
      rw [if_neg (not_or.mpr ⟨not_not.mpr rfl, hne⟩), if_neg htext]
      exact List.mem_singleton.mpr rfl
    obtain ⟨a', msg, he, -, b, hb, hbb, hback⟩ := hr (.rxMsg a _) hreg _ _ hsent rfl
    obtain ⟨rfl, rfl⟩ := Event.rxMsg.inj he
    obtain rfl : b.fd = c := look_key hb
    refine ⟨b.fd, hc, fun hba => h.noSelf a (hba ▸ hc), ?_, ?_⟩
    · rw [moodOf_room, hb, Option.map_some, hbb]
      rfl
    · rw [h.wf.peerOf_eq_some_iff, h.wf.connFd_eq, hb]
      exact ⟨hback, h.wf.ne_invalidFd hreg⟩
  · intro hm e he f m hf hrx
    obtain ⟨a, msg, rfl, htx, hbusy, hconn, hne⟩ := sent_rx h.wf he hf hrx
    refine ⟨a, msg, rfl, htx, ?_⟩
    obtain ⟨c, hc, -, hcb, hback⟩ := hm a ((h.wf.busy_iff a).mp hbusy)
    obtain ⟨rfl, -⟩ := h.wf.peerOf_eq_some_iff.mp hc
    obtain rfl : r.getConnFdByFd a = f := hconn
    obtain ⟨b, hb, hbf, hbb⟩ := mem_of_mood hcb
    rw [← hbf] at hback ⊢
    exact ⟨b, h.wf.node_of_mem hb, (mood_eq_busy_iff _).mp hbb,
      ((h.wf.peerOf_mem_iff hb).mp hback).1⟩

/-- Over whole runs, chat text reaches only partners exactly as long as every event keeps
pairs. -/
theorem relaysToPartner_everywhere_iff (es : List Event) :
    Everywhere atomicStep RelaysToPartner .empty es ↔
      EveryStep atomicStep Event.KeepsPairs .empty es := by
  refine everywhere_iff good_atomicStep (fun r e r' acts h hr hs => ?_) es good_empty ?_
  · rw [relaysToPartner_iff (good_atomicStep r e r' acts h hs)]
    exact mutualPairs_step h ((relaysToPartner_iff h).mp hr) hs
  · exact (relaysToPartner_iff good_empty).mpr fun _ ha => absurd ha List.not_mem_nil

/-- A client in a chat asks a third one and then sends its partner a text. -/
theorem text_relayed_to_asked :
    ¬ Everywhere atomicStep RelaysToPartner .empty
      [joins 4, joins 5, joins 6, asks 4 5, acceptsAsker 5, asks 4 6] := by
  intro h
  have hr := h.at_play (play_final (by decide +kernel))
  obtain ⟨a, msg, he, -, b, hb, hbusy, -⟩ := hr (talks 4 (ascii "hello")) (by decide +kernel) 6
    { Msg.withText .clientTxType (ascii "hello") with msgType := .clientRxType }
    (by decide +kernel) rfl
  have hpending : ((afterRun [joins 4, joins 5, joins 6, asks 4 5, acceptsAsker 5, asks 4 6]).node
      6).map (fun n => n.data.chatStatus) = some .reqPending := by decide +kernel
  rw [hb, Option.map_some, hbusy] at hpending
  cases hpending

/-! ## What others do to a chat -/

/-- `a` and `b` are BUSY and linked to each other. -/
def Registry.Chat (r : Registry) (a b : Int) : Prop :=
  r.getClientChattingStatusByFd a = .busy ∧ r.getClientChattingStatusByFd b = .busy ∧
    r.getConnFdByFd a = b ∧ r.getConnFdByFd b = a

/-- The status and the link of `g` are what they were. -/
def Registry.SameAt (r r' : Registry) (g : Int) : Prop :=
  r'.getClientChattingStatusByFd g = r.getClientChattingStatusByFd g ∧
    r'.getConnFdByFd g = r.getConnFdByFd g

/-- The sender is linked to `g` and closes, or is BUSY and disconnects. -/
def Event.CutsInto (r : Registry) (g : Int) : Event → Prop
  | accepted _ _ => False
  | rxMsg fd msg =>
      msg.msgType = .clientTxType ∧ strcmp msg.buffer.bytes disconnectCmd = 0 ∧
        r.getClientChattingStatusByFd fd = .busy ∧ r.getConnFdByFd fd = g
  | closed fd => r.getConnFdByFd fd = g

theorem cutsInto_iff (h : r.Wf) {g : Int} (hg : g ≠ invalidFd) (e : Event) :
    e.CutsInto r g ↔ (e.deed r).Frees r.room g := by
  cases e with
  | accepted fd mallocOk =>
      simp only [Event.deed]
      split <;> rfl
  | closed fd =>
      show r.getConnFdByFd fd = g ↔ r.room.peerOf fd = some g
      rw [h.peerOf_eq_some_iff]
      exact ⟨fun hc => ⟨hc, hg⟩, fun hc => hc.1⟩
  | rxMsg fd msg =>
      simp only [Event.CutsInto, Event.deed, rxDeed]
      cases hmsg : msg.msgType with
      | clientTxType =>
          simp only [txDeed, true_and]
          by_cases hidle : r.getClientChattingStatusByFd fd ≠ .busy ∨ r.getConnFdByFd fd = invalidFd
          · rw [if_pos hidle]
            refine ⟨fun hk => ?_, False.elim⟩
            obtain ⟨-, hbusy, hc⟩ := hk
            rcases hidle with hst | hc'
            · exact hst hbusy
            · exact hg (hc.symm.trans hc')
          · rw [if_neg hidle]
            have hbusy := not_not.mp (not_or.mp hidle).1
            split
            · next hd => exact ⟨fun hk => hk.2.2, fun hc => ⟨hd, hbusy, hc⟩⟩
            · next hd => exact ⟨fun hk => hd hk.1, False.elim⟩
      | connectToClient =>
          cases r.connectTarget fd msg.buffer.bytes <;> simp [Deed.Frees]
      | clientAcceptConnection =>
          simp only [acceptDeed, reduceCtorEq, false_and, false_iff]
          repeat' split
          all_goals exact id
      | clientDeclineConnection =>
          simp only [declineDeed, reduceCtorEq, false_and, false_iff]
          split <;> exact id
      | _ => simp [Deed.Frees]

theorem actor_ne_of_sender {e : Event} {g : Int} (hs : e.sender ≠ some g) :
    (e.deed r).actor ≠ some g := by
  cases e with
  | accepted fd mallocOk =>
      simp only [Event.deed]
      split <;> simp [Deed.actor]
  | closed fd => exact hs
  | rxMsg fd msg =>
      have hfd : some fd ≠ some g := hs
      simp only [Event.deed, rxDeed, acceptDeed, txDeed, declineDeed]
      repeat' split
      all_goals first | exact hfd | simp [Deed.actor]

theorem sameAt_iff {r' : Registry} (h : r.Wf) (h' : r'.Wf) {g : Int}
    (hg : r.getClientChattingStatusByFd g = .busy) :
    r.SameAt r' g ↔ Room.Untouched r.room r'.room g := by
  have hmood := (h.busy_iff g).mp hg
  refine and_congr ?_ ?_
  · rw [hg, hmood, h'.busy_iff]
  · rw [h.peerOf_eq, h'.peerOf_eq]
    constructor
    · intro hc
      rw [hc]
    · intro hp
      rw [h.connFd_eq_getD, h'.connFd_eq_getD, h.peerOf_eq, h'.peerOf_eq, hp]

/-- What an event of somebody else, or a new connection, leaves of one side of a chat. -/
theorem sameAt_after_iff (h : r.Good) {e : Event} (he : e.Possible r) {g : Int}
    (hg : r.getClientChattingStatusByFd g = .busy) (hs : e.sender ≠ some g) :
    r.SameAt (replay r (e.acts r)) g ↔ ¬ e.CutsInto r g := by
  obtain ⟨hwf, hroom, hen⟩ := refines h he
  have hmood := (h.wf.busy_iff g).mp hg
  have hreg : (r.node g).isSome := by
    obtain ⟨p, hp, -⟩ := Room.isSome_of_moodOf hmood
    rw [← room_isSome, hp]
    rfl
  rw [sameAt_iff h.wf hwf hg, hroom, cutsInto_iff h.wf (h.wf.ne_invalidFd hreg)]
  exact untouched_iff hmood hen (actor_ne_of_sender hs)

/-- In every reachable state, an event of a third client, or a new connection, leaves both
sides of a chat as they are exactly if it does not cut into either. -/
theorem chat_undisturbed_iff (hr : Reachable atomicStep .empty r) {a b : Int} (hc : r.Chat a b)
    {e : Event} (he : e.Possible r) (ha : e.sender ≠ some a) (hb : e.sender ≠ some b) :
    (r.SameAt (replay r (e.acts r)) a ∧ r.SameAt (replay r (e.acts r)) b) ↔
      ¬ (e.CutsInto r a ∨ e.CutsInto r b) := by
  have hgood := hr.inv good_atomicStep good_empty
  rw [sameAt_after_iff hgood he hc.1 ha, sameAt_after_iff hgood he hc.2.1 hb, not_or]

/-- Two clients chat and a third one, who has asked nobody, closes. -/
theorem chat_undisturbed_by_stranger :
    let r := afterRun [joins 4, joins 5, joins 6, asks 4 5, acceptsAsker 5]
    (r.SameAt (replay r ((Event.closed 6).acts r)) 4 ∧
      r.SameAt (replay r ((Event.closed 6).acts r)) 5) ↔
      ¬ ((Event.closed 6).CutsInto r 4 ∨ (Event.closed 6).CutsInto r 5) :=
  chat_undisturbed_iff ⟨_, play_final (by decide +kernel)⟩
    ⟨by decide +kernel, by decide +kernel, by decide +kernel, by decide +kernel⟩
    (by decide +kernel) (by decide) (by decide)

/-- A client whose request was declined closes; the one it asked is in a chat by then. -/
theorem chat_disturbed_by_declined :
    ¬ ∀ (r : Registry) (a b : Int) (e : Event), Reachable atomicStep .empty r → r.Chat a b →
      e.Possible r → e.sender ≠ some a → e.sender ≠ some b →
      r.SameAt (replay r (e.acts r)) a ∧ r.SameAt (replay r (e.acts r)) b := by
  intro h
  have hsame := h (afterRun [joins 4, joins 5, joins 6, asks 4 5, declinesAsker 5, asks 6 5,
      acceptsAsker 5]) 5 6 (.closed 4) ⟨_, play_final (by decide +kernel)⟩
    ⟨by decide +kernel, by decide +kernel, by decide +kernel, by decide +kernel⟩
    (by decide +kernel) (by decide) (by decide)
  have hstatus := hsame.1.1
  revert hstatus
  decide +kernel

end ChatSocket
