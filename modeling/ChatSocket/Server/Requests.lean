/-
# `Server.Requests` — is an answer applied to the request it answers?

A pending request is a client in CHAT_STATUS_REQ_PENDING.  Its requester can be
looked for in two ways.

In the registry: `RequestersBound` says that under the link of a pending client
there is another client linked back, which a close then leads from the one to
the other.

In the history: `AskStep` runs the server beside a record of who asked whom,
`asker`, written at every write of CHAT_STATUS_REQ_PENDING and kept by
addresses, so that it means a connection and not a descriptor.
`Asked.AnswersRight` says that an ACCEPT pairs nobody but the sender and its
recorded asker, and that a DECLINE is told to the asker only.

For both, the events that keep them are named, over whole runs.
-/
import ChatSocket.Server.Refines
import ChatSocket.Room.Bindings

namespace ChatSocket

open Kit Registry

variable {r : Registry}

/-! ## The requester is bound -/

/-- Every pending client has a requester under its link, linked back to it, whose closing
frees it. -/
def Registry.RequestersBound (r : Registry) : Prop :=
  ∀ b ∈ r.clientList, b.data.chatStatus = .reqPending →
    ∃ a ∈ r.clientList, a ≠ b ∧ a.fd = b.data.toFd ∧ a.data.toFd = b.fd ∧
      (replay r ((Event.closed a.fd).acts r)).getClientChattingStatusByFd b.fd = .free

instance : DecidablePred RequestersBound := fun r => by
  unfold Registry.RequestersBound
  infer_instance

/-- The events that keep requesters bound: a request that gets through takes neither side of
it from a pending client that depends on it, and neither does losing a requester or ending a
chat. -/
def Event.KeepsBound (r : Registry) : Event → Prop
  | rxMsg fd msg =>
      match msg.msgType with
      | .connectToClient =>
          ∀ t, r.connectTarget fd msg.buffer.bytes = some t →
            ∀ b ∈ r.clientList, b.data.chatStatus = .reqPending → b.fd ≠ fd →
              b.data.toFd ≠ fd ∧ b.data.toFd ≠ t
      | .clientAcceptConnection =>
          r.getConnFdByFd fd ≠ invalidFd → r.Unnamed (r.getConnFdByFd fd) →
            ∀ b ∈ r.clientList, b.data.chatStatus = .reqPending → b.data.toFd ≠ fd
      | .clientTxType =>
          r.getClientChattingStatusByFd fd = .busy → strcmp msg.buffer.bytes disconnectCmd = 0 →
            ∀ b ∈ r.clientList, b.data.chatStatus = .reqPending →
              b.fd ≠ r.getConnFdByFd fd → b.data.toFd ≠ r.getConnFdByFd fd
      | _ => True
  | _ => True

/-- Quantifying over pending nodes is quantifying over asked places. -/
theorem Registry.Wf.forall_pending_iff (h : r.Wf) {p : Int → Prop} {c : Int} (hc : c ≠ invalidFd) :
    (∀ b ∈ r.clientList, b.data.chatStatus = .reqPending → p b.fd → b.data.toFd ≠ c) ↔
      ∀ b, p b → r.room.moodOf b = some .asked → r.room.peerOf b ≠ some c := by
  constructor
  · intro hk b hp hb hbc
    obtain ⟨n, hn, rfl, hmood⟩ := mem_of_mood hb
    exact hk n hn ((mood_eq_asked_iff _).mp hmood) hp ((h.peerOf_mem_iff hn).mp hbc).1
  · intro hk n hn hst hp hto
    refine hk n.fd hp ?_ ?_
    · rw [h.mood_of_mem hn, hst]
      rfl
    · exact (h.peerOf_mem_iff hn).mpr ⟨hto, hc⟩

theorem Registry.Good.requestersBound_iff (h : r.Good) : r.RequestersBound ↔ r.room.Bound := by
  constructor
  · intro hb fd hfd
    obtain ⟨b, hbm, rfl, hst⟩ := mem_of_mood hfd
    obtain ⟨a, ha, hne, hto, hback, -⟩ := hb b hbm ((mood_eq_asked_iff _).mp hst)
    refine ⟨a.fd, (h.wf.peerOf_iff_toFd hbm ha).mpr hto.symm, fun he => hne ?_,
      (h.wf.peerOf_iff_toFd ha hbm).mpr hback⟩
    exact Option.some.inj ((h.wf.node_of_mem ha).symm.trans (he ▸ h.wf.node_of_mem hbm))
  · intro hb b hbm hst
    have hasked : r.room.moodOf b.fd = some .asked := by
      rw [h.wf.mood_of_mem hbm, hst]
      rfl
    obtain ⟨fd, hp, hne, hback⟩ := hb b.fd hasked
    obtain ⟨a, ha, rfl⟩ := mem_of_peer hback
    refine ⟨a, ha, fun he => hne (he ▸ rfl), ((h.wf.peerOf_iff_toFd hbm ha).mp hp).symm,
      (h.wf.peerOf_iff_toFd ha hbm).mp hback, ?_⟩
    -- the close of `a` leaves the room by `a`'s link, which is `b`
    have hposs : (Event.closed a.fd).Possible r := by
      rw [Event.Possible, h.wf.node_of_mem ha]
      rfl
    obtain ⟨hwf, hroom, -⟩ := refines h hposs
    rw [hwf.free_iff, hroom]
    show ((Deed.leave a.fd).apply r.room).moodOf b.fd = _
    rw [mood_leave, if_neg (Ne.symm hne), if_pos hback, hasked]
    rfl

/-- The condition on an event, in the room. -/
theorem keepsBound_iff (h : r.Good) {e : Event} (he : e.Possible r) :
    e.KeepsBound r ↔ (e.deed r).KeepsBound r.room := by
  cases e with
  | accepted fd mallocOk =>
      simp only [Event.deed]
      split <;> exact Iff.rfl
  | closed fd => exact Iff.rfl
  | rxMsg fd msg =>
      have hfd : fd ≠ invalidFd := h.wf.ne_invalidFd he
      have hall : ∀ {c : Int}, c ≠ invalidFd →
          ((∀ b ∈ r.clientList, b.data.chatStatus = .reqPending → b.data.toFd ≠ c) ↔
            ∀ b, r.room.moodOf b = some .asked → r.room.peerOf b ≠ some c) := by
        intro c hc
        have := h.wf.forall_pending_iff (p := fun _ => True) hc
        simpa using this
      simp only [Event.KeepsBound, Event.deed, rxDeed]
      cases hmsg : msg.msgType with
      | connectToClient =>
          cases ht : r.connectTarget fd msg.buffer.bytes with
          | none => simp [Deed.KeepsBound]
          | some t =>
              obtain ⟨-, -, hvalid, -, -⟩ := h.wf.connectTarget_spec ht
              have h₁ := h.wf.forall_pending_iff (p := fun b => b ≠ fd) hfd
              have h₂ := h.wf.forall_pending_iff (p := fun b => b ≠ fd) hvalid
              constructor
              · intro hk b hne hb
                exact ⟨h₁.mp (fun n hn hs hf => (hk t rfl n hn hs hf).1) b hne hb,
                  h₂.mp (fun n hn hs hf => (hk t rfl n hn hs hf).2) b hne hb⟩
              · rintro hk t' ht' n hn hs hf
                obtain rfl := Option.some.inj ht'
                exact ⟨h₁.mpr (fun b hne hb => (hk b hne hb).1) n hn hs hf,
                  h₂.mpr (fun b hne hb => (hk b hne hb).2) n hn hs hf⟩
      | clientAcceptConnection =>
          simp only [acceptDeed]
          by_cases hc : r.getConnFdByFd fd = invalidFd
          · simp [hc, Deed.KeepsBound]
          by_cases hun : r.Unnamed (r.getConnFdByFd fd)
          · rw [if_neg hc, if_pos hun, hall hfd]
            exact ⟨fun hk => hk hc hun, fun hk _ _ => hk⟩
          · rw [if_neg hc, if_neg hun]
            refine ⟨fun _ => ?_, fun _ _ hu => absurd hu hun⟩
            repeat' split
            all_goals trivial
      | clientTxType =>
          simp only [txDeed]
          by_cases hbusy : r.getClientChattingStatusByFd fd = .busy
          swap
          · rw [if_pos (Or.inl hbusy)]
            exact ⟨fun _ => trivial, fun _ hb => absurd hb hbusy⟩
          have hc : r.getConnFdByFd fd ≠ invalidFd :=
            (h.linked ((h.wf.busy_iff fd).mp hbusy) (by simp)).1
          rw [if_neg (not_or.mpr ⟨not_not.mpr hbusy, hc⟩),
            h.wf.forall_pending_iff (p := fun b => b ≠ r.getConnFdByFd fd) hc]
          split
          · next hd => exact ⟨fun hk => hk hbusy hd, fun hk _ _ => hk⟩
          · next hd => exact ⟨fun _ => trivial, fun _ _ hd' => absurd hd' hd⟩
      | clientDeclineConnection =>
          simp only [declineDeed]
          split <;> exact Iff.rfl
      | _ => exact Iff.rfl

/-- Over whole runs, requesters stay bound exactly as long as every event keeps them bound. -/
theorem requestersBound_everywhere_iff (es : List Event) :
    Everywhere atomicStep RequestersBound .empty es ↔
      EveryStep atomicStep Event.KeepsBound .empty es := by
  refine everywhere_iff good_atomicStep (fun r e r' acts h hb hs => ?_) es good_empty
    fun _ ha => absurd ha List.not_mem_nil
  obtain ⟨he, rfl, -⟩ := atomicStep_eq_some_iff.mp hs
  obtain ⟨-, hroom, hen⟩ := refines h he
  rw [(h.step he).requestersBound_iff, hroom, keepsBound_iff h he]
  exact bound_apply_iff h.noSelf (h.requestersBound_iff.mp hb) hen

/-- A client asks one client after the other: the first one's requester is not bound to it. -/
theorem requester_asks_again :
    ¬ Everywhere atomicStep RequestersBound .empty
      [joins 4, joins 5, joins 6, asks 4 5, asks 4 6] := by
  decide +kernel

/-! ## The asker of record -/

/-- The askers after an act of the client at address `a`: whoever is put into
CHAT_STATUS_REQ_PENDING was asked by it. -/
def noteAct (r : Registry) (a : Nat) (asker : Nat → Option Nat) : Act → Nat → Option Nat
  | .wrote (.status t .reqPending) =>
      match r.node t with
      | some n => Function.update asker n.addr (some a)
      | none => asker
  | _ => asker

/-- The askers after an event. -/
def Event.note (r : Registry) (asker : Nat → Option Nat) (e : Event) : Nat → Option Nat :=
  match e.sender.bind r.node with
  | some n => (e.acts r).foldl (noteAct r n.addr) asker
  | none => asker

/-- The server and the record of who asked whom. -/
structure Asked where
  registry : Registry
  asker : Nat → Option Nat

def Asked.boot : Asked := ⟨.empty, fun _ => none⟩

def askStep (s : Asked) (e : Event) : Option (Asked × List Act) :=
  (atomicStep s.registry e).map fun q => (⟨q.1, e.note s.registry s.asker⟩, q.2)

/-- The client at `fd` is the recorded asker of `b`. -/
def Asked.IsAsker (s : Asked) (b : ClientNode) (fd : Int) : Prop :=
  ∃ a k, s.registry.node fd = some a ∧ s.asker b.addr = some k ∧ a.addr = k

/-- What an event leaves open that has no node: `client_thread` returns from a registration that
is refused, and nobody closes its descriptor. -/
def Event.refuses (r : Registry) : Event → List Int
  | accepted fd mallocOk => if r.Accepts mallocOk then [] else [fd]
  | rxMsg _ _ | closed _ => []

/-- `accept` returns no descriptor that is still open. -/
def Event.ComesFresh (refused : List Int) : Event → Prop
  | accepted fd _ => fd ∉ refused
  | rxMsg _ _ | closed _ => True

instance (refused : List Int) : DecidablePred (Event.ComesFresh refused)
  | .accepted _ _ => inferInstanceAs (Decidable (_ ∉ refused))
  | .rxMsg _ _ | .closed _ => inferInstanceAs (Decidable True)

/-- The server, the record of who asked whom, and the descriptors that were refused a node. -/
structure Reception where
  asked : Asked
  refused : List Int

namespace Reception

def boot : Reception := ⟨.boot, []⟩

abbrev registry (s : Reception) : Registry := s.asked.registry

/-- Answers reach whom they answer, whatever the next event is.

A client is made BUSY only by the ACCEPT of a pending one, and is that one or its asker.  What
an ACCEPT links is the two.  A DECLINE is told under one descriptor, and what is open there is
the connection of the asker and no other, be it registered or not. -/
structure AnswersRight (s : Reception) : Prop where
  busy : ∀ e : Event, e.Possible s.registry → ∀ g, .wrote (.status g .busy) ∈ e.acts s.registry →
    ∃ b msg, e = .rxMsg b.fd msg ∧ msg.msgType = .clientAcceptConnection ∧
      b ∈ s.registry.clientList ∧ b.data.chatStatus = .reqPending ∧
      (g = b.fd ∨ s.asked.IsAsker b g)
  linked : ∀ b ∈ s.registry.clientList, b.data.chatStatus = .reqPending →
    ∀ msg, msg.msgType = .clientAcceptConnection →
    ∀ x f, .wrote (.toFd x f) ∈ (Event.rxMsg b.fd msg).acts s.registry → f ≠ invalidFd →
      (x = b.fd ∧ s.asked.IsAsker b f) ∨ (s.asked.IsAsker b x ∧ f = b.fd)
  declined : ∀ b ∈ s.registry.clientList, b.data.chatStatus = .reqPending →
    ∀ msg, msg.msgType = .clientDeclineConnection →
    ∃ f text k, (Event.rxMsg b.fd msg).acts s.registry
        = [.sent f (.withText .clientDeclineConnectionAck text), .wrote (.status b.fd .free)] ∧
      s.asked.asker b.addr = some k ∧
      (∀ a ∈ s.registry.clientList, a.fd = f ↔ a.addr = k) ∧ f ∉ s.refused

end Reception

def receptionStep (s : Reception) (e : Event) : Option (Reception × List Act) :=
  if e.ComesFresh s.refused then
    (askStep s.asked e).map fun q => (⟨q.1, e.refuses s.registry ++ s.refused⟩, q.2)
  else none

/-- The events that keep answers right: a pending client gets no request through but one to
whom it is linked already, and no connection comes under a descriptor that a pending client is
linked to, whether it gets a node or not. -/
def Event.KeepsAnswers (r : Registry) : Event → Prop
  | accepted fd _ => ∀ b ∈ r.clientList, b.data.chatStatus = .reqPending → b.data.toFd ≠ fd
  | rxMsg fd msg =>
      msg.msgType = .connectToClient → r.getClientChattingStatusByFd fd = .reqPending →
        ∀ t, r.connectTarget fd msg.buffer.bytes = some t → r.getConnFdByFd fd = t
  | closed _ => True

/-- What is kept along: the registry is good, and askers had their addresses from `malloc`. -/
structure Asked.Good (s : Asked) : Prop where
  registry : s.registry.Good
  known : ∀ i k, s.asker i = some k → k < s.registry.mallocs

/-- Only a request that gets through puts anybody into CHAT_STATUS_REQ_PENDING. -/
theorem foldl_noteAct {acts : List Act} (h : ∀ t, .wrote (.status t .reqPending) ∉ acts) (a : Nat)
    (asker : Nat → Option Nat) : acts.foldl (noteAct r a) asker = asker := by
  induction acts generalizing asker with
  | nil => rfl
  | cons act acts ih =>
      have hact : noteAct r a asker act = asker := by
        unfold noteAct
        split
        · next t => exact absurd List.mem_cons_self (h t)
        · rfl
      rw [List.foldl_cons, hact]
      exact ih (fun t ht => h t (List.mem_cons_of_mem _ ht)) asker

theorem not_pending_acts (h : r.Wf) {e : Event} (he : e.Possible r)
    (hnot : ∀ fd msg t, e = .rxMsg fd msg → msg.msgType = .connectToClient →
      r.connectTarget fd msg.buffer.bytes ≠ some t) (t : Int) :
    .wrote (.status t .reqPending) ∉ e.acts r := by
  intro ha
  cases does_of_mem h he ha with
  | asks hmsg ht _ => exact hnot _ _ _ rfl hmsg ht
  | loses _ _ _ hmem | pairs _ _ _ _ hmem | quits _ _ _ hmem | declines _ _ _ hmem
  | leaves hmem => simp at hmem

theorem note_not_ask {v : Room Int} {asker : Nat → Option Nat} {d : Deed Int}
    (hd : ∀ a t, d ≠ .ask a t) : d.note v asker = asker := by
  cases d with
  | ask a t => exact absurd rfl (hd a t)
  | idle | enter | lose | release | pair | quit | leave => rfl

/-- An event that is no request getting through is no `ask`. -/
theorem deed_ne_ask {e : Event}
    (hnot : ∀ fd msg t, e = .rxMsg fd msg → msg.msgType = .connectToClient →
      r.connectTarget fd msg.buffer.bytes ≠ some t) (a t : Int) : e.deed r ≠ .ask a t := by
  cases e with
  | accepted fd mallocOk =>
      simp only [Event.deed]
      split <;> simp
  | closed fd => simp [Event.deed]
  | rxMsg fd msg =>
      simp only [Event.deed, rxDeed, acceptDeed, txDeed, declineDeed]
      repeat' split
      all_goals first
        | next hmsg _ _ ht => exact absurd ht (hnot _ _ _ rfl hmsg)
        | simp

/-- The record of the code is the record of the deeds. -/
theorem note_eq (h : r.Wf) {e : Event} (he : e.Possible r) (asker : Nat → Option Nat) :
    e.note r asker = (e.deed r).note r.room asker := by
  by_cases hask : ∃ fd msg t, e = .rxMsg fd msg ∧ msg.msgType = .connectToClient ∧
      r.connectTarget fd msg.buffer.bytes = some t
  · obtain ⟨fd, msg, t, rfl, hmsg, ht⟩ := hask
    obtain ⟨n, hn⟩ := Option.isSome_iff_exists.mp he
    obtain ⟨-, -, -, htreg, -⟩ := h.connectTarget_spec ht
    obtain ⟨m, hm⟩ := Option.isSome_iff_exists.mp htreg
    have hacts := h.distinct.connectActs_eq (h.ne_invalidFd he) msg.buffer.bytes
    rw [ht] at hacts
    simp only [Event.note, Event.sender, Option.bind_some, hn, Event.acts, rxActs, hmsg, hacts,
      List.foldl_cons, List.foldl_nil, noteAct, hm, Event.deed, rxDeed, ht, Deed.note,
      badgeOf_room, Option.map_some]
  · have hnot : ∀ fd msg t, e = .rxMsg fd msg → msg.msgType = .connectToClient →
        r.connectTarget fd msg.buffer.bytes ≠ some t :=
      fun fd msg t he' hmsg ht => hask ⟨fd, msg, t, he', hmsg, ht⟩
    rw [note_not_ask (deed_ne_ask hnot), Event.note]
    split
    · exact foldl_noteAct (not_pending_acts h he hnot) _ asker
    · rfl

theorem Asked.good_boot : Asked.boot.Good :=
  ⟨good_empty, fun _ _ h => (nomatch h)⟩

theorem askStep_eq_some_iff {s s' : Asked} {e : Event} {acts : List Act} :
    askStep s e = some (s', acts) ↔
      e.Possible s.registry ∧ acts = e.acts s.registry ∧
        s' = ⟨replay s.registry (e.acts s.registry), e.note s.registry s.asker⟩ :=
  atomicStep_map_eq_some_iff

theorem Asked.Good.step (s : Asked) (e : Event) (s' : Asked) (acts : List Act) (h : s.Good)
    (hs : askStep s e = some (s', acts)) : s'.Good := by
  obtain ⟨he, -, rfl⟩ := askStep_eq_some_iff.mp hs
  have hle := mallocs_le_replay (e.acts s.registry) s.registry
  refine ⟨h.registry.step he, fun i k hik => ?_⟩
  have hold : s.asker i = some k → k < (replay s.registry (e.acts s.registry)).mallocs :=
    fun hk => Nat.lt_of_lt_of_le (h.known i k hk) hle
  have hik : e.note s.registry s.asker i = some k := hik
  rw [note_eq h.registry.wf he] at hik
  -- a new asker is registered
  cases hd : e.deed s.registry with
  | ask a t =>
      rw [hd, Deed.note] at hik
      cases hj : s.registry.room.badgeOf t with
      | none =>
          rw [hj] at hik
          exact hold hik
      | some j =>
          rw [hj] at hik
          have hik : Function.update s.asker j (s.registry.room.badgeOf a) i = some k := hik
          by_cases hij : i = j
          · rw [hij, Function.update_self, badgeOf_room] at hik
            obtain ⟨n, hn, rfl⟩ := Option.map_eq_some_iff.mp hik
            exact Nat.lt_of_lt_of_le (h.registry.wf.fresh n (look_mem hn)) hle
          · rw [Function.update_of_ne hij] at hik
            exact hold hik
  | idle | enter | lose | release | pair | quit | leave =>
      rw [hd] at hik
      exact hold hik

/-- What is kept along beside it: who was refused has no node. -/
structure Reception.Good (s : Reception) : Prop where
  asked : s.asked.Good
  apart : ∀ fd ∈ s.refused, s.registry.node fd = none

theorem Reception.good_boot : Reception.boot.Good :=
  ⟨Asked.good_boot, fun _ h => absurd h List.not_mem_nil⟩

theorem receptionStep_eq_some_iff {s s' : Reception} {e : Event} {acts : List Act} :
    receptionStep s e = some (s', acts) ↔
      e.ComesFresh s.refused ∧ e.Possible s.registry ∧ acts = e.acts s.registry ∧
        s' = ⟨⟨replay s.registry (e.acts s.registry), e.note s.registry s.asked.asker⟩,
          e.refuses s.registry ++ s.refused⟩ := by
  unfold receptionStep
  split
  · next hc =>
      rw [and_iff_right hc, askStep, Option.map_map]
      exact atomicStep_map_eq_some_iff
  · next hc => exact ⟨fun h => (nomatch h), fun h => absurd h.1 hc⟩

theorem mem_refuses {e : Event} {fd : Int} :
    fd ∈ e.refuses r ↔ ∃ ok, e = .accepted fd ok ∧ ¬ r.Accepts ok := by
  cases e with
  | accepted g ok =>
      simp only [Event.refuses, Event.accepted.injEq]
      split
      · next ha =>
          refine ⟨fun h => absurd h List.not_mem_nil, ?_⟩
          rintro ⟨_, ⟨-, rfl⟩, hnot⟩
          exact absurd ha hnot
      · next ha =>
          rw [List.mem_singleton]
          constructor
          · rintro rfl
            exact ⟨ok, ⟨rfl, rfl⟩, ha⟩
          · rintro ⟨_, ⟨rfl, -⟩, -⟩
            rfl
  | rxMsg | closed => simp [Event.refuses]

/-- Only a registration that succeeds brings somebody in. -/
theorem deed_eq_enter {e : Event} {fd : Int} {k : Nat} (he : e.deed r = .enter fd k) :
    k = r.mallocs ∧ ∃ ok, e = .accepted fd ok ∧ r.Accepts ok := by
  cases e with
  | accepted g ok =>
      simp only [Event.deed] at he
      split at he
      · next ha =>
          obtain ⟨rfl, rfl⟩ := Deed.enter.inj he
          exact ⟨rfl, ok, rfl, ha⟩
      · cases he
  | closed g => cases he
  | rxMsg g msg =>
      simp only [Event.deed, rxDeed, acceptDeed, txDeed, declineDeed] at he
      repeat' split at he
      all_goals cases he

theorem Reception.Good.step (s : Reception) (e : Event) (s' : Reception) (acts : List Act)
    (h : s.Good) (hs : receptionStep s e = some (s', acts)) : s'.Good := by
  obtain ⟨hfresh, he, -, rfl⟩ := receptionStep_eq_some_iff.mp hs
  refine ⟨Asked.Good.step s.asked e _ _ h.asked (askStep_eq_some_iff.mpr ⟨he, rfl, rfl⟩),
    fun fd hfd => ?_⟩
  obtain ⟨-, hroom, -⟩ := refines h.asked.registry he
  -- whoever has a node now had it before, or has just got it
  rw [Option.eq_none_iff_forall_not_mem]
  intro n hn
  have hin : ((e.deed s.registry).apply s.registry.room fd).isSome := by
    rw [← hroom, room_isSome, show (replay s.registry _).node fd = some n from hn]
    rfl
  rcases isSome_apply hin with hbefore | ⟨k, hk⟩
  · rw [room_isSome] at hbefore
    rcases List.mem_append.mp hfd with hnew | hold
    · obtain ⟨ok, rfl, -⟩ := mem_refuses.mp hnew
      rw [he.2] at hbefore
      cases hbefore
    · rw [h.apart fd hold] at hbefore
      cases hbefore
  · obtain ⟨-, ok, rfl, ha⟩ := deed_eq_enter hk
    rcases List.mem_append.mp hfd with hnew | hold
    · obtain ⟨ok', he', hnot⟩ := mem_refuses.mp hnew
      cases he'
      exact hnot ha
    · exact hfresh hold

/-! ## Answers and askers -/

section
variable {s : Asked}

/-- In the room, the client a pending one is linked to is its asker. -/
theorem isAsker_of_answers (h : s.Good) (ha : s.registry.room.Answers s.asker) {b : ClientNode}
    (hb : b ∈ s.registry.clientList) (hst : b.data.chatStatus = .reqPending) {c : Int}
    (hp : s.registry.room.peerOf b.fd = some c) (hc : (s.registry.node c).isSome) :
    s.IsAsker b c := by
  obtain ⟨a, han⟩ := Option.isSome_iff_exists.mp hc
  obtain ⟨i, k, hi, hk, hg⟩ := ha b.fd (by rw [h.registry.wf.mood_of_mem hb, hst]; rfl)
  rw [badgeOf_room, h.registry.wf.node_of_mem hb] at hi
  obtain rfl := Option.some.inj hi
  refine ⟨a, k, han, hk, ?_⟩
  exact (hg c a.addr (by rw [badgeOf_room, han]; rfl)).mp hp

/-- What a pending client does when it declines. -/
theorem declineActs_eq (h : r.Good) {b : ClientNode} (hb : b ∈ r.clientList)
    (hst : b.data.chatStatus = .reqPending) {msg : Msg}
    (hmsg : msg.msgType = .clientDeclineConnection) :
    r.room.peerOf b.fd = some (r.getConnFdByFd b.fd) ∧
      (Event.rxMsg b.fd msg).acts r
        = [.sent (r.getConnFdByFd b.fd) (.withText .clientDeclineConnectionAck (r.nameOf b.fd)),
           .wrote (.status b.fd .free)] := by
  have hasked : r.room.moodOf b.fd = some .asked := by
    rw [h.wf.mood_of_mem hb, hst]
    rfl
  obtain ⟨hne, hp⟩ := h.linked hasked (by simp)
  have hpend := (h.wf.reqPending_iff b.fd).mpr hasked
  refine ⟨hp, ?_⟩
  simp only [Event.acts, rxActs, hmsg, declineActs]
  rw [if_neg (not_or.mpr ⟨h.wf.valid b hb, not_or.mpr ⟨not_not.mpr hpend, hne⟩⟩)]

/-- Where answers are right, the link of a pending client leads to its asker, and to nobody who was
refused. -/
theorem Reception.AnswersRight.peer {s : Reception} (ha : s.AnswersRight)
    (h : s.registry.Good) {fd : Int} (hfd : s.registry.room.moodOf fd = some .asked) :
    ∃ b ∈ s.registry.clientList, b.fd = fd ∧ ∃ f k, s.registry.room.peerOf fd = some f ∧
      s.asked.asker b.addr = some k ∧
      (∀ a ∈ s.registry.clientList, a.fd = f ↔ a.addr = k) ∧ f ∉ s.refused := by
  obtain ⟨b, hb, rfl, hst⟩ := mem_of_mood hfd
  have hst := (mood_eq_asked_iff _).mp hst
  have htype : (Msg.ofType .clientDeclineConnection).msgType = .clientDeclineConnection := rfl
  obtain ⟨hp, hacts⟩ := declineActs_eq h hb hst htype
  obtain ⟨f, text, k, hf, hk, hiff, hopen⟩ := ha.declined b hb hst _ htype
  rw [hacts] at hf
  obtain ⟨rfl, -⟩ := Act.sent.inj (List.cons.inj hf).1
  exact ⟨b, hb, rfl, _, k, hp, hk, hiff, hopen⟩

theorem Reception.Good.answersRight_iff {s : Reception} (hgood : s.Good) :
    s.AnswersRight ↔
      s.registry.room.Answers s.asked.asker ∧ s.registry.room.Clear s.refused := by
  have h := hgood.asked
  constructor
  · intro ha
    refine ⟨fun fd hfd => ?_, fun fd c hfd hc => ?_⟩
    · obtain ⟨b, hb, rfl, f, k, hp, hk, hiff, -⟩ := ha.peer h.registry hfd
      refine ⟨b.addr, k, by rw [badgeOf_room, h.registry.wf.node_of_mem hb]; rfl, hk, ?_⟩
      intro g j hj
      rw [badgeOf_room] at hj
      obtain ⟨a, han, rfl⟩ := Option.map_eq_some_iff.mp hj
      obtain rfl : a.fd = g := look_key han
      rw [hp, Option.some.injEq, ← hiff a (look_mem han)]
      exact eq_comm
    · obtain ⟨-, -, -, f, -, hp, -, -, hopen⟩ := ha.peer h.registry hfd
      rw [hc] at hp
      exact Option.some.inj hp ▸ hopen
  · rintro ⟨ha, hclear⟩
    have hpair : ∀ {fd : Int} {msg : Msg}, (Event.rxMsg fd msg).Possible s.registry →
        s.registry.getClientChattingStatusByFd fd = .reqPending →
        s.registry.getConnFdByFd fd ≠ invalidFd →
        ¬ s.registry.Unnamed (s.registry.getConnFdByFd fd) →
        ∃ b ∈ s.registry.clientList, b.fd = fd ∧ b.data.chatStatus = .reqPending ∧
          s.asked.IsAsker b (s.registry.getConnFdByFd fd) := by
      intro fd msg he hst hc hun
      obtain ⟨b, hb, rfl, hmood⟩ := mem_of_mood ((h.registry.wf.reqPending_iff fd).mp hst)
      have hst' := (mood_eq_asked_iff _).mp hmood
      refine ⟨b, hb, rfl, hst', isAsker_of_answers h ha hb hst'
        (h.registry.wf.peerOf_of_connFd hc) ?_⟩
      rw [Option.isSome_iff_ne_none]
      exact fun hnone => hun (unnamed_of_unregistered hnone)
    refine ⟨?_, ?_, ?_⟩
    · intro e he g hg
      cases does_of_mem h.registry.wf he hg with
      | pairs hmsg hst hc hun hmem =>
          obtain ⟨b, hb, rfl, hst', hasker⟩ := hpair he hst hc hun
          refine ⟨b, _, rfl, hmsg, hb, hst', ?_⟩
          simp only [List.mem_cons, Act.wrote.injEq, Write.status.injEq, and_true, reduceCtorEq,
            List.not_mem_nil, or_false] at hmem
          rcases hmem with rfl | rfl
          · exact Or.inl rfl
          · exact Or.inr hasker
      | asks _ _ hmem | loses _ _ _ hmem | quits _ _ _ hmem | declines _ _ _ hmem
      | leaves hmem => simp at hmem
    · intro b hb hst msg hmsg x f hxf hf
      have he : (Event.rxMsg b.fd msg).Possible s.registry := by
        rw [Event.Possible, h.registry.wf.node_of_mem hb]
        rfl
      cases does_of_mem h.registry.wf he hxf with
      | pairs _ hst hc hun hmem =>
          obtain ⟨b', hb', hfd, -, hasker⟩ := hpair he hst hc hun
          obtain rfl : b' = b := Option.some.inj
            ((h.registry.wf.node_of_mem hb').symm.trans (hfd ▸ h.registry.wf.node_of_mem hb))
          simp only [List.mem_cons, Act.wrote.injEq, Write.toFd.injEq, reduceCtorEq,
            List.not_mem_nil, or_false, false_or] at hmem
          rcases hmem with ⟨rfl, rfl⟩ | ⟨rfl, rfl⟩
          · exact Or.inl ⟨rfl, hasker⟩
          · exact Or.inr ⟨hasker, rfl⟩
      | loses _ _ _ hmem => simp [hf] at hmem
      | asks hmsg' _ _ | quits hmsg' _ _ _ | declines hmsg' _ _ _ => simp [hmsg] at hmsg'
    · intro b hb hst msg hmsg
      obtain ⟨hp, hacts⟩ := declineActs_eq h.registry hb hst hmsg
      obtain ⟨i, k, hi, hk, hg⟩ := ha b.fd (by rw [h.registry.wf.mood_of_mem hb, hst]; rfl)
      rw [badgeOf_room, h.registry.wf.node_of_mem hb] at hi
      obtain rfl := Option.some.inj hi
      have hasked : s.registry.room.moodOf b.fd = some .asked := by
        rw [h.registry.wf.mood_of_mem hb, hst]
        rfl
      refine ⟨_, _, k, hacts, hk, fun a ha' => ?_, hclear b.fd _ hasked hp⟩
      rw [← hg a.fd a.addr (by rw [badgeOf_room, h.registry.wf.node_of_mem ha']; rfl), hp,
        Option.some.injEq]
      exact eq_comm

/-- A refusal changes nobody's link. -/
theorem clear_refuses_iff (r : Registry) (e : Event) :
    ((e.deed r).apply r.room).Clear (e.refuses r) ↔ r.room.Clear (e.refuses r) := by
  cases e with
  | accepted fd mallocOk =>
      simp only [Event.deed, Event.refuses]
      split
      · exact iff_of_true (Room.clear_nil _) (Room.clear_nil _)
      · exact Iff.rfl
  | rxMsg | closed => exact iff_of_true (Room.clear_nil _) (Room.clear_nil _)

/-- The condition on an event, in the room. -/
theorem keepsAnswers_iff (h : r.Good) {e : Event} (he : e.Possible r) :
    e.KeepsAnswers r ↔ (e.deed r).KeepsAnswers r.room ∧ r.room.Clear (e.refuses r) := by
  have hnobody : r.room.Clear [] := r.room.clear_nil
  cases e with
  | accepted fd mallocOk =>
      have hfd : fd ≠ invalidFd := by
        rintro rfl
        exact absurd he.1 (by decide)
      have hall : (Event.accepted fd mallocOk).KeepsAnswers r ↔
          ∀ b, r.room.moodOf b = some .asked → r.room.peerOf b ≠ some fd := by
        simpa [Event.KeepsAnswers] using h.wf.forall_pending_iff (p := fun _ => True) hfd
      rw [hall]
      simp only [Event.deed, Event.refuses]
      split
      · exact (and_iff_left hnobody).symm
      · refine Iff.trans ?_ (and_iff_right trivial).symm
        constructor
        · intro hk b c hb hc hin
          obtain rfl := List.mem_singleton.mp hin
          exact hk b hb hc
        · intro hk b hb hc
          exact hk b fd hb hc (List.mem_singleton_self fd)
  | closed fd => exact (and_iff_left hnobody).symm
  | rxMsg fd msg =>
      refine Iff.trans ?_ (and_iff_left hnobody).symm
      simp only [Event.KeepsAnswers, Event.deed, rxDeed, h.wf.reqPending_iff]
      cases hmsg : msg.msgType with
      | connectToClient =>
          cases ht : r.connectTarget fd msg.buffer.bytes with
          | none => simp [Deed.KeepsAnswers]
          | some t =>
              obtain ⟨-, -, hvalid, -, -⟩ := h.wf.connectTarget_spec ht
              simp only [Deed.KeepsAnswers, h.wf.peerOf_eq_some_iff]
              constructor
              · exact fun hk hb => ⟨hk trivial hb t rfl, hvalid⟩
              · rintro hk - hb t' ht'
                obtain rfl := Option.some.inj ht'
                exact (hk hb).1
      | clientAcceptConnection =>
          simp only [acceptDeed, reduceCtorEq, false_imp_iff, true_iff]
          repeat' split
          all_goals trivial
      | clientTxType =>
          simp only [txDeed, reduceCtorEq, false_imp_iff, true_iff]
          repeat' split
          all_goals trivial
      | clientDeclineConnection =>
          simp only [declineDeed, reduceCtorEq, false_imp_iff, true_iff]
          split <;> trivial
      | _ => simp [Deed.KeepsAnswers]

end

/-- Over whole runs, answers are applied to the requests they answer exactly as long as every
event keeps answers right. -/
theorem answersRight_everywhere_iff (es : List Event) :
    Everywhere receptionStep Reception.AnswersRight .boot es ↔
      EveryStep receptionStep (fun s e => e.KeepsAnswers s.registry) .boot es := by
  refine everywhere_iff Reception.Good.step (fun s e s' acts h ha hs => ?_) es
    Reception.good_boot ?_
  · have hgood := h.step s e s' acts hs
    obtain ⟨-, he, -, rfl⟩ := receptionStep_eq_some_iff.mp hs
    obtain ⟨-, hroom, hen⟩ := refines h.asked.registry he
    obtain ⟨hanswers, hclear⟩ := h.answersRight_iff.mp ha
    have hnoSelf := h.asked.registry.noSelf
    rw [hgood.answersRight_iff, keepsAnswers_iff h.asked.registry he]
    show (replay s.registry _).room.Answers (e.note s.registry s.asked.asker) ∧
      (replay s.registry _).room.Clear (e.refuses s.registry ++ s.refused) ↔ _
    rw [hroom, note_eq h.asked.registry.wf he]
    refine and_congr ?_ ?_
    · refine answers_apply_iff hnoSelf (fun _ _ _ => badged_room h.asked.registry.wf) hanswers hen
        fun a k hd i hi => ?_
      -- a newcomer's address is fresh
      obtain ⟨rfl, -⟩ := deed_eq_enter hd
      exact absurd (h.asked.known i _ hi) (Nat.lt_irrefl _)
    · -- whoever was refused before has no node, and no request leads to it
      have hold : ((e.deed s.registry).apply s.registry.room).Clear s.refused :=
        hclear.apply hnoSelf (fun g hg => by simp [Registry.room, h.apart g hg]) hen
      rw [Room.clear_append, and_iff_left hold]
      exact clear_refuses_iff s.registry e
  · refine Reception.good_boot.answersRight_iff.mpr ⟨fun b hb => ?_, fun b _ hb => ?_⟩
    · cases hb
    · cases hb

/-- 4 asks 5, and before 5 answers it asks 6: its ACCEPT makes 6 BUSY, who asked nobody. -/
theorem answer_to_wrong_asker :
    ¬ Everywhere receptionStep Reception.AnswersRight .boot
      [joins 4, joins 5, joins 6, asks 4 5, asks 5 6] := by
  intro h
  have hright := h.at_play (play_final (by decide +kernel))
  obtain ⟨b, msg, he, -, hb, -, hor⟩ :=
    hright.busy (acceptsAsker 5) (by decide +kernel) 6 (by decide +kernel)
  obtain ⟨hfd, -⟩ := Event.rxMsg.inj he
  rcases hor with h6 | ⟨a, k, ha, hk, hak⟩
  · exact absurd (hfd.trans h6.symm) (by decide)
  · have hasker : ∀ b ∈ (final receptionStep .boot
        [joins 4, joins 5, joins 6, asks 4 5, asks 5 6]).registry.clientList, b.fd = 5 →
        (final receptionStep .boot
          [joins 4, joins 5, joins 6, asks 4 5, asks 5 6]).asked.asker b.addr = some 0 := by
      decide +kernel
    have haddr : ((final receptionStep .boot
        [joins 4, joins 5, joins 6, asks 4 5, asks 5 6]).registry.node 6).map ClientNode.addr
        = some 2 := by decide +kernel
    rw [hasker b hb hfd.symm] at hk
    rw [ha, Option.map_some, hak, ← hk] at haddr
    exact absurd haddr (by decide)

end ChatSocket
