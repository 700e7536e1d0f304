/-
# `Network.News` — what an event makes of moods and flags

An event changes moods, and it sends messages that change flags.  `told` is the
second of the two: what the messages an event sends make of the flags of each
client.  `Outcome` puts it beside the deed of the event, one constructor for
each way a handler can end, and `outcome` is the inversion that
`Network.Agreement` rests on.

`pairsSilently` is the way on which two clients become BUSY and neither is
told.  `loses`, `declines` and `quits` set the sender FREE and do not tell it:
that it knows already is up to the sender.
-/
import ChatSocket.Server.Refines
import ChatSocket.Client.Flags

namespace ChatSocket

open Kit Registry

/-- The messages for `x`, in order. -/
def msgsTo (x : Int) (acts : List Act) : List Msg :=
  acts.filterMap fun a =>
    match a with
    | .sent fd msg => if fd = x then some msg else none
    | .wrote _ => none

/-- What the messages for `x` make of its flags. -/
def told (acts : List Act) (x : Int) (f : Flags) : Flags := settle f (msgsTo x acts)

section
variable (acts : List Act) (x : Int) (f : Flags)

@[simp] theorem told_nil : told [] x f = f := rfl

@[simp] theorem told_wrote (w : Write) : told (.wrote w :: acts) x f = told acts x f := rfl

@[simp] theorem told_sent (fd : Int) (msg : Msg) :
    told (.sent fd msg :: acts) x f = told acts x (if x = fd then msg.msgType.tell f else f) := by
  by_cases h : fd = x
  · simp [told, msgsTo, h]
  · simp [told, msgsTo, h, Ne.symm h]

end

/-- The ways an event can end: the deed it is, and what it makes of each client's flags. -/
inductive Outcome (r : Registry) (T : Int → Flags → Flags) : Event → Deed Int → Prop where
  | registers {fd ok d} : d = .enter fd r.mallocs ∨ d = .idle → Outcome r T (.accepted fd ok) d
  | silent {fd msg} : (∀ mood, r.room.moodOf fd = some mood → ¬ msg.Leaves mood) →
      (∀ x f, T x f = f) → Outcome r T (.rxMsg fd msg) .idle
  | asks {fd msg t} : msg.msgType = .connectToClient →
      (∀ x f, T x f = if x = t then { f with asked := true } else f) →
      Outcome r T (.rxMsg fd msg) (.ask fd t)
  | loses {fd msg} : msg.msgType = .clientAcceptConnection →
      r.getConnFdByFd fd ≠ invalidFd → r.Unnamed (r.getConnFdByFd fd) →
      (∀ x f, T x f = f) → Outcome r T (.rxMsg fd msg) (.lose fd)
  | refused {fd msg} : (∀ x f, T x f = if x = fd then .idle else f) →
      Outcome r T (.rxMsg fd msg) (.release fd)
  | puzzled {fd msg} : msg.msgType = .clientAcceptConnection →
      r.getConnFdByFd fd ≠ invalidFd → ¬ r.Unnamed (r.getConnFdByFd fd) →
      r.getClientChattingStatusByFd (r.getConnFdByFd fd) ≠ .busy →
      r.getClientChattingStatusByFd fd ≠ .reqPending →
      (∀ x f, T x f = if x = fd then ⟨true, false⟩ else f) →
      Outcome r T (.rxMsg fd msg) .idle
  | pairs {fd msg} : msg.msgType = .clientAcceptConnection →
      r.getConnFdByFd fd ≠ invalidFd → ¬ r.Unnamed (r.getConnFdByFd fd) →
      r.getClientChattingStatusByFd (r.getConnFdByFd fd) ≠ .busy →
      r.getClientChattingStatusByFd fd = .reqPending →
      (∀ x f, T x f = if x = fd then { f with busy := true }
        else if x = r.getConnFdByFd fd then ⟨true, false⟩ else f) →
      Outcome r T (.rxMsg fd msg) (.pair fd (r.getConnFdByFd fd))
  | pairsSilently {fd msg} : msg.msgType = .clientAcceptConnection →
      r.getConnFdByFd fd ≠ invalidFd → ¬ r.Unnamed (r.getConnFdByFd fd) →
      r.getClientChattingStatusByFd (r.getConnFdByFd fd) ≠ .busy →
      r.getClientChattingStatusByFd fd = .reqPending → r.Unnamed fd →
      Outcome r T (.rxMsg fd msg) (.pair fd (r.getConnFdByFd fd))
  | declines {fd msg} : msg.msgType = .clientDeclineConnection →
      r.getClientChattingStatusByFd fd = .reqPending → (∀ x f, T x f = f) →
      Outcome r T (.rxMsg fd msg) (.release fd)
  | quits {fd msg} : msg.msgType = .clientTxType →
      strcmp msg.buffer.bytes disconnectCmd = 0 → r.getClientChattingStatusByFd fd = .busy →
      (∀ x f, T x f = if x = r.getConnFdByFd fd then .idle else f) →
      Outcome r T (.rxMsg fd msg) (.quit fd (r.getConnFdByFd fd))
  | leaves {fd} :
      (∀ x f, T x f = f ∨ T x f = .idle) →
      (∀ x f, r.room.peerOf fd ≠ some x → T x f = f) →
      (∀ x f, r.room.peerOf fd = some x → r.room.moodOf x ≠ some .free → T x f = .idle) →
      Outcome r T (.closed fd) (.leave fd)

variable {r : Registry}

/-! ## The messages each handler sends -/

/-- An answer to a request changes no flag. -/
theorem tell_connectAnswer (fd : Int) (name : List UInt8) (f : Flags) :
    (connectAnswer r fd name).tell f = f := by
  unfold connectAnswer
  repeat' split
  all_goals rfl

theorem not_leaves_of_msgType {msg : Msg} (haccept : msg.msgType ≠ .clientAcceptConnection)
    (hdecline : msg.msgType ≠ .clientDeclineConnection) (htx : msg.msgType ≠ .clientTxType)
    (mood : Mood) : ¬ msg.Leaves mood := by
  cases mood with
  | free => exact id
  | asked => exact fun h => h.elim haccept hdecline
  | busy => exact fun h => htx h.1

theorem silent_of_msgType {T : Int → Flags → Flags} {fd : Int} {msg : Msg}
    (haccept : msg.msgType ≠ .clientAcceptConnection)
    (hdecline : msg.msgType ≠ .clientDeclineConnection) (htx : msg.msgType ≠ .clientTxType)
    (hT : ∀ x f, T x f = f) : Outcome r T (.rxMsg fd msg) .idle :=
  .silent (fun mood _ => not_leaves_of_msgType haccept hdecline htx mood) hT

theorem outcome_connect (h : r.Good) {fd : Int} (hfd : (r.node fd).isSome) {msg : Msg}
    (hmsg : msg.msgType = .connectToClient) :
    Outcome r (told (connectActs r fd msg.buffer.bytes)) (.rxMsg fd msg)
      (match r.connectTarget fd msg.buffer.bytes with
        | some t => .ask fd t
        | none => .idle) := by
  have hanswer := tell_connectAnswer (r := r) fd msg.buffer.bytes
  rw [h.wf.distinct.connectActs_eq (h.wf.ne_invalidFd hfd)]
  cases ht : r.connectTarget fd msg.buffer.bytes with
  | none =>
      exact silent_of_msgType (by simp [hmsg]) (by simp [hmsg]) (by simp [hmsg])
        fun x f => by simp [hanswer]
  | some t => exact .asks hmsg fun x f => by simp [hanswer]

theorem outcome_accept (h : r.Good) {fd : Int} {msg : Msg}
    (hmsg : msg.msgType = .clientAcceptConnection) :
    Outcome r (told (acceptActs r fd)) (.rxMsg fd msg) (acceptDeed r fd) := by
  unfold acceptActs acceptDeed
  simp only
  split
  · next hc =>
      refine .silent (fun mood hmood hleaves => ?_) (fun _ _ => rfl)
      have hne : mood ≠ .free := by
        rintro rfl
        exact hleaves
      exact (h.linked hmood hne).1 hc
  next hc =>
  have hne : fd ≠ r.getConnFdByFd fd :=
    fun he => h.noSelf fd (by rw [h.wf.peerOf_of_connFd hc, ← he])
  split
  · next hun => exact .loses hmsg hc hun fun x f => by simp
  next hun =>
  split
  · exact .refused fun x f => by simp
  next hbusy =>
  split
  · next hst => exact .puzzled hmsg hc hun hbusy hst fun x f => by simp
  next hst =>
  have hst := not_not.mp hst
  by_cases hme : strcmp (r.nameOf fd) undefName = 0
  · exact .pairsSilently hmsg hc hun hbusy hst hme
  · rw [if_neg hme]
    refine .pairs hmsg hc hun hbusy hst fun x f => ?_
    by_cases hx : x = fd
    · have hcx : x ≠ r.getConnFdByFd fd := fun he => hne (hx.symm.trans he)
      simp [hx, hne]
    · simp [hx]

theorem outcome_tx (h : r.Good) {fd : Int} {msg : Msg} (hmsg : msg.msgType = .clientTxType) :
    Outcome r (told (txActs r fd msg)) (.rxMsg fd msg) (txDeed r fd msg) := by
  unfold txActs txDeed
  simp only
  split
  · next hidle =>
      refine .silent (fun mood hmood hleaves => ?_) (fun _ _ => rfl)
      obtain ⟨rfl, -⟩ := (leaves_tx_iff hmsg).mp hleaves
      rcases hidle with hst | hc
      · exact hst ((h.wf.busy_iff fd).mpr hmood)
      · exact (h.linked hmood (by simp)).1 hc
  next hidle =>
  obtain ⟨hst, -⟩ := not_or.mp hidle
  split
  · next hdisc => exact .quits hmsg hdisc (not_not.mp hst) fun x f => by simp
  · next hdisc =>
      exact .silent (fun mood _ hleaves => hdisc ((leaves_tx_iff hmsg).mp hleaves).2)
        fun x f => by simp

theorem outcome_decline (h : r.Good) {fd : Int} (hfd : (r.node fd).isSome) {msg : Msg}
    (hmsg : msg.msgType = .clientDeclineConnection) :
    Outcome r (told (declineActs r fd)) (.rxMsg fd msg) (declineDeed r fd) := by
  unfold declineActs declineDeed
  by_cases hidle : r.getClientChattingStatusByFd fd ≠ .reqPending ∨ r.getConnFdByFd fd = invalidFd
  · rw [if_pos (Or.inr hidle), if_pos hidle]
    refine .silent (fun mood hmood hleaves => ?_) (fun _ _ => rfl)
    obtain rfl := (leaves_decline_iff hmsg).mp hleaves
    rcases hidle with hst | hc
    · exact hst ((h.wf.reqPending_iff fd).mpr hmood)
    · exact (h.linked hmood (by simp)).1 hc
  · rw [if_neg (not_or.mpr ⟨h.wf.ne_invalidFd hfd, hidle⟩), if_neg hidle]
    obtain ⟨hst, -⟩ := not_or.mp hidle
    exact .declines hmsg (not_not.mp hst) fun x f => by simp

theorem outcome_rx (h : r.Good) {fd : Int} (hfd : (r.node fd).isSome) (msg : Msg) :
    Outcome r (told (rxActs r fd msg)) (.rxMsg fd msg) (rxDeed r fd msg) := by
  unfold rxActs rxDeed
  cases hmsg : msg.msgType with
  | connectToClient => exact outcome_connect h hfd hmsg
  | clientAcceptConnection => exact outcome_accept h hmsg
  | clientTxType => exact outcome_tx h hmsg
  | clientDeclineConnection => exact outcome_decline h hfd hmsg
  | setNameReqType =>
      refine silent_of_msgType (by simp [hmsg]) (by simp [hmsg]) (by simp [hmsg]) fun x f => ?_
      simp only [setNameActs]
      split
      · simp
      · split <;> simp
  | getClientListType =>
      refine silent_of_msgType (by simp [hmsg]) (by simp [hmsg]) (by simp [hmsg]) fun x f => ?_
      simp only [clientListActs]
      split <;> simp
  | _ =>
      exact silent_of_msgType (by simp [hmsg]) (by simp [hmsg]) (by simp [hmsg]) fun _ _ => rfl

theorem outcome_closed (h : r.Good) (fd : Int) :
    Outcome r (told (closedActs r fd)) (.closed fd) (.leave fd) := by
  have hpeer : ∀ x, r.room.peerOf fd = some x ↔ r.getConnFdByFd fd = x ∧ x ≠ invalidFd :=
    fun x => h.wf.peerOf_eq_some_iff
  unfold closedActs
  simp only
  split
  · next hc =>
      refine .leaves (fun x f => ?_) (fun x f hx => ?_) (fun x f hx _ => ?_)
      · by_cases hx : x = r.getConnFdByFd fd <;> simp [hx]
      · have hne : x ≠ r.getConnFdByFd fd := by
          rintro rfl
          exact hx ((hpeer _).mpr ⟨rfl, hc.1⟩)
        simp [hne]
      · obtain ⟨rfl, -⟩ := (hpeer x).mp hx
        simp
  · next hc =>
      refine .leaves (fun x f => Or.inl ?_) (fun x f _ => ?_) (fun x f hx hmood => ?_)
      · simp
      · simp
      · obtain ⟨rfl, hvalid⟩ := (hpeer x).mp hx
        refine absurd ⟨hvalid, fun hfree => hmood ?_⟩ hc
        exact (h.wf.free_iff _).mp hfree

/-- Every event ends in one of the ways. -/
theorem outcome (h : r.Good) {e : Event} (he : e.Possible r) :
    Outcome r (told (e.acts r)) e (e.deed r) := by
  cases e with
  | rxMsg fd msg => exact outcome_rx h he msg
  | closed fd => exact outcome_closed h fd
  | accepted fd ok =>
      refine .registers ?_
      simp only [Event.deed]
      split
      · exact Or.inl rfl
      · exact Or.inr rfl

end ChatSocket
