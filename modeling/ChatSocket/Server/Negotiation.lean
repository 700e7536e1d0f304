/-
# `Server.Negotiation` — what a negotiation leaves alone

Two questions about the handlers that make and refuse a chat.  What of somebody
else's chat can they touch?  Nothing: `negotiation_spares_busy`, in a registry
with any links at all.  What does an acceptance do where there is nothing to
accept?  It should do nothing, and does so under a condition on the two records
involved: `accept_unchanged_iff`.
-/
import ChatSocket.Server.Conversation
import ChatSocket.Server.Refines

namespace ChatSocket

open Kit Registry

/-! ## Writes to other nodes -/

/-- The write goes through the pointer of a node, and not that of `x`. -/
def Write.Spares (x : Int) : Write → Prop
  | status fd _ | name fd _ | toFd fd _ => fd ≠ x
  | add _ _ | remove _ => False

theorem node_of_spares {x : Int} (r : Registry) :
    ∀ {w : Write}, w.Spares x → (w.apply r).node x = r.node x
  | .status fd s, hw => by
      rcases Write.apply_status_cases r fd s with he | he <;> rw [he]
      exact (r.node_modify (fun _ => by rfl) fd x).trans (if_neg (Ne.symm hw))
  | .toFd fd f, hw => by
      rcases Write.apply_toFd_cases r fd f with he | he <;> rw [he]
      exact (r.node_modify (fun _ => by rfl) fd x).trans (if_neg (Ne.symm hw))
  | .name fd s, hw => by
      rcases Write.apply_name_cases r fd s with he | he <;> rw [he]
      exact (r.node_modify (fun _ => by rfl) fd x).trans (if_neg (Ne.symm hw))

theorem node_replay_of_spares {x : Int} (acts : List Act) :
    ∀ r : Registry, (∀ w, .wrote w ∈ acts → w.Spares x) → (replay r acts).node x = r.node x := by
  induction acts with
  | nil => exact fun _ _ => rfl
  | cons a acts ih =>
      intro r h
      have htail : ∀ w, .wrote w ∈ acts → w.Spares x := fun w hw =>
        h w (List.mem_cons_of_mem _ hw)
      cases a with
      | sent fd msg => exact ih r htail
      | wrote w => exact (ih (w.apply r) htail).trans (node_of_spares r (h w List.mem_cons_self))

/-! ## Somebody else's chat -/

/-- The messages of a negotiation. -/
def MsgType.Negotiates : MsgType → Prop
  | connectToClient | clientAcceptConnection | clientDeclineConnection | setNameReqType
  | getClientListType => True
  | _ => False

variable {r : Registry} {c x : Int}

theorem spares_connect (h : r.Distinct) (hc : c ≠ invalidFd) (hcx : c ≠ x)
    (hbusy : r.getClientChattingStatusByFd x = .busy) (name : List UInt8) {w : Write}
    (hw : .wrote w ∈ connectActs r c name) : w.Spares x := by
  rw [h.connectActs_eq hc] at hw
  cases ht : r.connectTarget c name with
  | none =>
      rw [ht] at hw
      simp at hw
  | some t =>
      -- the client that is asked is free, so it is not `x`
      obtain ⟨-, -, -, -, hfree⟩ := h.connectTarget_spec ht
      have htx : t ≠ x := by
        rintro rfl
        rw [hfree] at hbusy
        cases hbusy
      rw [ht] at hw
      simp only [List.mem_cons, Act.wrote.injEq, reduceCtorEq, or_false, List.not_mem_nil] at hw
      rcases hw with rfl | rfl | rfl
      · exact htx
      · exact hcx
      · exact htx

theorem spares_accept (hcx : c ≠ x) (hbusy : r.getClientChattingStatusByFd x = .busy) {w : Write}
    (hw : .wrote w ∈ acceptActs r c) : w.Spares x := by
  simp only [acceptActs] at hw
  split at hw
  · cases hw
  split at hw
  · simp only [List.mem_cons, Act.wrote.injEq, reduceCtorEq, List.not_mem_nil, or_false] at hw
    rcases hw with rfl | rfl <;> exact hcx
  split at hw
  · simp only [List.mem_cons, Act.wrote.injEq, reduceCtorEq, List.not_mem_nil, or_false] at hw
    rw [hw]
    exact hcx
  next hpeer =>
  split at hw
  · simp at hw
  · -- the peer is not busy, so it is not `x`
    have hpx : r.getConnFdByFd c ≠ x := by
      intro he
      rw [he] at hpeer
      exact hpeer hbusy
    rcases List.mem_append.mp hw with hw | hw
    · simp only [List.mem_cons, Act.wrote.injEq, List.not_mem_nil, or_false] at hw
      rcases hw with rfl | rfl | rfl | rfl
      · exact hcx
      · exact hpx
      · exact hcx
      · exact hpx
    · split at hw <;> simp at hw

theorem spares_own (hcx : c ≠ x) (msg : Msg) {w : Write}
    (hw : .wrote w ∈ declineActs r c ∨ .wrote w ∈ setNameActs r c msg.buffer.bytes ∨
      .wrote w ∈ clientListActs r c) : w.Spares x := by
  rcases hw with hw | hw | hw
  · simp only [declineActs] at hw
    split at hw
    · cases hw
    · simp only [List.mem_cons, Act.wrote.injEq, reduceCtorEq, List.not_mem_nil, or_false,
        false_or] at hw
      rw [hw]
      exact hcx
  · unfold setNameActs at hw
    split at hw
    · simp at hw
    · rcases List.mem_cons.mp hw with hw | hw
      · cases hw
        exact hcx
      · split at hw <;> simp at hw
  · unfold clientListActs at hw
    split at hw <;> simp at hw

/-- A message of a negotiation changes nothing in the record of another client that is busy:
whatever the links in the registry, and whatever names its clients have. -/
theorem negotiation_spares_busy (h : r.Distinct) (hc : (r.node c).isSome) {msg : Msg}
    (hmsg : msg.msgType.Negotiates) {n : ClientNode} (hx : r.node x = some n) (hxc : x ≠ c)
    (hbusy : n.data.chatStatus = .busy) :
    ∃ r' acts, atomicStep r (.rxMsg c msg) = some (r', acts) ∧ r'.node x = some n := by
  have hstatus : r.getClientChattingStatusByFd x = .busy := by
    rw [h.status_eq, hx]
    exact hbusy
  refine ⟨_, _, atomicStep_eq_some_iff.mpr ⟨hc, rfl, rfl⟩, ?_⟩
  rw [← hx]
  refine node_replay_of_spares _ r fun w hw => ?_
  replace hw : .wrote w ∈ rxActs r c msg := hw
  have hcx := hxc.symm
  unfold rxActs at hw
  split at hw
  · exact spares_own hcx msg (Or.inr (Or.inl hw))
  · exact spares_own hcx msg (Or.inr (Or.inr hw))
  · exact spares_connect h (h.ne_invalidFd hc) hcx hstatus _ hw
  · exact spares_accept hcx hstatus hw
  · next ht =>
      rw [ht] at hmsg
      exact hmsg.elim
  · exact spares_own hcx msg (Or.inl hw)
  · cases hw

/-- 5 and 6 are in a chat, 4 is linked to 5 and has been left alone by it. -/
def chatBeside : Registry :=
  afterRun [joins 4, joins 5, joins 6, asks 4 5, declinesAsker 5, asks 6 5, acceptsAsker 5]

/-- 4 accepts; its link leads to 5, which is busy. -/
theorem chat_beside_spared :
    ∃ r' acts n, atomicStep chatBeside (acceptsAsker 4) = some (r', acts) ∧
      chatBeside.node 5 = some n ∧ r'.node 5 = some n := by
  have hbusy : (chatBeside.node 5).map (fun n => n.data.chatStatus) = some .busy := by
    decide +kernel
  obtain ⟨n, hn, hst⟩ := Option.map_eq_some_iff.mp hbusy
  have hmsg : (Msg.ofType .clientAcceptConnection).msgType.Negotiates := trivial
  obtain ⟨r', acts, hstep, hkept⟩ := negotiation_spares_busy (r := chatBeside) (c := 4)
    ⟨by decide +kernel, by decide +kernel, by decide +kernel⟩ (by decide +kernel) hmsg hn
    (by decide) hst
  exact ⟨r', acts, n, hstep, hn, hkept⟩

/-! ## Nothing to accept -/

/-- An acceptance of `fd` finds its records as it leaves them: no peer, or a peer that can be
named and, if it is busy, has not met a busy client. -/
def Registry.AcceptsNothing (r : Registry) (fd : Int) : Prop :=
  r.getConnFdByFd fd = invalidFd ∨
    ¬ r.Unnamed (r.getConnFdByFd fd) ∧
      (r.getClientChattingStatusByFd (r.getConnFdByFd fd) = .busy →
        r.getClientChattingStatusByFd fd = .free)

/-- The registry after an acceptance of a client that has not been asked. -/
theorem replay_acceptActs (h : r.Distinct) {x : Standing} (hx : r.standing c = some x)
    (hst : x.status ≠ .reqPending) :
    replay r (acceptActs r c)
      = if x.toFd = invalidFd then r
        else if r.Unnamed x.toFd then r.stand c .idle
        else if r.getClientChattingStatusByFd x.toFd = .busy then
          r.stand c { x with status := .free }
        else r := by
  have hc : c ≠ invalidFd := h.ne_invalidFd (isSome_of_standing hx)
  have hself : r.stand c x = r := stand_self hx
  have hfree : (Write.status c .free).apply r = r.stand c { x with status := .free } := by
    have hw := r.apply_status_stand hc (s := .free) (by simp) x
    rwa [hself] at hw
  simp only [acceptActs, h.connFd_of_standing hx, h.status_of_standing hx, if_pos hst, Unnamed]
  split
  · rfl
  split
  · rw [replay, replay, replay, replay, hfree, apply_toFd_stand _ hc]
    rfl
  split
  · rw [replay, replay, replay, hfree]
  · rfl

theorem stand_eq_self_iff {x y : Standing} (hx : r.standing c = some x) :
    r.stand c y = r ↔ y = x := by
  constructor
  · intro he
    obtain ⟨n, hn⟩ := Option.isSome_iff_exists.mp (isSome_of_standing hx)
    have hy : (r.stand c y).standing c = some y := by
      rw [standing_stand, if_pos rfl, hn]
      rfl
    rw [he, hx] at hy
    exact (Option.some.inj hy).symm
  · rintro rfl
    exact stand_self hx

/-- In every reachable state, the acceptance of a client that has not been asked leaves the
registry as it is exactly if `AcceptsNothing` holds. -/
theorem accept_unchanged_iff (hr : Reachable atomicStep .empty r) (hc : (r.node c).isSome)
    (hst : r.getClientChattingStatusByFd c ≠ .reqPending) {msg : Msg}
    (hmsg : msg.msgType = .clientAcceptConnection) :
    ∃ r' acts, atomicStep r (.rxMsg c msg) = some (r', acts) ∧ (r' = r ↔ r.AcceptsNothing c) := by
  have hd := (hr.inv good_atomicStep good_empty).wf.distinct
  obtain ⟨n, hn⟩ := Option.isSome_iff_exists.mp hc
  obtain ⟨x, hx⟩ : ∃ x, r.standing c = some x := ⟨_, by rw [standing, hn]; rfl⟩
  have hacts : (Event.rxMsg c msg).acts r = acceptActs r c := by
    simp only [Event.acts, rxActs, hmsg]
  refine ⟨_, _, atomicStep_eq_some_iff.mpr ⟨hc, rfl, rfl⟩, ?_⟩
  rw [hd.status_of_standing hx] at hst
  rw [hacts, replay_acceptActs hd hx hst, AcceptsNothing, hd.connFd_of_standing hx,
    hd.status_of_standing hx]
  split
  · next hnone => exact iff_of_true rfl (Or.inl hnone)
  next hsome =>
  split
  · next hun =>
      -- the link is cut
      rw [stand_eq_self_iff hx]
      refine iff_of_false ?_ fun hq => (hq.resolve_left hsome).1 hun
      rintro rfl
      exact hsome rfl
  next hnamed =>
  split
  · next hbusy =>
      -- the own status is set to CHAT_STATUS_FREE
      rw [stand_eq_self_iff hx]
      constructor
      · intro he
        exact Or.inr ⟨hnamed, fun _ => (congrArg Standing.status he).symm⟩
      · intro hq
        have hfree := (hq.resolve_left hsome).2 hbusy
        rw [← hfree]
  · next hidle => exact iff_of_true rfl (Or.inr ⟨hnamed, fun hb => absurd hb hidle⟩)

/-- 4 and 5 are in a chat. -/
def chatOfTwo : List Event := [joins 4, joins 5, asks 4 5, acceptsAsker 5]

/-- 4 has asked nobody and accepts. -/
theorem accept_of_nobody :
    ∃ r' acts, atomicStep twoJoined (acceptsAsker 4) = some (r', acts) ∧
      (r' = twoJoined ↔ twoJoined.AcceptsNothing 4) :=
  accept_unchanged_iff ⟨[joins 4, joins 5], play_final (by decide +kernel)⟩ (by decide +kernel)
    (by decide +kernel) (show (Msg.ofType .clientAcceptConnection).msgType = _ from rfl)

/-- 4 is in a chat with 5, and accepts: it is CHAT_STATUS_FREE then. -/
theorem accept_in_chat_frees :
    play atomicStep .empty chatOfTwo = some (afterRun chatOfTwo) ∧
      (afterRun chatOfTwo).getClientChattingStatusByFd 4 = .busy ∧
      play atomicStep (afterRun chatOfTwo) [acceptsAsker 4] ≠ some (afterRun chatOfTwo) ∧
      (afterRun (chatOfTwo ++ [acceptsAsker 4])).getClientChattingStatusByFd 4 = .free :=
  ⟨play_final (by decide +kernel), by decide +kernel, by decide +kernel, by decide +kernel⟩

end ChatSocket
