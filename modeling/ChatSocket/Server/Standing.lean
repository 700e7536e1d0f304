/-
# `Server.Standing` — what two records say of a chat

The `Standing` of a client is the part of its record that a chat is about: its
status and its link.  A negotiation between `a` and `b` writes to nothing but
their two standings, so every registry it passes through is
`r.between a b x y`: the registry `r` it began in, with the standings `x` and
`y`.

A `Couple` is two clients of a registry; what a handler does with a message of
one of them is said here once, in terms of the standings it finds.
-/
import ChatSocket.Server.Acts

namespace ChatSocket

open Kit

/-- What a record says of its client's chat. -/
structure Standing where
  status : ChatStatus
  toFd : Int
  deriving DecidableEq

/-- Neither in a chat nor asked for one. -/
def Standing.idle : Standing := ⟨.free, invalidFd⟩

namespace Registry

variable (r : Registry)

/-- The standing of a registered client. -/
def standing (fd : Int) : Option Standing :=
  (r.node fd).map fun n => ⟨n.data.chatStatus, n.data.toFd⟩

/-- The registry in which `fd` has the standing `x`. -/
def stand (fd : Int) (x : Standing) : Registry :=
  r.modify fd fun d => { d with chatStatus := x.status, toFd := x.toFd }

/-- The registry in which `a` has the standing `x` and `b` the standing `y`. -/
def between (a b : Int) (x y : Standing) : Registry := (r.stand a x).stand b y

theorem stand_comm {a b : Int} (hab : a ≠ b) (x y : Standing) :
    (r.stand a x).stand b y = (r.stand b y).stand a x := by
  simp only [stand, modify, Registry.mk.injEq, and_true]
  exact alter_comm (fun _ => rfl) (fun _ => rfl) hab.symm

theorem stand_self {r : Registry} {fd : Int} {x : Standing} (h : r.standing fd = some x) :
    r.stand fd x = r := by
  obtain ⟨n, hn, rfl⟩ := Option.map_eq_some_iff.mp h
  obtain ⟨list, total, mallocs⟩ := r
  simp only [stand, modify, Registry.mk.injEq, and_true]
  exact alter_of_look hn rfl

theorem node_stand (fd g : Int) (x : Standing) :
    (r.stand fd x).node g = if g = fd then
      (r.node fd).map fun n =>
        { n with data := { n.data with chatStatus := x.status, toFd := x.toFd } }
      else r.node g := r.node_modify (fun _ => by rfl) fd g

theorem standing_stand (fd g : Int) (x : Standing) :
    (r.stand fd x).standing g = if g = fd then (r.node fd).map fun _ => x else r.standing g := by
  simp only [standing, node_stand]
  split
  · simp only [Option.map_map, Function.comp_def]
  · rfl

theorem nameOf_stand (fd g : Int) (x : Standing) : (r.stand fd x).nameOf g = r.nameOf g := by
  rw [nameOf, nameOf, stand, r.getClientNameByFd_modify (fun _ => by rfl),
    r.strAt_modify fun _ => by rfl]

theorem getClientFdByName_stand (fd : Int) (x : Standing) (name : List UInt8) :
    (r.stand fd x).getClientFdByName name = r.getClientFdByName name := by
  rw [getClientFdByName_eq, getClientFdByName_eq, nodeByName_eq, nodeByName_eq]
  exact congrArg (Option.getD · invalidFd) (map_look_alter (fun _ => rfl) fun _ => rfl)

theorem between_self {r : Registry} {a b : Int} {x y : Standing} (hx : r.standing a = some x)
    (hy : r.standing b = some y) : r.between a b x y = r := by
  rw [between, stand_self hx, stand_self hy]

theorem nameOf_between (a b : Int) (x y : Standing) (g : Int) :
    (r.between a b x y).nameOf g = r.nameOf g := by
  rw [between, nameOf_stand, nameOf_stand]

theorem getClientFdByName_between (a b : Int) (x y : Standing) (name : List UInt8) :
    (r.between a b x y).getClientFdByName name = r.getClientFdByName name := by
  rw [between, getClientFdByName_stand, getClientFdByName_stand]

theorem Distinct.stand {r : Registry} (h : r.Distinct) (fd : Int) (x : Standing) :
    (r.stand fd x).Distinct := h.modify fd fun _ => rfl

theorem Distinct.status_of_standing {r : Registry} (h : r.Distinct) {fd : Int} {x : Standing}
    (hx : r.standing fd = some x) : r.getClientChattingStatusByFd fd = x.status := by
  obtain ⟨n, hn, rfl⟩ := Option.map_eq_some_iff.mp hx
  rw [h.status_eq, hn]
  rfl

theorem Distinct.connFd_of_standing {r : Registry} (h : r.Distinct) {fd : Int} {x : Standing}
    (hx : r.standing fd = some x) : r.getConnFdByFd fd = x.toFd := by
  obtain ⟨n, hn, rfl⟩ := Option.map_eq_some_iff.mp hx
  rw [h.connFd_eq, hn]
  rfl

/-- A change of a standing's status, as a write. -/
theorem apply_status_stand {fd : Int} (hfd : fd ≠ invalidFd) {s : ChatStatus} (hs : s ≠ .max)
    (x : Standing) : (Write.status fd s).apply (r.stand fd x) = r.stand fd { x with status := s } := by
  rw [Write.apply_status _ hfd hs]
  simp only [stand, modify, Registry.mk.injEq, and_true]
  exact alter_alter fun _ => rfl

theorem apply_toFd_stand {fd : Int} (hfd : fd ≠ invalidFd) (f : Int) (x : Standing) :
    (Write.toFd fd f).apply (r.stand fd x) = r.stand fd { x with toFd := f } := by
  rw [Write.apply_toFd _ hfd]
  simp only [stand, modify, Registry.mk.injEq, and_true]
  exact alter_alter fun _ => rfl

end Registry

/-! ## Two clients of a registry -/

/-- Two registered clients. -/
structure Couple (r : Registry) (a b : Int) : Prop where
  distinct : r.Distinct
  ne : a ≠ b
  left : (r.node a).isSome
  right : (r.node b).isSome

namespace Couple

variable {r : Registry} {a b : Int}

theorem symm (h : Couple r a b) : Couple r b a := ⟨h.distinct, h.ne.symm, h.right, h.left⟩

theorem swap (h : Couple r a b) (x y : Standing) : r.between a b x y = r.between b a y x :=
  r.stand_comm h.ne x y

theorem left_valid (h : Couple r a b) : a ≠ invalidFd := h.distinct.ne_invalidFd h.left

theorem right_valid (h : Couple r a b) : b ≠ invalidFd := h.distinct.ne_invalidFd h.right

section
variable (h : Couple r a b) (x y : Standing)
include h

theorem distinct_between : (r.between a b x y).Distinct := (h.distinct.stand a x).stand b y

theorem standing_right : (r.between a b x y).standing b = some y := by
  rw [Registry.between, Registry.standing_stand, if_pos rfl, Registry.node_stand, if_neg h.ne.symm]
  obtain ⟨n, hn⟩ := Option.isSome_iff_exists.mp h.right
  rw [hn]
  rfl

theorem standing_left : (r.between a b x y).standing a = some x := by
  rw [h.swap]
  exact h.symm.standing_right y x

theorem possible_right (msg : Msg) : (Event.rxMsg b msg).Possible (r.between a b x y) := by
  have hs := h.standing_right x y
  show ((r.between a b x y).node b).isSome
  cases hn : (r.between a b x y).node b with
  | none =>
      rw [Registry.standing, hn] at hs
      cases hs
  | some n => rfl

theorem possible_left (msg : Msg) : (Event.rxMsg a msg).Possible (r.between a b x y) := by
  rw [h.swap]
  exact h.symm.possible_right y x msg

theorem status_left : (r.between a b x y).getClientChattingStatusByFd a = x.status :=
  (h.distinct_between x y).status_of_standing (h.standing_left x y)

theorem status_right : (r.between a b x y).getClientChattingStatusByFd b = y.status :=
  (h.distinct_between x y).status_of_standing (h.standing_right x y)

theorem connFd_left : (r.between a b x y).getConnFdByFd a = x.toFd :=
  (h.distinct_between x y).connFd_of_standing (h.standing_left x y)

theorem connFd_right : (r.between a b x y).getConnFdByFd b = y.toFd :=
  (h.distinct_between x y).connFd_of_standing (h.standing_right x y)

/-! ### Writes to the two standings -/

theorem apply_status_right {s : ChatStatus} (hs : s ≠ .max) :
    (Write.status b s).apply (r.between a b x y) = r.between a b x { y with status := s } :=
  Registry.apply_status_stand _ h.right_valid hs y

theorem apply_toFd_right (f : Int) :
    (Write.toFd b f).apply (r.between a b x y) = r.between a b x { y with toFd := f } :=
  Registry.apply_toFd_stand _ h.right_valid f y

theorem apply_status_left {s : ChatStatus} (hs : s ≠ .max) :
    (Write.status a s).apply (r.between a b x y) = r.between a b { x with status := s } y := by
  rw [h.swap, h.symm.apply_status_right y x hs, ← h.swap]

theorem apply_toFd_left (f : Int) :
    (Write.toFd a f).apply (r.between a b x y) = r.between a b { x with toFd := f } y := by
  rw [h.swap, h.symm.apply_toFd_right y x f, ← h.swap]

end

/-! ### What is done with a message of one of the two -/

section
variable (h : Couple r a b) {x y : Standing} {msg : Msg}
include h

/-- The request of `a` reaches `b`, if `b` is free. -/
theorem connect (hmsg : msg.msgType = .connectToClient)
    (hto : r.getClientFdByName msg.buffer.bytes = b)
    (hself : strcmp (r.nameOf a) msg.buffer.bytes ≠ 0) (hfree : y.status = .free) :
    atomicStep (r.between a b x y) (.rxMsg a msg)
      = some (r.between a b { x with toFd := b } ⟨.reqPending, a⟩,
        [.wrote (.status b .reqPending), .wrote (.toFd a b), .wrote (.toFd b a),
         .sent b (.withText .connectionReqRx (r.nameOf a)),
         .sent a { toClientId := 0, msgType := .clientFree,
                   buffer := (Buf.zero _).memcpy msg.buffer.bytes maxClientNameLen }]) := by
  have hto' : (r.between a b x y).getClientFdByName msg.buffer.bytes = b := by
    rw [r.getClientFdByName_between, hto]
  have hname : (r.between a b x y).nameOf a = r.nameOf a := r.nameOf_between a b x y a
  have hcheck : (r.between a b x y).checkClientWithSameNameExistOrNot msg.buffer.bytes
      = .nameExists := by
    rw [Registry.check_eq_nameExists_iff, Option.isSome_iff_ne_none]
    intro hnone
    rw [Registry.getClientFdByName_eq, hnone] at hto'
    exact h.right_valid hto'.symm
  have hstatus : (r.between a b x y).getClientChattingStatusByName msg.buffer.bytes = .free := by
    rw [(h.distinct_between x y).statusByName_eq, hto', h.status_right, hfree]
  have hanswer : connectAnswer (r.between a b x y) a msg.buffer.bytes = .clientFree := by
    simp only [connectAnswer, hcheck, hname, if_neg hself, hstatus, hto', if_neg h.right_valid,
      ne_eq, not_true_eq_false, if_false]
  have hacts : (Event.rxMsg a msg).acts (r.between a b x y) = [.wrote (.status b .reqPending),
      .wrote (.toFd a b), .wrote (.toFd b a), .sent b (.withText .connectionReqRx (r.nameOf a)),
      .sent a { toClientId := 0, msgType := .clientFree,
                buffer := (Buf.zero _).memcpy msg.buffer.bytes maxClientNameLen }] := by
    simp only [Event.acts, rxActs, hmsg, connectActs, hto', hname, hcheck, hstatus, hanswer,
      if_neg h.left_valid, if_neg h.right_valid, ne_eq, hself, not_false_eq_true, and_self, if_true]
  rw [atomicStep_eq_some_iff, hacts]
  refine ⟨h.possible_left x y msg, ?_, rfl⟩
  simp only [replay, h.apply_status_right x y (s := .reqPending) (by simp), h.apply_toFd_left,
    h.apply_toFd_right]

/-- The acceptance of `b` pairs the two. -/
theorem accept (hmsg : msg.msgType = .clientAcceptConnection) (hx : x.status ≠ .busy)
    (ha : strcmp (r.nameOf a) undefName ≠ 0) (hb : strcmp (r.nameOf b) undefName ≠ 0) :
    atomicStep (r.between a b x ⟨.reqPending, a⟩) (.rxMsg b msg)
      = some (r.between a b ⟨.busy, b⟩ ⟨.busy, a⟩,
        [.wrote (.status b .busy), .wrote (.status a .busy), .wrote (.toFd b a),
         .wrote (.toFd a b), .sent b (.withText .clientChatReady (r.nameOf a)),
         .sent a (.withText .clientAcceptConnectionAck (r.nameOf b))]) := by
  have hacts : (Event.rxMsg b msg).acts (r.between a b x ⟨.reqPending, a⟩)
      = [.wrote (.status b .busy), .wrote (.status a .busy), .wrote (.toFd b a),
         .wrote (.toFd a b), .sent b (.withText .clientChatReady (r.nameOf a)),
         .sent a (.withText .clientAcceptConnectionAck (r.nameOf b))] := by
    simp only [Event.acts, rxActs, hmsg, acceptActs, h.connFd_right, h.status_left,
      h.status_right, r.nameOf_between, if_neg h.left_valid, if_neg ha, if_neg hb, if_neg hx,
      ne_eq, not_true_eq_false, if_false, List.cons_append, List.nil_append]
  rw [atomicStep_eq_some_iff, hacts]
  refine ⟨h.possible_right _ _ msg, ?_, rfl⟩
  simp only [replay, h.apply_status_right _ _ (s := .busy) (by simp),
    h.apply_status_left _ _ (s := .busy) (by simp), h.apply_toFd_left, h.apply_toFd_right]

/-- `b` declines: its link and that of `a` stay. -/
theorem decline (hmsg : msg.msgType = .clientDeclineConnection) :
    atomicStep (r.between a b x ⟨.reqPending, a⟩) (.rxMsg b msg)
      = some (r.between a b x ⟨.free, a⟩,
        [.sent a (.withText .clientDeclineConnectionAck (r.nameOf b)),
         .wrote (.status b .free)]) := by
  have hacts : (Event.rxMsg b msg).acts (r.between a b x ⟨.reqPending, a⟩)
      = [.sent a (.withText .clientDeclineConnectionAck (r.nameOf b)),
         .wrote (.status b .free)] := by
    simp only [Event.acts, rxActs, hmsg, declineActs, h.connFd_right, h.status_right,
      r.nameOf_between, h.left_valid, h.right_valid, ne_eq, not_true_eq_false, or_self, if_false]
  rw [atomicStep_eq_some_iff, hacts]
  refine ⟨h.possible_right _ _ msg, ?_, rfl⟩
  simp only [replay, h.apply_status_right _ _ (s := .free) (by simp)]

/-- What `a` says in the chat goes to `b`. -/
theorem relay (hmsg : msg.msgType = .clientTxType)
    (hsaid : strcmp msg.buffer.bytes disconnectCmd ≠ 0) :
    atomicStep (r.between a b ⟨.busy, b⟩ y) (.rxMsg a msg)
      = some (r.between a b ⟨.busy, b⟩ y, [.sent b { msg with msgType := .clientRxType }]) := by
  have hacts : (Event.rxMsg a msg).acts (r.between a b ⟨.busy, b⟩ y)
      = [.sent b { msg with msgType := .clientRxType }] := by
    simp only [Event.acts, rxActs, hmsg, txActs, h.connFd_left, h.status_left, h.right_valid,
      ne_eq, not_true_eq_false, or_self, if_false, if_neg hsaid]
  rw [atomicStep_eq_some_iff, hacts]
  exact ⟨h.possible_left _ _ msg, rfl, rfl⟩

/-- `a` quits: both are as before they met. -/
theorem quit (hmsg : msg.msgType = .clientTxType)
    (hquits : strcmp msg.buffer.bytes disconnectCmd = 0) :
    atomicStep (r.between a b ⟨.busy, b⟩ y) (.rxMsg a msg)
      = some (r.between a b .idle .idle,
        [.wrote (.status a .free), .wrote (.status b .free), .wrote (.toFd a invalidFd),
         .wrote (.toFd b invalidFd), .sent b (.withText .clientDisconnected (r.nameOf a))]) := by
  have hacts : (Event.rxMsg a msg).acts (r.between a b ⟨.busy, b⟩ y)
      = [.wrote (.status a .free), .wrote (.status b .free), .wrote (.toFd a invalidFd),
         .wrote (.toFd b invalidFd), .sent b (.withText .clientDisconnected (r.nameOf a))] := by
    simp only [Event.acts, rxActs, hmsg, txActs, h.connFd_left, h.status_left, h.right_valid,
      r.nameOf_between, ne_eq, not_true_eq_false, or_self, if_false, if_pos hquits]
  rw [atomicStep_eq_some_iff, hacts]
  refine ⟨h.possible_left _ _ msg, ?_, rfl⟩
  simp only [replay, h.apply_status_right _ _ (s := .free) (by simp),
    h.apply_status_left _ _ (s := .free) (by simp), h.apply_toFd_left, h.apply_toFd_right,
    Standing.idle]

end

end Couple

end ChatSocket
