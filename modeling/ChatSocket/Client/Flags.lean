/-
# `Client.Flags` — what a client believes

`Flags` are the two flags of a client.  A mood has its own (`Mood.flags`): what
the client of a party in that mood should believe.

Messages on the way will still change what a client believes; `settle` is what
it believes once they have arrived.  A message sets a flag to one value or
leaves it (`MsgType.tell`), so a flag that the client clears itself meanwhile is
settled to what it would have been, or is cleared: `settle_leave`.

`Tracks` is what connects a party and its client.  Either the client, settled,
believes what it should; or it has stopped by itself, an answer or a farewell
for which the party is in the right mood is on its way, and it believes itself
idle.  No line the user types can break this (`tracks_line`).
-/
import ChatSocket.Client.User
import ChatSocket.Room.Basic

namespace ChatSocket

open Kit

structure Flags where
  busy : Bool
  asked : Bool
  deriving DecidableEq

def Flags.idle : Flags := ⟨false, false⟩

/-- What the client of a party should believe. -/
def Mood.flags : Mood → Flags
  | free => .idle
  | asked => ⟨false, true⟩
  | busy => ⟨true, false⟩

/-- What is left of the flags when the client leaves a mood by itself. -/
def Flags.leave (f : Flags) : Mood → Flags
  | .free => f
  | .asked => { f with asked := false }
  | .busy => { f with busy := false }

def Client.flags (c : Client) : Flags := ⟨c.busyInChat, c.connRequestRx⟩

/-- What a message makes of a client's flags. -/
def MsgType.tell (f : Flags) : MsgType → Flags
  | connectionReqRx => { f with asked := true }
  | clientAcceptConnectionAck => ⟨true, false⟩
  | clientChatReady => { f with busy := true }
  | clientNoMoreFree | clientTermination | clientDisconnected => .idle
  | _ => f

section
variable (f : Flags)

@[simp] theorem tell_connectionReqRx :
    MsgType.tell f .connectionReqRx = { f with asked := true } := rfl

@[simp] theorem tell_clientAcceptConnectionAck :
    MsgType.tell f .clientAcceptConnectionAck = ⟨true, false⟩ := rfl

@[simp] theorem tell_clientChatReady :
    MsgType.tell f .clientChatReady = { f with busy := true } := rfl

@[simp] theorem tell_clientNoMoreFree : MsgType.tell f .clientNoMoreFree = .idle := rfl
@[simp] theorem tell_clientTermination : MsgType.tell f .clientTermination = .idle := rfl
@[simp] theorem tell_clientDisconnected : MsgType.tell f .clientDisconnected = .idle := rfl

/-! What the client library does not look at: -/

@[simp] theorem tell_clientNoMoreExist : MsgType.tell f .clientNoMoreExist = f := rfl
@[simp] theorem tell_clientDeclineConnectionAck :
    MsgType.tell f .clientDeclineConnectionAck = f := rfl
@[simp] theorem tell_clientRxType : MsgType.tell f .clientRxType = f := rfl
@[simp] theorem tell_setNameAckType : MsgType.tell f .setNameAckType = f := rfl
@[simp] theorem tell_setNameNackType : MsgType.tell f .setNameNackType = f := rfl
@[simp] theorem tell_getClientListType : MsgType.tell f .getClientListType = f := rfl

end

/-- The flags when all messages have arrived. -/
def settle (f : Flags) (down : List Msg) : Flags := down.foldl (fun f m => m.msgType.tell f) f

@[simp] theorem settle_nil (f : Flags) : settle f [] = f := rfl

@[simp] theorem settle_cons (f : Flags) (m : Msg) (down : List Msg) :
    settle f (m :: down) = settle (m.msgType.tell f) down := rfl

@[simp] theorem settle_append (f : Flags) (down down' : List Msg) :
    settle f (down ++ down') = settle (settle f down) down' := List.foldl_append

theorem flags_handleRxMsgLib (c : Client) (m : Msg) :
    (c.handleRxMsgLib m).flags = m.msgType.tell c.flags := by
  unfold Client.handleRxMsgLib
  cases m.msgType with
  | _ => rfl

/-! ## A flag the client clears itself -/

theorem tell_leave (f : Flags) (mood : Mood) (t : MsgType) :
    t.tell (f.leave mood) = (t.tell f).leave mood ∨ t.tell (f.leave mood) = t.tell f := by
  cases mood with
  | free => exact Or.inl rfl
  | asked =>
      cases t with
      | connectionReqRx => exact Or.inr rfl
      | _ => exact Or.inl rfl
  | busy =>
      cases t with
      | clientAcceptConnectionAck | clientChatReady => exact Or.inr rfl
      | _ => exact Or.inl rfl

theorem settle_leave (mood : Mood) (down : List Msg) :
    ∀ f : Flags, settle (f.leave mood) down = (settle f down).leave mood ∨
      settle (f.leave mood) down = settle f down := by
  induction down with
  | nil => exact fun _ => Or.inl rfl
  | cons m down ih =>
      intro f
      rw [settle_cons, settle_cons]
      rcases tell_leave f mood m.msgType with h | h
      · rw [h]
        exact ih _
      · exact Or.inr (by rw [h])

/-! ## A party and its client -/

/-- The messages by which a client leaves a mood: its answer to a request, or its farewell. -/
def Msg.Leaves (m : Msg) : Mood → Prop
  | .free => False
  | .asked => m.msgType = .clientAcceptConnection ∨ m.msgType = .clientDeclineConnection
  | .busy => m.msgType = .clientTxType ∧ strcmp m.buffer.bytes disconnectCmd = 0

theorem leaves_tx_iff {m : Msg} (hm : m.msgType = .clientTxType) {mood : Mood} :
    m.Leaves mood ↔ mood = .busy ∧ strcmp m.buffer.bytes disconnectCmd = 0 := by
  cases mood <;> simp [Msg.Leaves, hm]

theorem leaves_decline_iff {m : Msg} (hm : m.msgType = .clientDeclineConnection) {mood : Mood} :
    m.Leaves mood ↔ mood = .asked := by
  cases mood <;> simp [Msg.Leaves, hm]

/-- A client with the settled flags `f` and the messages `up` on their way follows its party. -/
def Tracks (mood : Mood) (up : List Msg) (f : Flags) : Prop :=
  f = mood.flags ∨ f = .idle ∧ ∃ m ∈ up, m.Leaves mood

variable {mood : Mood} {up : List Msg} {f : Flags}

theorem tracks_free_iff : Tracks .free up f ↔ f = .idle := by
  constructor
  · rintro (h | ⟨h, -⟩)
    · exact h
    · exact h
  · exact Or.inl

theorem Tracks.append (h : Tracks mood up f) (msgs : List Msg) : Tracks mood (up ++ msgs) f := by
  rcases h with h | ⟨h, m, hm, hleaves⟩
  · exact Or.inl h
  · exact Or.inr ⟨h, m, List.mem_append_left msgs hm, hleaves⟩

/-- A message that was not the client's way out may be taken away. -/
theorem Tracks.tail {m : Msg} (h : Tracks mood (m :: up) f) (hm : ¬ m.Leaves mood) :
    Tracks mood up f := by
  rcases h with h | ⟨h, m', hm', hleaves⟩
  · exact Or.inl h
  · rcases List.mem_cons.mp hm' with rfl | hm'
    · exact absurd hleaves hm
    · exact Or.inr ⟨h, m', hm', hleaves⟩

/-- A client that leaves a mood by itself and says so follows its party, whatever the party's
mood is by now. -/
theorem Tracks.leave (h : Tracks mood up f) {m : Msg} {left : Mood} (hm : m.Leaves left) :
    Tracks mood (up ++ [m]) (f.leave left) := by
  have hlast : m ∈ up ++ [m] := List.mem_append_right up (List.mem_singleton_self m)
  have hidle : Flags.idle.leave left = .idle := by cases left <;> rfl
  rcases h with rfl | ⟨rfl, hleaves⟩
  · by_cases hmood : left = mood
    · subst hmood
      refine Or.inr ⟨?_, m, hlast, hm⟩
      cases left <;> rfl
    · refine Or.inl ?_
      cases left <;> cases mood <;> first | rfl | exact absurd rfl hmood
  · rw [hidle]
    exact Tracks.append (Or.inr ⟨rfl, hleaves⟩) [m]

/-- The same before all messages have arrived. -/
theorem Tracks.settle_leave {f : Flags} {down : List Msg} (h : Tracks mood up (settle f down))
    {m : Msg} {left : Mood} (hm : m.Leaves left) :
    Tracks mood (up ++ [m]) (settle (f.leave left) down) := by
  rcases ChatSocket.settle_leave left down f with hs | hs
  · rw [hs]
    exact h.leave hm
  · rw [hs]
    exact h.append [m]

/-! ## What a line does -/

/-- The messages of the commands. -/
def Msg.IsCommand (m : Msg) : Prop :=
  m.msgType = .connectToClient ∨ m.msgType = .setNameReqType ∨ m.msgType = .getClientListType

/-- What a line can make of the flags `f`, and what is sent then. -/
inductive Flags.Line (f : Flags) : List Msg → Flags → Prop where
  | nothing : Line f [] f
  | talk {m : Msg} : f.busy = true → m.msgType = .clientTxType → ¬ m.Leaves .busy → Line f [m] f
  | farewell {m : Msg} : f.busy = true → m.Leaves .busy → Line f [m] (f.leave .busy)
  | answer {m : Msg} : f = Mood.asked.flags → m.Leaves .asked → Line f [m] (f.leave .asked)
  | command {m : Msg} : f = .idle → m.IsCommand → Line f [m] f

/-- The text a client sends compares as the line does. -/
theorem strcmp_disconnect_withText (line : List UInt8) :
    strcmp (Msg.withText .clientTxType line).buffer.bytes disconnectCmd = 0 ↔
      strcmp line disconnectCmd = 0 := by
  have hstr : cstr (Msg.withText .clientTxType line).buffer.bytes = (cstr line).take maxMsgLen :=
    Buf.str_strcpy_take _ line
  rw [strcmp_eq_zero_iff, strcmp_eq_zero_iff, hstr]
  constructor
  · intro h
    have hlen := congrArg List.length h
    have hshort : (cstr disconnectCmd).length < maxMsgLen := by decide
    rw [List.length_take] at hlen
    rwa [List.take_of_length_le (by omega)] at h
  · intro h
    rw [h]
    decide

theorem line_handleSendMsgToClient {c : Client} (hbusy : c.busyInChat = true)
    (line : List UInt8) :
    c.flags.Line (c.handleSendMsgToClient line).2 (c.handleSendMsgToClient line).1.flags := by
  simp only [Client.handleSendMsgToClient]
  split
  · next hdisc => exact .farewell hbusy ⟨rfl, (strcmp_disconnect_withText line).mpr hdisc⟩
  · next hdisc =>
      exact .talk hbusy rfl fun hleaves => hdisc ((strcmp_disconnect_withText line).mp hleaves.2)

theorem line_processSendMsg (c : Client) (line : List UInt8) :
    c.flags.Line (c.processSendMsg line).2 (c.processSendMsg line).1.flags := by
  unfold Client.processSendMsg
  split
  · next hbusy => exact line_handleSendMsgToClient hbusy line
  · next hbusy =>
      have hfree : c.busyInChat = false := Bool.eq_false_iff.mpr hbusy
      have hasked : c.connRequestRx = true → c.flags = Mood.asked.flags := fun hrx => by
        rw [Client.flags, hfree, hrx]
        rfl
      split
      · next hyes => exact .answer (hasked hyes.1) (Or.inl rfl)
      split
      · next hno => exact .answer (hasked hno.1) (Or.inr rfl)
      split
      · exact .nothing
      · next hrx =>
          have hidle : c.flags = .idle := by
            rw [Client.flags, hfree, Bool.eq_false_iff.mpr hrx]
            rfl
          cases getCmdIdByName line with
          | getList => exact .command hidle (Or.inr (Or.inr rfl))
          | disconnect | printHelp | clearScreen | maxCmd => exact .nothing
          | connect =>
              cases nameArg line with
              | none => exact .nothing
              | some name => exact .command hidle (Or.inl rfl)
          | setName =>
              cases nameArg line with
              | none => exact .nothing
              | some name => exact .command hidle (Or.inr (Or.inl rfl))

/-- A line the user types breaks nothing. -/
theorem tracks_line {c : Client} {down : List Msg} (h : Tracks mood up (settle c.flags down))
    (line : List UInt8) :
    Tracks mood (up ++ (c.processSendMsg line).2)
      (settle (c.processSendMsg line).1.flags down) := by
  have hline := line_processSendMsg c line
  generalize (c.processSendMsg line).2 = msgs at hline ⊢
  generalize (c.processSendMsg line).1.flags = f' at hline ⊢
  cases hline with
  | nothing | talk | command => exact h.append _
  | farewell _ hleaves | answer _ hleaves => exact h.settle_leave hleaves

end ChatSocket
