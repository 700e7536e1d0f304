/-
# `Client.Conduct` — what a client may send, and when

A client talks only in a chat, answers only an unanswered request, and gives its
commands to the server only where it has neither.  What these mean is said of the
history: the messages received and sent so far (`InChat`, `Unanswered`).  The two
flags keep it (`Minds`): they are set and cleared in three functions, by messages
and by what is typed, but never out of step with the history.

`conduct` is for every sequence of messages and lines.
-/
import ChatSocket.Network.Partners
import ChatSocket.Client.Flags
import ChatSocket.Kit.Since

namespace ChatSocket

open Kit

/-- What a client has seen and done. -/
inductive Happening where
  | received (m : Msg)
  | sent (m : Msg)
  deriving DecidableEq

def Client.Input.received : Client.Input → List Happening
  | .rx rxMsg => [.received rxMsg]
  | .line _ => []

/-- The history of a client that starts as `c`. -/
def Client.history (c : Client) : List Client.Input → List Happening
  | [] => []
  | i :: inputs =>
      match c.step i with
      | none => []
      | some (c', msgs) => i.received ++ msgs.map .sent ++ c'.history inputs

/-! ## In a chat, asked -/

/-- The messages that end a chat, whatever else they tell. -/
def Msg.EndsChat (m : Msg) : Prop :=
  m.msgType = .clientNoMoreFree ∨ m.msgType = .clientTermination ∨ m.msgType = .clientDisconnected

def Happening.Opens : Happening → Prop
  | received m => m.msgType = .clientAcceptConnectionAck ∨ m.msgType = .clientChatReady
  | sent _ => False

/-- What ends a chat: a message, or the own `disconnect`. -/
def Happening.Ends : Happening → Prop
  | received m => m.EndsChat
  | sent m => m.Leaves .busy

def Happening.Asks : Happening → Prop
  | received m => m.msgType = .connectionReqRx
  | sent _ => False

/-- What settles a request: the answer, or a message that makes one needless. -/
def Happening.Settles : Happening → Prop
  | received m => m.msgType = .clientAcceptConnectionAck ∨ m.EndsChat
  | sent m => m.Leaves .asked

def Client.InChat : List Happening → Prop := Since Happening.Opens Happening.Ends

def Client.Unanswered : List Happening → Prop := Since Happening.Asks Happening.Settles

open Client (InChat Unanswered)

/-- After this history the client may send `m`. -/
structure Permits (before : List Happening) (m : Msg) : Prop where
  talk : m.msgType = .clientTxType → InChat before
  answer : m.Leaves .asked → Unanswered before
  command : m.IsCommand → ¬ InChat before ∧ ¬ Unanswered before

def Permitted (before : List Happening) : Happening → Prop
  | .received _ => True
  | .sent m => Permits before m

/-! ## The flags keep it -/

/-- The flags of a client with this history. -/
structure Minds (f : Flags) (h : List Happening) : Prop where
  busy : f.busy = true ↔ InChat h
  asked : f.asked = true ↔ Unanswered h

section
variable {f f' : Flags} {h : List Happening} {m : Msg} {msgs : List Msg}

theorem minds_nil : Minds .idle [] :=
  ⟨iff_of_false Bool.false_ne_true not_since_nil, iff_of_false Bool.false_ne_true not_since_nil⟩

/-- A message sets the flags as it changes the history. -/
theorem Minds.received (hm : Minds f h) (m : Msg) :
    Minds (m.msgType.tell f) (h ++ [.received m]) := by
  obtain ⟨hbusy, hasked⟩ := hm
  constructor
  · rw [InChat, since_concat, ← InChat, ← hbusy]
    simp only [Happening.Opens, Happening.Ends, Msg.EndsChat]
    cases m.msgType <;> simp [MsgType.tell, Flags.idle]
  · rw [Unanswered, since_concat, ← Unanswered, ← hasked]
    simp only [Happening.Asks, Happening.Settles, Msg.EndsChat]
    cases m.msgType <;> simp [MsgType.tell, Flags.idle]

/-- So does what is sent. -/
theorem Minds.sent (hm : Minds f h) (hbusy : f'.busy = true ↔ f.busy = true ∧ ¬ m.Leaves .busy)
    (hasked : f'.asked = true ↔ f.asked = true ∧ ¬ m.Leaves .asked) :
    Minds f' (h ++ [.sent m]) := by
  constructor
  · rw [InChat, since_concat, ← InChat, ← hm.busy, hbusy]
    exact (or_iff_right id).symm
  · rw [Unanswered, since_concat, ← Unanswered, ← hm.asked, hasked]
    exact (or_iff_right id).symm

theorem permits_talk (hin : InChat h) (hm : m.msgType = .clientTxType) : Permits h m where
  talk _ := hin
  answer := by simp [Msg.Leaves, hm]
  command := by simp [Msg.IsCommand, hm]

theorem permits_answer (hasked : Unanswered h) (hm : m.Leaves .asked) : Permits h m where
  talk := by rcases hm with hm | hm <;> simp [hm]
  answer _ := hasked
  command := by rcases hm with hm | hm <;> simp [Msg.IsCommand, hm]

theorem permits_command (hidle : ¬ InChat h ∧ ¬ Unanswered h) (hm : m.IsCommand) : Permits h m where
  talk := by rcases hm with hm | hm | hm <;> simp [hm]
  answer := by rcases hm with hm | hm | hm <;> simp [Msg.Leaves, hm]
  command _ := hidle

/-- What is typed is sent with the history on its side, and the flags keep it. -/
theorem Minds.line (hm : Minds f h) (hl : f.Line msgs f') :
    Minds f' (h ++ msgs.map .sent) ∧
      (Guarded Permitted h → Guarded Permitted (h ++ msgs.map .sent)) := by
  have hone : ∀ {m : Msg}, Permits h m → Guarded Permitted h →
      Guarded Permitted (h ++ [.sent m]) := fun hp hg => guarded_concat.mpr ⟨hg, hp⟩
  cases hl with
  | nothing =>
      rw [List.map_nil, List.append_nil]
      exact ⟨hm, id⟩
  | talk hbusy htx hstays =>
      refine ⟨hm.sent ?_ ?_, hone (permits_talk (hm.busy.mp hbusy) htx)⟩
      · simp [hstays]
      · simp [Msg.Leaves, htx]
  | farewell hbusy hleaves =>
      refine ⟨hm.sent ?_ ?_, hone (permits_talk (hm.busy.mp hbusy) hleaves.1)⟩
      · simp [Flags.leave, hleaves]
      · simp [Flags.leave, Msg.Leaves, hleaves.1]
  | answer hasked hleaves =>
      subst hasked
      refine ⟨hm.sent ?_ ?_, hone (permits_answer (hm.asked.mp rfl) hleaves)⟩
      · simp [Flags.leave, Mood.flags]
      · simp [Flags.leave, hleaves]
  | command hidle hcommand =>
      subst hidle
      have hnot : ¬ InChat h ∧ ¬ Unanswered h :=
        ⟨fun hin => Bool.false_ne_true (hm.busy.mpr hin),
          fun hask => Bool.false_ne_true (hm.asked.mpr hask)⟩
      refine ⟨hm.sent ?_ ?_, hone (permits_command hnot hcommand)⟩
      · simp [Flags.idle]
      · simp [Flags.idle]

end

/-! ## Whole runs -/

theorem guarded_history (inputs : List Client.Input) :
    ∀ {c : Client} {h : List Happening}, Minds c.flags h → Guarded Permitted h →
      Guarded Permitted (h ++ c.history inputs) := by
  induction inputs with
  | nil =>
      intro c h _ hg
      rwa [Client.history, List.append_nil]
  | cons i inputs ih =>
      intro c h hm hg
      cases i with
      | rx rxMsg =>
          have hm' := hm.received rxMsg
          rw [← flags_handleRxMsgLib] at hm'
          have hrun := ih hm' (guarded_concat.mpr ⟨hg, trivial⟩)
          rwa [List.append_assoc] at hrun
      | line sendMsgBuffer =>
          obtain ⟨hm', hg'⟩ := hm.line (line_processSendMsg c sendMsgBuffer)
          have hrun := ih hm' (hg' hg)
          rwa [List.append_assoc] at hrun

/-- A client sends what its history permits, and answers a request at most once. -/
theorem conduct (inputs : List Client.Input) :
    (∀ before m after, Client.boot.history inputs = before ++ .sent m :: after →
      Permits before m) ∧
      ∀ before m mid m' after,
        Client.boot.history inputs = before ++ .sent m :: (mid ++ .sent m' :: after) →
        m.Leaves .asked → m'.Leaves .asked →
        ∃ q, .received q ∈ mid ∧ q.msgType = .connectionReqRx := by
  have hg : Guarded Permitted (Client.boot.history inputs) :=
    guarded_history inputs (c := .boot) minds_nil guarded_nil
  refine ⟨fun before m after he => hg before (.sent m) after he, ?_⟩
  intro before m mid m' after he hm hm'
  have hasked : Unanswered (before ++ .sent m :: mid) := by
    refine (hg _ (.sent m') after ?_).answer hm'
    rw [he, List.append_assoc, List.cons_append]
  obtain ⟨b, hb, hasks⟩ := hasked.exists_mem hm id
  cases b with
  | received q => exact ⟨q, hb, hasks⟩
  | sent q => exact absurd hasks id

end ChatSocket
