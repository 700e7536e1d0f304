/-
# `Client.Program` — the client from start to end (`main_client.c`, `client_lib.c`)

The program connects, waits for the first message of the server, answers it if it
carries the key, gives the server a name if it was started with one, and then does
what its connection and its user tell it.  What `connect`, `select`, `recv`, `send`,
`pthread_create` and `poll` answer is the input, and what the program does
(`Output`) is the output: the messages it gives to `send`, those it takes from the
server, and what it prints.

What the server sees of it is a history of the client (`happenings_clientMain`),
whatever the kernel answers: messages that come in pieces and end-of-file at any time
are among it.
-/
import ChatSocket.Client.Conduct
import ChatSocket.Client.IoThread
import ChatSocket.Client.Screen

namespace ChatSocket

open Kit

/-- `client_err_type_t`. -/
inductive ClientErr where
  | success
  | connectionFailed
  | notConnected
  | msgSendErr
  | threadCreate
  | readError
  | readTimeout
  | cbParamsNotSet
  | nullPtr
  | maxErr
  deriving DecidableEq

/-- What the program does. -/
inductive Output where
  /-- It gives a message to `send`. -/
  | sends (msg : Msg)
  /-- `handle_rx_msg_lib` is handed a message. -/
  | takes (msg : Msg)
  /-- It prints a text. -/
  | shows (text : List UInt8)
  deriving DecidableEq

/-- What `select` answers, and `recv` after it. -/
inductive Select where
  | error
  | timeout
  | ready (r : Recv)
  deriving DecidableEq

/-- What the kernel answers `connect_to_server`. -/
structure Dial where
  connected : Bool
  select : Select
  sent : Bool

/-- What the kernel answers the program; `rxMsg` is the memory that `io_thread` finds in its
`rx_msg`. -/
structure Kernel where
  dial : Dial
  created : Bool
  rxMsg : MsgMem
  polls : List IoPoll

/-! ## Connecting -/

/-- `recv_with_timeout`; what `recv` returns it does not look at. -/
def recvWithTimeout (mem : MsgMem) : Select → ClientErr × MsgMem
  | .error => (.readError, mem)
  | .timeout => (.readTimeout, mem)
  | .ready (.bytes chunk) => (.success, recvInto mem chunk.bytes)
  | .ready .closed | .ready .error => (.success, mem)

def sendMsgToServer (msgToSend : Msg) (sent : Bool) : ClientErr × List Output :=
  (if sent then .success else .msgSendErr, [.sends msgToSend])

/-- The message that is waited for. -/
def Dial.tempMsg (d : Dial) : Msg := (recvWithTimeout (.zero _) d.select).2.msg

def connectToServer (d : Dial) : ClientErr × List Output :=
  if !d.connected then (.connectionFailed, [])
  else if (recvWithTimeout (.zero _) d.select).1 ≠ .success then (.connectionFailed, [])
  else if d.tempMsg.msgType = .connEstablishReq ∧
      strcmp d.tempMsg.buffer.bytes serverUniqueueId = 0 then
    let (err, outputs) := sendMsgToServer (.ofType .connEstablishAck) d.sent
    if err ≠ .success then (.connectionFailed, outputs) else (.success, outputs)
  else if d.tempMsg.msgType = .maxClientReached then
    (.connectionFailed,
      [.shows (ascii "Server is on its limit, no more client connection allowed.\n")])
  else (.connectionFailed, [])

/-! ## The thread and the program -/

namespace Client

/-- A call of `io_thread`. -/
def does (c : Client) : Call → Client × List Output
  | .msgHandleCb rxMsg => (c, (c.msgHandleCb rxMsg).map .shows)
  | .handleRxMsgLib rxMsg => (c.handleRxMsgLib rxMsg, [.takes rxMsg])
  | .processSendMsg sendMsgBuffer =>
      ((c.processSendMsg sendMsgBuffer).1,
        (c.processSendMsg sendMsgBuffer).2.map .sends ++ (c.printsFor sendMsgBuffer).map .shows)

def doesAll (c : Client) : List Call → List Output
  | [] => []
  | call :: calls => (c.does call).2 ++ (c.does call).1.doesAll calls

end Client

/-- Whether `io_thread` finds its connection closed. -/
def shutDownDetected : List IoPoll → Bool
  | [] | .error :: _ => false
  | .timeout :: polls => shutDownDetected polls
  | .ready (some .closed) _ :: _ => true
  | .ready (some .error) _ :: _ => false
  | .ready none stdin :: polls | .ready (some (.bytes _)) stdin :: polls =>
      (ioRead stdin).isSome && shutDownDetected polls

/-- `chat_on`. -/
def chatOn (k : Kernel) : List Output :=
  if !k.created then []
  else Client.boot.doesAll (ioThreadLoop k.rxMsg k.polls) ++
    if shutDownDetected k.polls then [.shows (ascii "Server shut-down detected.\n")] else []

/-- `if(argc==2) set_my_name(argv[1]);` -/
def namesItself : List (List UInt8) → List Output
  | [_, name] => [.sends (Client.setMyName name)]
  | _ => []

/-- `main`: what it returns, and what the program does. -/
def clientMain (argv : List (List UInt8)) (k : Kernel) : Int × List Output :=
  let ret := connectToServer k.dial
  if ret.1 ≠ .success then (-1, ret.2 ++ [.shows (ascii "Connect to server failed.\n")])
  else
    (0, ret.2 ++ namesItself argv ++ showHelp.map .shows ++ chatOn k ++
      [.shows (ascii "Closing the client.\n")])

/-! ## What is seen from the server -/

/-- What of it the connection sees. -/
def Output.happening? : Output → Option Happening
  | sends msg => some (.sent msg)
  | takes msg => some (.received msg)
  | shows _ => none

def happenings (outputs : List Output) : List Happening := outputs.filterMap Output.happening?

/-- The turn of a client that a call is. -/
def Call.input? : Call → Option Client.Input
  | msgHandleCb _ => none
  | handleRxMsgLib rxMsg => some (.rx rxMsg)
  | processSendMsg sendMsgBuffer => some (.line sendMsgBuffer)

@[simp] theorem happenings_shows (texts : List (List UInt8)) :
    happenings (texts.map .shows) = [] := by
  induction texts with
  | nil => rfl
  | cons text texts ih => exact ih

@[simp] theorem happenings_sends (msgs : List Msg) :
    happenings (msgs.map .sends) = msgs.map .sent := by
  induction msgs with
  | nil => rfl
  | cons m msgs ih =>
      show Happening.sent m :: happenings _ = _
      rw [ih, List.map_cons]

@[simp] theorem happenings_append (ds ds' : List Output) :
    happenings (ds ++ ds') = happenings ds ++ happenings ds' := List.filterMap_append

/-- The calls of `io_thread` are turns of the client that is known by its flags. -/
theorem happenings_doesAll (calls : List Call) :
    ∀ c : Client, happenings (c.doesAll calls) = c.history (calls.filterMap Call.input?) := by
  induction calls with
  | nil =>
      intro c
      rfl
  | cons call calls ih =>
      intro c
      rw [Client.doesAll, happenings_append, ih]
      cases call with
      | msgHandleCb rxMsg =>
          show happenings ((c.msgHandleCb rxMsg).map .shows) ++ c.history _ = c.history _
          rw [happenings_shows, List.nil_append]
          rfl
      | handleRxMsgLib rxMsg => rfl
      | processSendMsg line =>
          show happenings ((c.processSendMsg line).2.map .sends ++ (c.printsFor line).map .shows)
            ++ (c.processSendMsg line).1.history _ = _
          rw [happenings_append, happenings_sends, happenings_shows, List.append_nil]
          rfl

/-! ## The first message -/

/-- The server has shown the key. -/
structure Dial.Verified (d : Dial) : Prop where
  connected : d.connected = true
  received : ∃ chunk, d.select = .ready (.bytes chunk)
  request : d.tempMsg.msgType = .connEstablishReq
  key : d.tempMsg.buffer.str = serverUniqueueId

/-- Where no bytes have come, the memory is no request. -/
theorem Dial.received_of_request {d : Dial} (h : d.tempMsg.msgType = .connEstablishReq) :
    ∃ chunk, d.select = .ready (.bytes chunk) := by
  have hzero : (MsgMem.msg (.zero _)).msgType = .clientRxType := by decide +kernel
  cases hs : d.select with
  | ready r =>
      cases r with
      | bytes chunk => exact ⟨chunk, rfl⟩
      | closed | error =>
          rw [tempMsg, hs, recvWithTimeout, hzero] at h
          cases h
  | error | timeout =>
      rw [tempMsg, hs, recvWithTimeout, hzero] at h
      cases h

/-- What `connect_to_server` sends, and when. -/
theorem happenings_connectToServer (d : Dial) :
    ¬ d.Verified ∧ happenings (connectToServer d).2 = [] ∧ (connectToServer d).1 ≠ .success ∨
      d.Verified ∧ happenings (connectToServer d).2 = [.sent (.ofType .connEstablishAck)] ∧
        ((connectToServer d).1 = .success ↔ d.sent = true) := by
  have hid : cstr serverUniqueueId = serverUniqueueId := by decide
  unfold connectToServer
  split
  · next hconn =>
      left
      refine ⟨fun hv => ?_, rfl, by simp⟩
      rw [hv.connected] at hconn
      cases hconn
  · next hconn =>
      split
      · next hrecv =>
          left
          refine ⟨fun hv => ?_, rfl, by simp⟩
          obtain ⟨chunk, hselect⟩ := hv.received
          rw [hselect] at hrecv
          exact hrecv rfl
      · split
        · next hkey =>
            right
            refine ⟨⟨by simpa using hconn, d.received_of_request hkey.1, hkey.1, ?_⟩, ?_⟩
            · rw [← hid]
              exact (strcmp_eq_zero_iff _ _).mp hkey.2
            · cases d.sent with
              | true => exact ⟨rfl, iff_of_true rfl rfl⟩
              | false => exact ⟨rfl, iff_of_false (fun he => by cases he) Bool.false_ne_true⟩
        · next hkey =>
            left
            refine ⟨fun hv => hkey ⟨hv.request, ?_⟩, ?_⟩
            · rw [strcmp_eq_zero_iff, hid]
              exact hv.key
            · split <;> exact ⟨rfl, by simp⟩

/-! ## The whole program -/

/-- A line sends no MSG_CONN_ESTABLISH_ACK. -/
theorem ne_ack_of_line {f f' : Flags} {msgs : List Msg} (hl : f.Line msgs f') :
    ∀ m ∈ msgs, m.msgType ≠ .connEstablishAck := by
  intro m hm
  cases hl with
  | nothing => cases hm
  | talk _ htype =>
      rw [List.mem_singleton.mp hm, htype]
      simp
  | farewell _ hleaves =>
      rw [List.mem_singleton.mp hm, hleaves.1]
      simp
  | answer _ hleaves =>
      rw [List.mem_singleton.mp hm]
      rcases hleaves with htype | htype <;> simp [htype]
  | command _ hcommand =>
      rw [List.mem_singleton.mp hm]
      rcases hcommand with htype | htype | htype <;> simp [htype]

theorem ne_ack_of_history (inputs : List Client.Input) : ∀ (c : Client) (m : Msg),
    .sent m ∈ c.history inputs → m.msgType ≠ .connEstablishAck := by
  induction inputs with
  | nil =>
      intro c m hm
      cases hm
  | cons i inputs ih =>
      intro c m hm
      cases i with
      | rx rxMsg =>
          rcases List.mem_cons.mp hm with he | hm
          · cases he
          · exact ih _ m hm
      | line line =>
          rcases List.mem_append.mp hm with hm | hm
          · obtain ⟨m', hm', he⟩ := List.mem_map.mp hm
            cases he
            exact ne_ack_of_line (line_processSendMsg c line) m hm'
          · exact ih _ m hm

/-- The chat is a history of the client. -/
theorem happenings_chatOn (k : Kernel) :
    ∃ inputs, happenings (chatOn k) = Client.boot.history inputs := by
  unfold chatOn
  split
  · exact ⟨[], rfl⟩
  · refine ⟨(ioThreadLoop k.rxMsg k.polls).filterMap Call.input?, ?_⟩
    rw [happenings_append, happenings_doesAll]
    split <;> exact List.append_nil _

/-- What the server sees of the program, and what it returns. -/
theorem happenings_clientMain (argv : List (List UInt8)) (k : Kernel) :
    ¬ k.dial.Verified ∧ (clientMain argv k).1 = -1 ∧ happenings (clientMain argv k).2 = [] ∨
      k.dial.Verified ∧ ∃ rest, happenings (clientMain argv k).2
          = .sent (.ofType .connEstablishAck) :: rest ∧
        (k.dial.sent = false ∧ (clientMain argv k).1 = -1 ∧ rest = [] ∨
          k.dial.sent = true ∧ (clientMain argv k).1 = 0 ∧ ∃ inputs,
            rest = happenings (namesItself argv) ++ Client.boot.history inputs) := by
  have htext : ∀ text, happenings [.shows text] = [] := fun _ => rfl
  unfold clientMain
  dsimp only
  rcases happenings_connectToServer k.dial with ⟨hv, hnone, hfails⟩ | ⟨hv, hack, hsent⟩
  · left
    rw [if_pos hfails, happenings_append, hnone]
    exact ⟨hv, rfl, rfl⟩
  · right
    refine ⟨hv, ?_⟩
    split
    · next hfails =>
        refine ⟨[], ?_, Or.inl ⟨Bool.eq_false_iff.mpr (mt hsent.mpr hfails), rfl, rfl⟩⟩
        rw [happenings_append, hack]
        rfl
    · next hsucc =>
        obtain ⟨inputs, hinputs⟩ := happenings_chatOn k
        refine ⟨happenings (namesItself argv) ++ Client.boot.history inputs, ?_,
          Or.inr ⟨hsent.mp (not_not.mp hsucc), rfl, inputs, rfl⟩⟩
        simp only [happenings_append, hack, happenings_shows, hinputs, htext, List.append_nil,
          List.append_assoc]
        rfl

section
variable (argv : List (List UInt8)) (k : Kernel)

/-- After the message by which it verifies the connection, and the name it gives itself, a client
is as it is when it starts. -/
theorem minds_opening (msg : Msg) (hmsg : msg.msgType = .connEstablishAck) :
    Minds Client.boot.flags (.sent msg :: happenings (namesItself argv)) ∧
      Guarded Permitted (.sent msg :: happenings (namesItself argv)) := by
  have hack : Minds .idle ([] ++ [.sent msg]) ∧ Guarded Permitted ([] ++ [.sent msg]) := by
    refine ⟨minds_nil.sent ?_ ?_, guarded_concat.mpr ⟨guarded_nil, ?_, ?_, ?_⟩⟩
    · simp [Flags.idle]
    · simp [Flags.idle]
    · simp [hmsg]
    · simp [Msg.Leaves, hmsg]
    · simp [Msg.IsCommand, hmsg]
  obtain ⟨hminds, hguarded⟩ := hack
  unfold namesItself
  split
  · next name =>
      have hname : Flags.Line .idle [Client.setMyName name] .idle :=
        .command rfl (Or.inr (Or.inl rfl))
      obtain ⟨hminds', hguarded'⟩ := hminds.line hname
      exact ⟨hminds', hguarded' hguarded⟩
  · exact ⟨hminds, hguarded⟩

/-- What the program lets its server see, all of it. -/
theorem guarded_clientMain : Guarded Permitted (happenings (clientMain argv k).2) := by
  rcases happenings_clientMain argv k with ⟨-, -, hnone⟩ | ⟨-, rest, hseen, hrest⟩
  · rw [hnone]
    exact guarded_nil
  · rw [hseen]
    rcases hrest with ⟨-, -, rfl⟩ | ⟨-, -, inputs, rfl⟩
    · exact (minds_opening [] _ rfl).2
    · obtain ⟨hminds, hguarded⟩ := minds_opening argv (.ofType .connEstablishAck) rfl
      exact guarded_history inputs hminds hguarded

/-- The program gives its acknowledgement once, and before anything else. -/
theorem ne_ack_of_rest {rest : List Happening} {inputs : List Client.Input}
    (hrest : rest = happenings (namesItself argv) ++ Client.boot.history inputs) :
    ∀ m, .sent m ∈ rest → m.msgType ≠ .connEstablishAck := by
  intro m hm
  rw [hrest] at hm
  rcases List.mem_append.mp hm with hm | hm
  · unfold namesItself at hm
    split at hm
    · cases List.mem_singleton.mp hm
      simp [Client.setMyName]
    · cases hm
  · exact ne_ack_of_history inputs _ m hm

end

end ChatSocket
