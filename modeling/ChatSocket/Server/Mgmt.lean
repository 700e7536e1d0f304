/-
# `Server.Mgmt` — the message handlers (`server_mgmt.c`)

A handler is a program over `SrvOp`: taking and releasing `client_data_mutex`,
`send_msg_to_fd`, and the functions of `server_queue.c`.  The programs follow
the C text statement by statement; the log lines are left out.  What
`send_msg_to_fd` returns no handler looks at, so the operation has no answer.

`sem` runs the operations on a `Server`, the registry and the mutex.  Locking a
held mutex and unlocking a free one are refused: the first blocks the thread,
for ever if it holds the mutex itself, and the second is undefined.  `sem` also
writes down, in order, every write to the registry and every message sent
(`Act`); that log decides nothing.

`client_thread` is here in its two parts that touch the registry, the
registration of the connection and the branch for a closed one.
-/
import ChatSocket.Kit.Prog
import ChatSocket.Server.Queue

namespace ChatSocket

open Kit

/-- What a handler can do. -/
inductive SrvOp where
  | lockClientDataMutex
  | unlockClientDataMutex
  | sendMsgToFd (fd : Int) (msg : Msg)
  | addClientNodeToQueue (fd : Int) (mallocOk : Bool)
  | removeClientNodeFromQueueByFd (fd : Int)
  | setNameOfClientByClientFd (fd : Int) (name : List UInt8)
  | getClientNameByFd (fd : Int)
  | strAt (p : CharPtr)
  | getClientFdByName (name : List UInt8)
  | getClientList (list : Buf maxMsgLen)
  | checkClientWithSameNameExistOrNot (name : List UInt8)
  | getClientChattingStatusByName (name : List UInt8)
  | getClientChattingStatusByFd (fd : Int)
  | setClientChattingStatusByFd (fd : Int) (chatStatus : ChatStatus)
  | setToFdByFd (myFd toFd : Int)
  | getConnFdByFd (myFd : Int)

/-- What comes back. -/
def SrvOp.Ret : SrvOp → Type
  | lockClientDataMutex | unlockClientDataMutex | sendMsgToFd _ _ => Unit
  | addClientNodeToQueue _ _ | removeClientNodeFromQueueByFd _ => SrvQueueErr
  | setNameOfClientByClientFd _ _ => SrvQueueErr
  | getClientNameByFd _ => CharPtr
  | strAt _ => List UInt8
  | getClientFdByName _ | getConnFdByFd _ => Int
  | getClientList _ => SrvQueueErr × Buf maxMsgLen
  | checkClientWithSameNameExistOrNot _ => NameFind
  | getClientChattingStatusByName _ | getClientChattingStatusByFd _ => ChatStatus
  | setClientChattingStatusByFd _ _ | setToFdByFd _ _ => ChatErr

/-- A call that writes to the registry. -/
inductive Write where
  | add (fd : Int) (mallocOk : Bool)
  | remove (fd : Int)
  | name (fd : Int) (name : List UInt8)
  | status (fd : Int) (chatStatus : ChatStatus)
  | toFd (myFd toFd : Int)
  deriving DecidableEq

/-- The registry after a call. -/
def Write.apply (r : Registry) : Write → Registry
  | add fd mallocOk => (r.addClientNodeToQueue fd mallocOk).2
  | remove fd => (r.removeClientNodeFromQueueByFd fd).2
  | name fd str => (r.setNameOfClientByClientFd fd str).2
  | status fd chatStatus => (r.setClientChattingStatusByFd fd chatStatus).2
  | toFd myFd f => (r.setToFdByFd myFd f).2

/-- What is written down of a run: a write to the registry, or a message sent. -/
inductive Act where
  | wrote (w : Write)
  | sent (fd : Int) (msg : Msg)
  deriving DecidableEq

/-- The server's shared state. -/
structure Server where
  registry : Registry
  mutexHeld : Bool
  deriving DecidableEq

/-- The server when it starts. -/
def Server.boot : Server := ⟨.empty, false⟩

/-- What the operations do. -/
def sem : Sem SrvOp SrvOp.Ret (Server × List Act)
  | .lockClientDataMutex, (s, log) =>
      if s.mutexHeld then none else some ((), ⟨s.registry, true⟩, log)
  | .unlockClientDataMutex, (s, log) =>
      if s.mutexHeld then some ((), ⟨s.registry, false⟩, log) else none
  | .sendMsgToFd fd msg, (s, log) => some ((), s, log ++ [.sent fd msg])
  | .addClientNodeToQueue fd mallocOk, (s, log) =>
      some ((s.registry.addClientNodeToQueue fd mallocOk).1,
        ⟨Write.apply s.registry (.add fd mallocOk), s.mutexHeld⟩,
        log ++ [.wrote (.add fd mallocOk)])
  | .removeClientNodeFromQueueByFd fd, (s, log) =>
      some ((s.registry.removeClientNodeFromQueueByFd fd).1,
        ⟨Write.apply s.registry (.remove fd), s.mutexHeld⟩, log ++ [.wrote (.remove fd)])
  | .setNameOfClientByClientFd fd name, (s, log) =>
      some ((s.registry.setNameOfClientByClientFd fd name).1,
        ⟨Write.apply s.registry (.name fd name), s.mutexHeld⟩, log ++ [.wrote (.name fd name)])
  | .getClientNameByFd fd, (s, log) => some (s.registry.getClientNameByFd fd, s, log)
  | .strAt p, (s, log) => some (s.registry.strAt p, s, log)
  | .getClientFdByName name, (s, log) => some (s.registry.getClientFdByName name, s, log)
  | .getClientList list, (s, log) => some (s.registry.getClientList list, s, log)
  | .checkClientWithSameNameExistOrNot name, (s, log) =>
      some (s.registry.checkClientWithSameNameExistOrNot name, s, log)
  | .getClientChattingStatusByName name, (s, log) =>
      some (s.registry.getClientChattingStatusByName name, s, log)
  | .getClientChattingStatusByFd fd, (s, log) =>
      some (s.registry.getClientChattingStatusByFd fd, s, log)
  | .setClientChattingStatusByFd fd chatStatus, (s, log) =>
      some ((s.registry.setClientChattingStatusByFd fd chatStatus).1,
        ⟨Write.apply s.registry (.status fd chatStatus), s.mutexHeld⟩,
        log ++ [.wrote (.status fd chatStatus)])
  | .setToFdByFd myFd toFd, (s, log) =>
      some ((s.registry.setToFdByFd myFd toFd).1,
        ⟨Write.apply s.registry (.toFd myFd toFd), s.mutexHeld⟩, log ++ [.wrote (.toFd myFd toFd)])
  | .getConnFdByFd myFd, (s, log) => some (s.registry.getConnFdByFd myFd, s, log)

abbrev SrvProg := Prog SrvOp SrvOp.Ret

namespace SrvProg

def lockClientDataMutex : SrvProg Unit := .op .lockClientDataMutex .ret
def unlockClientDataMutex : SrvProg Unit := .op .unlockClientDataMutex .ret
def sendMsgToFd (fd : Int) (msg : Msg) : SrvProg Unit := .op (.sendMsgToFd fd msg) .ret
def addClientNodeToQueue (fd : Int) (mallocOk : Bool) : SrvProg SrvQueueErr :=
  .op (.addClientNodeToQueue fd mallocOk) .ret
def removeClientNodeFromQueueByFd (fd : Int) : SrvProg SrvQueueErr :=
  .op (.removeClientNodeFromQueueByFd fd) .ret
def setNameOfClientByClientFd (fd : Int) (name : List UInt8) : SrvProg SrvQueueErr :=
  .op (.setNameOfClientByClientFd fd name) .ret
def getClientNameByFd (fd : Int) : SrvProg CharPtr := .op (.getClientNameByFd fd) .ret
def strAt (p : CharPtr) : SrvProg (List UInt8) := .op (.strAt p) .ret
def getClientFdByName (name : List UInt8) : SrvProg Int := .op (.getClientFdByName name) .ret
def getClientList (list : Buf maxMsgLen) : SrvProg (SrvQueueErr × Buf maxMsgLen) :=
  .op (.getClientList list) .ret
def checkClientWithSameNameExistOrNot (name : List UInt8) : SrvProg NameFind :=
  .op (.checkClientWithSameNameExistOrNot name) .ret
def getClientChattingStatusByName (name : List UInt8) : SrvProg ChatStatus :=
  .op (.getClientChattingStatusByName name) .ret
def getClientChattingStatusByFd (fd : Int) : SrvProg ChatStatus :=
  .op (.getClientChattingStatusByFd fd) .ret
def setClientChattingStatusByFd (fd : Int) (chatStatus : ChatStatus) : SrvProg ChatErr :=
  .op (.setClientChattingStatusByFd fd chatStatus) .ret
def setToFdByFd (myFd toFd : Int) : SrvProg ChatErr := .op (.setToFdByFd myFd toFd) .ret
def getConnFdByFd (myFd : Int) : SrvProg Int := .op (.getConnFdByFd myFd) .ret

end SrvProg

open SrvProg

/-! ## The handlers -/

def setNameHandler (fd : Int) (msg : Msg) : SrvProg Unit := do
  lockClientDataMutex
  let ret ← checkClientWithSameNameExistOrNot msg.buffer.bytes
  if ret ≠ .nameNotExist then
    unlockClientDataMutex
    sendMsgToFd fd (.ofType .setNameNackType)
  else
    let retVal ← setNameOfClientByClientFd fd msg.buffer.bytes
    if retVal ≠ .succ then
      unlockClientDataMutex
    else
      unlockClientDataMutex
      sendMsgToFd fd (.ofType .setNameAckType)

/-- The list is read without taking the mutex. -/
def sendClientListHandler (fd : Int) : SrvProg Unit := do
  let (_, list) ← getClientList (.zero _)
  if fd = invalidFd then
    pure ()
  else
    sendMsgToFd fd { Msg.ofType .getClientListType with buffer := list }

def handleChangeConnFdReq (_fd : Int) (_msg : Msg) : SrvProg Unit := pure ()

def handleDeclineConnRequest (fd : Int) : SrvProg Unit := do
  if fd = invalidFd then
    pure ()
  else
    lockClientDataMutex
    if .reqPending = (← getClientChattingStatusByFd fd) then
      let connFd ← getConnFdByFd fd
      let myName ← getClientNameByFd fd
      unlockClientDataMutex
      if connFd = invalidFd then
        pure ()
      else
        sendMsgToFd connFd (.withText .clientDeclineConnectionAck (← strAt myName))
        lockClientDataMutex
        let _ ← setClientChattingStatusByFd fd .free
        unlockClientDataMutex
    else
      unlockClientDataMutex

def handleTxMsg (fd : Int) (msg : Msg) : SrvProg Unit := do
  lockClientDataMutex
  if .busy = (← getClientChattingStatusByFd fd) then
    let connFd ← getConnFdByFd fd
    unlockClientDataMutex
    if strcmp msg.buffer.bytes disconnectCmd = 0 then
      if connFd ≠ invalidFd then
        lockClientDataMutex
        let name ← strAt (← getClientNameByFd fd)
        let _ ← setClientChattingStatusByFd fd .free
        let _ ← setClientChattingStatusByFd connFd .free
        let _ ← setToFdByFd fd invalidFd
        let _ ← setToFdByFd connFd invalidFd
        unlockClientDataMutex
        sendMsgToFd connFd (.withText .clientDisconnected name)
      else
        pure ()
    else
      if connFd ≠ invalidFd then
        sendMsgToFd connFd { msg with msgType := .clientRxType }
      else
        pure ()
  else
    unlockClientDataMutex

def handleChatConnectionRequest (fd : Int) (connClientName : List UInt8) : SrvProg Unit := do
  if fd = invalidFd then
    pure ()
  else
    let connRespMsg : Msg :=
      { Msg.zero with buffer := (Buf.zero _).memcpy connClientName maxClientNameLen }
    lockClientDataMutex
    let ret ← checkClientWithSameNameExistOrNot connClientName
    if ret = .nameExists then
      let myName ← getClientNameByFd fd
      if strcmp (← strAt myName) connClientName = 0 then
        unlockClientDataMutex
        sendMsgToFd fd { connRespMsg with msgType := .attemptToConnectToSelf }
      else
        let chatStatus ← getClientChattingStatusByName connClientName
        unlockClientDataMutex
        if chatStatus = .clientNotFound then
          sendMsgToFd fd { connRespMsg with msgType := .clientNotExist }
        else if .free = chatStatus then
          lockClientDataMutex
          let connClientFd ← getClientFdByName connClientName
          let _ ← setClientChattingStatusByFd connClientFd .reqPending
          unlockClientDataMutex
          if connClientFd = invalidFd then
            sendMsgToFd fd { connRespMsg with msgType := .clientNotExist }
          else
            lockClientDataMutex
            let _ ← setToFdByFd fd connClientFd
            let _ ← setToFdByFd connClientFd fd
            unlockClientDataMutex
            sendMsgToFd connClientFd (.withText .connectionReqRx (← strAt myName))
            sendMsgToFd fd { connRespMsg with msgType := .clientFree }
        else if .busy = chatStatus then
          sendMsgToFd fd { connRespMsg with msgType := .clientBusy }
        else if .reqPending = chatStatus then
          sendMsgToFd fd { connRespMsg with msgType := .clientStatusReqPending }
        else
          sendMsgToFd fd { connRespMsg with msgType := .clientNotExist }
    else
      unlockClientDataMutex
      sendMsgToFd fd { connRespMsg with msgType := .clientNotExist }

def handleConnAccept (fd : Int) (_msg : Msg) : SrvProg Unit := do
  lockClientDataMutex
  let myChatStatus ← getClientChattingStatusByFd fd
  let connFd ← getConnFdByFd fd
  if connFd = invalidFd then
    -- the C code returns from here without unlocking
    pure ()
  else
    let connClientChatStatus ← getClientChattingStatusByFd connFd
    let connClientName ← getClientNameByFd connFd
    if strcmp (← strAt connClientName) undefName = 0 then
      let _ ← setClientChattingStatusByFd fd .free
      let _ ← setToFdByFd fd invalidFd
      unlockClientDataMutex
      sendMsgToFd fd (.withText .clientNoMoreExist (ascii "Client_not_exist"))
    else
      unlockClientDataMutex
      if .busy = connClientChatStatus then
        lockClientDataMutex
        let _ ← setClientChattingStatusByFd fd .free
        unlockClientDataMutex
        sendMsgToFd fd (.withText .clientNoMoreFree (← strAt connClientName))
      else if .reqPending ≠ myChatStatus then
        sendMsgToFd fd (.withText .clientAcceptConnectionAck (ascii "SOMETHING_IS_WRONG"))
      else
        lockClientDataMutex
        let _ ← setClientChattingStatusByFd fd .busy
        let _ ← setClientChattingStatusByFd connFd .busy
        let _ ← setToFdByFd fd connFd
        let _ ← setToFdByFd connFd fd
        let connName ← getClientNameByFd connFd
        let myName ← getClientNameByFd fd
        unlockClientDataMutex
        if strcmp (← strAt connName) undefName = 0 then
          pure ()
        else if strcmp (← strAt myName) undefName = 0 then
          pure ()
        else
          let my ← strAt myName
          let conn ← strAt connName
          sendMsgToFd fd (.withText .clientChatReady conn)
          sendMsgToFd connFd (.withText .clientAcceptConnectionAck my)

def handleRxMsg (msg : Msg) (fd : Int) : SrvProg Unit :=
  match msg.msgType with
  | .setNameReqType => setNameHandler fd msg
  | .getClientListType => sendClientListHandler fd
  | .connectToClient => handleChatConnectionRequest fd msg.buffer.bytes
  | .clientAcceptConnection => handleConnAccept fd msg
  | .clientTxType => handleTxMsg fd msg
  | .clientDeclineConnection => handleDeclineConnRequest fd
  | .clientChangeConnFdReq => handleChangeConnFdReq fd msg
  | _ => pure ()

/-! ## `client_thread` -/

/-- The registration: `true` if the connection was registered. -/
def clientThreadRegister (mySocket : Int) (mallocOk : Bool) : SrvProg Bool := do
  lockClientDataMutex
  let retVal ← addClientNodeToQueue mySocket mallocOk
  if retVal ≠ .succ then
    sendMsgToFd mySocket (.ofType .maxClientReached)
    unlockClientDataMutex
    pure false
  else
    unlockClientDataMutex
    pure true

/-- The branch for `ERR_CLIENT_CLOSED_CONN`. -/
def clientThreadClosed (mySocket : Int) : SrvProg Unit := do
  lockClientDataMutex
  let connFd ← getConnFdByFd mySocket
  if invalidFd ≠ connFd then
    if .free ≠ (← getClientChattingStatusByFd connFd) then
      let _ ← setClientChattingStatusByFd connFd .free
      let _ ← setToFdByFd mySocket invalidFd
      sendMsgToFd connFd (.withText .clientTermination (← strAt (← getClientNameByFd mySocket)))
  let _ ← removeClientNodeFromQueueByFd mySocket
  unlockClientDataMutex

end ChatSocket
