/-
# `Server.Points` — the handlers, interrupted between their critical sections

A handler that runs beside others can be interrupted wherever it does not hold
`client_data_mutex`.  A `Point` is such a place in a handler, with the values of
the local variables that are still used from there on.  From a point the handler
makes one step: a critical section, a send, or a look through a name pointer.

`prog` is what is left of the handler at a point, in the words of `Server.Mgmt`;
`acts` and `next` say what the step does and where it leads.  `step_prog` is the
connection: performing one step of what is left does `acts` and leaves what is
left at `next`.  The points are thus the handlers' own, and everything that is
said of interleaved handlers is said of the programs; `run_step` says the same of a
handler that is run to its end.

`send_client_list_handler` walks the list without the mutex, one node after the
other; it is in `Host.Basic`.
-/
import ChatSocket.Server.Atomic
import ChatSocket.Kit.Sections

namespace ChatSocket

open Kit

/-- What an operation does to `client_data_mutex`. -/
def SrvOp.locking : SrvOp → Locking
  | lockClientDataMutex => .takes
  | unlockClientDataMutex => .gives
  | _ => .neither

/-- A place in a handler, outside of its critical sections. -/
inductive Point where
  /-- The handler has returned. -/
  | done
  | setName (msg : Msg)
  | connect (name : List UInt8)
  /-- The client called `name` has been found free. -/
  | claim (name : List UInt8) (myName : CharPtr)
  /-- It has been set to CHAT_STATUS_REQ_PENDING. -/
  | link (name : List UInt8) (myName : CharPtr) (connFd : Int)
  | copyAsker (name : List UInt8) (myName : CharPtr) (connFd : Int)
  | ask (name : List UInt8) (connFd : Int) (asker : List UInt8)
  | accept
  /-- The requester has been found BUSY. -/
  | refuse (connName : CharPtr)
  | copyRefused (connName : CharPtr)
  /-- The requester has been found not to be BUSY. -/
  | pair (connFd : Int)
  | checkConn (connFd : Int) (connName myName : CharPtr)
  | checkMine (connFd : Int) (connName myName : CharPtr)
  | copyMine (connFd : Int) (connName myName : CharPtr)
  | copyConn (connFd : Int) (connName : CharPtr) (my : List UInt8)
  | ready (connFd : Int) (my conn : List UInt8)
  | decline
  | copyDecliner (connFd : Int) (myName : CharPtr)
  | tellDeclined (connFd : Int) (my : List UInt8)
  | undoRequest
  | tx (msg : Msg)
  /-- `disconnect` has come from a BUSY client. -/
  | disconnect (connFd : Int)
  /-- The last message of a handler, to a peer. -/
  | tell (connFd : Int) (msg : Msg)
  /-- The last message of a handler, to its own client. -/
  | reply (msg : Msg)
  deriving DecidableEq

namespace Point

/-- `conn_resp_msg` with a type. -/
def answer (name : List UInt8) (t : MsgType) : Msg :=
  { Msg.zero with buffer := (Buf.zero _).memcpy name maxClientNameLen, msgType := t }

/-! ## What is left of a handler -/

section
variable (fd : Int)

open SrvProg

def replyProg (msg : Msg) : SrvProg Unit := sendMsgToFd fd msg

def askProg (name : List UInt8) (connFd : Int) (asker : List UInt8) : SrvProg Unit := do
  sendMsgToFd connFd (.withText .connectionReqRx asker)
  replyProg fd (answer name .clientFree)

def copyAskerProg (name : List UInt8) (myName : CharPtr) (connFd : Int) : SrvProg Unit := do
  let asker ← strAt myName
  askProg fd name connFd asker

def linkProg (name : List UInt8) (myName : CharPtr) (connFd : Int) : SrvProg Unit := do
  lockClientDataMutex
  let _ ← setToFdByFd fd connFd
  let _ ← setToFdByFd connFd fd
  unlockClientDataMutex
  copyAskerProg fd name myName connFd

def claimProg (name : List UInt8) (myName : CharPtr) : SrvProg Unit := do
  lockClientDataMutex
  let connClientFd ← getClientFdByName name
  let _ ← setClientChattingStatusByFd connClientFd .reqPending
  unlockClientDataMutex
  if connClientFd = invalidFd then
    replyProg fd (answer name .clientNotExist)
  else
    linkProg fd name myName connClientFd

def copyRefusedProg (connName : CharPtr) : SrvProg Unit := do
  let conn ← strAt connName
  replyProg fd (.withText .clientNoMoreFree conn)

def refuseProg (connName : CharPtr) : SrvProg Unit := do
  lockClientDataMutex
  let _ ← setClientChattingStatusByFd fd .free
  unlockClientDataMutex
  copyRefusedProg fd connName

def readyProg (connFd : Int) (my conn : List UInt8) : SrvProg Unit := do
  sendMsgToFd fd (.withText .clientChatReady conn)
  sendMsgToFd connFd (.withText .clientAcceptConnectionAck my)

def copyConnProg (connFd : Int) (connName : CharPtr) (my : List UInt8) : SrvProg Unit := do
  let conn ← strAt connName
  readyProg fd connFd my conn

def copyMineProg (connFd : Int) (connName myName : CharPtr) : SrvProg Unit := do
  let my ← strAt myName
  copyConnProg fd connFd connName my

def checkMineProg (connFd : Int) (connName myName : CharPtr) : SrvProg Unit := do
  if strcmp (← strAt myName) undefName = 0 then
    pure ()
  else
    copyMineProg fd connFd connName myName

def checkConnProg (connFd : Int) (connName myName : CharPtr) : SrvProg Unit := do
  if strcmp (← strAt connName) undefName = 0 then
    pure ()
  else
    checkMineProg fd connFd connName myName

def pairProg (connFd : Int) : SrvProg Unit := do
  lockClientDataMutex
  let _ ← setClientChattingStatusByFd fd .busy
  let _ ← setClientChattingStatusByFd connFd .busy
  let _ ← setToFdByFd fd connFd
  let _ ← setToFdByFd connFd fd
  let connName ← getClientNameByFd connFd
  let myName ← getClientNameByFd fd
  unlockClientDataMutex
  checkConnProg fd connFd connName myName

def undoRequestProg : SrvProg Unit := do
  lockClientDataMutex
  let _ ← setClientChattingStatusByFd fd .free
  unlockClientDataMutex

def tellDeclinedProg (connFd : Int) (my : List UInt8) : SrvProg Unit := do
  sendMsgToFd connFd (.withText .clientDeclineConnectionAck my)
  undoRequestProg fd

def copyDeclinerProg (connFd : Int) (myName : CharPtr) : SrvProg Unit := do
  let my ← strAt myName
  tellDeclinedProg fd connFd my

def disconnectProg (connFd : Int) : SrvProg Unit := do
  lockClientDataMutex
  let name ← strAt (← getClientNameByFd fd)
  let _ ← setClientChattingStatusByFd fd .free
  let _ ← setClientChattingStatusByFd connFd .free
  let _ ← setToFdByFd fd invalidFd
  let _ ← setToFdByFd connFd invalidFd
  unlockClientDataMutex
  sendMsgToFd connFd (.withText .clientDisconnected name)

/-- What is left of the handler. -/
def prog : Point → SrvProg Unit
  | done => pure ()
  | setName msg => setNameHandler fd msg
  | connect name => handleChatConnectionRequest fd name
  | claim name myName => claimProg fd name myName
  | link name myName connFd => linkProg fd name myName connFd
  | copyAsker name myName connFd => copyAskerProg fd name myName connFd
  | ask name connFd asker => askProg fd name connFd asker
  | accept => handleConnAccept fd .zero
  | refuse connName => refuseProg fd connName
  | copyRefused connName => copyRefusedProg fd connName
  | pair connFd => pairProg fd connFd
  | checkConn connFd connName myName => checkConnProg fd connFd connName myName
  | checkMine connFd connName myName => checkMineProg fd connFd connName myName
  | copyMine connFd connName myName => copyMineProg fd connFd connName myName
  | copyConn connFd connName my => copyConnProg fd connFd connName my
  | ready connFd my conn => readyProg fd connFd my conn
  | decline => handleDeclineConnRequest fd
  | copyDecliner connFd myName => copyDeclinerProg fd connFd myName
  | tellDeclined connFd my => tellDeclinedProg fd connFd my
  | undoRequest => undoRequestProg fd
  | tx msg => handleTxMsg fd msg
  | disconnect connFd => disconnectProg fd connFd
  | tell connFd msg => sendMsgToFd connFd msg
  | reply msg => replyProg fd msg

end

/-- Where `handle_rx_msg` starts with a message; the list handler is not among these. -/
def start (msg : Msg) : Point :=
  match msg.msgType with
  | .setNameReqType => setName msg
  | .connectToClient => connect msg.buffer.bytes
  | .clientAcceptConnection => accept
  | .clientTxType => tx msg
  | .clientDeclineConnection => decline
  | _ => done

/-! ## One step -/

/-- Whether the step is a critical section. -/
def locks : Point → Bool
  | setName _ | connect _ | claim _ _ | link _ _ _ | accept | refuse _ | pair _ | decline
  | undoRequest | tx _ | disconnect _ => true
  | _ => false

/-- The section that does not give the mutex back. -/
def leavesHeld (fd : Int) (r : Registry) : Point → Bool
  | accept => r.getConnFdByFd fd = invalidFd
  | _ => false

/-- What the step does. -/
def acts (fd : Int) (r : Registry) : Point → List Act
  | setName msg =>
      if r.checkClientWithSameNameExistOrNot msg.buffer.bytes ≠ .nameNotExist then []
      else [.wrote (.name fd msg.buffer.bytes)]
  | claim name _ => [.wrote (.status (r.getClientFdByName name) .reqPending)]
  | link _ _ connFd => [.wrote (.toFd fd connFd), .wrote (.toFd connFd fd)]
  | ask _ connFd asker => [.sent connFd (.withText .connectionReqRx asker)]
  | accept =>
      if r.getConnFdByFd fd ≠ invalidFd ∧ strcmp (r.nameOf (r.getConnFdByFd fd)) undefName = 0 then
        [.wrote (.status fd .free), .wrote (.toFd fd invalidFd)]
      else []
  | refuse _ | undoRequest => [.wrote (.status fd .free)]
  | pair connFd =>
      [.wrote (.status fd .busy), .wrote (.status connFd .busy),
       .wrote (.toFd fd connFd), .wrote (.toFd connFd fd)]
  | ready _ _ conn => [.sent fd (.withText .clientChatReady conn)]
  | tellDeclined connFd my => [.sent connFd (.withText .clientDeclineConnectionAck my)]
  | disconnect connFd =>
      [.wrote (.status fd .free), .wrote (.status connFd .free),
       .wrote (.toFd fd invalidFd), .wrote (.toFd connFd invalidFd)]
  | tell connFd msg => [.sent connFd msg]
  | reply msg => [.sent fd msg]
  | done | connect _ | copyAsker _ _ _ | copyRefused _ | checkConn _ _ _ | checkMine _ _ _
  | copyMine _ _ _ | copyConn _ _ _ | decline | copyDecliner _ _ | tx _ => []

/-- Where the step leads. -/
def next (fd : Int) (r : Registry) : Point → Point
  | setName msg =>
      if r.checkClientWithSameNameExistOrNot msg.buffer.bytes ≠ .nameNotExist then
        reply (.ofType .setNameNackType)
      else if (r.setNameOfClientByClientFd fd msg.buffer.bytes).1 ≠ .succ then done
      else reply (.ofType .setNameAckType)
  | connect name =>
      if r.checkClientWithSameNameExistOrNot name ≠ .nameExists then
        reply (answer name .clientNotExist)
      else if strcmp (r.nameOf fd) name = 0 then reply (answer name .attemptToConnectToSelf)
      else
        match r.getClientChattingStatusByName name with
        | .free => claim name (r.getClientNameByFd fd)
        | .busy => reply (answer name .clientBusy)
        | .reqPending => reply (answer name .clientStatusReqPending)
        | .clientNotFound | .max => reply (answer name .clientNotExist)
  | claim name myName =>
      if r.getClientFdByName name = invalidFd then reply (answer name .clientNotExist)
      else link name myName (r.getClientFdByName name)
  | link name myName connFd => copyAsker name myName connFd
  | copyAsker name myName connFd => ask name connFd (r.strAt myName)
  | ask name _ _ => reply (answer name .clientFree)
  | accept =>
      let connFd := r.getConnFdByFd fd
      if connFd = invalidFd then done
      else if strcmp (r.nameOf connFd) undefName = 0 then
        reply (.withText .clientNoMoreExist (ascii "Client_not_exist"))
      else if r.getClientChattingStatusByFd connFd = .busy then
        refuse (r.getClientNameByFd connFd)
      else if r.getClientChattingStatusByFd fd ≠ .reqPending then
        reply (.withText .clientAcceptConnectionAck (ascii "SOMETHING_IS_WRONG"))
      else pair connFd
  | refuse connName => copyRefused connName
  | copyRefused connName => reply (.withText .clientNoMoreFree (r.strAt connName))
  | pair connFd => checkConn connFd (r.getClientNameByFd connFd) (r.getClientNameByFd fd)
  | checkConn connFd connName myName =>
      if strcmp (r.strAt connName) undefName = 0 then done else checkMine connFd connName myName
  | checkMine connFd connName myName =>
      if strcmp (r.strAt myName) undefName = 0 then done else copyMine connFd connName myName
  | copyMine connFd connName myName => copyConn connFd connName (r.strAt myName)
  | copyConn connFd connName my => ready connFd my (r.strAt connName)
  | ready connFd my _ => tell connFd (.withText .clientAcceptConnectionAck my)
  | decline =>
      if r.getClientChattingStatusByFd fd ≠ .reqPending ∨ r.getConnFdByFd fd = invalidFd then done
      else copyDecliner (r.getConnFdByFd fd) (r.getClientNameByFd fd)
  | copyDecliner connFd myName => tellDeclined connFd (r.strAt myName)
  | tellDeclined _ _ => undoRequest
  | tx msg =>
      if r.getClientChattingStatusByFd fd ≠ .busy ∨ r.getConnFdByFd fd = invalidFd then done
      else if strcmp msg.buffer.bytes disconnectCmd = 0 then disconnect (r.getConnFdByFd fd)
      else tell (r.getConnFdByFd fd) { msg with msgType := .clientRxType }
  | disconnect connFd => tell connFd (.withText .clientDisconnected (r.nameOf fd))
  | done | undoRequest | tell _ _ | reply _ => done

/-! ## Stepping through a section

As for `run`: each equation performs the first operation of a program, from the
start of a step or inside of a section. -/

section Steps
variable {α : Type} (r : Registry) (log : List Act)

open SrvProg

abbrev stepIn (p : SrvProg α) (held : Bool) : Option (SrvProg α × Server × List Act) :=
  p.step SrvOp.locking sem (⟨r, held⟩, log)

abbrev toGiveIn (p : SrvProg α) : Option (SrvProg α × Server × List Act) :=
  p.toGive SrvOp.locking sem (⟨r, true⟩, log)

@[simp] theorem step_lock (k : Unit → SrvProg α) :
    stepIn r log (lockClientDataMutex >>= k) false = toGiveIn r log (k ()) := rfl

@[simp] theorem step_strAt (p : CharPtr) (k : List UInt8 → SrvProg α) (held : Bool) :
    stepIn r log (strAt p >>= k) held = some (k (r.strAt p), ⟨r, held⟩, log) := rfl

@[simp] theorem step_send_bind (fd : Int) (msg : Msg) (k : Unit → SrvProg α) (held : Bool) :
    stepIn r log (sendMsgToFd fd msg >>= k) held
      = some (k (), ⟨r, held⟩, log ++ [.sent fd msg]) := rfl

@[simp] theorem toGive_pure (a : α) :
    toGiveIn r log (pure a) = some (pure a, ⟨r, true⟩, log) := rfl

@[simp] theorem toGive_unlock :
    toGiveIn r log unlockClientDataMutex = some (pure (), ⟨r, false⟩, log) := rfl

@[simp] theorem toGive_unlock_bind (k : Unit → SrvProg α) :
    toGiveIn r log (unlockClientDataMutex >>= k) = some (k (), ⟨r, false⟩, log) := rfl

@[simp] theorem toGive_setName (fd : Int) (name : List UInt8) (k : SrvQueueErr → SrvProg α) :
    toGiveIn r log (setNameOfClientByClientFd fd name >>= k)
      = toGiveIn ((Write.name fd name).apply r) (log ++ [.wrote (.name fd name)])
          (k (r.setNameOfClientByClientFd fd name).1) := rfl

@[simp] theorem toGive_setStatus (fd : Int) (s : ChatStatus) (k : ChatErr → SrvProg α) :
    toGiveIn r log (setClientChattingStatusByFd fd s >>= k)
      = toGiveIn ((Write.status fd s).apply r) (log ++ [.wrote (.status fd s)])
          (k (r.setClientChattingStatusByFd fd s).1) := rfl

@[simp] theorem toGive_setToFd (fd f : Int) (k : ChatErr → SrvProg α) :
    toGiveIn r log (setToFdByFd fd f >>= k)
      = toGiveIn ((Write.toFd fd f).apply r) (log ++ [.wrote (.toFd fd f)])
          (k (r.setToFdByFd fd f).1) := rfl

@[simp] theorem toGive_getName (fd : Int) (k : CharPtr → SrvProg α) :
    toGiveIn r log (getClientNameByFd fd >>= k) = toGiveIn r log (k (r.getClientNameByFd fd)) := rfl

@[simp] theorem toGive_strAt (p : CharPtr) (k : List UInt8 → SrvProg α) :
    toGiveIn r log (strAt p >>= k) = toGiveIn r log (k (r.strAt p)) := rfl

@[simp] theorem toGive_fdByName (name : List UInt8) (k : Int → SrvProg α) :
    toGiveIn r log (getClientFdByName name >>= k)
      = toGiveIn r log (k (r.getClientFdByName name)) := rfl

@[simp] theorem toGive_check (name : List UInt8) (k : NameFind → SrvProg α) :
    toGiveIn r log (checkClientWithSameNameExistOrNot name >>= k)
      = toGiveIn r log (k (r.checkClientWithSameNameExistOrNot name)) := rfl

@[simp] theorem toGive_statusByName (name : List UInt8) (k : ChatStatus → SrvProg α) :
    toGiveIn r log (getClientChattingStatusByName name >>= k)
      = toGiveIn r log (k (r.getClientChattingStatusByName name)) := rfl

@[simp] theorem toGive_statusByFd (fd : Int) (k : ChatStatus → SrvProg α) :
    toGiveIn r log (getClientChattingStatusByFd fd >>= k)
      = toGiveIn r log (k (r.getClientChattingStatusByFd fd)) := rfl

@[simp] theorem toGive_connFd (fd : Int) (k : Int → SrvProg α) :
    toGiveIn r log (getConnFdByFd fd >>= k) = toGiveIn r log (k (r.getConnFdByFd fd)) := rfl

@[simp] theorem toGiveIn_ite (c : Prop) [Decidable c] (p q : SrvProg α) :
    toGiveIn r log (if c then p else q) = if c then toGiveIn r log p else toGiveIn r log q :=
  Prog.toGive_ite _ _ c p q _

end Steps

/-! ## The connection with the programs -/

section Sections
variable (fd : Int) (r : Registry) (log : List Act)

/-- What is left after a step from a free mutex, and the state it leaves. -/
def stepped (p : Point) : SrvProg Unit × Server × List Act :=
  ((p.next fd r).prog fd, ran r log (p.acts fd r) (p.leavesHeld fd r))

theorem setNameStep (msg : Msg) :
    stepIn r log ((setName msg).prog fd) false = some (stepped fd r log (.setName msg)) := by
  simp only [prog, setNameHandler, stepped, acts, next, leavesHeld]
  by_cases hex : r.checkClientWithSameNameExistOrNot msg.buffer.bytes = .nameNotExist
  · by_cases hok : (r.setNameOfClientByClientFd fd msg.buffer.bytes).1 = .succ
    · simp [hex, hok, ran, replay, replyProg]
    · simp [hex, hok, ran, replay]
  · simp [hex, ran, replay, replyProg]

theorem connectStep (hfd : fd ≠ invalidFd) (name : List UInt8) :
    stepIn r log ((connect name).prog fd) false = some (stepped fd r log (.connect name)) := by
  simp only [prog, handleChatConnectionRequest, stepped, acts, next, leavesHeld, if_neg hfd,
    Registry.nameOf]
  by_cases hex : r.checkClientWithSameNameExistOrNot name = .nameExists
  swap
  · simp [hex, ran, replay, replyProg, answer]
  by_cases hself : strcmp (r.strAt (r.getClientNameByFd fd)) name = 0
  · simp [hex, hself, ran, replay, replyProg, answer]
  cases hst : r.getClientChattingStatusByName name with
  | free =>
      simp only [step_lock, toGive_check, hex, if_true, toGive_getName, toGive_strAt, hself,
        if_false, toGive_statusByName, toGive_unlock_bind, hst, reduceCtorEq, ne_eq,
        not_true_eq_false, ran, replay, List.append_nil]
      rfl
  | busy | reqPending | clientNotFound | max =>
      simp [hex, hself, hst, ran, replay, replyProg, answer]

theorem claimStep (name : List UInt8) (myName : CharPtr) :
    stepIn r log ((claim name myName).prog fd) false
      = some (stepped fd r log (.claim name myName)) := by
  by_cases h : r.getClientFdByName name = invalidFd
  · simp [h, prog, claimProg, stepped, acts, next, ran, leavesHeld, replay]
  · simp [h, prog, claimProg, stepped, acts, next, ran, leavesHeld, replay]

theorem acceptStep :
    stepIn r log (accept.prog fd) false = some (stepped fd r log .accept) := by
  simp only [prog, handleConnAccept, stepped, acts, next, leavesHeld, Registry.nameOf]
  by_cases hc : r.getConnFdByFd fd = invalidFd
  · simp [hc, ran, replay]
  by_cases hun : strcmp (r.strAt (r.getClientNameByFd (r.getConnFdByFd fd))) undefName = 0
  · simp [hc, hun, ran, replay, replyProg]
  by_cases hbusy : r.getClientChattingStatusByFd (r.getConnFdByFd fd) = .busy
  · simp [hc, hun, hbusy, ran, replay, refuseProg, copyRefusedProg, replyProg]
  have hbusy' : .busy ≠ r.getClientChattingStatusByFd (r.getConnFdByFd fd) :=
    fun h => hbusy h.symm
  by_cases hst : r.getClientChattingStatusByFd fd = .reqPending
  · simp only [step_lock, toGive_statusByFd, toGive_connFd, if_neg hc, toGive_getName,
      toGive_strAt, if_neg hun, toGive_unlock_bind, if_neg hbusy', if_neg hbusy, hst, ne_eq,
      not_true_eq_false, if_false]
    simp only [hc, hun, not_false_eq_true, true_and, if_false, ran, replay, List.append_nil,
      decide_false]
    rfl
  · have hst' : .reqPending ≠ r.getClientChattingStatusByFd fd := fun h => hst h.symm
    simp [hc, hun, hbusy, hbusy', hst, hst', ran, replay, replyProg]

theorem declineStep (hfd : fd ≠ invalidFd) :
    stepIn r log (decline.prog fd) false = some (stepped fd r log .decline) := by
  simp only [prog, handleDeclineConnRequest, stepped, acts, next, leavesHeld, if_neg hfd]
  by_cases hst : r.getClientChattingStatusByFd fd = .reqPending
  · by_cases hc : r.getConnFdByFd fd = invalidFd
    · simp [hst, hc, ran, replay]
    · simp [hst, hc, ran, replay, copyDeclinerProg, tellDeclinedProg, undoRequestProg]
  · have hst' : .reqPending ≠ r.getClientChattingStatusByFd fd := fun h => hst h.symm
    simp [hst, hst', ran, replay]

theorem txStep (msg : Msg) :
    stepIn r log ((tx msg).prog fd) false = some (stepped fd r log (.tx msg)) := by
  simp only [prog, handleTxMsg, stepped, acts, next, leavesHeld]
  by_cases hst : r.getClientChattingStatusByFd fd = .busy
  · by_cases hc : r.getConnFdByFd fd = invalidFd
    · by_cases hd : strcmp msg.buffer.bytes disconnectCmd = 0
      · simp [hst, hc, hd, ran, replay]
      · simp [hst, hc, hd, ran, replay]
    · by_cases hd : strcmp msg.buffer.bytes disconnectCmd = 0
      · simp [hst, hc, hd, ran, replay, disconnectProg]
      · simp [hst, hc, hd, ran, replay]
  · have hst' : .busy ≠ r.getClientChattingStatusByFd fd := fun h => hst h.symm
    simp [hst, hst', ran, replay]

/-- The sections that do not branch. -/
theorem plainStep (p : Point)
    (hp : p matches .link .. | .refuse .. | .pair .. | .undoRequest | .disconnect ..) :
    stepIn r log (p.prog fd) false = some (stepped fd r log p) := by
  cases p with
  | link name myName connFd =>
      simp [prog, linkProg, stepped, acts, next, leavesHeld, ran, replay]
  | refuse connName =>
      simp [prog, refuseProg, stepped, acts, next, leavesHeld, ran, replay]
  | pair connFd =>
      simp [prog, pairProg, stepped, acts, next, leavesHeld, ran, replay]
  | undoRequest =>
      simp [prog, undoRequestProg, stepped, acts, next, leavesHeld, ran, replay]
  | disconnect connFd =>
      simp [prog, disconnectProg, stepped, acts, next, leavesHeld, ran, replay, Registry.nameOf]
  | _ => cases hp

/-- One operation outside of the sections, whoever holds the mutex. -/
theorem bareStep (p : Point) (hp : p.locks = false) (hdone : p ≠ done) (held : Bool) :
    stepIn r log (p.prog fd) held =
      some ((p.next fd r).prog fd, ⟨replay r (p.acts fd r), held⟩, log ++ p.acts fd r) := by
  cases p with
  | done => exact absurd rfl hdone
  | copyAsker | copyRefused | copyMine | copyConn | copyDecliner =>
      simp only [acts, List.append_nil]
      rfl
  | checkConn connFd connName myName =>
      simp only [acts, List.append_nil, next, apply_ite (fun p : Point => p.prog fd)]
      rfl
  | checkMine connFd connName myName =>
      simp only [acts, List.append_nil, next, apply_ite (fun p : Point => p.prog fd)]
      rfl
  | ask | ready | tellDeclined | tell | reply => rfl
  | _ => cases hp

/-- A step of what is left of a handler is a step of its point. -/
theorem step_prog (hfd : fd ≠ invalidFd) {p : Point} (hdone : p ≠ done) (held : Bool) :
    stepIn r log (p.prog fd) held =
      if p.locks && held then none
      else some ((p.next fd r).prog fd,
        ⟨replay r (p.acts fd r), if p.locks then p.leavesHeld fd r else held⟩,
        log ++ p.acts fd r) := by
  cases hl : p.locks with
  | false =>
      rw [bareStep fd r log p hl hdone held]
      rfl
  | true =>
      cases held with
      | true =>
          cases p with
          | setName | claim | link | accept | refuse | pair | undoRequest | tx | disconnect => rfl
          | connect name =>
              simp only [prog, handleChatConnectionRequest, if_neg hfd]
              rfl
          | decline =>
              simp only [prog, handleDeclineConnRequest, if_neg hfd]
              rfl
          | _ => cases hl
      | false =>
          show stepIn r log (p.prog fd) false = some (stepped fd r log p)
          cases p with
          | setName msg => exact setNameStep fd r log msg
          | connect name => exact connectStep fd r log hfd name
          | claim name myName => exact claimStep fd r log name myName
          | accept => exact acceptStep fd r log
          | decline => exact declineStep fd r log hfd
          | tx msg => exact txStep fd r log msg
          | link | refuse | pair | undoRequest | disconnect => exact plainStep fd r log _ rfl
          | _ => cases hl

/-- A handler that is not interrupted after its next step. -/
theorem run_step (hfd : fd ≠ invalidFd) {p : Point} (hdone : p ≠ done) (held : Bool) :
    (p.prog fd).run sem (⟨r, held⟩, log) =
      if p.locks && held then none
      else ((p.next fd r).prog fd).run sem
        (⟨replay r (p.acts fd r), if p.locks then p.leavesHeld fd r else held⟩,
          log ++ p.acts fd r) := by
  have hop : ∀ a, p.prog fd ≠ .ret a := by
    intro a he
    have hstep := step_prog fd r log hfd hdone false
    rw [he, Bool.and_false, if_neg Bool.false_ne_true] at hstep
    cases hstep
  rw [Prog.run_eq_step SrvOp.locking sem hop]
  show (stepIn r log (p.prog fd) held).bind _ = _
  rw [step_prog fd r log hfd hdone held]
  split <;> rfl

/-- `handle_rx_msg` starts at `start`. -/
theorem prog_start (msg : Msg) (h : msg.msgType ≠ .getClientListType) :
    (start msg).prog fd = handleRxMsg msg fd := by
  unfold start handleRxMsg
  cases hm : msg.msgType with
  | getClientListType => exact absurd hm h
  | _ => rfl

end Sections
end Point

end ChatSocket
