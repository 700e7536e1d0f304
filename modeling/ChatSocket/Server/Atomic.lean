/-
# `Server.Atomic` — one event of the server at a time

An `Event` is a connection that registers, a message of a registered client, or
the closing of a registered connection; its `prog` is the code that handles it.
`serverStep` runs that code from start to end in the state the server is in.

`acts` says what the code does with an event if it finds the mutex free: every
write and every message, in order, read off the registry before the event.
`run_prog` is the connection of the two, handler by handler, and all other
files reason about `acts`.  It also says what becomes of the mutex:
`leavesHeld` is the one path that does not give it back.

`atomicStep` is the step the claims about runs are made for: each event starts
with the mutex free, whatever the one before it did with it.
-/
import ChatSocket.Server.Registry
import ChatSocket.Kit.Machine

namespace ChatSocket

open Kit

inductive Event where
  | accepted (fd : Int) (mallocOk : Bool)
  | rxMsg (fd : Int) (msg : Msg)
  | closed (fd : Int)
  deriving DecidableEq

/-! ## What the code does with an event -/

def declineActs (r : Registry) (fd : Int) : List Act :=
  if fd = invalidFd ∨ r.getClientChattingStatusByFd fd ≠ .reqPending
      ∨ r.getConnFdByFd fd = invalidFd then []
  else
    [.sent (r.getConnFdByFd fd) (.withText .clientDeclineConnectionAck (r.nameOf fd)),
     .wrote (.status fd .free)]

def txActs (r : Registry) (fd : Int) (msg : Msg) : List Act :=
  let connFd := r.getConnFdByFd fd
  if r.getClientChattingStatusByFd fd ≠ .busy ∨ connFd = invalidFd then []
  else if strcmp msg.buffer.bytes disconnectCmd = 0 then
    [.wrote (.status fd .free), .wrote (.status connFd .free),
     .wrote (.toFd fd invalidFd), .wrote (.toFd connFd invalidFd),
     .sent connFd (.withText .clientDisconnected (r.nameOf fd))]
  else [.sent connFd { msg with msgType := .clientRxType }]

/-- The answer to a request that finds no free client. -/
def connectAnswer (r : Registry) (fd : Int) (name : List UInt8) : MsgType :=
  if r.checkClientWithSameNameExistOrNot name ≠ .nameExists then .clientNotExist
  else if strcmp (r.nameOf fd) name = 0 then .attemptToConnectToSelf
  else
    match r.getClientChattingStatusByName name with
    | .free => if r.getClientFdByName name = invalidFd then .clientNotExist else .clientFree
    | .busy => .clientBusy
    | .reqPending => .clientStatusReqPending
    | .clientNotFound | .max => .clientNotExist

def connectActs (r : Registry) (fd : Int) (name : List UInt8) : List Act :=
  let answer : Msg := { toClientId := 0, msgType := connectAnswer r fd name,
                        buffer := (Buf.zero _).memcpy name maxClientNameLen }
  let connFd := r.getClientFdByName name
  if fd = invalidFd then []
  else if r.checkClientWithSameNameExistOrNot name = .nameExists
      ∧ strcmp (r.nameOf fd) name ≠ 0 ∧ r.getClientChattingStatusByName name = .free then
    if connFd = invalidFd then [.wrote (.status connFd .reqPending), .sent fd answer]
    else
      [.wrote (.status connFd .reqPending), .wrote (.toFd fd connFd), .wrote (.toFd connFd fd),
       .sent connFd (.withText .connectionReqRx (r.nameOf fd)), .sent fd answer]
  else [.sent fd answer]

def acceptActs (r : Registry) (fd : Int) : List Act :=
  let connFd := r.getConnFdByFd fd
  if connFd = invalidFd then []
  else if strcmp (r.nameOf connFd) undefName = 0 then
    [.wrote (.status fd .free), .wrote (.toFd fd invalidFd),
     .sent fd (.withText .clientNoMoreExist (ascii "Client_not_exist"))]
  else if r.getClientChattingStatusByFd connFd = .busy then
    [.wrote (.status fd .free), .sent fd (.withText .clientNoMoreFree (r.nameOf connFd))]
  else if r.getClientChattingStatusByFd fd ≠ .reqPending then
    [.sent fd (.withText .clientAcceptConnectionAck (ascii "SOMETHING_IS_WRONG"))]
  else
    [.wrote (.status fd .busy), .wrote (.status connFd .busy),
     .wrote (.toFd fd connFd), .wrote (.toFd connFd fd)] ++
      if strcmp (r.nameOf fd) undefName = 0 then []
      else
        [.sent fd (.withText .clientChatReady (r.nameOf connFd)),
         .sent connFd (.withText .clientAcceptConnectionAck (r.nameOf fd))]

def setNameActs (r : Registry) (fd : Int) (name : List UInt8) : List Act :=
  if r.checkClientWithSameNameExistOrNot name ≠ .nameNotExist then
    [.sent fd (.ofType .setNameNackType)]
  else
    .wrote (.name fd name) ::
      if (r.setNameOfClientByClientFd fd name).1 = .succ then [.sent fd (.ofType .setNameAckType)]
      else []

def clientListActs (r : Registry) (fd : Int) : List Act :=
  if fd = invalidFd then []
  else [.sent fd { Msg.ofType .getClientListType with buffer := (r.getClientList (.zero _)).2 }]

def rxActs (r : Registry) (fd : Int) (msg : Msg) : List Act :=
  match msg.msgType with
  | .setNameReqType => setNameActs r fd msg.buffer.bytes
  | .getClientListType => clientListActs r fd
  | .connectToClient => connectActs r fd msg.buffer.bytes
  | .clientAcceptConnection => acceptActs r fd
  | .clientTxType => txActs r fd msg
  | .clientDeclineConnection => declineActs r fd
  | _ => []

def registerActs (r : Registry) (fd : Int) (mallocOk : Bool) : List Act :=
  .wrote (.add fd mallocOk) ::
    if (r.addClientNodeToQueue fd mallocOk).1 = .succ then []
    else [.sent fd (.ofType .maxClientReached)]

def closedActs (r : Registry) (fd : Int) : List Act :=
  let connFd := r.getConnFdByFd fd
  (if connFd ≠ invalidFd ∧ r.getClientChattingStatusByFd connFd ≠ .free then
    [.wrote (.status connFd .free), .wrote (.toFd fd invalidFd),
     .sent connFd (.withText .clientTermination (r.nameOf fd))]
   else []) ++ [.wrote (.remove fd)]

/-- The registry after what was written. -/
def replay (r : Registry) : List Act → Registry
  | [] => r
  | .wrote w :: acts => replay (w.apply r) acts
  | .sent _ _ :: acts => replay r acts

theorem replay_registerActs (r : Registry) (fd : Int) (mallocOk : Bool) :
    replay r (registerActs r fd mallocOk) = (Write.add fd mallocOk).apply r := by
  unfold registerActs
  split <;> rfl

theorem replay_append (acts acts' : List Act) :
    ∀ r, replay r (acts ++ acts') = replay (replay r acts) acts' := by
  induction acts with
  | nil => exact fun _ => rfl
  | cons a acts ih =>
      intro r
      cases a with
      | wrote w => exact ih (w.apply r)
      | sent fd msg => exact ih r

theorem mallocs_le_replay : ∀ (acts : List Act) (r : Registry), r.mallocs ≤ (replay r acts).mallocs
  | [], _ => Nat.le_refl _
  | .wrote w :: acts, r => Nat.le_trans (r.mallocs_le_apply w) (mallocs_le_replay acts _)
  | .sent _ _ :: acts, r => mallocs_le_replay acts r

namespace Event

/-- The code that handles an event. -/
def prog : Event → SrvProg Unit
  | accepted fd mallocOk => do
      let _ ← clientThreadRegister fd mallocOk
      pure ()
  | rxMsg fd msg => handleRxMsg msg fd
  | closed fd => clientThreadClosed fd

/-- The registered client whose event it is. -/
def sender : Event → Option Int
  | accepted _ _ => none
  | rxMsg fd _ | closed fd => some fd

/-- A connection registers under a descriptor that is not in use; only registered clients
send and close. -/
def Possible (r : Registry) : Event → Prop
  | accepted fd _ => 0 ≤ fd ∧ r.node fd = none
  | rxMsg fd _ | closed fd => (r.node fd).isSome

instance (r : Registry) : (e : Event) → Decidable (e.Possible r)
  | accepted _ _ => inferInstanceAs (Decidable (_ ∧ _))
  | rxMsg fd _ | closed fd => inferInstanceAs (Decidable ((r.node fd).isSome = true))

/-- What the code does if it finds the mutex free. -/
def acts (r : Registry) : Event → List Act
  | accepted fd mallocOk => registerActs r fd mallocOk
  | rxMsg fd msg => rxActs r fd msg
  | closed fd => closedActs r fd

/-- The path that does not give the mutex back. -/
def leavesHeld (r : Registry) : Event → Bool
  | rxMsg fd msg => msg.msgType = .clientAcceptConnection ∧ r.getConnFdByFd fd = invalidFd
  | _ => false

end Event

/-- One event, from start to end; `none` if it is not possible or blocks. -/
def serverStep (s : Server) (e : Event) : Option (Server × List Act) :=
  if e.Possible s.registry then (e.prog.run sem (s, [])).map Prod.snd else none

/-- One event, from start to end, from a free mutex. -/
def atomicStep (r : Registry) (e : Event) : Option (Registry × List Act) :=
  (serverStep ⟨r, false⟩ e).map fun q => (q.1.registry, q.2)

/-! ## Running an operation

Each equation performs the first operation of a program; the last two are for a
program that is one operation. -/

section Run
variable {α : Type} (r : Registry) (held : Bool) (log : List Act)

@[simp] theorem run_lock (k : Unit → SrvProg α) :
    (SrvProg.lockClientDataMutex >>= k).run sem (⟨r, false⟩, log)
      = (k ()).run sem (⟨r, true⟩, log) := rfl

@[simp] theorem run_unlock_bind (k : Unit → SrvProg α) :
    (SrvProg.unlockClientDataMutex >>= k).run sem (⟨r, true⟩, log)
      = (k ()).run sem (⟨r, false⟩, log) := rfl

@[simp] theorem run_send_bind (fd : Int) (msg : Msg) (k : Unit → SrvProg α) :
    (SrvProg.sendMsgToFd fd msg >>= k).run sem (⟨r, held⟩, log)
      = (k ()).run sem (⟨r, held⟩, log ++ [.sent fd msg]) := rfl

@[simp] theorem run_add (fd : Int) (mallocOk : Bool) (k : SrvQueueErr → SrvProg α) :
    (SrvProg.addClientNodeToQueue fd mallocOk >>= k).run sem (⟨r, held⟩, log)
      = (k (r.addClientNodeToQueue fd mallocOk).1).run sem
          (⟨Write.apply r (.add fd mallocOk), held⟩, log ++ [.wrote (.add fd mallocOk)]) := rfl

@[simp] theorem run_remove (fd : Int) (k : SrvQueueErr → SrvProg α) :
    (SrvProg.removeClientNodeFromQueueByFd fd >>= k).run sem (⟨r, held⟩, log)
      = (k (r.removeClientNodeFromQueueByFd fd).1).run sem
          (⟨Write.apply r (.remove fd), held⟩, log ++ [.wrote (.remove fd)]) := rfl

@[simp] theorem run_setName (fd : Int) (name : List UInt8) (k : SrvQueueErr → SrvProg α) :
    (SrvProg.setNameOfClientByClientFd fd name >>= k).run sem (⟨r, held⟩, log)
      = (k (r.setNameOfClientByClientFd fd name).1).run sem
          (⟨Write.apply r (.name fd name), held⟩, log ++ [.wrote (.name fd name)]) := rfl

@[simp] theorem run_setStatus (fd : Int) (s : ChatStatus) (k : ChatErr → SrvProg α) :
    (SrvProg.setClientChattingStatusByFd fd s >>= k).run sem (⟨r, held⟩, log)
      = (k (r.setClientChattingStatusByFd fd s).1).run sem
          (⟨Write.apply r (.status fd s), held⟩, log ++ [.wrote (.status fd s)]) := rfl

@[simp] theorem run_setToFd (fd f : Int) (k : ChatErr → SrvProg α) :
    (SrvProg.setToFdByFd fd f >>= k).run sem (⟨r, held⟩, log)
      = (k (r.setToFdByFd fd f).1).run sem
          (⟨Write.apply r (.toFd fd f), held⟩, log ++ [.wrote (.toFd fd f)]) := rfl

@[simp] theorem run_getName (fd : Int) (k : CharPtr → SrvProg α) :
    (SrvProg.getClientNameByFd fd >>= k).run sem (⟨r, held⟩, log)
      = (k (r.getClientNameByFd fd)).run sem (⟨r, held⟩, log) := rfl

@[simp] theorem run_strAt (p : CharPtr) (k : List UInt8 → SrvProg α) :
    (SrvProg.strAt p >>= k).run sem (⟨r, held⟩, log)
      = (k (r.strAt p)).run sem (⟨r, held⟩, log) := rfl

@[simp] theorem run_fdByName (name : List UInt8) (k : Int → SrvProg α) :
    (SrvProg.getClientFdByName name >>= k).run sem (⟨r, held⟩, log)
      = (k (r.getClientFdByName name)).run sem (⟨r, held⟩, log) := rfl

@[simp] theorem run_list (list : Buf maxMsgLen) (k : SrvQueueErr × Buf maxMsgLen → SrvProg α) :
    (SrvProg.getClientList list >>= k).run sem (⟨r, held⟩, log)
      = (k (r.getClientList list)).run sem (⟨r, held⟩, log) := rfl

@[simp] theorem run_check (name : List UInt8) (k : NameFind → SrvProg α) :
    (SrvProg.checkClientWithSameNameExistOrNot name >>= k).run sem (⟨r, held⟩, log)
      = (k (r.checkClientWithSameNameExistOrNot name)).run sem (⟨r, held⟩, log) := rfl

@[simp] theorem run_statusByName (name : List UInt8) (k : ChatStatus → SrvProg α) :
    (SrvProg.getClientChattingStatusByName name >>= k).run sem (⟨r, held⟩, log)
      = (k (r.getClientChattingStatusByName name)).run sem (⟨r, held⟩, log) := rfl

@[simp] theorem run_statusByFd (fd : Int) (k : ChatStatus → SrvProg α) :
    (SrvProg.getClientChattingStatusByFd fd >>= k).run sem (⟨r, held⟩, log)
      = (k (r.getClientChattingStatusByFd fd)).run sem (⟨r, held⟩, log) := rfl

@[simp] theorem run_connFd (fd : Int) (k : Int → SrvProg α) :
    (SrvProg.getConnFdByFd fd >>= k).run sem (⟨r, held⟩, log)
      = (k (r.getConnFdByFd fd)).run sem (⟨r, held⟩, log) := rfl

@[simp] theorem run_unlock :
    SrvProg.unlockClientDataMutex.run sem (⟨r, true⟩, log) = some ((), ⟨r, false⟩, log) := rfl

@[simp] theorem run_send (fd : Int) (msg : Msg) :
    (SrvProg.sendMsgToFd fd msg).run sem (⟨r, held⟩, log)
      = some ((), ⟨r, held⟩, log ++ [.sent fd msg]) := rfl

end Run

/-! ## Running a handler from a free mutex -/

section Handlers
variable (r : Registry) (log : List Act)

/-- The end of a run that started at `(⟨r, false⟩, log)`, did `acts` and leaves the mutex
`held`. -/
def ran (acts : List Act) (held : Bool) : Server × List Act :=
  (⟨replay r acts, held⟩, log ++ acts)

theorem declineRun (fd : Int) :
    (handleDeclineConnRequest fd).run sem (⟨r, false⟩, log)
      = some ((), ran r log (declineActs r fd) false) := by
  unfold handleDeclineConnRequest declineActs
  by_cases hfd : fd = invalidFd
  · simp [hfd, ran, replay]
  by_cases hst : r.getClientChattingStatusByFd fd = .reqPending
  · by_cases hc : r.getConnFdByFd fd = invalidFd
    · simp [hfd, hst, hc, ran, replay]
    · simp [hfd, hst, hc, ran, replay, Registry.nameOf]
  · have hst' : .reqPending ≠ r.getClientChattingStatusByFd fd := fun h => hst h.symm
    simp [hfd, hst, hst', ran, replay]

theorem txRun (fd : Int) (msg : Msg) :
    (handleTxMsg fd msg).run sem (⟨r, false⟩, log) =
      some ((), ran r log (txActs r fd msg) false) := by
  unfold handleTxMsg txActs
  by_cases hst : r.getClientChattingStatusByFd fd = .busy
  · by_cases hc : r.getConnFdByFd fd = invalidFd
    · by_cases hd : strcmp msg.buffer.bytes disconnectCmd = 0
      · simp [hst, hc, hd, ran, replay]
      · simp [hst, hc, hd, ran, replay]
    · by_cases hd : strcmp msg.buffer.bytes disconnectCmd = 0
      · simp [hst, hc, hd, ran, replay, Registry.nameOf]
      · simp [hst, hc, hd, ran, replay]
  · have hst' : .busy ≠ r.getClientChattingStatusByFd fd := fun h => hst h.symm
    simp [hst, hst', ran, replay]

theorem connectRun (fd : Int) (name : List UInt8) :
    (handleChatConnectionRequest fd name).run sem (⟨r, false⟩, log)
      = some ((), ran r log (connectActs r fd name) false) := by
  unfold handleChatConnectionRequest connectActs connectAnswer Registry.nameOf
  by_cases hfd : fd = invalidFd
  · simp [hfd, ran, replay]
  by_cases hex : r.checkClientWithSameNameExistOrNot name = .nameExists
  swap
  · simp [hfd, hex, ran, replay, Msg.zero]
  by_cases hself : strcmp (r.strAt (r.getClientNameByFd fd)) name = 0
  · simp [hfd, hex, hself, ran, replay, Msg.zero]
  cases hst : r.getClientChattingStatusByName name with
  | free =>
      by_cases hc : r.getClientFdByName name = invalidFd
      · simp [hfd, hex, hself, hst, hc, ran, replay, Msg.zero]
      · simp [hfd, hex, hself, hst, hc, ran, replay, Msg.zero]
  | busy | reqPending | clientNotFound | max =>
      simp [hfd, hex, hself, hst, ran, replay, Msg.zero]

theorem acceptRun (fd : Int) (msg : Msg) :
    (handleConnAccept fd msg).run sem (⟨r, false⟩, log)
      = some ((), ran r log (acceptActs r fd) (r.getConnFdByFd fd = invalidFd)) := by
  unfold handleConnAccept acceptActs Registry.nameOf
  by_cases hc : r.getConnFdByFd fd = invalidFd
  · simp [hc, ran, replay]
  by_cases hun : strcmp (r.strAt (r.getClientNameByFd (r.getConnFdByFd fd))) undefName = 0
  · simp [hc, hun, ran, replay]
  by_cases hbusy : r.getClientChattingStatusByFd (r.getConnFdByFd fd) = .busy
  · simp [hc, hun, hbusy, ran, replay]
  have hbusy' : .busy ≠ r.getClientChattingStatusByFd (r.getConnFdByFd fd) :=
    fun h => hbusy h.symm
  by_cases hst : r.getClientChattingStatusByFd fd = .reqPending
  · by_cases hme : strcmp (r.strAt (r.getClientNameByFd fd)) undefName = 0
    · simp [hc, hun, hbusy, hbusy', hst, hme, ran, replay]
    · simp [hc, hun, hbusy, hbusy', hst, hme, ran, replay]
  · have hst' : .reqPending ≠ r.getClientChattingStatusByFd fd := fun h => hst h.symm
    simp [hc, hun, hbusy, hbusy', hst, hst', ran, replay]

theorem setNameRun (fd : Int) (msg : Msg) :
    (setNameHandler fd msg).run sem (⟨r, false⟩, log)
      = some ((), ran r log (setNameActs r fd msg.buffer.bytes) false) := by
  unfold setNameHandler setNameActs
  by_cases hex : r.checkClientWithSameNameExistOrNot msg.buffer.bytes = .nameNotExist
  · by_cases hok : (r.setNameOfClientByClientFd fd msg.buffer.bytes).1 = .succ
    · simp [hex, hok, ran, replay]
    · simp [hex, hok, ran, replay]
  · simp [hex, ran, replay]

theorem clientListRun (fd : Int) :
    (sendClientListHandler fd).run sem (⟨r, false⟩, log)
      = some ((), ran r log (clientListActs r fd) false) := by
  unfold sendClientListHandler clientListActs
  by_cases hfd : fd = invalidFd
  · simp [hfd, ran, replay]
  · simp [hfd, ran, replay]

theorem registerRun (fd : Int) (mallocOk : Bool) :
    (Event.accepted fd mallocOk).prog.run sem (⟨r, false⟩, log)
      = some ((), ran r log (registerActs r fd mallocOk) false) := by
  unfold Event.prog clientThreadRegister registerActs
  rw [Prog.run_bind]
  by_cases hok : (r.addClientNodeToQueue fd mallocOk).1 = .succ
  · simp [hok, ran, replay]
  · simp [hok, ran, replay]

theorem closedRun (fd : Int) :
    (clientThreadClosed fd).run sem (⟨r, false⟩, log)
      = some ((), ran r log (closedActs r fd) false) := by
  unfold clientThreadClosed closedActs
  by_cases hc : r.getConnFdByFd fd = invalidFd
  · simp [hc, ran, replay]
  have hc' : invalidFd ≠ r.getConnFdByFd fd := fun h => hc h.symm
  by_cases hst : r.getClientChattingStatusByFd (r.getConnFdByFd fd) = .free
  · simp [hc, hc', hst, ran, replay]
  · have hst' : .free ≠ r.getClientChattingStatusByFd (r.getConnFdByFd fd) :=
      fun h => hst h.symm
    simp [hc, hc', hst, hst', ran, replay, Registry.nameOf]

/-- Every event, from a free mutex, is handled to the end: no operation on the mutex is
refused, and `acts` is what is done. -/
theorem run_prog (e : Event) :
    e.prog.run sem (⟨r, false⟩, log) = some ((), ran r log (e.acts r) (e.leavesHeld r)) := by
  cases e with
  | accepted fd mallocOk => exact registerRun r log fd mallocOk
  | closed fd => exact closedRun r log fd
  | rxMsg fd msg =>
      simp only [Event.prog, handleRxMsg, Event.acts, rxActs, Event.leavesHeld]
      cases hm : msg.msgType with
      | setNameReqType => simpa using setNameRun r log fd msg
      | getClientListType => simpa using clientListRun r log fd
      | connectToClient => simpa using connectRun r log fd msg.buffer.bytes
      | clientAcceptConnection => simpa using acceptRun r log fd msg
      | clientTxType => simpa using txRun r log fd msg
      | clientDeclineConnection => simpa using declineRun r log fd
      | _ => simp [ran, replay, handleChangeConnFdReq]

end Handlers

/-! ## The two steps -/

theorem serverStep_free (r : Registry) (e : Event) :
    serverStep ⟨r, false⟩ e
      = if e.Possible r then some (⟨replay r (e.acts r), e.leavesHeld r⟩, e.acts r) else none := by
  unfold serverStep
  split
  · rw [run_prog]
    rfl
  · rfl

theorem atomicStep_eq (r : Registry) (e : Event) :
    atomicStep r e = if e.Possible r then some (replay r (e.acts r), e.acts r) else none := by
  rw [atomicStep, serverStep_free]
  split <;> rfl

theorem atomicStep_eq_some_iff {r r' : Registry} {e : Event} {acts : List Act} :
    atomicStep r e = some (r', acts) ↔
      e.Possible r ∧ r' = replay r (e.acts r) ∧ acts = e.acts r := by
  rw [atomicStep_eq]
  constructor
  · intro h
    split at h
    · next hp =>
        cases h
        exact ⟨hp, rfl, rfl⟩
    · cases h
  · rintro ⟨hp, rfl, rfl⟩
    rw [if_pos hp]

/-- A step beside which a record `f` is kept. -/
theorem atomicStep_map_eq_some_iff {τ : Type} {r : Registry} {e : Event} {acts : List Act}
    {f : Registry × List Act → τ} {t : τ} :
    (atomicStep r e).map (fun q => (f q, q.2)) = some (t, acts) ↔
      e.Possible r ∧ acts = e.acts r ∧ t = f (replay r (e.acts r), e.acts r) := by
  rw [atomicStep_eq]
  split
  · next he =>
      rw [Option.map_some, Option.some.injEq, Prod.mk.injEq]
      exact ⟨fun h => ⟨he, h.2.symm, h.1.symm⟩, fun h => ⟨h.2.2.symm, h.2.1.symm⟩⟩
  · next he => exact ⟨fun h => (nomatch h), fun h => absurd h.1 he⟩

/-! ## Runs in examples -/

/-- A client connects and is registered. -/
def joins (fd : Int) : Event := .accepted fd true

/-- `fd` asks for the client that still has the name it got when it joined as `t`. -/
def asks (fd t : Int) : Event :=
  .rxMsg fd (.withText .connectToClient (Registry.tempClientName t).str)

def acceptsAsker (fd : Int) : Event := .rxMsg fd (.ofType .clientAcceptConnection)
def declinesAsker (fd : Int) : Event := .rxMsg fd (.ofType .clientDeclineConnection)
def talks (fd : Int) (text : List UInt8) : Event := .rxMsg fd (.withText .clientTxType text)

/-- The registry a run leads to. -/
abbrev afterRun (es : List Event) : Registry := final atomicStep .empty es

end ChatSocket
