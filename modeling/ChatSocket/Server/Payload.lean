/-
# `Server.Payload` — how much of a payload is read

A payload is 512 bytes off the network, with or without a NUL among them.  The
two handlers that take a name, `set_name_handler` and
`handle_chat_connection_request`, give it as it is to `strcmp`, `strncpy` and
`memcpy`.

Here both are written once more, over a payload that is a piece of memory with
nothing behind it: what they would read past its end they refuse.
`reads_name_only`: the first MAX_CLIENT_NAME_LEN bytes are enough, and the
handlers do on them what they do on the whole.  What stops them is the other
string: every stored name ends within MAX_CLIENT_NAME_LEN bytes, and no
comparison outlives it.
-/
import ChatSocket.Kit.Reads
import ChatSocket.Server.Nodes

namespace ChatSocket

open Kit

namespace Registry

/-- The memory a name pointer leads to. -/
def memAt (r : Registry) : CharPtr → List UInt8
  | .undefName => ChatSocket.undefName ++ [0]
  | .nodeName a =>
      match look ClientNode.addr a r.clientList with
      | none => []
      | some n => n.data.name.bytes

/-! ## The functions that read a payload -/

/-- Where a walk for `name` ends. -/
def nodeByName? (name : List UInt8) : List ClientNode → Option (Option ClientNode)
  | [] => some none
  | n :: rest => do
      if (← strcmp? name n.data.name.bytes) = 0 then some (some n) else nodeByName? name rest

def setNameOfClientByClientFd? (r : Registry) (fd : Int) (name : List UInt8) :
    Option (SrvQueueErr × Registry) :=
  if r.clientList = [] then some (.listEmpty, r)
  else if fd = invalidFd then some (.nameNotSet, r)
  else
    match r.node fd with
    | none => some (.nameNotSet, r)
    | some _ => do
        let bytes ← strncpy? (maxClientNameLen - 1) name
        some (.succ, r.modify fd fun d =>
          { d with name := (d.name.write bytes).put (maxClientNameLen - 1) 0 })

def getClientFdByName? (r : Registry) (name : List UInt8) : Option Int :=
  if r.clientList = [] then some invalidFd
  else do
    match (← nodeByName? name r.clientList) with
    | none => some invalidFd
    | some n => some n.fd

def checkClientWithSameNameExistOrNot? (r : Registry) (name : List UInt8) : Option NameFind :=
  if r.clientList = [] then some .nameFindErr
  else do
    match (← nodeByName? name r.clientList) with
    | none => some .nameNotExist
    | some _ => some .nameExists

def getClientChattingStatusByName? (r : Registry) (name : List UInt8) : Option ChatStatus := do
  match (← nodeByName? name r.clientList) with
  | none => some .clientNotFound
  | some n => some n.data.chatStatus

end Registry

/-! ## The handlers -/

/-- A handler that may refuse to read on. -/
abbrev Reading (α : Type) := StateT (Server × List Act) Option α

/-- What does not read the payload is done as before. -/
instance : MonadLift SrvProg Reading := ⟨fun p q => p.run sem q⟩

/-- What reads the payload may read the registry besides. -/
def reading {α : Type} (f : Registry → Option α) : Reading α :=
  fun q => (f q.1.registry).map fun a => (a, q)

/-- `set_name_of_client_by_client_fd` writes besides. -/
def settingName (fd : Int) (name : List UInt8) : Reading SrvQueueErr :=
  fun q => (q.1.registry.setNameOfClientByClientFd? fd name).map fun p =>
    (p.1, ⟨p.2, q.1.mutexHeld⟩, q.2)

open SrvProg

def setNameHandler? (fd : Int) (name : List UInt8) : Reading Unit := do
  lockClientDataMutex
  let ret ← reading (·.checkClientWithSameNameExistOrNot? name)
  if ret ≠ .nameNotExist then
    unlockClientDataMutex
    sendMsgToFd fd (.ofType .setNameNackType)
  else
    let retVal ← settingName fd name
    if retVal ≠ .succ then
      unlockClientDataMutex
    else
      unlockClientDataMutex
      sendMsgToFd fd (.ofType .setNameAckType)

def handleChatConnectionRequest? (fd : Int) (connClientName : List UInt8) : Reading Unit := do
  if fd = invalidFd then
    pure ()
  else
    let copied ← reading fun _ => memcpy? maxClientNameLen connClientName
    let connRespMsg : Msg := { Msg.zero with buffer := (Buf.zero _).write copied }
    lockClientDataMutex
    let ret ← reading (·.checkClientWithSameNameExistOrNot? connClientName)
    if ret = .nameExists then
      let myName ← getClientNameByFd fd
      if (← reading fun r => strcmp? (r.memAt myName) connClientName) = 0 then
        unlockClientDataMutex
        sendMsgToFd fd { connRespMsg with msgType := .attemptToConnectToSelf }
      else
        let chatStatus ← reading (·.getClientChattingStatusByName? connClientName)
        unlockClientDataMutex
        if chatStatus = .clientNotFound then
          sendMsgToFd fd { connRespMsg with msgType := .clientNotExist }
        else if .free = chatStatus then
          lockClientDataMutex
          let connClientFd ← reading (·.getClientFdByName? connClientName)
          let _ ← setClientChattingStatusByFd connClientFd .reqPending
          unlockClientDataMutex
          if connClientFd = invalidFd then
            sendMsgToFd fd { connRespMsg with msgType := .clientNotExist }
          else
            lockClientDataMutex
            let _ ← setToFdByFd fd connClientFd
            let _ ← setToFdByFd connClientFd fd
            unlockClientDataMutex
            sendMsgToFd connClientFd (.withText .connectionReqRx (← strAt myName))
            sendMsgToFd fd { connRespMsg with msgType := .clientFree }
        else if .busy = chatStatus then
          sendMsgToFd fd { connRespMsg with msgType := .clientBusy }
        else if .reqPending = chatStatus then
          sendMsgToFd fd { connRespMsg with msgType := .clientStatusReqPending }
        else
          sendMsgToFd fd { connRespMsg with msgType := .clientNotExist }
    else
      unlockClientDataMutex
      sendMsgToFd fd { connRespMsg with msgType := .clientNotExist }

/-! ## What they read -/

namespace Registry

variable {r : Registry} {name : List UInt8}

/-- A comparison of a payload with a stored name reads no more than a name's length. -/
theorem strcmp?_stored (hname : maxClientNameLen ≤ name.length) {stored : Buf maxClientNameLen}
    (hz : (0 : UInt8) ∈ stored.bytes) (x : List UInt8) :
    strcmp? name stored.bytes = some (strcmp (name ++ x) stored.bytes) := by
  have hlen : stored.bytes.length ≤ name.length := by
    rw [stored.size_eq]
    exact hname
  obtain ⟨c, hc⟩ := Option.isSome_iff_exists.mp (strcmp?_isSome (Or.inr ⟨hz, hlen⟩))
  have hcmp := strcmp_of_strcmp? hc x []
  rw [List.append_nil] at hcmp
  rw [hc, hcmp]

theorem nodeByName?_eq (hname : maxClientNameLen ≤ name.length) (x : List UInt8)
    {l : List ClientNode} (hl : ∀ n ∈ l, (0 : UInt8) ∈ n.data.name.bytes) :
    nodeByName? name l
      = some (l.find? fun n => strcmp (name ++ x) n.data.name.bytes = 0) := by
  induction l with
  | nil => rfl
  | cons n rest ih =>
      obtain ⟨hn, hrest⟩ := List.forall_mem_cons.mp hl
      rw [nodeByName?, strcmp?_stored hname hn x, List.find?_cons]
      by_cases hcmp : strcmp (name ++ x) n.data.name.bytes = 0
      · simp [hcmp]
      · simp [hcmp, ih hrest]

theorem setName?_eq (hname : maxClientNameLen ≤ name.length) (x : List UInt8) (fd : Int) :
    r.setNameOfClientByClientFd? fd name
      = some (r.setNameOfClientByClientFd fd (name ++ x)) := by
  have hlen : maxClientNameLen - 1 ≤ name.length := Nat.le_trans (Nat.sub_le _ _) hname
  simp only [setNameOfClientByClientFd?, setNameOfClientByClientFd, strncpy?_eq _ hlen x]
  split
  · rfl
  split
  · rfl
  · cases r.node fd <;> rfl

/-- The pointer a client's name is read through leads to a string that ends. -/
theorem Named.memAt_nameByFd (hr : r.Named) (fd : Int) :
    (0 : UInt8) ∈ r.memAt (r.getClientNameByFd fd) ∧
    (r.memAt (r.getClientNameByFd fd)).length ≤ maxClientNameLen ∧
      cstr (r.memAt (r.getClientNameByFd fd)) = r.nameOf fd := by
  have hundef : (0 : UInt8) ∈ r.memAt .undefName ∧
      (r.memAt .undefName).length ≤ maxClientNameLen ∧
        cstr (r.memAt .undefName) = r.strAt .undefName := by
    simp only [memAt, strAt]
    decide
  rw [nameOf, getClientNameByFd_eq]
  split
  · exact hundef
  cases hn : r.node fd with
  | none => exact hundef
  | some n =>
      show _ ∈ r.memAt (.nodeName n.addr) ∧ _
      cases hm : look ClientNode.addr n.addr r.clientList with
      | none => exact absurd rfl (look_eq_none_iff.mp hm n (look_mem hn))
      | some m =>
          simp only [memAt, strAt, Option.map_some, Option.getD_some, hm]
          exact ⟨hr m (look_mem hm), Nat.le_of_eq m.data.name.size_eq, rfl⟩

section
variable (hr : r.Named) (hname : maxClientNameLen ≤ name.length) (x : List UInt8)
include hr hname

theorem check?_eq : r.checkClientWithSameNameExistOrNot? name
    = some (r.checkClientWithSameNameExistOrNot (name ++ x)) := by
  have hwalk : nodeByName? name r.clientList = some (r.nodeByName (name ++ x)) :=
    nodeByName?_eq hname x hr
  simp only [checkClientWithSameNameExistOrNot?, checkClientWithSameNameExistOrNot, hwalk]
  split
  · rfl
  · cases r.nodeByName (name ++ x) <;> rfl

theorem fdByName?_eq :
    r.getClientFdByName? name = some (r.getClientFdByName (name ++ x)) := by
  have hwalk : nodeByName? name r.clientList = some (r.nodeByName (name ++ x)) :=
    nodeByName?_eq hname x hr
  simp only [getClientFdByName?, getClientFdByName, hwalk]
  split
  · rfl
  · cases r.nodeByName (name ++ x) <;> rfl

theorem statusByName?_eq : r.getClientChattingStatusByName? name
    = some (r.getClientChattingStatusByName (name ++ x)) := by
  have hwalk : nodeByName? name r.clientList = some (r.nodeByName (name ++ x)) :=
    nodeByName?_eq hname x hr
  simp only [getClientChattingStatusByName?, getClientChattingStatusByName, hwalk]
  cases r.nodeByName (name ++ x) <;> rfl

/-- The comparison of the sender's name with the payload. -/
theorem strcmp?_memAt (fd : Int) :
    ∃ c, strcmp? (r.memAt (r.getClientNameByFd fd)) name = some c ∧
      (c = 0 ↔ strcmp (r.nameOf fd) (name ++ x) = 0) := by
  obtain ⟨hz, hlen, hstr⟩ := hr.memAt_nameByFd fd
  have hsome : (strcmp? (r.memAt (r.getClientNameByFd fd)) name).isSome :=
    strcmp?_isSome (Or.inl ⟨hz, Nat.le_trans hlen hname⟩)
  obtain ⟨c, hc⟩ := Option.isSome_iff_exists.mp hsome
  have hcmp := strcmp_of_strcmp? hc [] x
  rw [List.append_nil] at hcmp
  refine ⟨c, hc, ?_⟩
  rw [← hcmp, strcmp_eq_zero_iff, strcmp_eq_zero_iff, ← hstr, cstr_cstr]

end

end Registry

/-! ## The handlers on the start of a payload -/

/-- The messages sent. -/
def sent (acts : List Act) : List (Int × Msg) :=
  acts.filterMap fun
    | .sent fd msg => some (fd, msg)
    | .wrote _ => none

section Steps
variable {α β : Type}

theorem reading_bind {f : Registry → Option β} {b : β} (q : Server × List Act)
    (h : f q.1.registry = some b) (k : β → Reading α) : (reading f >>= k) q = k b q := by
  show ((f q.1.registry).map fun a => (a, q)).bind _ = _
  rw [h]
  rfl

theorem setting_bind {fd : Int} {name : List UInt8} {p : SrvQueueErr × Registry}
    (q : Server × List Act) (h : q.1.registry.setNameOfClientByClientFd? fd name = some p)
    (k : SrvQueueErr → Reading α) :
    (settingName fd name >>= k) q = k p.1 (⟨p.2, q.1.mutexHeld⟩, q.2) := by
  show ((q.1.registry.setNameOfClientByClientFd? fd name).map _).bind _ = _
  rw [h]
  rfl

theorem lift_bind {p : SrvProg β} {q q' : Server × List Act} {b : β}
    (h : p.run sem q = some (b, q')) (k : β → Reading α) :
    ((liftM p : Reading β) >>= k) q = k b q' := by
  show (p.run sem q).bind _ = _
  rw [h]
  rfl

end Steps

section Runs
variable {r : Registry} {name : List UInt8} (hr : r.Named)
  (hname : maxClientNameLen ≤ name.length) (x : List UInt8) (fd : Int)
include hr hname

theorem connect?_run : handleChatConnectionRequest? fd name (⟨r, false⟩, [])
    = some ((), ran r [] (connectActs r fd (name ++ x)) false) := by
  have hcopy : (Buf.zero maxMsgLen).memcpy (name ++ x) maxClientNameLen
      = (Buf.zero maxMsgLen).write (name.take maxClientNameLen) := by
    rw [Buf.memcpy, List.take_append_of_le_length hname]
  have hcopied : memcpy? maxClientNameLen name = some (name.take maxClientNameLen) := if_pos hname
  have hcheck := Registry.check?_eq hr hname x
  have hstatus := Registry.statusByName?_eq hr hname x
  have hfd := Registry.fdByName?_eq hr hname x
  obtain ⟨c, hc, hself⟩ := Registry.strcmp?_memAt hr hname x fd
  unfold handleChatConnectionRequest? connectActs connectAnswer
  by_cases hvalid : fd = invalidFd
  · simp only [if_pos hvalid]
    rfl
  simp only [if_neg hvalid, hcopy]
  rw [reading_bind _ hcopied, lift_bind rfl, reading_bind _ hcheck]
  by_cases hex : r.checkClientWithSameNameExistOrNot (name ++ x) = .nameExists
  swap
  · simp only [hex, if_false, false_and, ne_eq, not_false_eq_true, if_true]
    rfl
  simp only [hex, if_true, true_and, ne_eq, not_true_eq_false, if_false]
  rw [lift_bind rfl, reading_bind _ hc]
  by_cases hs : c = 0
  · simp only [hs, hself.mp hs, if_true, not_true_eq_false, false_and, if_false]
    rfl
  have hother : ¬ strcmp (r.nameOf fd) (name ++ x) = 0 := fun h => hs (hself.mpr h)
  simp only [hs, hother, if_false, not_false_eq_true, true_and]
  rw [reading_bind _ hstatus, lift_bind rfl]
  cases hst : r.getClientChattingStatusByName (name ++ x) with
  | free =>
      simp only [if_true, reduceCtorEq, if_false]
      rw [lift_bind rfl, reading_bind _ hfd]
      by_cases hconn : r.getClientFdByName (name ++ x) = invalidFd
      · simp only [hconn, if_true]
        rfl
      · simp only [hconn, if_false]
        -- the name is read after the three writes, and none of them is to a name
        rw [lift_bind rfl, lift_bind rfl, lift_bind rfl, lift_bind rfl, lift_bind rfl,
          lift_bind rfl, lift_bind rfl]
        simp only [Write.strAt_toFd, Write.strAt_status]
        rfl
  | busy | reqPending | clientNotFound | max => rfl

theorem setName?_run : ∃ log, setNameHandler? fd name (⟨r, false⟩, [])
      = some ((), ⟨replay r (setNameActs r fd (name ++ x)), false⟩, log) ∧
    sent log = sent (setNameActs r fd (name ++ x)) := by
  have hcheck := Registry.check?_eq hr hname x
  have hset := Registry.setName?_eq hname x fd (r := r)
  unfold setNameHandler? setNameActs
  rw [lift_bind rfl, reading_bind _ hcheck]
  by_cases hfree : r.checkClientWithSameNameExistOrNot (name ++ x) = .nameNotExist
  · simp only [hfree, ne_eq, not_true_eq_false, if_false]
    rw [setting_bind _ hset]
    by_cases hsucc : (r.setNameOfClientByClientFd fd (name ++ x)).1 = .succ
    · simp only [hsucc, not_true_eq_false, if_false, if_true]
      exact ⟨_, rfl, rfl⟩
    · simp only [hsucc, not_false_eq_true, if_false, if_true]
      exact ⟨_, rfl, rfl⟩
  · simp only [hfree, ne_eq, not_false_eq_true, if_true]
    exact ⟨_, rfl, rfl⟩

end Runs

/-- What is to be seen of a handler: the server after it, and the messages it has sent. -/
def seen (q : Unit × Server × List Act) : Server × List (Int × Msg) := (q.2.1, sent q.2.2)

/-- A message of `fd`, handled from a free mutex. -/
def handled (r : Registry) (fd : Int) (msg : Msg) : Option (Server × List (Int × Msg)) :=
  ((handleRxMsg msg fd).run sem (⟨r, false⟩, [])).map seen

/-- A message with a name, of whose payload only `name` is there. -/
def handledOn (r : Registry) (fd : Int) (t : MsgType) (name : List UInt8) :
    Option (Server × List (Int × Msg)) :=
  match t with
  | .setNameReqType => (setNameHandler? fd name (⟨r, false⟩, [])).map seen
  | .connectToClient => (handleChatConnectionRequest? fd name (⟨r, false⟩, [])).map seen
  | _ => none

/-- A message with a name. -/
def Msg.Names (msg : Msg) : Prop := msg.msgType = .setNameReqType ∨ msg.msgType = .connectToClient

/-- Whatever stands behind a piece of a payload that is as long as a name, it is not read, and
what is done is what is done with the whole. -/
theorem handledOn_eq {r : Registry} (hr : r.Named) (fd : Int) {msg : Msg} (hmsg : msg.Names)
    {name : List UInt8} (hname : maxClientNameLen ≤ name.length) {x : List UInt8}
    (hx : msg.buffer.bytes = name ++ x) :
    ∃ o, handled r fd msg = some o ∧ handledOn r fd msg.msgType name = some o := by
  rcases hmsg with ht | ht
  · obtain ⟨log, hrun, hsent⟩ := setName?_run hr hname x fd
    have hwhole : (handleRxMsg msg fd).run sem (⟨r, false⟩, [])
        = some ((), ran r [] (setNameActs r fd (name ++ x)) false) := by
      simp only [handleRxMsg, ht]
      rw [← hx]
      exact setNameRun r [] fd msg
    refine ⟨_, congrArg (Option.map seen) hwhole, ?_⟩
    simp only [handledOn, ht, hrun, Option.map_some, seen, ran, List.nil_append, hsent]
  · have hwhole : (handleRxMsg msg fd).run sem (⟨r, false⟩, [])
        = some ((), ran r [] (connectActs r fd (name ++ x)) false) := by
      simp only [handleRxMsg, ht]
      rw [← hx]
      exact connectRun r [] fd msg.buffer.bytes
    refine ⟨_, congrArg (Option.map seen) hwhole, ?_⟩
    simp only [handledOn, ht, connect?_run hr hname x fd, Option.map_some]

/-- Two payloads that agree on their first MAX_CLIENT_NAME_LEN bytes, terminated or not, are
handled alike; and the handlers read no others: they do the same where there are no others. -/
theorem reads_name_only {r : Registry} (hr : r.Named) (fd : Int) {msg msg' : Msg}
    (hmsg : msg.Names) (ht : msg'.msgType = msg.msgType)
    (hagree : msg'.buffer.bytes.take maxClientNameLen = msg.buffer.bytes.take maxClientNameLen) :
    ∃ o, handled r fd msg = some o ∧ handled r fd msg' = some o ∧
      handledOn r fd msg.msgType (msg.buffer.bytes.take maxClientNameLen) = some o := by
  have hlen : ∀ p : Buf maxMsgLen, maxClientNameLen ≤ (p.bytes.take maxClientNameLen).length := by
    intro p
    rw [List.length_take, p.size_eq]
    decide
  have hmsg' : msg'.Names := by
    rw [Msg.Names, ht]
    exact hmsg
  obtain ⟨o, ho, hon⟩ := handledOn_eq hr fd hmsg (hlen msg.buffer)
    (List.take_append_drop maxClientNameLen msg.buffer.bytes).symm
  obtain ⟨o', ho', hon'⟩ := handledOn_eq hr fd hmsg' (hlen msg'.buffer)
    (List.take_append_drop maxClientNameLen msg'.buffer.bytes).symm
  rw [ht, hagree, hon] at hon'
  obtain rfl := Option.some.inj hon'
  exact ⟨o, ho, ho', hon⟩

/-- A payload without a NUL: as many of the one byte as a name is long, then the other. -/
def unterminated (a b : UInt8) : Buf maxMsgLen :=
  ⟨List.replicate maxClientNameLen a ++ List.replicate (maxMsgLen - maxClientNameLen) b, by
    rw [List.length_append, List.length_replicate, List.length_replicate]
    rfl⟩

/-- 4 asks for 64 characters, with two sorts of text behind them. -/
theorem reads_name_only_unterminated :
    let asking (b : UInt8) : Msg := ⟨0, .setNameReqType, unterminated 0x61 b⟩
    ∃ o, handled (afterRun [joins 4]) 4 (asking 0x61) = some o ∧
      handled (afterRun [joins 4]) 4 (asking 0x62) = some o ∧
      handledOn (afterRun [joins 4]) 4 .setNameReqType
        ((asking 0x61).buffer.bytes.take maxClientNameLen) = some o :=
  have hnamed : ∀ n ∈ (afterRun [joins 4]).clientList, (0 : UInt8) ∈ n.data.name.bytes := by
    decide +kernel
  reads_name_only hnamed 4 (Or.inl rfl) rfl (by decide +kernel)

end ChatSocket
