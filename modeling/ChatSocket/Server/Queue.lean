/-
# `Server.Queue` — the client registry (`server_queue.h`, `server_queue.c`)

The registry is the singly linked list `client_list` and the counter
`total_available_clients`.  The list is a Lean list in link order; a node also
has an address.  `malloc` hands out a fresh address every time, so an address
is the identity of a connection even where the kernel reuses its descriptor;
`mallocs` counts the addresses handed out.

Each function is a function of the registry and returns its C result, with the
registry after the call where the call may write.  Every walk of the C code
(`while (temp && fd != temp->data.fd) temp = temp->next;`) is `look`, and a
write through the pointer it ends at is `alter`.

`get_client_name_by_fd` returns a pointer, either into the node or to the
literal `UNDEF_NAME`; `strAt` is the C string a pointer leads to at the moment
it is read.  The tests of arguments against the null pointer are left out: a
Lean value is never null, and no caller passes null.  `thread_id` is left out:
only `pthread_detach` and `pthread_join` read it.
-/
import ChatSocket.Common
import ChatSocket.Kit.Keyed

namespace ChatSocket

open Kit

def maxClient : Nat := 20

/-- `client_chat_status_t`. -/
inductive ChatStatus where
  | free
  | busy
  | clientNotFound
  | reqPending
  | max
  deriving DecidableEq

/-- `srv_queue_err_type_t`. -/
inductive SrvQueueErr where
  | succ
  | nullPtr
  | mallocFailed
  | listEmpty
  | queueFull
  | invalidId
  | nodeNotFound
  | noClientIdFree
  | nameNotSet
  deriving DecidableEq

/-- `chat_err_t`. -/
inductive ChatErr where
  | success
  | clientNotFound
  | invalidChatStatus
  | nullPtr
  deriving DecidableEq

/-- `name_find_type_t`. -/
inductive NameFind where
  | nameExists
  | nameNotExist
  | nameFindErr
  deriving DecidableEq

/-- `client_data_t`. -/
structure ClientData where
  chatStatus : ChatStatus
  fd : Int
  toFd : Int
  name : Buf maxClientNameLen
  deriving DecidableEq

/-- `client_node_t`, with its address in place of `next`. -/
structure ClientNode where
  addr : Nat
  data : ClientData
  deriving DecidableEq

/-- The descriptor a walk compares. -/
def ClientNode.fd (n : ClientNode) : Int := n.data.fd

structure Registry where
  clientList : List ClientNode
  totalAvailableClients : UInt8
  mallocs : Nat
  deriving DecidableEq

/-- A `char*` to a name: the literal, or the `name` array of a node. -/
inductive CharPtr where
  | undefName
  | nodeName (addr : Nat)
  deriving DecidableEq

namespace Registry

/-- The registry when the server starts. -/
def empty : Registry := ⟨[], 0, 0⟩

/-- Where a walk for `fd` ends. -/
def node (r : Registry) (fd : Int) : Option ClientNode := look ClientNode.fd fd r.clientList

/-- Where a walk for `name` ends: the first node with `strcmp(name, temp->data.name) == 0`. -/
def nodeByName (r : Registry) (name : List UInt8) : Option ClientNode :=
  r.clientList.find? fun n => strcmp name n.data.name.bytes = 0

/-- Write through the pointer a walk for `fd` ends at. -/
def modify (r : Registry) (fd : Int) (f : ClientData → ClientData) : Registry :=
  { r with
    clientList := alter ClientNode.fd fd (fun n => { n with data := f n.data }) r.clientList }

/-- `memset(name, 0, MAX_CLIENT_NAME_LEN); sprintf(name, "temp_client_name_%d", fd);` -/
def tempClientName (fd : Int) : Buf maxClientNameLen :=
  (Buf.zero maxClientNameLen).strcpy (ascii "temp_client_name_" ++ ascii (toString fd))

def addClientNodeToQueue (r : Registry) (fd : Int) (mallocOk : Bool) : SrvQueueErr × Registry :=
  if r.totalAvailableClients.toNat ≥ maxClient then (.queueFull, r)
  else if !mallocOk then (.mallocFailed, r)
  else
    (.succ,
      { clientList := r.clientList ++ [⟨r.mallocs, ⟨.free, fd, invalidFd, tempClientName fd⟩⟩]
        totalAvailableClients := r.totalAvailableClients + 1
        mallocs := r.mallocs + 1 })

def removeClientNodeFromQueueByFd (r : Registry) (fd : Int) : SrvQueueErr × Registry :=
  match r.clientList with
  | [] => (.listEmpty, r)
  | head :: rest =>
      if fd = invalidFd then (.nodeNotFound, r)
      else if head.fd = fd then
        (.succ, { r with
          clientList := rest
          totalAvailableClients := r.totalAvailableClients - 1 })
      else
        match look ClientNode.fd fd rest with
        | none => (.nodeNotFound, r)
        | some _ =>
            (.succ, { r with
              clientList := head :: rest.eraseP fun n => n.fd = fd
              totalAvailableClients := r.totalAvailableClients - 1 })

/-- `strncpy(dst, name, MAX_CLIENT_NAME_LEN-1); dst[MAX_CLIENT_NAME_LEN-1] = '\0';` -/
def storeName (dst : Buf maxClientNameLen) (name : List UInt8) : Buf maxClientNameLen :=
  (dst.strncpy name (maxClientNameLen - 1)).put (maxClientNameLen - 1) 0

def setNameOfClientByClientFd (r : Registry) (fd : Int) (name : List UInt8) :
    SrvQueueErr × Registry :=
  if r.clientList = [] then (.listEmpty, r)
  else if fd = invalidFd then (.nameNotSet, r)
  else
    match r.node fd with
    | none => (.nameNotSet, r)
    | some _ =>
        (.succ, r.modify fd fun d => { d with name := storeName d.name name })

def getClientNameByFd (r : Registry) (sock : Int) : CharPtr :=
  if r.clientList = [] then .undefName
  else if sock = invalidFd then .undefName
  else
    match r.node sock with
    | none => .undefName
    | some n => .nodeName n.addr

/-- The C string behind a name pointer; nothing is left behind a freed node's. -/
def strAt (r : Registry) : CharPtr → List UInt8
  | .undefName => ChatSocket.undefName
  | .nodeName a =>
      match look ClientNode.addr a r.clientList with
      | none => []
      | some n => n.data.name.str

def getClientFdByName (r : Registry) (name : List UInt8) : Int :=
  if r.clientList = [] then invalidFd
  else
    match r.nodeByName name with
    | none => invalidFd
    | some n => n.fd

/-- The loop of `get_client_list`; `listLen` is `list_len`. -/
def getClientListLoop : List ClientNode → Buf maxMsgLen → Nat → Buf maxMsgLen
  | [], list, _ => list
  | n :: rest, list, listLen =>
      let nameLen := strlen n.data.name.bytes
      if listLen + nameLen + 1 ≥ maxMsgLen then list
      else
        let list₁ := list.strncat n.data.name.bytes (maxMsgLen - listLen - 1)
        let listLen₁ := strlen list₁.bytes
        if listLen₁ + 1 < maxMsgLen then
          getClientListLoop rest (list₁.strncat (ascii " ") (maxMsgLen - listLen₁ - 1))
            (listLen₁ + 1)
        else getClientListLoop rest list₁ listLen₁

def getClientList (r : Registry) (list : Buf maxMsgLen) : SrvQueueErr × Buf maxMsgLen :=
  if r.clientList = [] then (.listEmpty, list)
  else (.succ, getClientListLoop r.clientList list 0)

def checkClientWithSameNameExistOrNot (r : Registry) (name : List UInt8) : NameFind :=
  if r.clientList = [] then .nameFindErr
  else
    match r.nodeByName name with
    | none => .nameNotExist
    | some _ => .nameExists

def getClientChattingStatusByName (r : Registry) (name : List UInt8) : ChatStatus :=
  match r.nodeByName name with
  | none => .clientNotFound
  | some n => n.data.chatStatus

def getClientChattingStatusByFd (r : Registry) (fd : Int) : ChatStatus :=
  if fd = invalidFd then .clientNotFound
  else
    match r.node fd with
    | none => .clientNotFound
    | some n => n.data.chatStatus

def setClientChattingStatusByFd (r : Registry) (fd : Int) (chatStatus : ChatStatus) :
    ChatErr × Registry :=
  if chatStatus = .max then (.invalidChatStatus, r)
  else if fd = invalidFd then (.clientNotFound, r)
  else
    match r.node fd with
    | none => (.clientNotFound, r)
    | some _ => (.success, r.modify fd fun d => { d with chatStatus := chatStatus })

def setToFdByFd (r : Registry) (myFd toFd : Int) : ChatErr × Registry :=
  if myFd = invalidFd then (.clientNotFound, r)
  else
    match r.node myFd with
    | none => (.clientNotFound, r)
    | some _ => (.success, r.modify myFd fun d => { d with toFd := toFd })

def getConnFdByFd (r : Registry) (myFd : Int) : Int :=
  if myFd = invalidFd then invalidFd
  else
    match r.node myFd with
    | none => invalidFd
    | some n => n.data.toFd

end Registry

end ChatSocket
