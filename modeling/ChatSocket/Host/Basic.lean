/-
# `Host.Basic` — the server process: the accept loop and the client threads

A `Host` is the whole process beside the kernel: the shared registry and its
mutex, the accept loop of `wait_for_client_conn_and_accept`, and one thread for
every connection that was given one.  The kernel's part is `conns`, the
descriptors that are open and the connection each stands for, and `written`,
what has been sent on each connection.  A connection is known by the number of
the `accept` that returned it; a descriptor may stand for one connection after
another.

A `Move` lets the accept loop or one thread make one step: a critical section, or
one operation outside of any (`Server.Points`).  What the kernel answers is part
of the move: which descriptor `accept` returns, whether `malloc`,
`pthread_create` and `send` succeed, what `recv` and `poll` bring.  `accept`
returns no descriptor that is open.  Sections wait for the mutex.

The three walks that take no mutex go node by node: that of
`send_client_list_handler`, that of `join_all_client_threads` and that of
`free_all_client_nodes`.  A node that has been freed reads as a node without a
name and without a successor.
-/
import ChatSocket.Server.Points
import ChatSocket.Server.Thread

namespace ChatSocket

open Kit

/-- What a client thread is at. -/
inductive Stage where
  /-- Created, and not registered. -/
  | starting
  /-- Registered; MSG_CONN_ESTABLISH_REQ is not sent. -/
  | greeting
  | awaitingAck
  /-- In `poll`. -/
  | polling
  /-- In a handler; at `done`, before the test of `server_terminate`. -/
  | serving (p : Point)
  /-- In `get_client_list`, before it reads `client_list`. -/
  | listHead
  /-- In `get_client_list`, before it visits a node. -/
  | listing (node : Nat) (list : Buf maxMsgLen) (listLen : Nat)
  /-- The connection is seen to be closed. -/
  | closing
  | exited
  deriving DecidableEq

structure Thread where
  fd : Int
  stage : Stage
  deriving DecidableEq

/-- What `wait_for_client_conn_and_accept` is at. -/
inductive LoopPoint where
  /-- Before the test of `server_terminate`. -/
  | waiting
  | accepting
  | accepted (fd : Int)
  /-- `temp_client_count` is read. -/
  | counted (fd : Int) (count : Nat)
  /-- In `join_all_client_threads`, before it visits a node. -/
  | joining (node : Option Nat)
  /-- In `pthread_join`, for the thread of a node. -/
  | joinWait (node : Nat) (thread : Nat)
  /-- In `free_all_client_nodes`. -/
  | freeing
  /-- Returned ERR_THREAD_CREATE. -/
  | failed
  /-- Returned SERVER_TERMINATE_DETECTED. -/
  | freed
  deriving DecidableEq

structure Host where
  server : Server
  /-- The open descriptors, and what they stand for. -/
  conns : Int → Option Nat
  /-- How many connections were accepted. -/
  accepts : Nat
  /-- The thread of a connection. -/
  threads : Nat → Option Thread
  /-- What was sent on a connection. -/
  written : Nat → List Msg
  loop : LoopPoint
  terminate : Bool

/-- What the kernel answers a thread. -/
inductive Answer where
  | none
  | malloc (ok : Bool)
  | sent (ok : Bool)
  | recv (r : Recv)
  | poll (p : Poll)
  deriving DecidableEq

inductive Move where
  /-- `accept` returns a descriptor. -/
  | accepts (fd : Int)
  /-- `accept` returns -1, interrupted by a signal or not. -/
  | acceptFails (interrupted : Bool)
  /-- Any other step of the accept loop. -/
  | acceptLoop (mallocOk createOk : Bool)
  | thread (t : Nat) (answer : Answer)
  | sigint
  deriving DecidableEq

/-! ## The walk of `get_client_list`, node by node -/

/-- The address behind a node's `next`. -/
def nextAddr (a : Nat) : List ClientNode → Option Nat
  | [] => none
  | n :: rest => if n.addr = a then rest.head?.map ClientNode.addr else nextAddr a rest

/-- What the loop does with a node: the list and its length, unless the node does not fit. -/
def listNode (name : List UInt8) (list : Buf maxMsgLen) (listLen : Nat) :
    Option (Buf maxMsgLen × Nat) :=
  if listLen + strlen name + 1 ≥ maxMsgLen then none
  else
    let list₁ := list.strncat name (maxMsgLen - listLen - 1)
    let listLen₁ := strlen list₁.bytes
    if listLen₁ + 1 < maxMsgLen then
      some (list₁.strncat (ascii " ") (maxMsgLen - listLen₁ - 1), listLen₁ + 1)
    else some (list₁, listLen₁)

def listReply (list : Buf maxMsgLen) : Stage :=
  .serving (.reply { Msg.ofType .getClientListType with buffer := list })

/-- On to the next node. -/
def listOn (next : Option Nat) (list : Buf maxMsgLen) (listLen : Nat) : Stage :=
  match next with
  | none => listReply list
  | some b => .listing b list listLen

def visit (r : Registry) (a : Nat) (list : Buf maxMsgLen) (listLen : Nat) : Stage :=
  match look ClientNode.addr a r.clientList with
  | none => listReply list
  | some n =>
      match listNode n.data.name.bytes list listLen with
      | none => listReply list
      | some (list', listLen') => listOn (nextAddr a r.clientList) list' listLen'

/-! ## A client thread -/

/-- What `send_conn_establish_msg` sends. -/
def connEstablishReq : Msg := .withText .connEstablishReq serverUniqueueId

/-- Whether what it receives is a whole MSG_CONN_ESTABLISH_ACK. -/
def Recv.Acks : Recv → Prop
  | bytes chunk => chunk.bytes.length = sizeofMsg ∧
      (recvInto (.zero _) chunk.bytes).msg.msgType = .connEstablishAck
  | closed | error => False

instance : DecidablePred Recv.Acks
  | .bytes _ => inferInstanceAs (Decidable (_ ∧ _))
  | .closed | .error => inferInstanceAs (Decidable False)

/-- Where `handle_rx_msg` starts. -/
def Stage.rx (msg : Msg) : Stage :=
  if msg.msgType = .getClientListType then listHead else serving (Point.start msg)

/-- What the thread does with what `wait_to_recv_something` returns. -/
def Stage.polled (p : Poll) : Stage :=
  match waitToRecvSomething (.zero _) p with
  | (.succ, rxMsg) => rx rxMsg.msg
  | (.clientClosedConn, _) => closing
  | _ => serving .done

/-- The steps of a thread that write nothing and send nothing. -/
def Stage.quiet (r : Registry) (terminate : Bool) : Stage → Answer → Option Stage
  | greeting, .sent false => some exited
  | awaitingAck, .recv r => some (if r.Acks then serving .done else exited)
  | serving .done, .none => some (if terminate then exited else polling)
  | polling, .poll p => some (polled p)
  | listHead, .none => some (listOn (r.clientList.head?.map ClientNode.addr) (.zero _) 0)
  | listing a list listLen, .none => some (visit r a list listLen)
  | _, _ => none

/-- The handler that goes on, if the thread is in one. -/
def Stage.handler? : Stage → Answer → Option Point
  | serving .done, _ => none
  | serving p, .none => some p
  | _, _ => none

namespace Host

abbrev registry (h : Host) : Registry := h.server.registry

def boot : Host where
  server := .boot
  conns := fun _ => none
  accepts := 0
  threads := fun _ => none
  written := fun _ => []
  loop := .waiting
  terminate := false

/-- A removal closes the descriptor of the node it finds. -/
def closeRemoved (r : Registry) (acts : List Act) (conns : Int → Option Nat) : Int → Option Nat :=
  fun g => if .wrote (.remove g) ∈ acts ∧ (r.node g).isSome then none else conns g

/-- What is sent goes to the connection its descriptor stands for. -/
def msgsOn (conns : Int → Option Nat) (c : Nat) (acts : List Act) : List Msg :=
  acts.filterMap fun
    | .sent fd msg => if conns fd = some c then some msg else none
    | .wrote _ => none

/-- The process after the acts of a step. -/
def perform (h : Host) (acts : List Act) (held : Bool) : Host :=
  { h with
    server := ⟨replay h.registry acts, held⟩
    conns := closeRemoved h.registry acts h.conns
    written := fun c => h.written c ++ msgsOn h.conns c acts }

/-- Thread `t` is at `stage` now. -/
def goto (h : Host) (t : Nat) (th : Thread) (stage : Stage) : Host :=
  { h with threads := Function.update h.threads t (some { th with stage := stage }) }

/-- What a thread does in one step, and where it is then.  A section waits for the mutex. -/
def threadStep (h : Host) (t : Nat) (th : Thread) (answer : Answer) :
    Option (Host × List Act) :=
  let held := h.server.mutexHeld
  match th.stage, answer with
  | .starting, .malloc ok =>
      if held then none
      else
        let acts := registerActs h.registry th.fd ok
        let stage : Stage :=
          if (h.registry.addClientNodeToQueue th.fd ok).1 ≠ .succ then .exited else .greeting
        some ((h.perform acts false).goto t th stage, acts)
  | .greeting, .sent true =>
      let acts := [.sent th.fd connEstablishReq]
      some ((h.perform acts held).goto t th .awaitingAck, acts)
  | .closing, .none =>
      if held then none
      else
        let acts := closedActs h.registry th.fd
        some ((h.perform acts false).goto t th .exited, acts)
  | stage, answer =>
      match stage.handler? answer with
      | some p =>
          if p.locks && held then none
          else
            let acts := p.acts th.fd h.registry
            let held' := if p.locks then p.leavesHeld th.fd h.registry else held
            some ((h.perform acts held').goto t th (.serving (p.next th.fd h.registry)), acts)
      | none =>
          (stage.quiet h.registry h.terminate answer).map fun stage' => (h.goto t th stage', [])

/-! ## The accept loop -/

/-- `join_all_client_threads` starts. -/
def joinHead (h : Host) : LoopPoint := .joining (h.registry.clientList.head?.map ClientNode.addr)

/-- The accept loop is at `l` now. -/
def loopAt (h : Host) (l : LoopPoint) : Host := { h with loop := l }

/-- A step of the accept loop; what `malloc` and `pthread_create` answer matters where they
are called. -/
def loopStep (h : Host) (mallocOk createOk : Bool) : Option (Host × List Act) :=
  match h.loop with
  | .waiting => some (h.loopAt (if h.terminate then h.joinHead else .accepting), [])
  | .accepted fd =>
      if h.server.mutexHeld then none
      else some (h.loopAt (.counted fd h.registry.totalAvailableClients.toNat), [])
  | .counted fd count =>
      if count < maxClient then
        if !mallocOk then some (h.loopAt .waiting, [])
        else if !createOk then some (h.loopAt .failed, [])
        else
          (h.conns fd).map fun t =>
            ({ h.loopAt .waiting with
              threads := Function.update h.threads t (some ⟨fd, .starting⟩) }, [])
      else
        let acts := [.sent fd (.ofType .maxClientReached)]
        some ((h.perform acts h.server.mutexHeld).loopAt .waiting, acts)
  | .joining none => some (h.loopAt .freeing, [])
  | .joining (some a) =>
      match look ClientNode.addr a h.registry.clientList with
      | none => some (h.loopAt (.joining none), [])
      | some n => (h.conns n.fd).map fun t => (h.loopAt (.joinWait a t), [])
  | .joinWait a t =>
      if (h.threads t).map Thread.stage = some .exited then
        some (h.loopAt (.joining (nextAddr a h.registry.clientList)), [])
      else none
  | .freeing =>
      match h.registry.clientList with
      | [] => some (h.loopAt .freed, [])
      | _ :: rest =>
          some ({ h with
            server := ⟨{ h.registry with clientList := rest }, h.server.mutexHeld⟩ }, [])
  | .accepting | .failed | .freed => none

end Host

/-- One step of the process. -/
def hostStep (h : Host) : Move → Option (Host × List Act)
  | .accepts fd =>
      if h.loop = .accepting ∧ 0 ≤ fd ∧ fd < 2 ^ 31 ∧ h.conns fd = none then
        some ({ h.loopAt (.accepted fd) with
          conns := Function.update h.conns fd (some h.accepts)
          accepts := h.accepts + 1 }, [])
      else none
  | .acceptFails interrupted =>
      if h.loop = .accepting then
        some (h.loopAt (if interrupted && h.terminate then h.joinHead else .waiting), [])
      else none
  | .acceptLoop mallocOk createOk => h.loopStep mallocOk createOk
  | .thread t answer => (h.threads t).bind fun th => h.threadStep t th answer
  | .sigint => some ({ h with terminate := true }, [])

end ChatSocket
