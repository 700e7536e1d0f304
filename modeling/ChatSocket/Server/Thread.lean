/-
# `Server.Thread` — the receive loop of `client_thread`

A thread polls its connection and receives; each message it has received is
handed to `handle_rx_msg`, and the end of the connection to the branch that
removes the client.  What poll and recv answer is the input of the loop, and the
events it hands on, in order, are its output: these are the events of
`Server.Atomic`.

`server_terminate` is left out: it only ends the loop, as the end of the input
does.
-/
import ChatSocket.Server.Atomic
import ChatSocket.Wire

namespace ChatSocket

open Kit

/-- `srv_err_type`. -/
inductive SrvErr where
  | succ
  | libInit
  | threadCreate
  | terminateDetected
  | connEst
  | msgSend
  | clientClosedConn
  | recv
  | addNodeFailed
  | readTimeout
  deriving DecidableEq

/-- What `poll` answers, and `recv` if there is input. -/
inductive Poll where
  | error
  | timeout
  | noInput
  | input (r : Recv)
  deriving DecidableEq

def waitToRecvSomething (rxMsg : MsgMem) : Poll → SrvErr × MsgMem
  | .error => (.clientClosedConn, rxMsg)
  | .timeout => (.readTimeout, rxMsg)
  | .input (.bytes chunk) => (.succ, recvInto rxMsg chunk.bytes)
  | .input .closed => (.clientClosedConn, rxMsg)
  | .input .error => (.recv, rxMsg)
  | .noInput => (.recv, rxMsg)

/-- The `while` loop of `client_thread`; `rx_msg` is zeroed in every turn. -/
def clientThreadLoop (mySocket : Int) : List Poll → List Event
  | [] => []
  | p :: polls =>
      match waitToRecvSomething (.zero _) p with
      | (.succ, rxMsg) => .rxMsg mySocket rxMsg.msg :: clientThreadLoop mySocket polls
      | (.clientClosedConn, _) => [.closed mySocket]
      | _ => clientThreadLoop mySocket polls

/-- The message of an event. -/
def Event.msg? : Event → Option Msg
  | rxMsg _ msg => some msg
  | accepted _ _ | closed _ => none

/-- The bytes that came. -/
def Poll.chunk? : Poll → Option (Chunk sizeofMsg)
  | input (.bytes chunk) => some chunk
  | _ => none

/-- The connection is not lost. -/
def Poll.Calm : Poll → Prop
  | error | input .closed | input .error => False
  | timeout | noInput | input (.bytes _) => True

/-- On a connection that is not lost, the thread hands on one message a chunk. -/
theorem msgs_clientThreadLoop (mySocket : Int) {polls : List Poll} (h : ∀ p ∈ polls, p.Calm) :
    (clientThreadLoop mySocket polls).filterMap Event.msg?
      = ((polls.filterMap Poll.chunk?).map Chunk.bytes).map
          fun chunk => (recvInto (.zero _) chunk).msg := by
  induction polls with
  | nil => rfl
  | cons p polls ih =>
      obtain ⟨hp, hpolls⟩ := List.forall_mem_cons.mp h
      have ih := ih hpolls
      match p, hp with
      | .timeout, _ => exact ih
      | .noInput, _ => exact ih
      | .input (.bytes chunk), _ => exact congrArg (List.cons _) ih

end ChatSocket
