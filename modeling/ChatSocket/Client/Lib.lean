/-
# `Client.Lib` — the client library (`client_lib.c`)

What the client knows of its chat is `busy_in_chat`, `conn_request_rx` and
`connected_client_name`; the first and the third are the program's variables,
reached through `cb_parameters`.

A function that sends is the message it gives to `send_msg_to_server`; what that
returns no caller looks at.  The loop of `io_thread` is in `Client.IoThread`.
-/
import ChatSocket.Common

namespace ChatSocket

open Kit

structure Client where
  busyInChat : Bool
  connRequestRx : Bool
  connectedClientName : Buf maxClientNameLen
  deriving DecidableEq

/-- The client when it starts. -/
def Client.boot : Client := ⟨false, false, (Buf.zero _).strcpy undefName⟩

namespace Client

def setMyName (nameToSet : List UInt8) : Msg :=
  { toClientId := UInt8.ofNat MsgType.server.code
    msgType := .setNameReqType
    buffer := (Buf.zero _).strcpy nameToSet }

def getClientList : Msg := .ofType .getClientListType

/-- `memcpy` takes `MAX_MSG_LEN` bytes from the name on, whatever they are. -/
def connectWithClient (name : List UInt8) : Msg :=
  { Msg.ofType .connectToClient with buffer := (Buf.zero _).memcpy name maxMsgLen }

def handleRxMsgLib (c : Client) (rxMsg : Msg) : Client :=
  match rxMsg.msgType with
  | .connectionReqRx => { c with connRequestRx := true }
  | .clientAcceptConnectionAck =>
      { connRequestRx := false
        busyInChat := true
        connectedClientName := c.connectedClientName.strcpy rxMsg.buffer.bytes }
  | .clientChatReady =>
      { c with
        connectedClientName := c.connectedClientName.strcpy rxMsg.buffer.bytes
        busyInChat := true }
  | .clientNoMoreFree | .clientTermination | .clientDisconnected =>
      { connRequestRx := false
        busyInChat := false
        connectedClientName := c.connectedClientName.strcpy undefName }
  | _ => c

end Client

end ChatSocket
