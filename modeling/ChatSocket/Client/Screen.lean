/-
# `Client.Screen` — what the user sees (`main_client.c`, `user_iterectaions.c`)

`msg_handle_cb` prints a line or two for every message the client receives, and
`process_send_msg` for some of the lines that are typed.  A text that is printed is a
list of bytes; `%s` prints a C string.

A line of the chat says who has said it: the name in `connected_client_name`.
-/
import ChatSocket.Client.Lib
import ChatSocket.Client.User

namespace ChatSocket

open Kit

/-- `msgTypeStr`; the first one is for values that are none. -/
def msgTypeStr : List (List UInt8) :=
  [ascii "UNDEFINED_MSG_TYPE", ascii "MSG_CLIENT_RX_TYPE", ascii "MSG_CLIENT_TX_TYPE",
   ascii "MSG_CLIENT_ACK_TYPE", ascii "MSG_CLIENT_NACK", ascii "MSG_SET_NAME_REQ_TYPE",
   ascii "MSG_SET_NAME_ACK_TYPE", ascii "MSG_SET_NAME_NACK_TYPE", ascii "MSG_SERVER",
   ascii "MSG_CONN_ESTABLISH_REQ", ascii "MSG_CONN_ESTABLISH_ACK",
   ascii "MSG_GET_CLIENT_LIST_TYPE", ascii "MSG_CONNECT_TO_CLIENT",
   ascii "MSG_CONNECTION_REQ_RX", ascii "MSG_CLIENT_BUSY", ascii "MSG_CLIENT_FREE",
   ascii "MSG_CLIENT_ACCEPT_CONNECTION", ascii "MSG_CLIENT_DECLINE_CONNECTION",
   ascii "MSG_CLIENT_DECLINE_CONNECTION_ACK", ascii "MSG_CLIENT_NOT_EXIST",
   ascii "MSG_ATTEMPT_TO_CONNECT_TO_SELF", ascii "MSG_CLIENT_STATUS_REQ_PENDING",
   ascii "MSG_CLIENT_ACCEPT_CONNECTION_ACK", ascii "MSG_CLIENT_NO_MORE_FREE",
   ascii "MSG_CLIENT_NO_MORE_EXIST", ascii "MSG_CLIENT_TERMINATION",
   ascii "MSG_CLIENT_DISCONNECTED", ascii "MSG_CLIENT_CHAT_READY",
   ascii "MSG_CLIENT_CHANGE_CONN_FD_REQ", ascii "MSG_MAX_CLIENT_REACHED"]

def msgTypeToStr (type : MsgType) : List UInt8 :=
  if type.code ≥ msgTypeMax then msgTypeStr.getD 0 [] else msgTypeStr.getD (type.code + 1) []

/-- The table is read inside of its bounds. -/
theorem msgTypeToStr_mem (type : MsgType) : msgTypeToStr type ∈ msgTypeStr := by
  have hget : ∀ i, i < msgTypeStr.length → msgTypeStr.getD i [] ∈ msgTypeStr := by
    intro i hi
    rw [List.getD_eq_getElem _ _ hi]
    exact List.getElem_mem hi
  unfold msgTypeToStr
  split
  · exact hget 0 (by decide)
  · next hlt => exact hget _ (Nat.succ_lt_succ (Nat.not_le.mp hlt))

/-- `printf("…%s…", s)`. -/
def printf (before : String) (s : List UInt8) (after : String) : List UInt8 :=
  ascii before ++ cstr s ++ ascii after

def showHelp : List (List UInt8) :=
  [ascii "cmd : [ get_list] : To get list off all connected client to the server (including you).\n",
   ascii "cmd : [ set_name] : To set your name as you wish.\n",
   ascii "cmd : [ connect client_name ]: will connect you to the client named \"client_name\".\n",
   ascii "cmd : [ disconnect ] : To disconnect from the client you previously connected.\n",
   ascii "cmd : [ help ] : To print the help and usage of all commands.\n",
   ascii "cmd : [ clear ] : To clear the screen.\n"]

/-- `printf("[ %s ] : [ %s ]\n", connected_client_name, rx_msg.msg_data.buffer)`. -/
def chatLine (name text : List UInt8) : List UInt8 :=
  ascii "[ " ++ name ++ ascii " ] : [ " ++ text ++ ascii " ]\n"

namespace Client

/-- What `msg_handle_cb` prints. -/
def msgHandleCb (c : Client) (rxMsg : Msg) : List (List UInt8) :=
  let buffer := rxMsg.buffer.bytes
  match rxMsg.msgType with
  | .setNameAckType => [ascii "Name set successfully\n"]
  | .setNameNackType => [ascii "Name not set.\n"]
  | .getClientListType => [printf "Available clients on server : " buffer "\n"]
  | .connectionReqRx =>
      [printf "[ " buffer " ] Wants to connect with you.\n",
       ascii "Enter \"yes\" or \"no\" to accept or decline connection request.\n"]
  | .clientStatusReqPending =>
      [printf "Cannot connect with [ " buffer " ], processing other connection request.\n"]
  | .clientAcceptConnectionAck =>
      [printf "[ " buffer " ] accepted your connection request.\n", ascii "You can chat now.\n"]
  | .clientNoMoreFree =>
      [printf "Cannot connect to [ " buffer " ], no more available to chat.\n"]
  | .clientTermination => [printf "Client terminated : " buffer ".\n"]
  | .clientDisconnected => [printf "Client disconnected : [ " buffer " ].\n"]
  | .clientChatReady => [printf "Ready to chat with : [ " buffer " ].\n"]
  | .clientDeclineConnectionAck => [printf "[ " buffer " ] Declined your connection request.\n"]
  | .clientFree =>
      [ascii "Requested client is free to chat, Waitig for request approval.\n"]
  | .clientBusy =>
      [printf "[ " buffer " ] is now busy in chat with someone else, cannot connect to you.\n"]
  | .attemptToConnectToSelf => [ascii "Cannot connect to our-self.\n"]
  | .clientNotExist => [printf "No client with name : " buffer ".\n"]
  | .clientRxType => [chatLine c.connectedClientName.str rxMsg.buffer.str]
  | type =>
      [ascii "msg rx , msg_type : " ++ msgTypeToStr type ++ printf ", msg_data : " buffer "\n"]

/-- What `process_send_msg` prints, beside what it sends (`processSendMsg`). -/
def printsFor (c : Client) (sendMsgBuffer : List UInt8) : List (List UInt8) :=
  if c.busyInChat then
    if strcmp sendMsgBuffer disconnectCmd = 0 then [ascii "You are quittig the chat.\n"] else []
  else if c.connRequestRx ∧ strcmp sendMsgBuffer reqAcceptStr = 0 then []
  else if c.connRequestRx ∧ strcmp sendMsgBuffer reqDeclineStr = 0 then []
  else if c.connRequestRx then
    [ascii "Please enter \"yes\" or \"no\" to accept or decline connection request.\n"]
  else
    match getCmdIdByName sendMsgBuffer with
    | .maxCmd => [printf "[ " sendMsgBuffer " ] is not recognised as valid command.\n"]
    | .getList => []
    | .connect =>
        match nameArg sendMsgBuffer with
        | some name => [printf "Connection request to " name " send.\n"]
        | none => [ascii "No client name provided to connect.\n"]
    | .disconnect => [ascii "You are not connected to anyone.\n"]
    | .setName =>
        match nameArg sendMsgBuffer with
        | some _ => []
        | none => [ascii "No name provided\n"]
    | .printHelp | .clearScreen => showHelp

end Client

end ChatSocket
