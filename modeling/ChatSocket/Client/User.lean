/-
# `Client.User` — what the user types (`user_iterectaions.c`)

A line is memory from `send_msg_buffer` on.  `process_send_msg` is a function of
the client and the line, and returns the client after the call and the messages
it sent; the texts it prints are in `Client.Screen`.
-/
import ChatSocket.Client.Lib

namespace ChatSocket

open Kit

/-- `cmd_type_t`. -/
inductive CmdType where
  | getList
  | connect
  | disconnect
  | setName
  | printHelp
  | clearScreen
  | maxCmd
  deriving DecidableEq

def reqAcceptStr : List UInt8 := ascii "yes"
def reqDeclineStr : List UInt8 := ascii "no"

/-- `cmd_list`, with the values of `cmd_type_t` that index it. -/
def cmdList : List (CmdType × List UInt8) :=
  [(.getList, ascii "get_list"), (.connect, ascii "connect"), (.disconnect, disconnectCmd),
   (.setName, ascii "set_name"), (.printHelp, ascii "help"), (.clearScreen, ascii "clear")]

def getCmdIdByName (cmdName : List UInt8) : CmdType :=
  match cmdList.find? fun (cmd, str) =>
      strcmp cmdName str = 0 ∨
        (cmd = .setName ∨ cmd = .connect) ∧ strncmp (strlen str) cmdName str = 0 with
  | some (cmd, _) => cmd
  | none => .maxCmd

/-- `strtok(send_msg_buffer, " "); name = strtok(NULL, " ");` -/
def nameArg (sendMsgBuffer : List UInt8) : Option (List UInt8) :=
  (strtok sendMsgBuffer).bind fun q => (strtok q.2).map Prod.fst

namespace Client

def handleSendMsgToClient (c : Client) (sendMsgStr : List UInt8) : Client × List Msg :=
  let sendMsg := Msg.withText .clientTxType sendMsgStr
  if strcmp sendMsgStr disconnectCmd = 0 then
    ({ c with
        busyInChat := false
        connectedClientName := c.connectedClientName.strcpy undefName }, [sendMsg])
  else (c, [sendMsg])

def processSendMsg (c : Client) (sendMsgBuffer : List UInt8) : Client × List Msg :=
  if c.busyInChat then c.handleSendMsgToClient sendMsgBuffer
  else if c.connRequestRx ∧ strcmp sendMsgBuffer reqAcceptStr = 0 then
    ({ c with connRequestRx := false }, [.ofType .clientAcceptConnection])
  else if c.connRequestRx ∧ strcmp sendMsgBuffer reqDeclineStr = 0 then
    ({ c with connRequestRx := false }, [.ofType .clientDeclineConnection])
  else if c.connRequestRx then (c, [])
  else
    match getCmdIdByName sendMsgBuffer with
    | .getList => (c, [getClientList])
    | .connect =>
        match nameArg sendMsgBuffer with
        | some name => (c, [connectWithClient name])
        | none => (c, [])
    | .setName =>
        match nameArg sendMsgBuffer with
        | some name => (c, [setMyName name])
        | none => (c, [])
    | .disconnect | .printHelp | .clearScreen | .maxCmd => (c, [])

end Client

end ChatSocket
