/-
# `Common` — what both programs share (`chat_app_common.h`)

The sizes and strings of the protocol, the message types and the message.

`MsgType` has the named values of `msg_type_t` and, as `undefined k`, every
other value its 32 bits can hold: what arrives on a socket need not be a value
the header names.  `code` and `ofCode` are the C representation.

A `Msg` is a `msg_t`; its `buffer` is `msg_data.buffer`.
-/
import Mathlib
import ChatSocket.Kit.CString

namespace ChatSocket

open Kit

def maxMsgLen : Nat := 512
def maxClientNameLen : Nat := 64
def invalidFd : Int := -1
def serverUniqueueId : List UInt8 := ascii "ksdfgdhfkevhriuercwieru87354fuykhhg*((#$"
def undefName : List UInt8 := ascii "NAME_NOT_DEFINED"
def disconnectCmd : List UInt8 := ascii "disconnect"

/-- `MSG_TYPE_MAX`. -/
def msgTypeMax : Nat := 29

/-- `msg_type_t`. -/
inductive MsgType where
  | clientRxType
  | clientTxType
  | clientAckType
  | clientNack
  | setNameReqType
  | setNameAckType
  | setNameNackType
  | server
  | connEstablishReq
  | connEstablishAck
  | getClientListType
  | connectToClient
  | connectionReqRx
  | clientBusy
  | clientFree
  | clientAcceptConnection
  | clientDeclineConnection
  | clientDeclineConnectionAck
  | clientNotExist
  | attemptToConnectToSelf
  | clientStatusReqPending
  | clientAcceptConnectionAck
  | clientNoMoreFree
  | clientNoMoreExist
  | clientTermination
  | clientDisconnected
  | clientChatReady
  | clientChangeConnFdReq
  | maxClientReached
  | undefined (k : Fin (2 ^ 32 - msgTypeMax))
  deriving DecidableEq

namespace MsgType

/-- The named values, in the order of the header. -/
def named : List MsgType :=
  [clientRxType, clientTxType, clientAckType, clientNack, setNameReqType, setNameAckType,
   setNameNackType, server, connEstablishReq, connEstablishAck, getClientListType,
   connectToClient, connectionReqRx, clientBusy, clientFree, clientAcceptConnection,
   clientDeclineConnection, clientDeclineConnectionAck, clientNotExist, attemptToConnectToSelf,
   clientStatusReqPending, clientAcceptConnectionAck, clientNoMoreFree, clientNoMoreExist,
   clientTermination, clientDisconnected, clientChatReady, clientChangeConnFdReq,
   maxClientReached]

/-- The value of the C enumeration. -/
def code : MsgType → Nat
  | undefined k => msgTypeMax + k
  | t => named.idxOf t

/-- The message type with a given value. -/
def ofCode (n : Nat) : MsgType :=
  match named[n]? with
  | some t => t
  | none => undefined ⟨(n - msgTypeMax) % (2 ^ 32 - msgTypeMax), Nat.mod_lt _ (by decide)⟩

theorem code_lt (t : MsgType) : t.code < 2 ^ 32 := by
  cases t with
  | undefined k =>
      have := k.isLt
      simp only [code, msgTypeMax] at *
      omega
  | _ => decide

theorem ofCode_code (t : MsgType) : ofCode t.code = t := by
  cases t with
  | undefined k =>
      have hk := k.isLt
      have hnone : named[msgTypeMax + (k : Nat)]? = none :=
        List.getElem?_eq_none (Nat.le_add_right msgTypeMax k)
      simp only [code, ofCode, hnone, Nat.add_sub_cancel_left, undefined.injEq]
      exact Fin.ext (Nat.mod_eq_of_lt hk)
  | _ => rfl

end MsgType

/-- `msg_t`. -/
structure Msg where
  toClientId : UInt8
  msgType : MsgType
  buffer : Buf maxMsgLen
  deriving DecidableEq

/-- `msg_t m = {0};` -/
def Msg.zero : Msg := ⟨0, .clientRxType, .zero _⟩

/-- `msg_t m = {0}; m.msg_type = t; strcpy(m.msg_data.buffer, s);` -/
def Msg.withText (t : MsgType) (s : List UInt8) : Msg :=
  { Msg.zero with msgType := t, buffer := (Buf.zero maxMsgLen).strcpy s }

/-- `msg_t m = {0}; m.msg_type = t;` -/
def Msg.ofType (t : MsgType) : Msg := { Msg.zero with msgType := t }

@[simp] theorem Msg.msgType_withText (t : MsgType) (s : List UInt8) :
    (Msg.withText t s).msgType = t := rfl

@[simp] theorem Msg.msgType_ofType (t : MsgType) : (Msg.ofType t).msgType = t := rfl

end ChatSocket
