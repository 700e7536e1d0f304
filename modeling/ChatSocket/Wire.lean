/-
# `Wire` — a `msg_t` as bytes

Both programs send a message as the bytes of the structure and receive into the
memory of one.  The bytes are: `to_client_id`, three bytes of padding, the four
bytes of `msg_type` with the lowest first, and `msg_data.buffer`.  Nothing sets
the padding, so an image of a message has any padding.

A receive writes what came over the start of the memory and leaves the rest as
it was: `recvInto`.  How much comes is up to the kernel: a `Chunk` is anything
from one byte to what was asked for.
-/
import ChatSocket.Common
import ChatSocket.Kit.Frames

namespace ChatSocket

open Kit

/-- `sizeof(msg_t)`. -/
def sizeofMsg : Nat := 520

/-- The memory of a `msg_t`. -/
abbrev MsgMem := Buf sizeofMsg

/-- The bytes of a message, with some padding. -/
def Msg.image (m : Msg) (padding : Buf 3) : List UInt8 :=
  m.toClientId :: (padding.bytes ++ (littleEndian 4 m.msgType.code ++ m.buffer.bytes))

/-- The message that lies in memory. -/
def MsgMem.msg (mem : MsgMem) : Msg where
  toClientId := mem.bytes.headD 0
  msgType := .ofCode (ofLittleEndian ((mem.bytes.drop 4).take 4))
  buffer := ⟨mem.bytes.drop 8, by rw [List.length_drop, mem.size_eq]; rfl⟩

/-- What a read of at most `n` bytes brings. -/
structure Chunk (n : Nat) where
  bytes : List UInt8
  nonempty : 0 < bytes.length
  bounded : bytes.length ≤ n
  deriving DecidableEq

/-- What `recv(fd, &m, sizeof(m), 0)` brings. -/
inductive Recv where
  | bytes (chunk : Chunk sizeofMsg)
  | closed
  | error
  deriving DecidableEq

/-- What `recv(fd, &m, sizeof(m), 0)` does to the memory of `m` when `chunk` comes. -/
def recvInto (mem : MsgMem) (chunk : List UInt8) : MsgMem := mem.write chunk

theorem Msg.length_image (m : Msg) (padding : Buf 3) : (m.image padding).length = sizeofMsg := by
  simp only [image, List.length_cons, List.length_append, padding.size_eq, m.buffer.size_eq,
    length_littleEndian]
  rfl

/-- A whole image overwrites the memory, whatever was in it, with its message. -/
theorem msg_recvInto_image (mem : MsgMem) (m : Msg) (padding : Buf 3) :
    (recvInto mem (m.image padding)).msg = m := by
  have hlen := m.length_image padding
  have hbytes : (recvInto mem (m.image padding)).bytes = m.image padding := by
    rw [recvInto, Buf.bytes_write (Nat.le_of_eq hlen), hlen,
      List.drop_of_length_le (Nat.le_of_eq mem.size_eq), List.append_nil]
  have hpad : (m.image padding).drop 4 = littleEndian 4 m.msgType.code ++ m.buffer.bytes :=
    List.drop_left' padding.size_eq
  have htype : ((m.image padding).drop 4).take 4 = littleEndian 4 m.msgType.code := by
    rw [hpad]
    exact List.take_left' (length_littleEndian 4 _)
  have hbuffer : (m.image padding).drop 8 = m.buffer.bytes := by
    show (m.image padding).drop (4 + 4) = _
    rw [← List.drop_drop, hpad]
    exact List.drop_left' (length_littleEndian 4 _)
  have hcode : ofLittleEndian (littleEndian 4 m.msgType.code) = m.msgType.code :=
    ofLittleEndian_littleEndian 4 _ m.msgType.code_lt
  cases m with
  | mk toClientId msgType buffer =>
      rw [MsgMem.msg]
      simp only [Msg.mk.injEq, hbytes, htype, hcode, MsgType.ofCode_code, true_and]
      exact ⟨rfl, Buf.bytes_injective hbuffer⟩

end ChatSocket
