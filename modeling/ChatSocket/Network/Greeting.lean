/-
# `Network.Greeting` — how a connection is verified, from both ends

The server sends its key, the client looks for it and acknowledges, and the server
waits for the acknowledgement.  Each of the two receives once, and a receive may bring
the beginning of a message only.  The client does not look at how much came, and the
server does: so the client is content with a message that has come as far as the end
of the key (`verified_iff`), and the server with none but a whole one.

`greeting_ends` says when either is content.  Neither can be content alone with the
other end gone wrong, but for one way: the client is connected, and all of the
acknowledgement is not there yet when the server receives.
-/
import ChatSocket.Client.Program
import ChatSocket.Host.Steps

namespace ChatSocket

open Kit

/-! ## A message that has come in part -/

theorem cstr_take (k : Nat) : ∀ m : List UInt8, cstr (m.take k) = (cstr m).take k := by
  induction k with
  | zero => exact fun _ => rfl
  | succ k ih =>
      intro m
      cases m with
      | nil => rfl
      | cons a m =>
          rw [List.take_succ_cons, cstr_cons, cstr_cons, ih]
          split
          · rfl
          · rw [List.take_succ_cons]

theorem cstr_append_replicate (k : Nat) (m : List UInt8) :
    cstr (m ++ List.replicate k 0) = cstr m := by
  cases k with
  | zero => rw [List.replicate_zero, List.append_nil]
  | succ k => rw [List.replicate_succ, cstr_append_zero_cstr]

/-- How much of a message one receive brings, and the bytes between its fields. -/
structure Piece where
  padding : Buf 3
  len : Nat
  nonempty : 0 < len
  bounded : len ≤ sizeofMsg

namespace Piece

variable (p : Piece) (m : Msg)

/-- The bytes that come. -/
def chunk : Chunk sizeofMsg where
  bytes := (m.image p.padding).take p.len
  nonempty := by
    rw [List.length_take, m.length_image]
    exact Nat.lt_min.mpr ⟨p.nonempty, by decide⟩
  bounded := by
    rw [List.length_take, m.length_image]
    exact Nat.min_le_right _ _

theorem length_chunk : (p.chunk m).bytes.length = p.len := by
  show ((m.image p.padding).take p.len).length = p.len
  rw [List.length_take, m.length_image]
  exact Nat.min_eq_left p.bounded

/-- The memory it is received into. -/
theorem bytes_received :
    (recvInto (.zero _) (p.chunk m).bytes).bytes
      = (m.image p.padding).take p.len ++ List.replicate (sizeofMsg - p.len) 0 := by
  have hlen := p.length_chunk m
  rw [recvInto, Buf.bytes_write (hlen ▸ p.bounded), hlen]
  show _ ++ (List.replicate sizeofMsg 0).drop p.len = _
  rw [List.drop_replicate]
  rfl

/-- The type is known from the eighth byte on. -/
theorem msgType_received (h : 8 ≤ p.len) :
    (recvInto (.zero _) (p.chunk m).bytes).msg.msgType = m.msgType := by
  have hbounded := p.bounded
  have hfield : ∀ mem : MsgMem,
      mem.msg.msgType = .ofCode (ofLittleEndian ((mem.bytes.drop 4).take 4)) := fun _ => rfl
  have hwhole : (recvInto (.zero sizeofMsg) (m.image p.padding)).bytes = m.image p.padding := by
    rw [recvInto, Buf.bytes_write (Nat.le_of_eq (m.length_image _)), m.length_image,
      List.drop_of_length_le (Nat.le_of_eq (Buf.size_eq _)), List.append_nil]
  have hsame : (((m.image p.padding).take p.len ++
      List.replicate (sizeofMsg - p.len) 0).drop 4).take 4 = ((m.image p.padding).drop 4).take 4 := by
    have hlen : 8 ≤ ((m.image p.padding).take p.len).length := by
      rw [List.length_take, m.length_image]
      omega
    rw [List.drop_append_of_le_length (by omega), List.take_append_of_le_length
      (by rw [List.length_drop]; omega), List.drop_take, List.take_take, Nat.min_eq_left (by omega)]
  calc (recvInto (.zero _) (p.chunk m).bytes).msg.msgType
      = .ofCode (ofLittleEndian (((m.image p.padding).drop 4).take 4)) := by
        rw [hfield, bytes_received, hsame]
    _ = (recvInto (.zero _) (m.image p.padding)).msg.msgType := by rw [hfield, hwhole]
    _ = m.msgType := by rw [msg_recvInto_image]

/-- Of the text there is what has come. -/
theorem str_received :
    (recvInto (.zero _) (p.chunk m).bytes).msg.buffer.str = m.buffer.str.take (p.len - 8) := by
  have himage : (m.image p.padding).drop 8 = m.buffer.bytes := by
    have hpad : (m.image p.padding).drop 4 = littleEndian 4 m.msgType.code ++ m.buffer.bytes :=
      List.drop_left' p.padding.size_eq
    show (m.image p.padding).drop (4 + 4) = _
    rw [← List.drop_drop, hpad]
    exact List.drop_left' (length_littleEndian 4 _)
  show cstr ((recvInto (.zero _) (p.chunk m).bytes).bytes.drop 8) = _
  rw [bytes_received, List.drop_append, List.drop_replicate, cstr_append_replicate, List.drop_take,
    himage, cstr_take]
  rfl

end Piece

/-! ## Both ends -/

/-- What comes of the two messages. -/
structure Greeting where
  request : Piece
  ack : Piece

namespace Greeting

variable (g : Greeting)

/-- What the client gets. -/
def dial : Dial where
  connected := true
  select := .ready (.bytes (g.request.chunk connEstablishReq))
  sent := true

/-- What the server gets: of the acknowledgement if there is one, and the end of the connection if
the client has given up. -/
def answer : Recv :=
  if .sends (.ofType .connEstablishAck) ∈ (connectToServer g.dial).2 then
    .bytes (g.ack.chunk (.ofType .connEstablishAck))
  else .closed

/-- The client goes on. -/
def Connected : Prop := (connectToServer g.dial).1 = .success

/-- The server goes on. -/
def Accepted : Prop := g.answer.Acks

/-- The client has seen the key if it has come to its end. -/
theorem verified_iff : g.dial.Verified ↔ 8 + serverUniqueueId.length ≤ g.request.len := by
  have hkey : g.dial.tempMsg.buffer.str = serverUniqueueId.take (g.request.len - 8) := by
    have hstr : connEstablishReq.buffer.str = serverUniqueueId :=
      (Buf.str_strcpy (by decide)).trans (by decide)
    rw [← hstr]
    exact g.request.str_received connEstablishReq
  constructor
  · intro hv
    have hlen := congrArg List.length (hkey.symm.trans hv.key)
    rw [List.length_take] at hlen
    have hpos : 0 < serverUniqueueId.length := by decide
    omega
  · intro hlen
    refine ⟨rfl, ⟨_, rfl⟩, g.request.msgType_received connEstablishReq (by omega), ?_⟩
    rw [hkey]
    exact List.take_of_length_le (by omega)

theorem sends_ack_iff :
    .sends (.ofType .connEstablishAck) ∈ (connectToServer g.dial).2 ↔ g.dial.Verified := by
  have hseen : ∀ outputs : List Output, .sends (.ofType .connEstablishAck) ∈ outputs →
      .sent (.ofType .connEstablishAck) ∈ happenings outputs :=
    fun outputs hmem => List.mem_filterMap.mpr ⟨_, hmem, rfl⟩
  rcases happenings_connectToServer g.dial with ⟨hv, hnone, -⟩ | ⟨hv, hack, -⟩
  · refine iff_of_false (fun hmem => ?_) hv
    have hsent := hseen _ hmem
    rw [hnone] at hsent
    cases hsent
  · refine iff_of_true ?_ hv
    have hsent : .sent (.ofType .connEstablishAck) ∈ happenings (connectToServer g.dial).2 := by
      rw [hack]
      exact List.mem_singleton_self _
    obtain ⟨o, ho, he⟩ := List.mem_filterMap.mp hsent
    cases o with
    | sends m =>
        cases he
        exact ho
    | takes m | shows text => cases he

/-- A receive takes what comes for the acknowledgement if all of it has come. -/
theorem acks_chunk_iff (p : Piece) :
    (Recv.bytes (p.chunk (.ofType .connEstablishAck))).Acks ↔ p.len = sizeofMsg := by
  show (p.chunk _).bytes.length = sizeofMsg ∧ _ ↔ _
  rw [p.length_chunk]
  refine ⟨fun h => h.1, fun h => ⟨h, ?_⟩⟩
  rw [p.msgType_received _ (by rw [h]; decide)]
  rfl

end Greeting

/-- Whatever of the two messages comes with one receive: the client goes on if it has got the key,
the server if it has got the whole acknowledgement too.  So the server never serves a client that has
turned away; where they part, it is the client that believes itself connected. -/
theorem greeting_ends (g : Greeting) :
    (g.Connected ↔ 8 + serverUniqueueId.length ≤ g.request.len) ∧
      (g.Accepted ↔ 8 + serverUniqueueId.length ≤ g.request.len ∧ g.ack.len = sizeofMsg) := by
  constructor
  · rw [← g.verified_iff]
    rcases happenings_connectToServer g.dial with ⟨hv, -, hfails⟩ | ⟨hv, -, hsucc⟩
    · exact iff_of_false hfails hv
    · exact iff_of_true (hsucc.mpr rfl) hv
  · rw [← g.verified_iff, ← g.sends_ack_iff, Greeting.Accepted, Greeting.answer]
    split
    · next hsent => rw [Greeting.acks_chunk_iff, and_iff_right hsent]
    · next hquiet => exact iff_of_false id fun h => hquiet h.1

end ChatSocket
