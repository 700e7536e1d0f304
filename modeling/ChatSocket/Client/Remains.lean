/-
# `Client.Remains` — what a connect request carries along

`connect_with_client` copies `MAX_MSG_LEN` bytes from the name on.  The name is a
token of the line, so it starts where at least one other word and a space have
stood before: the copy reads past the end of the line buffer, always.  On the
way it takes along what is left of earlier lines in the buffer.

A `Turn` is one read of the client with everything that the request could depend
on: what came, what the buffer held before, and the memory behind it.
-/
import ChatSocket.Client.Commands
import ChatSocket.Kit.Reads

namespace ChatSocket

open Kit

/-- A turn in which the client reads from the standard input. -/
structure Turn where
  client : Client
  chunk : Chunk (maxMsgLen - 1)
  stale : Buf maxMsgLen
  behind : List UInt8

namespace Turn

/-- The line buffer when `process_send_msg` is called. -/
def buffer (t : Turn) : Buf maxMsgLen := trimLine t.chunk.bytes t.stale

/-- The memory from the line buffer on. -/
def mem (t : Turn) : List UInt8 := t.buffer.bytes ++ t.behind

/-- What is put on the wire. -/
def sent (t : Turn) : List Msg :=
  match ioRead (some (.bytes t.chunk t.stale t.behind)) with
  | some [.processSendMsg sendMsgBuffer] => (t.client.processSendMsg sendMsgBuffer).2
  | _ => []

/-- An idle client asks for `name`, with this payload. -/
structure Connects (t : Turn) (name : List UInt8) (payload : Buf maxMsgLen) : Prop where
  idle : t.client.Idle
  room : maxMsgLen ≤ t.behind.length
  target : (nameArg t.mem).map cstr = some name
  sends : ∃ m ∈ t.sent, m.msgType = .connectToClient ∧ m.buffer = payload

/-- With nothing behind the line buffer, the copy from the name on would not read past it. -/
def ReadsInside (t : Turn) : Prop :=
  ∃ name, nameArg t.buffer.bytes = some name ∧ (memcpy? maxMsgLen name).isSome

instance (t : Turn) : Decidable t.ReadsInside :=
  decidable_of_iff (∃ name ∈ nameArg t.buffer.bytes, (memcpy? maxMsgLen name).isSome) Iff.rfl

/-- The memory behind the line buffer is another. -/
def withBehind (t : Turn) (behind : List UInt8) : Turn := { t with behind := behind }

variable {t : Turn} {name : List UInt8} {payload : Buf maxMsgLen}

theorem sent_eq (hline : t.chunk.bytes ≠ [0x0A]) :
    t.sent = (t.client.processSendMsg t.mem).2 := by
  rw [sent, ioRead, if_neg hline]
  rfl

theorem Connects.line_ne (h : t.Connects name payload) : t.chunk.bytes ≠ [0x0A] := by
  intro he
  obtain ⟨m, hm, -⟩ := h.sends
  rw [sent, ioRead, if_pos he] at hm
  cases hm

/-- The line buffer holds a line, whatever is behind it. -/
theorem exists_line (t : Turn) :
    ∃ line rest : List UInt8, (0 : UInt8) ∉ line ∧ line.length + 1 + rest.length = maxMsgLen ∧
      ∀ behind, (t.withBehind behind).mem = line ++ 0 :: (rest ++ behind) := by
  obtain ⟨rest, hrest⟩ := bytes_trimLine (Nat.lt_succ_of_le t.chunk.bounded) t.stale
  have hzero := zero_notMem_skipBlanks (zero_notMem_cstr (chop 0x0A t.chunk.bytes))
  generalize skipBlanks (cstr (chop 0x0A t.chunk.bytes)) = line at hrest hzero
  have hsize := t.buffer.size_eq
  rw [buffer, hrest, List.length_append, List.length_cons] at hsize
  refine ⟨line, rest, hzero, by omega, fun behind => ?_⟩
  show (trimLine t.chunk.bytes t.stale).bytes ++ behind = _
  rw [hrest, List.append_assoc]
  rfl

/-- The name is a part of the buffer, shorter than what is copied, and all memory behind it. -/
theorem Connects.exists_part (h : t.Connects name payload) :
    ∃ part : List UInt8, part.length < maxMsgLen ∧ nameArg t.buffer.bytes = some part ∧
      ∀ behind, nameArg (t.withBehind behind).mem = some (part ++ behind) ∧
        cstr (part ++ behind) = name ∧ cstr (t.withBehind behind).mem = cstr t.mem := by
  obtain ⟨line, rest, hzero, hsize, hmem⟩ := t.exists_line
  have hself : t.mem = line ++ 0 :: (rest ++ t.behind) := hmem t.behind
  have htarget := h.target
  rw [hself, map_cstr_nameArg hzero, tokens_second] at htarget
  split at htarget
  · cases htarget
  · next hsecond =>
      have hname : firstWord (afterWord line) = name := Option.some.inj htarget
      have hafter : afterWord line ≠ [] := by
        intro hnil
        rw [hnil] at hsecond
        exact hsecond rfl
      have hcut := length_cutWord_le (afterWord line)
      have hlen := length_afterWord hafter
      -- the argument, with the memory behind the buffer and without
      have harg : ∀ behind, nameArg (line ++ 0 :: (rest ++ behind))
          = some (cutWord (afterWord line) ++ 0 :: rest ++ behind) := by
        intro behind
        rw [nameArg_append_zero hzero, if_neg hsecond, List.append_assoc]
        rfl
      refine ⟨cutWord (afterWord line) ++ 0 :: rest, ?_, ?_, fun behind => ⟨?_, ?_, ?_⟩⟩
      · rw [List.length_append, List.length_cons]
        omega
      · have hinside := harg []
        rwa [← hmem [], mem, withBehind, List.append_nil, List.append_nil] at hinside
      · rw [hmem, harg]
      · rw [List.append_assoc, ← hname]
        exact cstr_cutWord (zero_notMem_afterWord hzero) hsecond _
      · rw [hmem, hself, cstr_append_zero hzero, cstr_append_zero hzero]

/-- The payload is what `connect_with_client` copies. -/
theorem Connects.payload_eq (h : t.Connects name payload) {p : List UInt8}
    (hp : nameArg t.mem = some p) :
    connectCmd <+: cstr t.mem ∧ payload = (Client.connectWithClient p).buffer := by
  obtain ⟨m, hm, htype, rfl⟩ := h.sends
  rw [sent_eq h.line_ne] at hm
  rcases (h.idle.mem_sent_iff t.mem m).mp hm with ⟨-, rfl⟩ | ⟨hline, q, hq, rfl⟩ | ⟨-, q, -, rfl⟩
  · cases htype
  · rw [hp] at hq
    cases hq
    exact ⟨hline, rfl⟩
  · cases htype

/-- With other memory behind the buffer, the same name is asked for. -/
theorem Connects.withBehind (h : t.Connects name payload) {behind p : List UInt8}
    (hroom : maxMsgLen ≤ behind.length) (hp : nameArg (t.withBehind behind).mem = some p)
    (hname : cstr p = name) (hline : connectCmd <+: cstr (t.withBehind behind).mem) :
    (t.withBehind behind).Connects name (Client.connectWithClient p).buffer where
  idle := h.idle
  room := hroom
  target := by rw [hp, Option.map_some, hname]
  sends := by
    rw [sent_eq (t := t.withBehind behind) h.line_ne]
    exact ⟨_, (h.idle.mem_sent_iff _ _).mpr (Or.inr (Or.inl ⟨hline, p, hp, rfl⟩)), rfl, rfl⟩

end Turn

theorem bytes_connectWithClient {name : List UInt8} (h : maxMsgLen ≤ name.length) :
    (Client.connectWithClient name).buffer.bytes = name.take maxMsgLen := by
  have hlen : (name.take maxMsgLen).length = maxMsgLen := List.length_take_of_le h
  show ((Buf.zero maxMsgLen).write (name.take maxMsgLen)).bytes = _
  rw [Buf.bytes_write (Nat.le_of_eq hlen), hlen, List.drop_of_length_le, List.append_nil]
  exact Nat.le_of_eq (Buf.zero maxMsgLen).size_eq

/-- The byte behind the buffer is sent. -/
theorem getElem?_connectWithClient {part behind : List UInt8} (hpart : part.length < maxMsgLen)
    (hroom : maxMsgLen ≤ behind.length) :
    (Client.connectWithClient (part ++ behind)).buffer.bytes[part.length]? = behind[0]? := by
  rw [bytes_connectWithClient (by rw [List.length_append]; omega),
    List.getElem?_take_of_lt hpart, List.getElem?_append_right (Nat.le_refl _), Nat.sub_self]

/-- Every request reads past the line buffer and sends what it finds there: with other memory
behind the buffer, the payload is another. -/
theorem connect_reveals {t : Turn} {name : List UInt8} {payload : Buf maxMsgLen}
    (h : t.Connects name payload) :
    ¬ t.ReadsInside ∧
      ¬ ∀ (t' : Turn) (payload' : Buf maxMsgLen), t'.Connects name payload' →
        payload' = payload := by
  obtain ⟨part, hpart, hinside, hbehind⟩ := h.exists_part
  refine ⟨?_, fun hsame => ?_⟩
  · rintro ⟨p, hp, hcopy⟩
    rw [hinside] at hp
    cases hp
    rw [memcpy?, if_neg (Nat.not_le_of_lt hpart)] at hcopy
    cases hcopy
  · obtain ⟨b, bs, hb⟩ : ∃ b bs, t.behind = b :: bs := by
      refine List.exists_cons_of_ne_nil fun hnil => ?_
      have hroom := h.room
      rw [hnil] at hroom
      exact absurd hroom (by decide)
    have hroom : maxMsgLen ≤ ((b + 1) :: bs).length := by
      have hroom := h.room
      rwa [hb] at hroom
    obtain ⟨hp, -, -⟩ := hbehind t.behind
    obtain ⟨hline, hpayload⟩ := h.payload_eq hp
    obtain ⟨hp', hname', hstr'⟩ := hbehind ((b + 1) :: bs)
    have hother := hsame _ _ (h.withBehind hroom hp' hname' (hstr' ▸ hline))
    have hbyte := getElem?_connectWithClient hpart hroom
    rw [hother, hpayload, getElem?_connectWithClient hpart h.room, hb] at hbyte
    have hb1 : b = b + 1 := Option.some.inj hbyte
    exact absurd (congrArg UInt8.toNat hb1) (by simp; omega)

/-! ## A request after an earlier line -/

/-- `connect bob` is typed when the buffer still holds an earlier line. -/
def Turn.after (earlier : List UInt8) : Turn where
  client := .boot
  chunk := ⟨ascii "connect bob" ++ [0x0A], by decide, by decide⟩
  stale := (Buf.zero _).strcpy earlier
  behind := List.replicate maxMsgLen 0

def Turn.payloadAfter (earlier : List UInt8) : Buf maxMsgLen :=
  (Client.connectWithClient ((Turn.after earlier).mem.drop 8)).buffer

theorem connects_after_nothing :
    (Turn.after []).Connects (ascii "bob") (Turn.payloadAfter []) :=
  ⟨⟨rfl, rfl⟩, Nat.le_of_eq List.length_replicate.symm, by decide +kernel, by decide +kernel⟩

theorem connects_after_secret :
    (Turn.after (ascii "the password is 1234")).Connects (ascii "bob")
      (Turn.payloadAfter (ascii "the password is 1234")) :=
  ⟨⟨rfl, rfl⟩, Nat.le_of_eq List.length_replicate.symm, by decide +kernel, by decide +kernel⟩

theorem bob_revealed :
    ¬ (Turn.after []).ReadsInside ∧
      ¬ ∀ (t' : Turn) (payload' : Buf maxMsgLen), t'.Connects (ascii "bob") payload' →
        payload' = Turn.payloadAfter [] :=
  connect_reveals connects_after_nothing

/-- What is left of an earlier line is sent with the name. -/
theorem earlier_line_sent :
    (Turn.after (ascii "the password is 1234")).Connects (ascii "bob")
        (Turn.payloadAfter (ascii "the password is 1234")) ∧
      (Turn.after []).Connects (ascii "bob") (Turn.payloadAfter []) ∧
      Turn.payloadAfter (ascii "the password is 1234") ≠ Turn.payloadAfter [] ∧
      cstr ((Turn.payloadAfter (ascii "the password is 1234")).bytes.drop 5) = ascii "is 1234" ∧
      ¬ (Turn.after (ascii "the password is 1234")).ReadsInside := by
  refine ⟨connects_after_secret, connects_after_nothing, by decide +kernel, by decide +kernel,
    by decide +kernel⟩

end ChatSocket
