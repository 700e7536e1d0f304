/-
# `Client.IoThread` — the loop of `io_thread` (`client_lib.c`)

The client polls its connection and the standard input.  What it receives it
hands to `msg_handle_cb` and to `handle_rx_msg_lib`, what it reads to
`process_send_msg`.  What poll, recv and read answer is the input of the loop,
and the calls it makes, in order, are its output.

`rx_msg` is declared before the loop: it is not initialised, and every turn
finds in it what the turns before have left.  `buffer` is declared in the loop:
a read finds any memory in it (`stale`), and any memory follows it (`behind`).

The two shut-down flags are left out: a signal that sets one only ends the loop,
as the end of the input does.
-/
import ChatSocket.Wire
import ChatSocket.Kit.Cuts

namespace ChatSocket

open Kit

/-- What `read(STDIN_FILENO, buffer, sizeof(buffer)-1)` brings. -/
inductive Read where
  | bytes (chunk : Chunk (maxMsgLen - 1)) (stale : Buf maxMsgLen) (behind : List UInt8)
  | eof
  | error

/-- What `poll` answers, and `recv` and `read` where there is input. -/
inductive IoPoll where
  | error
  | timeout
  | ready (sock : Option Recv) (stdin : Option Read)

/-- A call the loop makes; `send_msg_buffer` is memory from its start on. -/
inductive Call where
  | msgHandleCb (rxMsg : Msg)
  | handleRxMsgLib (rxMsg : Msg)
  | processSendMsg (sendMsgBuffer : List UInt8)
  deriving DecidableEq

/-- `while (*start == ' ' || *start == '\t') start++;` -/
def skipBlanks : List UInt8 → List UInt8 := List.dropWhile fun c => c = 0x20 ∨ c = 0x09

/-- What becomes of the buffer of a read: the newline at its end goes, then the blanks at its
start. -/
def trimLine (chunk : List UInt8) (stale : Buf maxMsgLen) : Buf maxMsgLen :=
  let buffer := (stale.write chunk).put chunk.length 0
  let buffer := if chunk.getLast? = some 0x0A then buffer.put (chunk.length - 1) 0 else buffer
  let start := skipBlanks buffer.bytes
  if start = buffer.bytes then buffer else buffer.memcpy start (strlen start + 1)

/-- The turn of the connection: the memory of `rx_msg` and the calls; `none` leaves the loop. -/
def ioRecv (rxMsg : MsgMem) : Option Recv → Option (MsgMem × List Call)
  | none => some (rxMsg, [])
  | some (.bytes chunk) =>
      let rxMsg := recvInto rxMsg chunk.bytes
      some (rxMsg, [.msgHandleCb rxMsg.msg, .handleRxMsgLib rxMsg.msg])
  | some .closed => none
  | some .error => none

/-- The turn of the standard input. -/
def ioRead : Option Read → Option (List Call)
  | none => some []
  | some (.bytes chunk stale behind) =>
      if chunk.bytes = [0x0A] then some []
      else some [.processSendMsg ((trimLine chunk.bytes stale).bytes ++ behind)]
  | some .eof => some []
  | some .error => none

/-- The `while` loop of `io_thread`. -/
def ioThreadLoop (rxMsg : MsgMem) : List IoPoll → List Call
  | [] => []
  | .error :: _ => []
  | .timeout :: polls => ioThreadLoop rxMsg polls
  | .ready sock stdin :: polls =>
      match ioRecv rxMsg sock with
      | none => []
      | some (rxMsg, received) =>
          received ++
            match ioRead stdin with
            | none => []
            | some typed => typed ++ ioThreadLoop rxMsg polls

/-- The message the program is handed. -/
def Call.cbMsg? : Call → Option Msg
  | msgHandleCb rxMsg => some rxMsg
  | handleRxMsgLib _ | processSendMsg _ => none

/-- The message the library is handed. -/
def Call.libMsg? : Call → Option Msg
  | handleRxMsgLib rxMsg => some rxMsg
  | msgHandleCb _ | processSendMsg _ => none

/-- The bytes that came over the connection. -/
def IoPoll.chunk? : IoPoll → Option (Chunk sizeofMsg)
  | ready (some (.bytes chunk)) _ => some chunk
  | _ => none

/-- Neither the connection nor the standard input is lost. -/
def IoPoll.Calm : IoPoll → Prop
  | error => False
  | timeout => True
  | ready sock stdin => sock ≠ some .closed ∧ sock ≠ some .error ∧ ∀ r, stdin = some r → r ≠ .error

/-- The memory of `rx_msg` after each of a list of receives. -/
def recvAll (rxMsg : MsgMem) : List (List UInt8) → List MsgMem
  | [] => []
  | chunk :: chunks => recvInto rxMsg chunk :: recvAll (recvInto rxMsg chunk) chunks

theorem length_recvAll (chunks : List (List UInt8)) :
    ∀ rxMsg : MsgMem, (recvAll rxMsg chunks).length = chunks.length := by
  induction chunks with
  | nil => exact fun _ => rfl
  | cons chunk chunks ih => exact fun rxMsg => congrArg (· + 1) (ih (recvInto rxMsg chunk))

/-! ## The line that is handed on -/

/-- The buffer before the blanks at its start go. -/
theorem bytes_chop {chunk : List UInt8} (hlen : chunk.length < maxMsgLen)
    (stale : Buf maxMsgLen) :
    ∃ rest, (if chunk.getLast? = some 0x0A then
        ((stale.write chunk).put chunk.length 0).put (chunk.length - 1) 0
      else (stale.write chunk).put chunk.length 0).bytes = chop 0x0A chunk ++ 0 :: rest := by
  have hsize := stale.size_eq
  obtain ⟨x, rest, hrest⟩ : ∃ x rest, stale.bytes.drop chunk.length = x :: rest := by
    refine List.exists_cons_of_ne_nil fun hnil => ?_
    have hle := List.drop_eq_nil_iff.mp hnil
    omega
  have hput : ((stale.write chunk).put chunk.length 0).bytes = chunk ++ 0 :: rest := by
    show ((stale.write chunk).bytes).set chunk.length 0 = _
    rw [Buf.bytes_write (Nat.le_of_lt hlen), hrest, List.set_append_right _ _ (Nat.le_refl _),
      Nat.sub_self, List.set_cons_zero]
  rw [chop]
  split
  · next hlast =>
      obtain ⟨body, rfl⟩ : ∃ body, chunk = body ++ [0x0A] :=
        ⟨_, (List.dropLast_append_getLast? _ hlast).symm⟩
      refine ⟨0 :: rest, ?_⟩
      show (((stale.write _).put _ 0).bytes).set _ 0 = _
      rw [hput, List.length_append, List.length_singleton, Nat.add_sub_cancel, List.append_assoc,
        List.set_append_right _ _ (Nat.le_refl _), Nat.sub_self, List.dropLast_concat]
      rfl
  · exact ⟨rest, hput⟩

theorem skipBlanks_append_zero (s rest : List UInt8) :
    skipBlanks (s ++ 0 :: rest) = skipBlanks s ++ 0 :: rest := by
  induction s with
  | nil => rfl
  | cons a s ih =>
      simp only [skipBlanks, List.cons_append, List.dropWhile_cons] at ih ⊢
      split
      · exact ih
      · rfl

theorem zero_notMem_skipBlanks {s : List UInt8} (h : (0 : UInt8) ∉ s) :
    (0 : UInt8) ∉ skipBlanks s := fun hmem => h ((List.dropWhile_sublist _).subset hmem)

/-- The line that `process_send_msg` is handed. -/
theorem bytes_trimLine {chunk : List UInt8} (hlen : chunk.length < maxMsgLen)
    (stale : Buf maxMsgLen) :
    ∃ rest, (trimLine chunk stale).bytes
      = skipBlanks (cstr (chop 0x0A chunk)) ++ 0 :: rest := by
  obtain ⟨tail, hbytes⟩ := bytes_chop hlen stale
  simp only [trimLine]
  generalize (if chunk.getLast? = some 0x0A then _ else _ : Buf maxMsgLen) = buffer at hbytes ⊢
  have hzero : (0 : UInt8) ∈ buffer.bytes := by
    rw [hbytes]
    exact List.mem_append_right _ List.mem_cons_self
  obtain ⟨rest, hrest⟩ := exists_eq_cstr_append hzero
  have hstr : cstr buffer.bytes = cstr (chop 0x0A chunk) := by
    rw [hbytes, cstr_append_zero_cstr]
  rw [hstr] at hrest
  have hstart : skipBlanks buffer.bytes = skipBlanks (cstr (chop 0x0A chunk)) ++ 0 :: rest := by
    rw [hrest, skipBlanks_append_zero]
  split
  · next hsame => exact ⟨rest, hsame ▸ hstart⟩
  · have hline := zero_notMem_skipBlanks (zero_notMem_cstr (chop 0x0A chunk))
    have htake : (skipBlanks buffer.bytes).take (strlen (skipBlanks buffer.bytes) + 1)
        = skipBlanks (cstr (chop 0x0A chunk)) ++ [0] := by
      rw [hstart, strlen, cstr_append_zero hline, List.take_append, List.take_of_length_le
        (Nat.le_succ _), Nat.add_sub_cancel_left]
      rfl
    have hfits : (skipBlanks (cstr (chop 0x0A chunk)) ++ [(0 : UInt8)]).length ≤ maxMsgLen := by
      rw [← htake]
      refine (List.length_take_le' _ _).trans ((List.dropWhile_sublist _).length_le.trans ?_)
      exact Nat.le_of_eq buffer.size_eq
    rw [Buf.memcpy, htake, Buf.bytes_write hfits, List.append_assoc]
    exact ⟨_, rfl⟩

/-- What is typed hands on no message. -/
theorem ioRead_calm {stdin : Option Read} (h : ∀ r, stdin = some r → r ≠ .error) :
    ∃ typed, ioRead stdin = some typed ∧ typed.filterMap Call.cbMsg? = [] ∧
      typed.filterMap Call.libMsg? = [] := by
  match stdin with
  | none => exact ⟨[], rfl, rfl, rfl⟩
  | some .eof => exact ⟨[], rfl, rfl, rfl⟩
  | some .error => exact absurd rfl (h _ rfl)
  | some (.bytes chunk stale behind) =>
      by_cases hnewline : chunk.bytes = [0x0A]
      · exact ⟨[], if_pos hnewline, rfl, rfl⟩
      · exact ⟨_, if_neg hnewline, rfl, rfl⟩

/-- On a connection that is not lost, program and library are handed one message a chunk. -/
theorem msgs_ioThreadLoop {polls : List IoPoll} (h : ∀ p ∈ polls, p.Calm) :
    ∀ rxMsg : MsgMem,
      (ioThreadLoop rxMsg polls).filterMap Call.cbMsg?
          = (recvAll rxMsg ((polls.filterMap IoPoll.chunk?).map Chunk.bytes)).map MsgMem.msg ∧
        (ioThreadLoop rxMsg polls).filterMap Call.libMsg?
          = (recvAll rxMsg ((polls.filterMap IoPoll.chunk?).map Chunk.bytes)).map MsgMem.msg := by
  induction polls with
  | nil => exact fun _ => ⟨rfl, rfl⟩
  | cons p polls ih =>
      obtain ⟨hp, hpolls⟩ := List.forall_mem_cons.mp h
      have ih := ih hpolls
      intro rxMsg
      match p with
      | .error => exact absurd hp id
      | .timeout => exact ih rxMsg
      | .ready sock stdin =>
          obtain ⟨hclosed, herror, hstdin⟩ := hp
          obtain ⟨typed, htyped, hcb, hlib⟩ := ioRead_calm hstdin
          match sock with
          | some .closed => exact absurd rfl hclosed
          | some .error => exact absurd rfl herror
          | none =>
              simp only [ioThreadLoop, ioRecv, htyped, List.nil_append, List.filterMap_append, hcb,
                hlib]
              exact ih rxMsg
          | some (.bytes chunk) =>
              obtain ⟨ihcb, ihlib⟩ := ih (recvInto rxMsg chunk.bytes)
              simp only [ioThreadLoop, ioRecv, htyped, List.filterMap_append, hcb, hlib,
                List.nil_append, ihcb, ihlib]
              exact ⟨rfl, rfl⟩

end ChatSocket
