/-
# `Client.Lines` — the lines of the standard input

`io_thread` takes what one read brings for a line.  It keeps nothing from one
read to the next, so this holds only if the reads come line by line
(`handled_iff`): no read brings two lines, and none a part of a line, unless the
other part is the newline.

The lines may have any length; a line that a read cannot bring as a whole is
handled as one only if its newline comes alone.
-/
import ChatSocket.Client.IoThread

namespace ChatSocket

open Kit

/-- The string that `process_send_msg` is handed. -/
def Call.line? : Call → Option (List UInt8)
  | processSendMsg sendMsgBuffer => some (cstr sendMsgBuffer)
  | msgHandleCb _ | handleRxMsgLib _ => none

/-- What `read` brings. -/
def IoPoll.typed? : IoPoll → Option (List UInt8)
  | ready _ (some (.bytes chunk _ _)) => some chunk.bytes
  | _ => none

/-- The lines that the reads are taken for. -/
def handedOn (chunks : List (List UInt8)) : List (List UInt8) :=
  (chunks.filter (· ≠ [0x0A])).map fun chunk => skipBlanks (chop 0x0A chunk)

section
variable {polls : List IoPoll}

theorem typed_ne_nil : ∀ chunk ∈ polls.filterMap IoPoll.typed?, chunk ≠ [] := by
  intro chunk hmem
  obtain ⟨p, -, hp⟩ := List.mem_filterMap.mp hmem
  unfold IoPoll.typed? at hp
  split at hp
  · next chunk' _ _ =>
      cases hp
      exact List.ne_nil_of_length_pos chunk'.nonempty
  · cases hp

/-- What is received is no line. -/
theorem lines_ioRecv {rxMsg rxMsg' : MsgMem} {sock : Option Recv} {received : List Call}
    (h : ioRecv rxMsg sock = some (rxMsg', received)) : received.filterMap Call.line? = [] := by
  cases sock with
  | none =>
      cases h
      rfl
  | some recv =>
      cases recv with
      | bytes chunk =>
          cases h
          rfl
      | closed | error => cases h

/-- What one read is taken for. -/
theorem lines_ioRead {sock : Option Recv} {stdin : Option Read}
    (hcalm : ∀ r, stdin = some r → r ≠ .error)
    (hzero : ∀ chunk ∈ (IoPoll.ready sock stdin).typed?, (0 : UInt8) ∉ chunk) :
    ∃ typed, ioRead stdin = some typed ∧
      typed.filterMap Call.line? = handedOn (IoPoll.ready sock stdin).typed?.toList := by
  match stdin with
  | none => exact ⟨[], rfl, rfl⟩
  | some .eof => exact ⟨[], rfl, rfl⟩
  | some .error => exact absurd rfl (hcalm _ rfl)
  | some (.bytes chunk stale behind) =>
      have hchunk : (0 : UInt8) ∉ chop 0x0A chunk.bytes := fun hmem =>
        hzero chunk.bytes rfl (chop_subset hmem)
      by_cases hnewline : chunk.bytes = [0x0A]
      · refine ⟨[], if_pos hnewline, ?_⟩
        simp [handedOn, IoPoll.typed?, hnewline]
      · obtain ⟨rest, hrest⟩ := bytes_trimLine (Nat.lt_succ_of_le chunk.bounded) stale
        have hline := cstr_append_zero (zero_notMem_skipBlanks (zero_notMem_cstr
          (chop 0x0A chunk.bytes))) (rest ++ behind)
        rw [cstr_eq_self hchunk] at hline
        refine ⟨_, if_neg hnewline, ?_⟩
        rw [hrest, List.append_assoc, List.cons_append, cstr_eq_self hchunk]
        simp [handedOn, IoPoll.typed?, Call.line?, hnewline, hline]

/-- The loop hands on one line a read, but for reads of nothing but a newline. -/
theorem lines_ioThreadLoop (hcalm : ∀ p ∈ polls, p.Calm)
    (hzero : ∀ chunk ∈ polls.filterMap IoPoll.typed?, (0 : UInt8) ∉ chunk) :
    ∀ rxMsg : MsgMem, (ioThreadLoop rxMsg polls).filterMap Call.line?
      = handedOn (polls.filterMap IoPoll.typed?) := by
  induction polls with
  | nil => exact fun _ => rfl
  | cons p polls ih =>
      obtain ⟨hp, hpolls⟩ := List.forall_mem_cons.mp hcalm
      have hcons : (p :: polls).filterMap IoPoll.typed?
          = p.typed?.toList ++ polls.filterMap IoPoll.typed? := by
        rw [List.filterMap_cons]
        cases p.typed? <;> rfl
      rw [hcons] at hzero ⊢
      have ih := ih hpolls fun chunk hmem => hzero chunk (List.mem_append_right _ hmem)
      intro rxMsg
      match p with
      | .error => exact absurd hp id
      | .timeout => exact ih rxMsg
      | .ready sock stdin =>
          obtain ⟨hclosed, herror, hstdin⟩ := hp
          obtain ⟨typed, htyped, hline⟩ := lines_ioRead hstdin fun chunk hmem =>
            hzero chunk (List.mem_append_left _ (Option.mem_toList.mpr hmem))
          obtain ⟨rxMsg', received, hrecv⟩ : ∃ rxMsg' received,
              ioRecv rxMsg sock = some (rxMsg', received) := by
            match sock with
            | none | some (.bytes _) => exact ⟨_, _, rfl⟩
            | some .closed => exact absurd rfl hclosed
            | some .error => exact absurd rfl herror
          simp only [ioThreadLoop, hrecv, htyped, List.filterMap_append, lines_ioRecv hrecv, hline,
            ih rxMsg', List.nil_append, handedOn, List.filter_append, List.map_append]

/-! ## Line by line -/

theorem newline_notMem_of_skipBlanks {s : List UInt8} (h : (0x0A : UInt8) ∉ skipBlanks s) :
    (0x0A : UInt8) ∉ s := by
  intro hmem
  rw [← List.takeWhile_append_dropWhile (p := fun c : UInt8 => c = 0x20 ∨ c = 0x09) (l := s)]
    at hmem
  rcases List.mem_append.mp hmem with hblank | hrest
  · exact absurd (List.mem_takeWhile_imp hblank) (by decide)
  · exact h hrest

/-- The lines of the input are handed on one by one, and whole, exactly if they come so. -/
theorem handled_iff {lines : List (List UInt8)}
    (hlines : ∀ line ∈ lines, (0 : UInt8) ∉ line ∧ (0x0A : UInt8) ∉ line)
    (hcalm : ∀ p ∈ polls, p.Calm)
    (hstream : (polls.filterMap IoPoll.typed?).flatten = terminated 0x0A lines)
    (rxMsg : MsgMem) :
    (ioThreadLoop rxMsg polls).filterMap Call.line?
        = (lines.filter (· ≠ [])).map skipBlanks ↔
      Whole 0x0A (polls.filterMap IoPoll.typed?) := by
  have hzero : ∀ chunk ∈ polls.filterMap IoPoll.typed?, (0 : UInt8) ∉ chunk := by
    intro chunk hmem h0
    have htext : (0 : UInt8) ∈ terminated 0x0A lines := by
      rw [← hstream]
      exact List.mem_flatten_of_mem hmem h0
    obtain ⟨line, hline, h0⟩ := List.mem_flatMap.mp htext
    rcases List.mem_append.mp h0 with h0 | h0
    · exact (hlines line hline).1 h0
    · exact absurd h0 (by decide)
  have hnewline : ∀ line ∈ lines, (0x0A : UInt8) ∉ line := fun line hline => (hlines line hline).2
  have hwhole := whole_iff hnewline typed_ne_nil hstream
  rw [lines_ioThreadLoop hcalm hzero rxMsg, handedOn]
  constructor
  · intro h
    refine hwhole.mpr ⟨fun chunk hchunk => ?_, ?_⟩
    · by_cases hlone : chunk = [0x0A]
      · rw [hlone]
        exact List.not_mem_nil
      · have hhanded : skipBlanks (chop 0x0A chunk) ∈ (lines.filter (· ≠ [])).map skipBlanks := by
          rw [← h]
          exact List.mem_map_of_mem (List.mem_filter.mpr ⟨hchunk, by simpa using hlone⟩)
        obtain ⟨line, hline, he⟩ := List.mem_map.mp hhanded
        have hfree : (0x0A : UInt8) ∉ skipBlanks (chop 0x0A chunk) := by
          rw [← he]
          exact fun hmem => hnewline line (List.mem_filter.mp hline).1
            ((List.dropWhile_sublist _).subset hmem)
        exact fun hmem => newline_notMem_of_skipBlanks hfree (dropLast_subset_chop hmem)
    · have hcount := congrArg List.length h
      rwa [List.length_map, List.length_map] at hcount
  · intro hw
    rw [← hw.lines_eq hnewline typed_ne_nil hstream, List.map_map]
    rfl

end

/-! ## Two lines -/

/-- What comes on the standard input comes in these reads. -/
def readOff (chunks : List (Chunk (maxMsgLen - 1))) : List IoPoll :=
  chunks.map fun chunk => .ready none (some (.bytes chunk (.zero _) []))

theorem calm_readOff (chunks : List (Chunk (maxMsgLen - 1))) :
    ∀ p ∈ readOff chunks, p.Calm := by
  intro p hp
  obtain ⟨chunk, -, rfl⟩ := List.mem_map.mp hp
  refine ⟨nofun, nofun, ?_⟩
  rintro r ⟨⟩
  nofun

def twoLines : List (List UInt8) := [ascii "hello", ascii "world"]

/-- The two lines in two reads. -/
def oneByOne : List IoPoll :=
  readOff [⟨ascii "hello" ++ [0x0A], by decide, by decide⟩,
    ⟨ascii "world" ++ [0x0A], by decide, by decide⟩]

/-- The two lines in one read. -/
def atOnce : List IoPoll :=
  readOff [⟨ascii "hello" ++ [0x0A] ++ ascii "world" ++ [0x0A], by decide, by decide⟩]

theorem one_by_one_handled :
    (ioThreadLoop (.zero _) oneByOne).filterMap Call.line?
        = (twoLines.filter (· ≠ [])).map skipBlanks ↔
      Whole 0x0A (oneByOne.filterMap IoPoll.typed?) :=
  handled_iff (by decide) (calm_readOff _) (by decide +kernel) (.zero _)

/-- Two lines that come in one read are handed on as one. -/
theorem lines_at_once_merged :
    (∀ line ∈ twoLines,
        (0 : UInt8) ∉ line ∧ (0x0A : UInt8) ∉ line ∧ line.length ≤ maxMsgLen - 2) ∧
      (∀ p ∈ atOnce, p.Calm) ∧
      (atOnce.filterMap IoPoll.typed?).flatten = terminated 0x0A twoLines ∧
      (ioThreadLoop (.zero _) atOnce).filterMap Call.line?
        = [ascii "hello" ++ [0x0A] ++ ascii "world"] ∧
      (ioThreadLoop (.zero _) atOnce).filterMap Call.line?
        ≠ (twoLines.filter (· ≠ [])).map skipBlanks :=
  ⟨by decide, calm_readOff _, by decide +kernel, by decide +kernel, by decide +kernel⟩

end ChatSocket
