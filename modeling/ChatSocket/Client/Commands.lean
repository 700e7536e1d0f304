/-
# `Client.Commands` — the commands and the line

A command is found at the start of the line (`get_cmd_id_by_name`), its argument
by `strtok`.  The two do not look at the same thing: `connect` and `set_name`
are taken for a command wherever the line begins with their letters, whatever
letter follows, while the tokens are what stands between the spaces.

`Documented` is what the line should do, in terms of its tokens, and
`documented_iff` says of which lines it is what an idle client does: of those
with fewer than two tokens, and of those that begin with the letters of a
command exactly if it is their first token.
-/
import ChatSocket.Network.Addressing
import ChatSocket.Kit.Words

namespace ChatSocket

open Kit

def getListCmd : List UInt8 := ascii "get_list"
def connectCmd : List UInt8 := ascii "connect"
def setNameCmd : List UInt8 := ascii "set_name"

/-- The commands of the documentation, for the messages that a line sends. -/
structure Documented (line : List UInt8) (msgs : List Msg) : Prop where
  connect (n : List UInt8) :
    (∃ m ∈ msgs, m.msgType = .connectToClient ∧ m.buffer.str = n) ↔
      (tokens line)[0]? = some connectCmd ∧ (tokens line)[1]? = some n
  setName (n : List UInt8) :
    (∃ m ∈ msgs, m.msgType = .setNameReqType ∧ m.buffer.str = n) ↔
      (tokens line)[0]? = some setNameCmd ∧ (tokens line)[1]? = some n
  list : (∃ m ∈ msgs, m.msgType = .getClientListType) ↔ line = getListCmd
  others :
    (¬ ∃ n, ((tokens line)[0]? = some connectCmd ∨ (tokens line)[0]? = some setNameCmd) ∧
      (tokens line)[1]? = some n) → line ≠ getListCmd → msgs = []

/-- The letters of `cmd` are at the start of the line exactly if it is the first token. -/
def Recognised (line cmd : List UInt8) : Prop := cmd <+: line ↔ (tokens line)[0]? = some cmd

instance (line cmd : List UInt8) : Decidable (Recognised line cmd) :=
  inferInstanceAs (Decidable (_ ↔ _))

/-! ## What the code looks at -/

theorem getCmdIdByName_eq (mem : List UInt8) :
    getCmdIdByName mem
      = if cstr mem = getListCmd then .getList
        else if connectCmd <+: cstr mem then .connect
        else if cstr mem = disconnectCmd then .disconnect
        else if setNameCmd <+: cstr mem then .setName
        else if cstr mem = ascii "help" then .printHelp
        else if cstr mem = ascii "clear" then .clearScreen
        else .maxCmd := by
  have hexact : ∀ w, cstr w = w → (strcmp mem w = 0 ↔ cstr mem = w) := by
    intro w hw
    rw [strcmp_eq_zero_iff, hw]
  have hbegins : ∀ w, cstr w = w →
      (strcmp mem w = 0 ∨ strncmp (strlen w) mem w = 0 ↔ w <+: cstr mem) := by
    intro w hw
    rw [strncmp_strlen_iff, hexact w hw, hw]
    exact or_iff_right_of_imp fun he => he ▸ List.prefix_rfl
  have hconnect := hbegins connectCmd (by decide)
  have hsetName := hbegins setNameCmd (by decide)
  simp only [connectCmd, setNameCmd] at hconnect hsetName
  simp only [getCmdIdByName, cmdList, List.find?_cons, List.find?_nil, reduceCtorEq, or_self,
    false_and, or_false, true_and, or_true, hexact (ascii "get_list") (by decide), hconnect,
    hexact disconnectCmd (by decide), hsetName, hexact (ascii "help") (by decide),
    hexact (ascii "clear") (by decide), getListCmd, connectCmd, setNameCmd]
  grind

section
variable {line : List UInt8}

/-- The argument is the text behind the first token, cut behind the second. -/
theorem nameArg_append_zero (hzero : (0 : UInt8) ∉ line) (rest : List UInt8) :
    nameArg (line ++ 0 :: rest)
      = if firstWord (afterWord line) = [] then none
        else some (cutWord (afterWord line) ++ 0 :: rest) := by
  have hafter := zero_notMem_afterWord hzero
  rw [nameArg]
  by_cases hnone : firstWord line = []
  · rw [strtok_append_zero_none hzero hnone, afterWord_eq_nil hnone]
    rfl
  · rw [strtok_append_zero hzero hnone, Option.bind_some]
    split
    · next hnoarg =>
        rw [strtok_append_zero_none hafter hnoarg]
        rfl
    · next harg =>
        rw [strtok_append_zero hafter harg]
        rfl

/-- The C string that the argument is. -/
theorem map_cstr_nameArg (hzero : (0 : UInt8) ∉ line) (rest : List UInt8) :
    (nameArg (line ++ 0 :: rest)).map cstr = (tokens line)[1]? := by
  rw [nameArg_append_zero hzero, tokens_second]
  split
  · rfl
  · next harg => exact congrArg some (cstr_cutWord (zero_notMem_afterWord hzero) harg rest)

/-- What an idle client sends. -/
theorem Client.Idle.sent_eq {c : Client} (hc : c.Idle) (mem : List UInt8) :
    (c.processSendMsg mem).2
      = match getCmdIdByName mem with
        | .getList => [getClientList]
        | .connect => ((nameArg mem).map connectWithClient).toList
        | .setName => ((nameArg mem).map setMyName).toList
        | .disconnect | .printHelp | .clearScreen | .maxCmd => [] := by
  simp only [processSendMsg, hc.free, hc.unasked]
  cases getCmdIdByName mem with
  | connect | setName => cases nameArg mem <;> rfl
  | _ => rfl

/-- The commands that send something are told apart by how the line begins. -/
theorem getCmdIdByName_iff (mem : List UInt8) :
    (getCmdIdByName mem = .getList ↔ cstr mem = getListCmd) ∧
      (getCmdIdByName mem = .connect ↔ connectCmd <+: cstr mem) ∧
      (getCmdIdByName mem = .setName ↔ setNameCmd <+: cstr mem) := by
  have hlist : ¬ connectCmd <+: getListCmd ∧ ¬ setNameCmd <+: getListCmd := by decide
  have hdisc : ¬ connectCmd <+: disconnectCmd ∧ ¬ setNameCmd <+: disconnectCmd := by decide
  have hboth : connectCmd <+: cstr mem → ¬ setNameCmd <+: cstr mem := by
    intro h h'
    have hpre := List.prefix_of_prefix_length_le h h' (by decide)
    revert hpre
    decide
  rw [getCmdIdByName_eq]
  refine ⟨?_, ?_, ?_⟩ <;> grind

/-- A message is sent for the list, for a line that begins as `connect`, or for one that begins as
`set_name`. -/
theorem Client.Idle.mem_sent_iff {c : Client} (hc : c.Idle) (mem : List UInt8) (m : Msg) :
    m ∈ (c.processSendMsg mem).2 ↔
      cstr mem = getListCmd ∧ m = getClientList ∨
        connectCmd <+: cstr mem ∧ (∃ name, nameArg mem = some name ∧ m = connectWithClient name) ∨
        setNameCmd <+: cstr mem ∧ ∃ name, nameArg mem = some name ∧ m = setMyName name := by
  have harg : ∀ send : List UInt8 → Msg, m ∈ ((nameArg mem).map send).toList ↔
      ∃ name, nameArg mem = some name ∧ m = send name := by
    intro send
    rw [Option.mem_toList, Option.map_eq_some_iff]
    exact exists_congr fun _ => and_congr_right fun _ => eq_comm
  obtain ⟨hlist, hconnect, hset⟩ := getCmdIdByName_iff mem
  rw [hc.sent_eq, ← hlist, ← hconnect, ← hset]
  cases getCmdIdByName mem with
  | getList => simp
  | connect | setName =>
      simp only [harg]
      simp
  | disconnect | printHelp | clearScreen | maxCmd => simp

theorem strlen_nameArg_le (hzero : (0 : UInt8) ∉ line) {rest name : List UInt8}
    (h : nameArg (line ++ 0 :: rest) = some name) : strlen name ≤ line.length := by
  rw [nameArg_append_zero hzero] at h
  split at h
  · cases h
  · next harg =>
      cases h
      rw [strlen, cstr_cutWord (zero_notMem_afterWord hzero) harg]
      refine (length_firstWord_le _).trans ?_
      by_cases hnil : afterWord line = []
      · rw [hnil]
        exact Nat.zero_le _
      · have := length_afterWord hnil
        omega

/-- The text of a message that carries the argument is the second token. -/
theorem sent_text_iff (hzero : (0 : UInt8) ∉ line) (hlen : line.length < maxMsgLen)
    (rest : List UInt8) {send : List UInt8 → Msg}
    (hsend : ∀ name, strlen name < maxMsgLen → (send name).buffer.str = cstr name)
    (n : List UInt8) :
    (∃ name, nameArg (line ++ 0 :: rest) = some name ∧ (send name).buffer.str = n) ↔
      (tokens line)[1]? = some n := by
  rw [← map_cstr_nameArg hzero rest, Option.map_eq_some_iff]
  refine exists_congr fun name => and_congr_right fun hname => ?_
  rw [hsend name (Nat.lt_of_le_of_lt (strlen_nameArg_le hzero hname) hlen)]

/-- One type of message is sent for the argument of one command. -/
theorem sends_argument_iff (hzero : (0 : UInt8) ∉ line) (hlen : line.length < maxMsgLen)
    (rest : List UInt8) {send : List UInt8 → Msg} {t : MsgType} {cmd : List UInt8} {msgs : List Msg}
    (hmem : ∀ m, m.msgType = t → (m ∈ msgs ↔ cmd <+: line ∧
      ∃ name, nameArg (line ++ 0 :: rest) = some name ∧ m = send name))
    (ht : ∀ name, (send name).msgType = t)
    (hsend : ∀ name, strlen name < maxMsgLen → (send name).buffer.str = cstr name)
    (n : List UInt8) :
    (∃ m ∈ msgs, m.msgType = t ∧ m.buffer.str = n) ↔
      cmd <+: line ∧ (tokens line)[1]? = some n := by
  rw [← sent_text_iff hzero hlen rest hsend]
  constructor
  · rintro ⟨m, hm, htype, hn⟩
    obtain ⟨hline, name, hname, rfl⟩ := (hmem m htype).mp hm
    exact ⟨hline, name, hname, hn⟩
  · rintro ⟨hline, name, hname, hn⟩
    exact ⟨_, (hmem _ (ht name)).mpr ⟨hline, name, hname, rfl⟩, ht name, hn⟩

section
variable {c : Client} (hc : c.Idle) (hzero : (0 : UInt8) ∉ line) (hlen : line.length < maxMsgLen)
  (rest : List UInt8)
include hc hzero

theorem Client.Idle.mem_sent_line_iff (m : Msg) :
    m ∈ (c.processSendMsg (line ++ 0 :: rest)).2 ↔
      line = getListCmd ∧ m = getClientList ∨
        connectCmd <+: line ∧
          (∃ name, nameArg (line ++ 0 :: rest) = some name ∧ m = connectWithClient name) ∨
        setNameCmd <+: line ∧
          ∃ name, nameArg (line ++ 0 :: rest) = some name ∧ m = setMyName name := by
  have hsent := hc.mem_sent_iff (line ++ 0 :: rest) m
  rwa [cstr_append_zero hzero] at hsent

theorem Client.Idle.sends_list_iff :
    (∃ m ∈ (c.processSendMsg (line ++ 0 :: rest)).2, m.msgType = .getClientListType) ↔
      line = getListCmd := by
  constructor
  · rintro ⟨m, hm, ht⟩
    rcases (hc.mem_sent_line_iff hzero rest m).mp hm with
      ⟨hline, -⟩ | ⟨-, name, -, rfl⟩ | ⟨-, name, -, rfl⟩
    · exact hline
    · cases ht
    · cases ht
  · exact fun hline => ⟨_, (hc.mem_sent_line_iff hzero rest _).mpr (Or.inl ⟨hline, rfl⟩), rfl⟩

include hlen

theorem Client.Idle.sends_connect_iff (n : List UInt8) :
    (∃ m ∈ (c.processSendMsg (line ++ 0 :: rest)).2,
        m.msgType = .connectToClient ∧ m.buffer.str = n) ↔
      connectCmd <+: line ∧ (tokens line)[1]? = some n := by
  refine @sends_argument_iff line hzero hlen rest connectWithClient _ _ _ (fun m ht => ?_)
    (fun _ => rfl) (fun _ h => Buf.str_memcpy h) n
  rw [hc.mem_sent_line_iff hzero rest m]
  constructor
  · rintro (⟨-, rfl⟩ | h | ⟨-, name, -, rfl⟩)
    · cases ht
    · exact h
    · cases ht
  · exact fun h => Or.inr (Or.inl h)

theorem Client.Idle.sends_setName_iff (n : List UInt8) :
    (∃ m ∈ (c.processSendMsg (line ++ 0 :: rest)).2,
        m.msgType = .setNameReqType ∧ m.buffer.str = n) ↔
      setNameCmd <+: line ∧ (tokens line)[1]? = some n := by
  refine @sends_argument_iff line hzero hlen rest setMyName _ _ _ (fun m ht => ?_)
    (fun _ => rfl) (fun _ h => Buf.str_strcpy h) n
  rw [hc.mem_sent_line_iff hzero rest m]
  constructor
  · rintro (⟨-, rfl⟩ | ⟨-, name, -, rfl⟩ | h)
    · cases ht
    · cases ht
    · exact h
  · exact fun h => Or.inr (Or.inr h)

/-- An idle client does what is documented exactly with a line of fewer than two tokens, or one
that begins with the letters of a command exactly if that is its first token. -/
theorem documented_iff :
    Documented line (c.processSendMsg (line ++ 0 :: rest)).2 ↔
      (tokens line).length < 2 ∨ Recognised line connectCmd ∧ Recognised line setNameCmd := by
  have hlist := hc.sends_list_iff hzero rest
  have hconnect := hc.sends_connect_iff hzero hlen rest
  have hset := hc.sends_setName_iff hzero hlen rest
  have hshort : (tokens line).length < 2 ↔ (tokens line)[1]? = none := by
    rw [List.getElem?_eq_none_iff]
    exact Nat.lt_succ_iff
  rw [hshort]
  constructor
  · rintro ⟨hdconnect, hdset, -, -⟩
    cases hn : (tokens line)[1]? with
    | none => exact Or.inl rfl
    | some n =>
        have h := (hconnect n).symm.trans (hdconnect n)
        have h' := (hset n).symm.trans (hdset n)
        rw [hn] at h h'
        exact Or.inr ⟨by simpa [Recognised] using h, by simpa [Recognised] using h'⟩
  · intro h
    have hcmd : ∀ {n}, (tokens line)[1]? = some n →
        Recognised line connectCmd ∧ Recognised line setNameCmd := by
      rcases h with hnone | h
      · intro n hn
        rw [hnone] at hn
        cases hn
      · exact fun _ => h
    refine ⟨fun n => (hconnect n).trans (and_congr_left fun hn => (hcmd hn).1),
      fun n => (hset n).trans (and_congr_left fun hn => (hcmd hn).2), hlist, ?_⟩
    intro hnone hline
    refine List.eq_nil_iff_forall_not_mem.mpr fun m hm => ?_
    have harg : ∀ {name}, nameArg (line ++ 0 :: rest) = some name →
        (tokens line)[1]? = some (cstr name) := by
      intro name hname
      rw [← map_cstr_nameArg hzero rest, hname]
      rfl
    rcases (hc.mem_sent_line_iff hzero rest m).mp hm with
      ⟨he, -⟩ | ⟨hpre, name, hname, -⟩ | ⟨hpre, name, hname, -⟩
    · exact hline he
    · exact hnone ⟨_, Or.inl ((hcmd (harg hname)).1.mp hpre), harg hname⟩
    · exact hnone ⟨_, Or.inr ((hcmd (harg hname)).2.mp hpre), harg hname⟩

end

theorem connect_bob_documented :
    Documented (ascii "connect bob") (Client.boot.processSendMsg (ascii "connect bob" ++ [0])).2 ↔
      (tokens (ascii "connect bob")).length < 2 ∨
        Recognised (ascii "connect bob") connectCmd ∧ Recognised (ascii "connect bob") setNameCmd :=
  documented_iff ⟨rfl, rfl⟩ (by decide) (by decide) []

/-- `connectx bob` is no command; the client asks for `bob`. -/
theorem connectx_connects :
    (Client.boot.processSendMsg (ascii "connectx bob" ++ [0])).2.map
        (fun m => (m.msgType, m.buffer.str)) = [(.connectToClient, ascii "bob")] ∧
      tokens (ascii "connectx bob") = [ascii "connectx", ascii "bob"] ∧
      ¬ Documented (ascii "connectx bob")
        (Client.boot.processSendMsg (ascii "connectx bob" ++ [0])).2 := by
  have hsent : (Client.boot.processSendMsg (ascii "connectx bob" ++ [0])).2.map
      (fun m => (m.msgType, m.buffer.str)) = [(.connectToClient, ascii "bob")] := by
    decide +kernel
  have htokens : tokens (ascii "connectx bob") = [ascii "connectx", ascii "bob"] := by
    decide +kernel
  refine ⟨hsent, htokens, fun h => ?_⟩
  have hasked : ∃ m ∈ (Client.boot.processSendMsg (ascii "connectx bob" ++ [0])).2,
      m.msgType = .connectToClient ∧ m.buffer.str = ascii "bob" := by
    obtain ⟨m, hm, he⟩ := List.mem_map.mp (hsent ▸ List.mem_singleton_self _)
    exact ⟨m, hm, (Prod.mk.inj he).1, (Prod.mk.inj he).2⟩
  have hfirst := ((h.connect (ascii "bob")).mp hasked).1
  rw [htokens] at hfirst
  revert hfirst
  decide

end

end ChatSocket
