/-
# `Network.Addressing` — asking for a client by its name

A name reaches the server through `set_my_name`: it is the argument of the
program, which may be any string, or the word that follows `set_name` in a line.
The server cuts it and stores it.  Whoever wants that client types `connect` and
the name, and asks for the word that follows `connect`.

`addressable_iff` says for which names that word is the name.
`addressable_everywhere_iff` follows the names through the runs of the server.
-/
import ChatSocket.Server.Names
import ChatSocket.Client.User
import ChatSocket.Client.IoThread

namespace ChatSocket

open Kit Registry

/-- A string that the tokenizer of a command gives back whole. -/
def IsWord (s : List UInt8) : Prop := s ≠ [] ∧ (0x20 : UInt8) ∉ s

instance (s : List UInt8) : Decidable (IsWord s) := inferInstanceAs (Decidable (_ ∧ _))

/-! ## A line with a command -/

/-- A line that does not start with a blank is left as it is, without the newline. -/
theorem trimLine_line {line : List UInt8} (hlen : line.length + 2 ≤ maxMsgLen)
    (hstart : ∀ m, skipBlanks (line ++ m) = line ++ m) (stale : Buf maxMsgLen) :
    ∃ rest, (trimLine (line ++ [0x0A]) stale).bytes = line ++ 0 :: rest := by
  have hchunk : (line ++ [(0x0A : UInt8)]).length = line.length + 1 := List.length_append
  obtain ⟨rest, hbytes⟩ := bytes_chop (show (line ++ [0x0A]).length < maxMsgLen by omega) stale
  rw [chop_concat] at hbytes
  refine ⟨rest, ?_⟩
  simp only [trimLine]
  generalize (if (line ++ [0x0A]).getLast? = some 0x0A then _ else _ : Buf maxMsgLen) = buffer
    at hbytes ⊢
  rw [if_pos (by rw [hbytes, hstart]), hbytes]

theorem getCmdIdByName_connect (m : List UInt8) :
    getCmdIdByName (ascii "connect " ++ m) = .connect := rfl

theorem nameArg_connect (m : List UInt8) :
    nameArg (ascii "connect " ++ m) = (strtok m).map Prod.fst := rfl

/-- A client that is neither in a chat nor asked for one. -/
structure Client.Idle (c : Client) : Prop where
  free : c.busyInChat = false
  unasked : c.connRequestRx = false

/-- What it sends for a line with `connect`. -/
theorem Client.Idle.sends_connect {c : Client} (hc : c.Idle) (m : List UInt8) :
    (c.processSendMsg (ascii "connect " ++ m)).2
      = match strtok m with
        | some q => [connectWithClient q.1]
        | none => [] := by
  have hfree := hc.free
  have hunasked := hc.unasked
  simp only [processSendMsg, hfree, hunasked, getCmdIdByName_connect, nameArg_connect]
  cases strtok m <;> rfl

/-- The line `connect` with the name, typed at an idle client, asks for that name. -/
def Addressable (name : List UInt8) : Prop :=
  ∀ c : Client, c.Idle → ∀ (chunk : Chunk (maxMsgLen - 1)) (stale : Buf maxMsgLen)
    (behind : List UInt8), chunk.bytes = ascii "connect " ++ name ++ [0x0A] →
    ∃ buffer msg, ioRead (some (.bytes chunk stale behind)) = some [.processSendMsg buffer] ∧
      (c.processSendMsg buffer).2 = [msg] ∧ msg.msgType = .connectToClient ∧
      msg.buffer.str = name

section
variable {name : List UInt8}

theorem length_connect (hlen : name.length ≤ maxClientNameLen) :
    (ascii "connect " ++ name).length + 2 ≤ maxMsgLen := by
  have hsize : (ascii "connect " ++ name).length = 8 + name.length := List.length_append
  have hroom : maxClientNameLen + 10 ≤ maxMsgLen := by decide
  omega

/-- What `process_send_msg` is handed of that line. -/
theorem ioRead_connect (hlen : name.length ≤ maxClientNameLen) {chunk : Chunk (maxMsgLen - 1)}
    (hchunk : chunk.bytes = ascii "connect " ++ name ++ [0x0A]) (stale : Buf maxMsgLen)
    (behind : List UInt8) :
    ∃ rest, ioRead (some (.bytes chunk stale behind))
      = some [.processSendMsg (ascii "connect " ++ (name ++ 0 :: rest))] := by
  obtain ⟨rest, hrest⟩ := trimLine_line (length_connect hlen) (fun _ => rfl) stale
  refine ⟨rest ++ behind, ?_⟩
  have hnewline : chunk.bytes ≠ [0x0A] := by
    rw [hchunk]
    nofun
  rw [ioRead, if_neg hnewline, hchunk, hrest, List.append_assoc, List.append_assoc]
  rfl

/-- What the client sends then: a request for the first word of the name, if there is one. -/
theorem Client.Idle.asks_firstWord {c : Client} (hc : c.Idle) (hlen : name.length < maxMsgLen)
    (hzero : (0 : UInt8) ∉ name) (rest : List UInt8) :
    (firstWord name = [] ∧ (c.processSendMsg (ascii "connect " ++ (name ++ 0 :: rest))).2 = []) ∨
      ∃ msg, firstWord name ≠ [] ∧
        (c.processSendMsg (ascii "connect " ++ (name ++ 0 :: rest))).2 = [msg] ∧
        msg.msgType = .connectToClient ∧ msg.buffer.str = firstWord name := by
  have hname := cstr_append_zero hzero rest
  have hnone := strtok_eq_none_iff (name ++ 0 :: rest)
  rw [hname] at hnone
  rw [hc.sends_connect]
  cases hq : strtok (name ++ 0 :: rest) with
  | none => exact Or.inl ⟨hnone.mp hq, rfl⟩
  | some q =>
      have hword := cstr_strtok hq
      rw [hname] at hword
      refine Or.inr ⟨_, fun h => ?_, rfl, rfl, ?_⟩
      · rw [hnone.mpr h] at hq
        cases hq
      · rw [← hword]
        refine Buf.str_memcpy ?_
        rw [strlen, hword]
        exact Nat.lt_of_le_of_lt (length_firstWord_le name) hlen

/-- A name can be asked for exactly if it is a word. -/
theorem addressable_iff (hlen : name.length ≤ maxClientNameLen) (hzero : (0 : UInt8) ∉ name) :
    Addressable name ↔ IsWord name := by
  have hlt : name.length < maxMsgLen := Nat.lt_of_le_of_lt hlen (by decide)
  constructor
  · intro h
    have hsize : (ascii "connect " ++ name ++ [(0x0A : UInt8)]).length
        = (ascii "connect " ++ name).length + 1 := List.length_append
    let chunk : Chunk (maxMsgLen - 1) :=
      ⟨ascii "connect " ++ name ++ [0x0A], by omega, by have := length_connect hlen; omega⟩
    obtain ⟨buffer, msg, hread, hsent, -, hstr⟩ := h .boot ⟨rfl, rfl⟩ chunk (.zero _) [] rfl
    obtain ⟨rest, hrest⟩ := ioRead_connect hlen (show chunk.bytes = _ from rfl) (.zero _) []
    rw [hrest] at hread
    cases hread
    rcases Client.Idle.asks_firstWord (c := .boot) ⟨rfl, rfl⟩ hlt hzero rest with
      ⟨-, hnone⟩ | ⟨msg', hne, hsome, -, hword⟩
    · rw [hnone] at hsent
      cases hsent
    · rw [hsome] at hsent
      cases hsent
      rw [hstr] at hword
      exact ⟨hword ▸ hne, firstWord_eq_self_iff.mp hword.symm⟩
  · rintro ⟨hne, hspace⟩ c hc chunk stale behind hchunk
    have hword := firstWord_eq_self_iff.mpr hspace
    obtain ⟨rest, hrest⟩ := ioRead_connect hlen hchunk stale behind
    rcases hc.asks_firstWord hlt hzero rest with ⟨hnil, -⟩ | ⟨msg, -, hsent, htype, hstr⟩
    · exact absurd (hword ▸ hnil) hne
    · exact ⟨_, msg, hrest, hsent, htype, hstr.trans hword⟩

end

/-! ## Where names come from -/

/-- What the user names the client with: the argument of the program, or a line. -/
inductive Msg.UserNamed : Msg → Prop where
  | argument (argv : List UInt8) : UserNamed (Client.setMyName argv)
  | typed {c : Client} {line : List UInt8} {msg : Msg} :
      msg ∈ (c.processSendMsg line).2 → UserNamed msg

/-- A name that arrives comes from an unmodified client. -/
def Event.UserNamed : Event → Prop
  | rxMsg _ msg => msg.msgType = .setNameReqType → msg.UserNamed
  | accepted _ _ | closed _ => True

/-- The argument of `set_name` is a word. -/
theorem isWord_nameArg {line name : List UInt8} (h : nameArg line = some name) :
    IsWord (cstr name) := by
  obtain ⟨q, -, hname⟩ := Option.bind_eq_some_iff.mp h
  obtain ⟨q', hq', rfl⟩ := Option.map_eq_some_iff.mp hname
  have hword := cstr_strtok hq'
  refine ⟨fun hnil => ?_, hword ▸ space_notMem_firstWord _⟩
  rw [(strtok_eq_none_iff q.2).mpr (hword.symm.trans hnil)] at hq'
  cases hq'

/-- A line names the client with a word, if at all. -/
theorem setMyName_of_typed {c : Client} {line : List UInt8} {msg : Msg}
    (h : msg ∈ (c.processSendMsg line).2) (ht : msg.msgType = .setNameReqType) :
    ∃ name, msg = Client.setMyName name ∧ IsWord (cstr name) := by
  have hnot : ∀ m : Msg, m.msgType ≠ .setNameReqType → msg ∉ [m] := by
    intro m hm hmem
    rw [List.mem_singleton.mp hmem] at ht
    exact hm ht
  simp only [Client.processSendMsg, Client.handleSendMsgToClient] at h
  split at h
  · split at h <;> exact absurd h (hnot _ (by simp))
  split at h
  · exact absurd h (hnot _ (by simp))
  split at h
  · exact absurd h (hnot _ (by simp))
  split at h
  · cases h
  split at h
  · exact absurd h (hnot _ (by simp [Client.getClientList]))
  · split at h
    · exact absurd h (hnot _ (by simp [Client.connectWithClient]))
    · cases h
  · split at h
    · next name hname => exact ⟨name, List.mem_singleton.mp h, isWord_nameArg hname⟩
    · cases h
  all_goals cases h

/-- A name that a user gives is what `set_my_name` is called with. -/
theorem Msg.UserNamed.eq_setMyName {msg : Msg} (h : msg.UserNamed)
    (ht : msg.msgType = .setNameReqType) : ∃ argv, msg = Client.setMyName argv := by
  cases h with
  | argument argv => exact ⟨argv, rfl⟩
  | typed hsent =>
      obtain ⟨name, hname, -⟩ := setMyName_of_typed hsent ht
      exact ⟨name, hname⟩

/-- An argument that the server takes for a name is, once it is cut, a word. -/
def Event.NamesWord (r : Registry) : Event → Prop
  | rxMsg _ msg =>
      ∀ argv, msg = Client.setMyName argv →
        r.checkClientWithSameNameExistOrNot msg.buffer.bytes = .nameNotExist →
        IsWord ((cstr argv).take (maxClientNameLen - 1))
  | accepted _ _ | closed _ => True

/-- Every client can be asked for by its name. -/
def Registry.AllAddressable (r : Registry) : Prop :=
  ∀ n ∈ r.clientList, Addressable n.data.name.str

theorem allAddressable_iff {r : Registry} (h : r.Wf) :
    r.AllAddressable ↔ ∀ fd name, r.names fd = some name → IsWord name := by
  have haddr : ∀ n : ClientNode, Addressable n.data.name.str ↔ IsWord n.data.name.str := fun n =>
    addressable_iff ((List.takeWhile_sublist _).length_le.trans_eq n.data.name.size_eq)
      (zero_notMem_cstr _)
  constructor
  · intro hall fd name hname
    obtain ⟨n, hn, rfl⟩ := Option.map_eq_some_iff.mp hname
    exact (haddr n).mp (hall n (look_mem hn))
  · intro hall n hn
    exact (haddr n).mpr (hall n.fd _ (names_eq_some h hn))

theorem storedName_setMyName (argv : List UInt8) :
    storedName (Client.setMyName argv).buffer.bytes
      = (cstr argv).take (maxClientNameLen - 1) := by
  show (Buf.str _).take _ = _
  rw [Client.setMyName, Buf.str_strcpy_take, List.take_take]
  rfl

theorem space_notMem_digits (k : Nat) : (0x20 : UInt8) ∉ ascii (toString (k : Int)) := by
  intro h
  obtain ⟨c, hc, hspace⟩ := List.mem_map.mp h
  have hdigits : (toString (k : Int)).toList = Nat.toDigits 10 k := Nat.toList_repr
  rw [hdigits] at hc
  have hdigit := Nat.isDigit_of_mem_toDigits (by decide) (by decide) hc
  simp only [Char.isDigit, Bool.and_eq_true, decide_eq_true_eq, ge_iff_le] at hdigit
  have h0 : 48 ≤ c.toNat := hdigit.1
  have h1 : c.toNat ≤ 57 := hdigit.2
  have h20 : (0x20 : UInt8).toNat = 32 := rfl
  have hcode := congrArg UInt8.toNat hspace
  rw [UInt8.toNat_ofNat'] at hcode
  omega

/-- The generated names are words. -/
theorem isWord_tempClientName (k : Nat) : IsWord (tempClientName k).str := by
  rw [tempClientName, Buf.str_strcpy_take]
  refine ⟨nofun, fun hmem => ?_⟩
  have htext := List.takeWhile_subset _ (List.mem_of_mem_take hmem)
  rcases List.mem_append.mp htext with htext | hdigits
  · revert htext
    decide
  · exact space_notMem_digits k hdigits

/-! ## Whole runs -/

/-- One event keeps the names words exactly if it stores no name that is none. -/
theorem isWord_step {r : Registry} (h : r.Wf)
    (hall : ∀ fd name, r.names fd = some name → IsWord name) {e : Event} (he : e.Possible r)
    (huser : e.UserNamed) :
    (∀ fd name, (replay r (e.acts r)).names fd = some name → IsWord name) ↔ e.NamesWord r := by
  cases e with
  | accepted fd ok =>
      obtain ⟨k, rfl⟩ := Int.eq_ofNat_of_zero_le he.1
      rw [names_accepted he]
      split
      · rw [forall_update_iff hall]
        refine iff_of_true ?_ trivial
        rintro _ ⟨⟩
        exact isWord_tempClientName k
      · exact iff_of_true hall trivial
  | rxMsg fd msg =>
      by_cases hmsg : msg.msgType = .setNameReqType ∧
          r.checkClientWithSameNameExistOrNot msg.buffer.bytes = .nameNotExist
      · rw [names_setName h he hmsg.1 hmsg.2, forall_update_iff hall]
        obtain ⟨argv, rfl⟩ := (huser hmsg.1).eq_setMyName hmsg.1
        constructor
        · intro hword argv' hargv _
          rw [← storedName_setMyName, ← hargv]
          exact hword _ rfl
        · rintro hword _ ⟨⟩
          rw [storedName_setMyName]
          exact hword argv rfl hmsg.2
      · rw [names_replay _ r fun w hw => nameless_rx h he hmsg hw]
        refine iff_of_true hall ?_
        rintro argv rfl hcheck
        exact absurd ⟨rfl, hcheck⟩ hmsg
  | closed fd =>
      rw [names_closed h, forall_update_iff hall]
      exact iff_of_true nofun trivial

/-- Over whole runs in which names come from unmodified clients, every client can be asked for by
its name exactly as long as every argument that is taken for a name is, once it is cut, a word. -/
theorem addressable_everywhere_iff {es : List Event} (hes : ∀ e ∈ es, e.UserNamed) :
    Everywhere atomicStep Registry.AllAddressable .empty es ↔
      EveryStep atomicStep (fun r e => e.NamesWord r) .empty es := by
  refine everywhere_iff_of good_atomicStep ?_ es hes good_empty fun n hn => (nomatch hn)
  intro r e r' acts huser h hall hs
  obtain ⟨he, rfl, -⟩ := atomicStep_eq_some_iff.mp hs
  rw [allAddressable_iff (h.step he).wf]
  exact isWord_step h.wf ((allAddressable_iff h.wf).mp hall) he huser

/-- 4 is started with an argument. -/
def startedWith (argv : List UInt8) : List Event := [joins 4, .rxMsg 4 (Client.setMyName argv)]

theorem userNamed_startedWith (argv : List UInt8) : ∀ e ∈ startedWith argv, e.UserNamed :=
  List.forall_mem_cons.mpr ⟨trivial, List.forall_mem_singleton.mpr fun _ => .argument argv⟩

theorem alice_addressable :
    Everywhere atomicStep Registry.AllAddressable .empty (startedWith (ascii "alice")) ↔
      EveryStep atomicStep (fun r e => e.NamesWord r) .empty (startedWith (ascii "alice")) :=
  addressable_everywhere_iff (userNamed_startedWith _)

/-- The argument is `a b`: whoever asks for that client asks for `a`. -/
theorem spaced_argument_not_addressable :
    (∀ e ∈ startedWith (ascii "a b"), e.UserNamed) ∧
      ¬ Everywhere atomicStep Registry.AllAddressable .empty (startedWith (ascii "a b")) ∧
      (Client.boot.processSendMsg (ascii "connect a b" ++ [0])).2.map (fun m => m.buffer.str)
        = [ascii "a"] := by
  refine ⟨userNamed_startedWith _, fun h => ?_, by decide +kernel⟩
  have hall := h.at_play (play_final (by decide +kernel))
  have hstored : ascii "a b" ∈
      (afterRun (startedWith (ascii "a b"))).clientList.map fun n => n.data.name.str := by
    decide +kernel
  obtain ⟨n, hn, hname⟩ := List.mem_map.mp hstored
  have haddr := hall n hn
  rw [hname, addressable_iff (by decide) (by decide)] at haddr
  revert haddr
  decide

end ChatSocket
