/-
# `Client.Process` — the client as a process (`main_client.c`, `client_lib.c`)

`clientMain` says what the program does as long as it does what C defines and nothing
ends it from outside.  `strcpy` and `printf` trust their texts: a name on the command
line that does not fit into a message, a partner's name that does not fit into
`connected_client_name`, and a text that does not end in its buffer lead out of the
arrays, and nothing is known of what the program does then (`none`).  A line that is
typed never does (`strlen_trimLine`); what `connect_with_client` reads behind one is any
memory, as in `Client.IoThread`.  And a signal that the program does not catch ends
it wherever it is, as SIGPIPE does at a `send` to a server that is gone.

So where the texts fit, the process does what the program does (`clientMain?_eq`), or a
first part of it; `program_conduct` says what that is.
-/
import ChatSocket.Client.Program
import ChatSocket.Host.Steps

namespace ChatSocket

open Kit

/-! ## Arrays -/

/-- The call reads and writes inside of its arrays. -/
def Call.InBounds : Call → Prop
  -- `printf` stops at the end of the text
  | msgHandleCb rxMsg => (0 : UInt8) ∈ rxMsg.buffer.bytes
  -- `strcpy` to `connected_client_name`
  | handleRxMsgLib rxMsg => rxMsg.NamesPartner → FitsName rxMsg.buffer.bytes
  -- `strcpy` of the line, or of a name in it, to a message
  | processSendMsg sendMsgBuffer => strlen sendMsgBuffer < maxMsgLen

instance : DecidablePred Call.InBounds
  | .msgHandleCb _ => inferInstanceAs (Decidable (_ ∈ _))
  | .handleRxMsgLib rxMsg => inferInstanceAs (Decidable
      (rxMsg.msgType = .clientAcceptConnectionAck ∨ rxMsg.msgType = .clientChatReady →
        (0 : UInt8) ∈ rxMsg.buffer.bytes ∧ strlen rxMsg.buffer.bytes ≤ maxClientNameLen - 1))
  | .processSendMsg _ => inferInstanceAs (Decidable (_ < _))

namespace Client

/-- `does`, if it is defined. -/
def does? (c : Client) (call : Call) : Option (Client × List Output) :=
  if call.InBounds then some (c.does call) else none

def doesAll? (c : Client) : List Call → Option (List Output)
  | [] => some []
  | call :: calls => do
      let (c', outputs) ← c.does? call
      let rest ← c'.doesAll? calls
      some (outputs ++ rest)

end Client

def chatOn? (k : Kernel) : Option (List Output) :=
  if !k.created then some []
  else do
    let outputs ← Client.boot.doesAll? (ioThreadLoop k.rxMsg k.polls)
    some (outputs ++
      if shutDownDetected k.polls then [.shows (ascii "Server shut-down detected.\n")] else [])

/-- `set_my_name` copies all of `argv[1]` to a message. -/
def namesItself? : List (List UInt8) → Option (List Output)
  | [_, name] =>
      if strlen name < maxMsgLen then some [.sends (Client.setMyName name)] else none
  | _ => some []

/-- `clientMain`, if it is defined. -/
def clientMain? (argv : List (List UInt8)) (k : Kernel) : Option (Int × List Output) :=
  let ret := connectToServer k.dial
  if ret.1 ≠ .success then some (-1, ret.2 ++ [.shows (ascii "Connect to server failed.\n")])
  else do
    let named ← namesItself? argv
    let chat ← chatOn? k
    some (0, ret.2 ++ named ++ showHelp.map .shows ++ chat ++
      [.shows (ascii "Closing the client.\n")])

/-- What the process returns, and what it does.  `killed` is how much it has done when a signal
ends it: it returns nothing then. -/
def clientProcess (argv : List (List UInt8)) (k : Kernel) (killed : Option Nat) :
    Option (Option Int × List Output) :=
  (clientMain? argv k).map fun (ret, outputs) =>
    match killed with
    | none => (some ret, outputs)
    | some n => (none, outputs.take n)

/-! ## Where the texts fit -/

/-- The text of the message ends in its buffer, and one that is the name of a partner fits. -/
def Msg.InBounds (m : Msg) : Prop :=
  (0 : UInt8) ∈ m.buffer.bytes ∧ (m.NamesPartner → FitsName m.buffer.bytes)

/-- A line that is typed fits into a message. -/
theorem strlen_trimLine (chunk : Chunk (maxMsgLen - 1)) (stale : Buf maxMsgLen)
    (behind : List UInt8) :
    strlen ((trimLine chunk.bytes stale).bytes ++ behind) < maxMsgLen := by
  have hlen : chunk.bytes.length < maxMsgLen := Nat.lt_of_le_of_lt chunk.bounded (by decide)
  obtain ⟨rest, hrest⟩ := bytes_trimLine hlen stale
  have hline := zero_notMem_skipBlanks (zero_notMem_cstr (chop 0x0A chunk.bytes))
  rw [hrest, List.append_assoc, List.cons_append, strlen, cstr_append_zero hline]
  calc (skipBlanks (cstr (chop 0x0A chunk.bytes))).length
      ≤ (cstr (chop 0x0A chunk.bytes)).length := (List.dropWhile_sublist _).length_le
    _ ≤ (chop 0x0A chunk.bytes).length := (List.takeWhile_sublist _).length_le
    _ ≤ chunk.bytes.length := length_chop_le
    _ < maxMsgLen := hlen

theorem inBounds_ioRead {stdin : Option Read} {typed : List Call}
    (htyped : ioRead stdin = some typed) : ∀ call ∈ typed, call.InBounds := by
  intro call hcall
  match stdin with
  | none | some .eof =>
      cases htyped
      cases hcall
  | some .error => cases htyped
  | some (.bytes chunk stale behind) =>
      rw [ioRead] at htyped
      split at htyped
      · cases htyped
        cases hcall
      · cases htyped
        cases List.mem_singleton.mp hcall
        exact strlen_trimLine chunk stale behind

theorem inBounds_ioRecv {rxMsg mem : MsgMem} {sock : Option Recv} {received : List Call}
    (hreceived : ioRecv rxMsg sock = some (mem, received))
    (hmsgs : ∀ m, .handleRxMsgLib m ∈ received → m.InBounds) :
    ∀ call ∈ received, call.InBounds := by
  intro call hcall
  cases sock with
  | none =>
      cases hreceived
      cases hcall
  | some r =>
      cases r with
      | bytes chunk =>
          cases hreceived
          have hm := hmsgs _ (List.mem_cons_of_mem _ List.mem_cons_self)
          rcases List.mem_pair.mp hcall with rfl | rfl
          · exact hm.1
          · exact hm.2
      | closed | error => cases hreceived

/-- If the messages do, everything fits. -/
theorem inBounds_ioThreadLoop (polls : List IoPoll) : ∀ rxMsg : MsgMem,
    (∀ m, .handleRxMsgLib m ∈ ioThreadLoop rxMsg polls → m.InBounds) →
    ∀ call ∈ ioThreadLoop rxMsg polls, call.InBounds := by
  induction polls with
  | nil =>
      intro rxMsg _ call hcall
      cases hcall
  | cons p polls ih =>
      intro rxMsg hmsgs
      cases p with
      | error =>
          intro call hcall
          cases hcall
      | timeout => exact ih rxMsg hmsgs
      | ready sock stdin =>
          unfold ioThreadLoop at hmsgs ⊢
          split at hmsgs
          · intro call hcall
            cases hcall
          · next mem received hreceived =>
              intro call hcall
              rcases List.mem_append.mp hcall with hcall | hcall
              · exact inBounds_ioRecv hreceived
                  (fun m hm => hmsgs m (List.mem_append_left _ hm)) call hcall
              · cases htyped : ioRead stdin with
                | none =>
                    rw [htyped] at hcall
                    cases hcall
                | some typed =>
                    rw [htyped] at hcall hmsgs
                    rcases List.mem_append.mp hcall with hcall | hcall
                    · exact inBounds_ioRead htyped call hcall
                    · exact ih mem (fun m hm => hmsgs m (List.mem_append_right _
                        (List.mem_append_right _ hm))) call hcall

namespace Client

theorem doesAll?_eq {calls : List Call} (hcalls : ∀ call ∈ calls, call.InBounds) :
    ∀ c : Client, c.doesAll? calls = some (c.doesAll calls) := by
  induction calls with
  | nil =>
      intro c
      rfl
  | cons call calls ih =>
      intro c
      obtain ⟨hcall, hrest⟩ := List.forall_mem_cons.mp hcalls
      have hdoes : c.does? call = some (c.does call) := if_pos hcall
      simp only [doesAll?, hdoes, Option.bind_eq_bind, Option.bind_some, ih hrest, doesAll]

/-- What the library is handed the program takes. -/
theorem takes_mem_doesAll {calls : List Call} {m : Msg} (hm : .handleRxMsgLib m ∈ calls) :
    ∀ c : Client, .takes m ∈ c.doesAll calls := by
  induction calls with
  | nil => cases hm
  | cons call calls ih =>
      intro c
      refine List.mem_append.mpr ?_
      rcases List.mem_cons.mp hm with rfl | hm
      · exact Or.inl (List.mem_singleton_self _)
      · exact Or.inr (ih hm _)

end Client

section
variable {argv : List (List UInt8)} {k : Kernel}

theorem namesItself?_eq (hname : ∀ prog name, argv = [prog, name] → strlen name < maxMsgLen) :
    namesItself? argv = some (namesItself argv) := by
  rcases argv with _ | ⟨prog, _ | ⟨name, _ | ⟨arg, args⟩⟩⟩
  · rfl
  · rfl
  · exact if_pos (hname prog name rfl)
  · rfl

theorem chatOn?_eq (hmsgs : ∀ m, .takes m ∈ chatOn k → m.InBounds) :
    chatOn? k = some (chatOn k) := by
  unfold chatOn? chatOn at *
  split
  · rfl
  · next hcreated =>
      rw [if_neg hcreated] at hmsgs
      have hcalls := inBounds_ioThreadLoop k.polls k.rxMsg fun m hm =>
        hmsgs m (List.mem_append_left _ (Client.takes_mem_doesAll hm _))
      rw [Client.doesAll?_eq hcalls]
      rfl

/-- Where its texts fit, the program is defined. -/
theorem clientMain?_eq (hname : ∀ prog name, argv = [prog, name] → strlen name < maxMsgLen)
    (hmsgs : ∀ m, .takes m ∈ (clientMain argv k).2 → m.InBounds) :
    clientMain? argv k = some (clientMain argv k) := by
  unfold clientMain? clientMain at *
  dsimp only at *
  split
  · rfl
  · next hsucc =>
      rw [if_neg hsucc] at hmsgs
      have hchat : chatOn? k = some (chatOn k) := by
        refine chatOn?_eq fun m hm => hmsgs m ?_
        exact List.mem_append_left _ (List.mem_append_right _ hm)
      rw [namesItself?_eq hname, hchat]
      rfl

/-- What the process does is a first part of that, and all of it unless it is killed. -/
theorem clientProcess_eq (killed : Option Nat)
    (hname : ∀ prog name, argv = [prog, name] → strlen name < maxMsgLen)
    (hmsgs : ∀ m, .takes m ∈ (clientMain argv k).2 → m.InBounds) :
    ∃ ret outputs tail, clientProcess argv k killed = some (ret, outputs) ∧
      (clientMain argv k).2 = outputs ++ tail ∧
      (killed = none → ret = some (clientMain argv k).1 ∧ tail = []) ∧
      (killed ≠ none → ret = none) := by
  have hproc : clientProcess argv k killed = _ :=
    congrArg (Option.map _) (clientMain?_eq hname hmsgs)
  cases killed with
  | none => exact ⟨_, _, [], hproc, (List.append_nil _).symm, fun _ => ⟨rfl, rfl⟩, absurd rfl⟩
  | some n =>
      exact ⟨_, _, _, hproc, (List.take_append_drop n _).symm, nofun, fun _ => rfl⟩

end

/-! ## The conduct of the process -/

section
variable (argv : List (List UInt8)) (k : Kernel) (killed : Option Nat)

/-- What the server has seen of the process at its end, killed or not. -/
theorem happenings_clientProcess {outputs tail : List Output}
    (hsplit : (clientMain argv k).2 = outputs ++ tail) :
    Guarded Permitted (happenings outputs) ∧
      (¬ k.dial.Verified → happenings outputs = []) ∧
      ∀ a rest, happenings outputs = a :: rest →
        a = .sent (.ofType .connEstablishAck) ∧ (k.dial.sent = false → rest = []) ∧
          ∀ m, .sent m ∈ rest → m.msgType ≠ .connEstablishAck := by
  have hall : happenings (clientMain argv k).2 = happenings outputs ++ happenings tail := by
    rw [hsplit, happenings_append]
  refine ⟨(hall ▸ guarded_clientMain argv k).left, fun hv => ?_, ?_⟩
  · rcases happenings_clientMain argv k with ⟨-, -, hnone⟩ | ⟨hv', -⟩
    · exact (List.append_eq_nil_iff.mp (hall.symm.trans hnone)).1
    · exact absurd hv' hv
  · intro a rest he
    rw [he, List.cons_append] at hall
    rcases happenings_clientMain argv k with ⟨-, -, hnone⟩ | ⟨-, rest', hseen, hrest⟩
    · cases hall.symm.trans hnone
    · obtain ⟨rfl, rfl⟩ := List.cons_eq_cons.mp (hall.symm.trans hseen)
      refine ⟨rfl, fun hsent => ?_, fun m hm => ?_⟩
      · rcases hrest with ⟨-, -, hnil⟩ | ⟨hsent', -⟩
        · exact (List.append_eq_nil_iff.mp hnil).1
        · rw [hsent] at hsent'
          cases hsent'
      · rcases hrest with ⟨-, -, hnil⟩ | ⟨-, -, inputs, hrest⟩
        · rw [(List.append_eq_nil_iff.mp hnil).1] at hm
          cases hm
        · exact ne_ack_of_rest argv hrest m (List.mem_append_left _ hm)

/-- Whatever the kernel answers and whoever is at the other end, as long as the texts fit: a client
says nothing to a server that has not shown the key.  To one that has, it says first and once that
it is connected, and `main` returns 0 just if that could be sent and no signal ends the process;
from then on it sends what its history permits, and answers a request at most once. -/
theorem program_conduct (hname : ∀ prog name, argv = [prog, name] → strlen name < maxMsgLen)
    (hmsgs : ∀ m, .takes m ∈ (clientMain argv k).2 → m.InBounds) :
    ∃ ret outputs, clientProcess argv k killed = some (ret, outputs) ∧
      (ret = some 0 ↔ killed = none ∧ k.dial.Verified ∧ k.dial.sent = true) ∧
      (¬ k.dial.Verified → happenings outputs = []) ∧
      (k.dial.Verified → killed = none → happenings outputs ≠ []) ∧
      (∀ a rest, happenings outputs = a :: rest →
        a = .sent (.ofType .connEstablishAck) ∧ (k.dial.sent = false → rest = []) ∧
          ∀ m, .sent m ∈ rest → m.msgType ≠ .connEstablishAck) ∧
      (∀ before m after, happenings outputs = before ++ .sent m :: after → Permits before m) ∧
      ∀ before m mid m' after,
        happenings outputs = before ++ .sent m :: (mid ++ .sent m' :: after) →
        m.Leaves .asked → m'.Leaves .asked →
        ∃ q, .received q ∈ mid ∧ q.msgType = .connectionReqRx := by
  obtain ⟨ret, outputs, tail, hproc, hsplit, hlives, hdies⟩ :=
    clientProcess_eq killed hname hmsgs
  obtain ⟨hg, hsilent, hfirst⟩ := happenings_clientProcess argv k hsplit
  refine ⟨ret, outputs, hproc, ?_, hsilent, ?_, hfirst,
    fun before m after he => hg before (.sent m) after he, ?_⟩
  · rcases eq_or_ne killed none with hlive | hdead
    · rw [(hlives hlive).1, Option.some.injEq]
      rcases happenings_clientMain argv k with ⟨hv, hret, -⟩ | ⟨hv, rest, -, hrest⟩
      · rw [hret]
        exact iff_of_false (by decide) fun h => hv h.2.1
      · rcases hrest with ⟨hsent, hret, -⟩ | ⟨hsent, hret, -⟩
        · rw [hret, hsent]
          exact iff_of_false (by decide) fun h => Bool.false_ne_true h.2.2
        · exact iff_of_true hret ⟨hlive, hv, hsent⟩
    · rw [hdies hdead]
      exact iff_of_false nofun fun h => hdead h.1
  · intro hv hlive hnil
    rw [(hlives hlive).2, List.append_nil] at hsplit
    rcases happenings_clientMain argv k with ⟨hv', -⟩ | ⟨-, rest, hseen, -⟩
    · exact absurd hv hv'
    · rw [hsplit, hnil] at hseen
      cases hseen
  · intro before m mid m' after he hm hm'
    have hasked : Client.Unanswered (before ++ .sent m :: mid) := by
      refine (hg _ (.sent m') after ?_).answer hm'
      rw [he, List.append_assoc, List.cons_append]
    obtain ⟨b, hb, hasks⟩ := hasked.exists_mem hm id
    cases b with
    | received q => exact ⟨q, hb, hasks⟩
    | sent q => exact absurd hasks id

end

/-- A client that is asked by `ann`, says `yes` and talks to her. -/
def annAsks : Kernel where
  dial :=
    { connected := true
      select := .ready (.bytes (Msg.withText .connEstablishReq serverUniqueueId).chunk)
      sent := true }
  created := true
  rxMsg := .zero _
  polls :=
    [.ready (some (.bytes (Msg.withText .connectionReqRx (ascii "ann")).chunk)) none,
     .ready none (some (.bytes ⟨ascii "yes\n", by decide, by decide⟩ (.zero _) [])),
     .ready (some (.bytes (Msg.withText .clientChatReady (ascii "ann")).chunk)) none,
     .ready none (some (.bytes ⟨ascii "hi\n", by decide, by decide⟩ (.zero _) []))]

/-- Its server is gone when it talks, and SIGPIPE ends it. -/
theorem talk_is_cut :
    ∃ ret outputs, clientProcess [ascii "client", ascii "bob"] annAsks (some 15)
        = some (ret, outputs) ∧
      (ret = some 0 ↔ some 15 = none ∧ annAsks.dial.Verified ∧ annAsks.dial.sent = true) ∧
      (¬ annAsks.dial.Verified → happenings outputs = []) ∧
      (annAsks.dial.Verified → some 15 = none → happenings outputs ≠ []) ∧
      (∀ a rest, happenings outputs = a :: rest →
        a = .sent (.ofType .connEstablishAck) ∧ (annAsks.dial.sent = false → rest = []) ∧
          ∀ m, .sent m ∈ rest → m.msgType ≠ .connEstablishAck) ∧
      (∀ before m after, happenings outputs = before ++ .sent m :: after → Permits before m) ∧
      ∀ before m mid m' after,
        happenings outputs = before ++ .sent m :: (mid ++ .sent m' :: after) →
        m.Leaves .asked → m'.Leaves .asked →
        ∃ q, .received q ∈ mid ∧ q.msgType = .connectionReqRx := by
  have hdone : (clientMain [ascii "client", ascii "bob"] annAsks).2
      = .sends (.ofType .connEstablishAck) :: .sends (Client.setMyName (ascii "bob")) ::
        (showHelp.map .shows ++
          [.shows (printf "[ " (ascii "ann") " ] Wants to connect with you.\n"),
           .shows (ascii
             "Enter \"yes\" or \"no\" to accept or decline connection request.\n"),
           .takes (.withText .connectionReqRx (ascii "ann")),
           .sends (.ofType .clientAcceptConnection),
           .shows (printf "Ready to chat with : [ " (ascii "ann") " ].\n"),
           .takes (.withText .clientChatReady (ascii "ann")),
           .sends (.withText .clientTxType (ascii "hi")),
           .shows (ascii "Closing the client.\n")]) := by decide +kernel
  refine program_conduct _ _ _ (fun prog name he => ?_) fun m hm => ?_
  · cases he
    decide
  · rw [hdone] at hm
    have hcases : m = .withText .connectionReqRx (ascii "ann") ∨
        m = .withText .clientChatReady (ascii "ann") := by simpa using hm
    rcases hcases with rfl | rfl
    · exact ⟨by decide +kernel, fun hp => by rcases hp with hp | hp <;> cases hp⟩
    · exact ⟨by decide +kernel, fun _ => ⟨by decide +kernel, by decide +kernel⟩⟩

end ChatSocket
