/-
# `Client.Attribution` — who is said to talk

A line of the chat is printed with the name in `connected_client_name`, whatever
client the server relays.  `Partner` says of the history which name that should be:
the one of the message that opened the chat, where none has ended it since, and the
default elsewhere.  The client keeps it (`partner_rx`, `partner_line`), and prints a
message before its library sees it, so `chat_lines_attributed` holds of the program
whatever is received and typed, and in whatever pieces.
-/
import ChatSocket.Client.Program
import ChatSocket.Host.Steps

namespace ChatSocket

open Kit Client

/-! ## The partner, by the history -/

/-- A message that opens a chat with `name`. -/
def Happening.OpensAs (name : List UInt8) : Happening → Prop
  | received m => m.NamesPartner ∧ m.buffer.str = name
  | sent _ => False

/-- The latest message that has opened a chat names `name`, and nothing has ended it since. -/
def ChatsWith (name : List UInt8) : List Happening → Prop :=
  Since (Happening.OpensAs name) fun a => a.Opens ∨ a.Ends

/-- Whom the client should take for its partner. -/
def Partner (h : List Happening) (name : List UInt8) : Prop :=
  ChatsWith name h ∨ ¬ InChat h ∧ name = undefName

section
variable {h : List Happening} {name : List UInt8} {m : Msg}

theorem opens_received : (Happening.received m).Opens ↔ m.NamesPartner := Iff.rfl

theorem not_namesPartner_of_endsChat (hm : m.EndsChat) : ¬ m.NamesPartner := by
  intro hp
  rcases hm with hm | hm | hm <;> rcases hp with hp | hp <;> cases hm.symm.trans hp

theorem ChatsWith.inChat (hwith : ChatsWith name h) : InChat h := by
  refine hwith.imp (fun a ha => ?_) fun a => Or.inr
  cases a with
  | received m => exact ha.1
  | sent m => exact absurd ha id

/-- There is one partner at a time. -/
theorem Partner.unique {name' : List UInt8} (hp : Partner h name) (hp' : Partner h name') :
    name' = name := by
  rcases hp with hwith | ⟨hout, rfl⟩
  · rcases hp' with hwith' | ⟨hout, -⟩
    · refine Since.unique (fun n a ha => ?_) (fun a ha ha' => ?_) h hwith'
        hwith
      · cases a with
        | received m => exact Or.inl ha.1
        | sent m => exact absurd ha id
      · cases a with
        | received m => exact ha.2.symm.trans ha'.2
        | sent m => exact absurd ha id
    · exact absurd hwith.inChat hout
  · rcases hp' with hwith' | ⟨-, hname⟩
    · exact absurd hwith'.inChat hout
    · exact hname

theorem partner_nil : Partner [] undefName := Or.inr ⟨not_since_nil, rfl⟩

/-- The message that opens a chat. -/
theorem Partner.opens (h : List Happening) (hm : m.NamesPartner) :
    Partner (h ++ [.received m]) m.buffer.str :=
  Or.inl (since_concat.mpr (Or.inl ⟨hm, rfl⟩))

/-- What ends a chat. -/
theorem Partner.ends (h : List Happening) {a : Happening} (ha : a.Ends) (hno : ¬ a.Opens) :
    Partner (h ++ [a]) undefName := by
  refine Or.inr ⟨fun hin => ?_, rfl⟩
  rcases since_concat.mp hin with hopens | ⟨-, hnot⟩
  · exact hno hopens
  · exact hnot ha

/-- Nothing else makes a difference. -/
theorem Partner.other (hp : Partner h name) {a : Happening} (ha : ¬ a.Ends) (hno : ¬ a.Opens) :
    Partner (h ++ [a]) name := by
  rcases hp with hwith | ⟨hout, hname⟩
  · exact Or.inl (since_concat.mpr (Or.inr ⟨hwith, fun hor => hor.elim hno ha⟩))
  · refine Or.inr ⟨fun hin => ?_, hname⟩
    rcases since_concat.mp hin with hopens | ⟨hin, -⟩
    · exact hno hopens
    · exact hout hin

/-- What is sent makes none unless it is the farewell. -/
theorem Partner.sents {msgs : List Msg} (hmsgs : ∀ m ∈ msgs, ¬ m.Leaves .busy) :
    ∀ {h : List Happening}, Partner h name → Partner (h ++ msgs.map .sent) name := by
  induction msgs with
  | nil =>
      intro h hp
      rwa [List.map_nil, List.append_nil]
  | cons m msgs ih =>
      intro h hp
      obtain ⟨hm, hmsgs⟩ := List.forall_mem_cons.mp hmsgs
      rw [List.map_cons, List.append_cons]
      exact ih hmsgs (hp.other hm id)

/-! ## The client keeps it -/

theorem partner_rx {c : Client} (hp : Partner h c.connectedClientName.str)
    (hfits : m.NamesPartner → FitsName m.buffer.bytes) :
    Partner (h ++ [.received m]) (c.handleRxMsgLib m).connectedClientName.str := by
  have hopens : m.NamesPartner →
      Partner (h ++ [.received m]) (c.connectedClientName.strcpy m.buffer.bytes).str := by
    intro hm
    rw [str_strcpy_fits (hfits hm)]
    exact .opens h hm
  have hends : m.EndsChat →
      Partner (h ++ [.received m]) (c.connectedClientName.strcpy undefName).str := by
    intro hm
    rw [str_strcpy_undefName]
    exact .ends h hm (not_namesPartner_of_endsChat hm)
  have hother : ¬ m.EndsChat → ¬ m.NamesPartner →
      Partner (h ++ [.received m]) c.connectedClientName.str := fun ha hno => hp.other ha hno
  unfold handleRxMsgLib
  cases ht : m.msgType with
  | clientAcceptConnectionAck => exact hopens (Or.inl ht)
  | clientChatReady => exact hopens (Or.inr ht)
  | clientNoMoreFree => exact hends (Or.inl ht)
  | clientTermination => exact hends (Or.inr (Or.inl ht))
  | clientDisconnected => exact hends (Or.inr (Or.inr ht))
  | _ => exact hother (by simp [Msg.EndsChat, ht]) (by simp [Msg.NamesPartner, ht])

/-- A line leaves the name as it is, or ends the chat and says so. -/
theorem name_processSendMsg (c : Client) (line : List UInt8) :
    (c.processSendMsg line).1.connectedClientName = c.connectedClientName ∧
        (∀ m ∈ (c.processSendMsg line).2, ¬ m.Leaves .busy) ∨
      (c.processSendMsg line).1.connectedClientName.str = undefName ∧
        ∃ m, (c.processSendMsg line).2 = [m] ∧ m.Leaves .busy := by
  have hstays : ∀ {msgs : List Msg}, (∀ m ∈ msgs, m.msgType ≠ .clientTxType) →
      ∀ m ∈ msgs, ¬ m.Leaves .busy := fun hmsgs m hm hleaves => hmsgs m hm hleaves.1
  have htext := strcmp_disconnect_withText line
  unfold processSendMsg
  split
  · unfold handleSendMsgToClient
    dsimp only
    split
    · next hbye =>
        exact Or.inr ⟨str_strcpy_undefName _, _, rfl, rfl, htext.mpr hbye⟩
    · next htalk =>
        left
        refine ⟨rfl, fun m hm hleaves => htalk (htext.mp ?_)⟩
        rw [← List.mem_singleton.mp hm]
        exact hleaves.2
  left
  split
  · exact ⟨rfl, hstays (by simp [Msg.ofType])⟩
  split
  · exact ⟨rfl, hstays (by simp [Msg.ofType])⟩
  split
  · exact ⟨rfl, hstays (by simp)⟩
  · cases getCmdIdByName line with
    | disconnect | printHelp | clearScreen | maxCmd => exact ⟨rfl, hstays (by simp)⟩
    | getList => exact ⟨rfl, hstays (by simp [getClientList, Msg.ofType])⟩
    | connect =>
        cases nameArg line with
        | none => exact ⟨rfl, hstays (by simp)⟩
        | some name => exact ⟨rfl, hstays (by simp [connectWithClient, Msg.ofType])⟩
    | setName =>
        cases nameArg line with
        | none => exact ⟨rfl, hstays (by simp)⟩
        | some name => exact ⟨rfl, hstays (by simp [setMyName])⟩

theorem partner_line {c : Client} (hp : Partner h c.connectedClientName.str)
    (line : List UInt8) :
    Partner (h ++ (c.processSendMsg line).2.map .sent)
      (c.processSendMsg line).1.connectedClientName.str := by
  rcases name_processSendMsg c line with ⟨hname, hstays⟩ | ⟨hname, m, hmsgs, hleaves⟩
  · rw [hname]
    exact hp.sents hstays
  · rw [hname, hmsgs]
    exact .ends h hleaves id

end

/-! ## The whole program -/

/-- A text that was relayed is shown, under the name of the partner. -/
def Attributed (before : List Output) : Output → Prop
  | .takes m => m.msgType = .clientRxType → ∃ before' name,
      before = before' ++ [.shows (chatLine name m.buffer.str)] ∧
        Partner (happenings before') name
  | .sends _ | .shows _ => True

/-- A message goes to the program, and then to the library. -/
inductive Paired : List Call → Prop where
  | nil : Paired []
  | rx (rxMsg : Msg) {calls : List Call} : Paired calls →
      Paired (.msgHandleCb rxMsg :: .handleRxMsgLib rxMsg :: calls)
  | line (sendMsgBuffer : List UInt8) {calls : List Call} : Paired calls →
      Paired (.processSendMsg sendMsgBuffer :: calls)

theorem paired_ioRead {stdin : Option Read} {typed calls : List Call}
    (htyped : ioRead stdin = some typed) (hcalls : Paired calls) : Paired (typed ++ calls) := by
  match stdin with
  | none | some .eof =>
      cases htyped
      exact hcalls
  | some .error => cases htyped
  | some (.bytes chunk stale behind) =>
      rw [ioRead] at htyped
      split at htyped
      · cases htyped
        exact hcalls
      · cases htyped
        exact .line _ hcalls

theorem paired_ioRecv {rxMsg mem : MsgMem} {sock : Option Recv} {received calls : List Call}
    (hreceived : ioRecv rxMsg sock = some (mem, received)) (hcalls : Paired calls) :
    Paired (received ++ calls) := by
  cases sock with
  | none =>
      cases hreceived
      exact hcalls
  | some r =>
      cases r with
      | bytes chunk =>
          cases hreceived
          exact .rx _ hcalls
      | closed | error => cases hreceived

theorem paired_ioThreadLoop (polls : List IoPoll) :
    ∀ rxMsg : MsgMem, Paired (ioThreadLoop rxMsg polls) := by
  induction polls with
  | nil => exact fun _ => .nil
  | cons p polls ih =>
      intro rxMsg
      cases p with
      | error => exact .nil
      | timeout => exact ih rxMsg
      | ready sock stdin =>
          unfold ioThreadLoop
          split
          · exact .nil
          · next mem received hreceived =>
              refine paired_ioRecv hreceived ?_
              split
              · exact .nil
              · next typed htyped => exact paired_ioRead htyped (ih mem)

theorem attributed_of_shows (texts : List (List UInt8)) :
    ∀ o ∈ texts.map Output.shows, ∀ before, Attributed before o := by
  intro o ho before
  obtain ⟨text, -, rfl⟩ := List.mem_map.mp ho
  trivial

theorem attributed_of_sends (msgs : List Msg) :
    ∀ o ∈ msgs.map Output.sends, ∀ before, Attributed before o := by
  intro o ho before
  obtain ⟨m, -, rfl⟩ := List.mem_map.mp ho
  trivial

/-- The calls of `io_thread` keep the name, and attribute what they show. -/
theorem guarded_doesAll {calls : List Call} (hcalls : Paired calls) :
    ∀ {c : Client} {before : List Output},
      Partner (happenings before) c.connectedClientName.str →
      (∀ m, .takes m ∈ c.doesAll calls → m.NamesPartner → FitsName m.buffer.bytes) →
      Guarded Attributed before → Guarded Attributed (before ++ c.doesAll calls) := by
  induction hcalls with
  | nil =>
      intro c before _ _ hg
      rwa [doesAll, List.append_nil]
  | rx rxMsg _ ih =>
      intro c before hp hfits hg
      have hshown : Guarded Attributed
          (before ++ (c.msgHandleCb rxMsg).map .shows ++ [.takes rxMsg]) := by
        refine guarded_concat.mpr ⟨hg.append (attributed_of_shows _), fun htype => ?_⟩
        refine ⟨before, c.connectedClientName.str, ?_, hp⟩
        rw [msgHandleCb, htype]
        rfl
      have hp' : Partner
          (happenings (before ++ (c.msgHandleCb rxMsg).map .shows ++ [.takes rxMsg]))
          (c.handleRxMsgLib rxMsg).connectedClientName.str := by
        rw [happenings_append, happenings_append, happenings_shows, List.append_nil]
        exact partner_rx hp (hfits rxMsg (List.mem_append_right _ List.mem_cons_self))
      have hrun := ih hp'
        (fun m hm => hfits m (List.mem_append_right _ (List.mem_cons_of_mem _ hm))) hshown
      rwa [List.append_assoc, List.append_assoc] at hrun
  | line line _ ih =>
      intro c before hp hfits hg
      have hshown := (hg.append (attributed_of_sends (c.processSendMsg line).2)).append
        (attributed_of_shows (c.printsFor line))
      have hp' : Partner (happenings (before ++ (c.processSendMsg line).2.map .sends ++
          (c.printsFor line).map .shows)) (c.processSendMsg line).1.connectedClientName.str := by
        rw [happenings_append, happenings_append, happenings_shows, happenings_sends,
          List.append_nil]
        exact partner_line hp line
      have hrun := ih hp' (fun m hm => hfits m (List.mem_append_right _ hm)) hshown
      rwa [List.append_assoc, List.append_assoc, ← List.append_assoc (List.map _ _)] at hrun

section
variable (argv : List (List UInt8)) (k : Kernel)

/-- Before the chat nothing is received, and there is no partner. -/
theorem partner_opening :
    Partner (happenings ((connectToServer k.dial).2 ++ namesItself argv ++ showHelp.map .shows))
      Client.boot.connectedClientName.str := by
  have hboot : Client.boot.connectedClientName.str = undefName := str_strcpy_undefName _
  have hconn : ∃ msgs : List Msg, happenings (connectToServer k.dial).2 = msgs.map .sent ∧
      ∀ m ∈ msgs, ¬ m.Leaves .busy := by
    rcases happenings_connectToServer k.dial with ⟨-, hnone, -⟩ | ⟨-, hack, -⟩
    · exact ⟨[], hnone, fun m hm => by cases hm⟩
    · refine ⟨[.ofType .connEstablishAck], hack, fun m hm hleaves => ?_⟩
      rw [List.mem_singleton.mp hm] at hleaves
      cases hleaves.1
  have hself : ∃ msgs : List Msg, happenings (namesItself argv) = msgs.map .sent ∧
      ∀ m ∈ msgs, ¬ m.Leaves .busy := by
    unfold namesItself
    split
    · next name =>
        refine ⟨[setMyName name], rfl, fun m hm hleaves => ?_⟩
        rw [List.mem_singleton.mp hm] at hleaves
        cases hleaves.1
    · exact ⟨[], rfl, fun m hm => by cases hm⟩
  obtain ⟨first, hfirst, hfirstStays⟩ := hconn
  obtain ⟨second, hsecond, hsecondStays⟩ := hself
  rw [happenings_append, happenings_append, happenings_shows, List.append_nil, hfirst, hsecond,
    hboot]
  exact (partner_nil.sents hfirstStays).sents hsecondStays

theorem attributed_of_connect :
    ∀ o ∈ (connectToServer k.dial).2, ∀ before, Attributed before o := by
  intro o ho before
  cases o with
  | sends m => trivial
  | shows text => trivial
  | takes m =>
      unfold connectToServer at ho
      split at ho
      · cases ho
      split at ho
      · cases ho
      split at ho
      · simp only [sendMsgToServer] at ho
        split at ho <;> cases List.mem_singleton.mp ho
      split at ho
      · cases List.mem_singleton.mp ho
      · cases ho

theorem attributed_of_namesItself : ∀ o ∈ namesItself argv, ∀ before, Attributed before o := by
  unfold namesItself
  split
  · next name => exact attributed_of_sends [setMyName name]
  · exact attributed_of_sends []

/-- Whatever the kernel answers, as long as the names of partners fit: what a client is told by a
relayed text it prints first, under the name of the one with whom its history says it chats. -/
theorem chat_lines_attributed
    (hfits : ∀ m, .takes m ∈ (clientMain argv k).2 → m.NamesPartner → FitsName m.buffer.bytes) :
    ∀ before m after, (clientMain argv k).2 = before ++ .takes m :: after →
      m.msgType = .clientRxType → ∃ before' name,
        before = before' ++ [.shows (chatLine name m.buffer.str)] ∧
          Partner (happenings before') name ∧
          ∀ name', Partner (happenings before') name' → name' = name := by
  have hconn : Guarded Attributed ([] ++ (connectToServer k.dial).2) :=
    guarded_nil.append (attributed_of_connect k)
  have hg : Guarded Attributed (clientMain argv k).2 := by
    unfold clientMain at hfits ⊢
    dsimp only at hfits ⊢
    split
    · exact hconn.append (attributed_of_shows [_])
    · next hsucc =>
        rw [if_neg hsucc] at hfits
        refine Guarded.append ?_ (attributed_of_shows [_])
        unfold chatOn at hfits ⊢
        have hopening := (hconn.append (attributed_of_namesItself argv)).append
          (attributed_of_shows showHelp)
        split
        · exact hopening.append (attributed_of_shows [])
        · next hcreated =>
            rw [if_neg hcreated] at hfits
            have hcalls := guarded_doesAll (paired_ioThreadLoop k.polls k.rxMsg)
              (partner_opening argv k) (fun m hm => hfits m ?_) hopening
            rw [← List.append_assoc]
            split
            · exact hcalls.append (attributed_of_shows [_])
            · exact hcalls.append (attributed_of_shows [])
            · simp [hm]
  intro before m after he hm
  obtain ⟨before', name, hbefore, hp⟩ := hg before (.takes m) after he hm
  exact ⟨before', name, hbefore, hp, fun name' hp' => hp.unique hp'⟩

end

/-- A client that is told a text in its chat with `ann`. -/
def annTalks : Kernel where
  dial :=
    { connected := true
      select := .ready (.bytes (Msg.withText .connEstablishReq serverUniqueueId).chunk)
      sent := true }
  created := true
  rxMsg := .zero _
  polls :=
    [.ready (some (.bytes (Msg.withText .clientChatReady (ascii "ann")).chunk)) none,
     .ready (some (.bytes (Msg.withText .clientRxType (ascii "hi")).chunk)) none]

theorem ann_is_named :
    .shows (chatLine (ascii "ann") (ascii "hi")) ∈ (clientMain [] annTalks).2 ∧
      ∀ before m after, (clientMain [] annTalks).2 = before ++ .takes m :: after →
        m.msgType = .clientRxType → ∃ before' name,
          before = before' ++ [.shows (chatLine name m.buffer.str)] ∧
            Partner (happenings before') name ∧
            ∀ name', Partner (happenings before') name' → name' = name := by
  have htold : (clientMain [] annTalks).2 = .sends (.ofType .connEstablishAck) ::
      (showHelp.map .shows ++
        [.shows (printf "Ready to chat with : [ " (ascii "ann") " ].\n"),
         .takes (.withText .clientChatReady (ascii "ann")),
         .shows (chatLine (ascii "ann") (ascii "hi")),
         .takes (.withText .clientRxType (ascii "hi")),
         .shows (ascii "Closing the client.\n")]) := by decide +kernel
  refine ⟨by rw [htold]; simp, chat_lines_attributed [] annTalks fun m hm hp => ?_⟩
  rw [htold] at hm
  have hcases : m = .withText .clientChatReady (ascii "ann") ∨
      m = .withText .clientRxType (ascii "hi") := by simpa using hm
  rcases hcases with rfl | rfl
  · exact ⟨by decide +kernel, by decide +kernel⟩
  · rcases hp with hp | hp <;> cases hp

end ChatSocket
