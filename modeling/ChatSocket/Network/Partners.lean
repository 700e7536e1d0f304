/-
# `Network.Partners` — the name of the partner

MSG_CLIENT_ACCEPT_CONNECTION_ACK and MSG_CLIENT_CHAT_READY carry the name of the
new partner.  The client copies it, unchecked, into `connected_client_name`,
which is much shorter than the buffer it comes in, and takes a name other than
`UNDEF_NAME` for a sign that it is in a chat.

Both rest on the server: a stored name ends within its array (`Registry.Named`),
and no acceptance is announced to or from a client called `UNDEF_NAME`.
`partner_names_fit` follows the names from the registry into the client.
-/
import ChatSocket.Server.Nodes
import ChatSocket.Server.Conversation
import ChatSocket.Client.User

namespace ChatSocket

open Kit Registry

/-! ## What the server sends -/

/-- The messages that carry the name of a partner. -/
def Msg.NamesPartner (m : Msg) : Prop :=
  m.msgType = .clientAcceptConnectionAck ∨ m.msgType = .clientChatReady

/-- A message with the name of a partner is sent. -/
def Act.NamesPartner : Act → Prop
  | sent _ m => m.NamesPartner
  | wrote _ => False

@[simp] theorem namesPartner_sent (g : Int) (m : Msg) :
    (Act.sent g m).NamesPartner ↔ m.NamesPartner := Iff.rfl

@[simp] theorem not_namesPartner_wrote (w : Write) : ¬ (Act.wrote w).NamesPartner := id

/-- A NUL-terminated string that fits a name array. -/
def FitsName (src : List UInt8) : Prop := (0 : UInt8) ∈ src ∧ strlen src ≤ maxClientNameLen - 1

/-- A descriptor is an `int`. -/
def Event.IntFd : Event → Prop
  | accepted fd _ => fd < 2 ^ 31
  | rxMsg _ _ | closed _ => True

theorem length_cstr_lt {m : List UInt8} (h : (0 : UInt8) ∈ m) : strlen m < m.length := by
  obtain ⟨rest, hrest⟩ := exists_eq_cstr_append h
  have hlen := congrArg List.length hrest
  rw [List.length_append, List.length_cons] at hlen
  rw [strlen]
  omega

section
variable {r : Registry}

/-- The name of a client, or what stands for it. -/
theorem length_nameOf (hn : r.Named) (fd : Int) : (r.nameOf fd).length ≤ maxClientNameLen - 1 := by
  rw [nameOf]
  cases r.getClientNameByFd fd with
  | undefName => exact show ChatSocket.undefName.length ≤ _ by decide
  | nodeName a =>
      simp only [strAt]
      split
      · exact Nat.zero_le _
      · next n hlook =>
          have hlen := length_cstr_lt (hn n (look_mem hlook))
          rw [n.data.name.size_eq] at hlen
          exact Nat.le_sub_one_of_lt hlen

/-- An announced name. -/
theorem names_withText {t : MsgType} {s : List UInt8} (hcstr : cstr s = s)
    (hlen : s.length ≤ maxClientNameLen - 1) (hundef : s ≠ undefName) :
    FitsName (Msg.withText t s).buffer.bytes ∧ (Msg.withText t s).buffer.str ≠ undefName := by
  have hshort : strlen s < maxMsgLen := by
    rw [strlen, hcstr]
    exact Nat.lt_of_le_of_lt hlen (by decide)
  have hstr : (Msg.withText t s).buffer.str = s := (Buf.str_strcpy hshort).trans hcstr
  refine ⟨⟨?_, ?_⟩, fun he => hundef (hstr.symm.trans he)⟩
  · have hfits : (cstr s ++ [0]).length ≤ maxMsgLen := by
      rw [List.length_append]
      exact hshort
    show (0 : UInt8) ∈ ((Buf.zero maxMsgLen).write (cstr s ++ [0])).bytes
    rw [Buf.bytes_write hfits]
    exact List.mem_append_left _ (List.mem_append_right _ List.mem_cons_self)
  · show (Msg.withText t s).buffer.str.length ≤ _
    rw [hstr]
    exact hlen

theorem connectAnswer_ne_partner (fd : Int) (name : List UInt8) :
    connectAnswer r fd name ≠ .clientAcceptConnectionAck ∧
      connectAnswer r fd name ≠ .clientChatReady := by
  unfold connectAnswer
  repeat' split
  all_goals simp

/-! ### Only the handler of an acceptance announces a partner -/

theorem not_names_setName (fd : Int) (name : List UInt8) :
    ∀ a ∈ setNameActs r fd name, ¬ a.NamesPartner := by
  simp only [setNameActs]
  split
  · simp [Msg.NamesPartner]
  · split <;> simp [Msg.NamesPartner]

theorem not_names_list (fd : Int) : ∀ a ∈ clientListActs r fd, ¬ a.NamesPartner := by
  simp only [clientListActs]
  split <;> simp [Msg.NamesPartner]

theorem not_names_connect (fd : Int) (name : List UInt8) :
    ∀ a ∈ connectActs r fd name, ¬ a.NamesPartner := by
  have hne := connectAnswer_ne_partner (r := r) fd name
  simp only [connectActs]
  split
  · simp
  split
  · split <;> simp [Msg.NamesPartner, hne]
  · simp [Msg.NamesPartner, hne]

theorem not_names_tx (fd : Int) (msg : Msg) : ∀ a ∈ txActs r fd msg, ¬ a.NamesPartner := by
  simp only [txActs]
  split
  · simp
  · split <;> simp [Msg.NamesPartner]

theorem not_names_decline (fd : Int) : ∀ a ∈ declineActs r fd, ¬ a.NamesPartner := by
  simp only [declineActs]
  split <;> simp [Msg.NamesPartner]

theorem not_names_register (fd : Int) (ok : Bool) :
    ∀ a ∈ registerActs r fd ok, ¬ a.NamesPartner := by
  simp only [registerActs]
  split <;> simp [Msg.NamesPartner]

theorem not_names_closed (fd : Int) : ∀ a ∈ closedActs r fd, ¬ a.NamesPartner := by
  simp only [closedActs]
  split <;> simp [Msg.NamesPartner]

theorem acts_of_namesPartner {e : Event} {a : Act} (ha : a.NamesPartner) (hmem : a ∈ e.acts r) :
    ∃ fd, a ∈ acceptActs r fd := by
  cases e with
  | accepted fd ok => exact absurd ha (not_names_register fd ok a hmem)
  | closed fd => exact absurd ha (not_names_closed fd a hmem)
  | rxMsg fd msg =>
      simp only [Event.acts, rxActs] at hmem
      split at hmem
      · exact absurd ha (not_names_setName _ _ a hmem)
      · exact absurd ha (not_names_list _ a hmem)
      · exact absurd ha (not_names_connect _ _ a hmem)
      · exact ⟨fd, hmem⟩
      · exact absurd ha (not_names_tx _ _ a hmem)
      · exact absurd ha (not_names_decline _ a hmem)
      · cases hmem

theorem ne_of_not_unnamed {fd : Int} (h : ¬ strcmp (r.nameOf fd) undefName = 0) :
    r.nameOf fd ≠ undefName := by
  intro he
  exact h ((strcmp_eq_zero_iff _ _).mpr (by rw [he]))

/-- An announced partner has a name that fits, and is not `UNDEF_NAME`. -/
theorem accept_names (hn : r.Named) {fd g : Int} {m : Msg} (hm : m.NamesPartner)
    (hmem : .sent g m ∈ acceptActs r fd) :
    FitsName m.buffer.bytes ∧ m.buffer.str ≠ undefName := by
  simp only [acceptActs] at hmem
  split at hmem
  · cases hmem
  split at hmem
  · simp only [List.mem_cons, reduceCtorEq, Act.sent.injEq, List.not_mem_nil, or_false,
      false_or] at hmem
    obtain ⟨-, rfl⟩ := hmem
    simp [Msg.NamesPartner] at hm
  next hpeer =>
  split at hmem
  · simp only [List.mem_cons, reduceCtorEq, Act.sent.injEq, List.not_mem_nil, or_false,
      false_or] at hmem
    obtain ⟨-, rfl⟩ := hmem
    simp [Msg.NamesPartner] at hm
  split at hmem
  · obtain ⟨-, rfl⟩ := Act.sent.inj (List.mem_singleton.mp hmem)
    exact names_withText (by decide) (by decide) (by decide)
  · split at hmem
    · simp at hmem
    · next hown =>
        simp only [List.cons_append, List.nil_append, List.mem_cons, reduceCtorEq, Act.sent.injEq,
          List.not_mem_nil, or_false, false_or] at hmem
        rcases hmem with ⟨-, rfl⟩ | ⟨-, rfl⟩
        · exact names_withText (r.cstr_nameOf _) (length_nameOf hn _) (ne_of_not_unnamed hpeer)
        · exact names_withText (r.cstr_nameOf _) (length_nameOf hn _) (ne_of_not_unnamed hown)

end

theorem named_atomicStep {r r' : Registry} {e : Event} {acts : List Act} (hr : r.Wf)
    (hn : r.Named) (he : e.IntFd) (hs : atomicStep r e = some (r', acts)) : r'.Named := by
  obtain ⟨hpossible, rfl, -⟩ := atomicStep_eq_some_iff.mp hs
  cases e with
  | accepted fd ok =>
      show (replay r (registerActs r fd ok)).Named
      rw [replay_registerActs]
      exact hn.register hpossible.1 he ok
  | rxMsg fd msg | closed fd =>
      exact Named.replay_plain _ hn (plain_acts hr hpossible fun _ _ => Event.noConfusion)

/-- In every run of the server, the names it announces fit. -/
theorem announced_names_fit {es : List Event} (hes : ∀ e ∈ es, e.IntFd) {r : Registry}
    {outs : List (List Act)} (hrun : trace atomicStep .empty es = some (r, outs)) {g : Int} {m : Msg}
    (hm : m.NamesPartner) (hsent : .sent g m ∈ outs.flatten) :
    FitsName m.buffer.bytes ∧ m.buffer.str ≠ undefName := by
  have hnamed : Everywhere atomicStep (fun r => r.Good ∧ r.Named) .empty es := by
    refine everywhere_of_events (E := Event.IntFd) ?_ hes ⟨good_empty, fun _ h => nomatch h⟩
    intro r e r' acts he h hs
    exact ⟨good_atomicStep r e r' acts h.1 hs, named_atomicStep h.1.wf h.2 he hs⟩
  obtain ⟨acts, hacts, hmem⟩ := List.mem_flatten.mp hsent
  obtain ⟨r₀, e, r₁, ⟨-, hn⟩, -, hs⟩ := trace_mem hrun hnamed hacts
  obtain ⟨-, -, rfl⟩ := atomicStep_eq_some_iff.mp hs
  obtain ⟨fd, hmem⟩ := acts_of_namesPartner (a := .sent g m) hm hmem
  exact accept_names hn hm hmem

/-! ## What the client makes of it -/

namespace Client

/-- A whole message is received, or a line is typed. -/
inductive Input where
  | rx (rxMsg : Msg)
  | line (sendMsgBuffer : List UInt8)

/-- One turn of the client, and what it sends. -/
def step (c : Client) : Input → Option (Client × List Msg)
  | .rx rxMsg => some (c.handleRxMsgLib rxMsg, [])
  | .line sendMsgBuffer => some (c.processSendMsg sendMsgBuffer)

/-- What a turn copies into `connected_client_name`: the memory behind the second argument of
its `strcpy`. -/
def copied (c : Client) : Input → List (List UInt8)
  | .rx rxMsg =>
      match rxMsg.msgType with
      | .clientAcceptConnectionAck | .clientChatReady => [rxMsg.buffer.bytes]
      | .clientNoMoreFree | .clientTermination | .clientDisconnected => [undefName ++ [0]]
      | _ => []
  | .line sendMsgBuffer =>
      if c.busyInChat ∧ strcmp sendMsgBuffer disconnectCmd = 0 then [undefName ++ [0]] else []

/-- `busy_in_chat` is set exactly if there is a partner's name. -/
def NamesPartner (c : Client) : Prop :=
  c.busyInChat = true ↔ c.connectedClientName.str ≠ undefName

/-- `copied` is what changes `connected_client_name`. -/
theorem connectedClientName_step {c c' : Client} {i : Input} {sent : List Msg}
    (hs : c.step i = some (c', sent)) :
    c'.connectedClientName = (c.copied i).foldl Buf.strcpy c.connectedClientName := by
  cases i with
  | rx rxMsg =>
      obtain ⟨rfl, -⟩ := Prod.mk.inj (Option.some.inj hs)
      simp only [handleRxMsgLib, copied]
      cases rxMsg.msgType with
      | _ => rfl
  | line sendMsgBuffer =>
      have hc : c' = (c.processSendMsg sendMsgBuffer).1 := by
        rw [Option.some.inj hs]
      rw [hc]
      simp only [copied, processSendMsg, handleSendMsgToClient]
      cases c.busyInChat with
      | true =>
          simp only [if_true, true_and]
          split <;> rfl
      | false =>
          simp only [Bool.false_eq_true, if_false, false_and]
          split
          · rfl
          split
          · rfl
          split
          · rfl
          · cases getCmdIdByName sendMsgBuffer with
            | getList | disconnect | printHelp | clearScreen | maxCmd => rfl
            | connect | setName => cases nameArg sendMsgBuffer <;> rfl

theorem fits_undefName : FitsName (undefName ++ [0]) := ⟨by decide, by decide⟩

theorem str_strcpy_fits {dst : Buf maxClientNameLen} {src : List UInt8} (h : FitsName src) :
    (dst.strcpy src).str = cstr src :=
  Buf.str_strcpy (Nat.lt_of_le_of_lt h.2 (by decide))

theorem str_strcpy_undefName (dst : Buf maxClientNameLen) :
    (dst.strcpy undefName).str = undefName := (Buf.str_strcpy (by decide)).trans (by decide)

/-- A message whose names fit is received without a write past the array. -/
theorem namesPartner_rx {c : Client} (hc : c.NamesPartner) {m : Msg}
    (hm : m.NamesPartner → FitsName m.buffer.bytes ∧ m.buffer.str ≠ undefName) :
    (c.handleRxMsgLib m).NamesPartner := by
  have hstr : m.NamesPartner → (c.connectedClientName.strcpy m.buffer.bytes).str ≠ undefName := by
    intro hp he
    rw [str_strcpy_fits (hm hp).1] at he
    exact (hm hp).2 he
  have hnone := str_strcpy_undefName c.connectedClientName
  unfold NamesPartner handleRxMsgLib
  cases ht : m.msgType with
  | clientAcceptConnectionAck => exact iff_of_true rfl (hstr (Or.inl ht))
  | clientChatReady => exact iff_of_true rfl (hstr (Or.inr ht))
  | clientNoMoreFree | clientTermination | clientDisconnected =>
      exact iff_of_false Bool.false_ne_true fun hne => hne hnone
  | _ => exact hc

theorem namesPartner_line {c : Client} (hc : c.NamesPartner) (line : List UInt8) :
    (c.processSendMsg line).1.NamesPartner := by
  unfold processSendMsg
  split
  · unfold handleSendMsgToClient
    simp only
    split
    · exact iff_of_false Bool.false_ne_true fun hne =>
        hne (str_strcpy_undefName c.connectedClientName)
    · exact hc
  split
  · exact hc
  split
  · exact hc
  split
  · exact hc
  · cases getCmdIdByName line with
    | getList | disconnect | printHelp | clearScreen | maxCmd => exact hc
    | connect | setName => cases nameArg line <;> exact hc

/-- What a turn copies fits, if the names in what it receives do. -/
theorem copied_fits {c : Client} {i : Input}
    (hi : ∀ m, i = .rx m → m.NamesPartner → FitsName m.buffer.bytes) :
    ∀ src ∈ c.copied i, FitsName src := by
  cases i with
  | rx m =>
      have hm := hi m rfl
      intro src hsrc
      simp only [copied] at hsrc
      cases ht : m.msgType with
      | clientAcceptConnectionAck =>
          simp only [ht, List.mem_singleton] at hsrc
          exact hsrc ▸ hm (Or.inl ht)
      | clientChatReady =>
          simp only [ht, List.mem_singleton] at hsrc
          exact hsrc ▸ hm (Or.inr ht)
      | clientNoMoreFree | clientTermination | clientDisconnected =>
          simp only [ht, List.mem_singleton] at hsrc
          exact hsrc ▸ fits_undefName
      | _ =>
          simp only [ht] at hsrc
          cases hsrc
  | line b =>
      intro src hsrc
      simp only [copied] at hsrc
      split at hsrc
      · exact List.mem_singleton.mp hsrc ▸ fits_undefName
      · cases hsrc

end Client

/-- The message has been sent by the server, in some run of it. -/
def Msg.FromServer (m : Msg) : Prop :=
  ∃ es r outs g, (∀ e ∈ es, Event.IntFd e) ∧ trace atomicStep .empty es = some (r, outs) ∧
    .sent g m ∈ outs.flatten

/-- Every name the server announces is a NUL-terminated string that fits, and not `UNDEF_NAME`.
So whatever a client receives of it, and whatever is typed: every copy into
`connected_client_name` stays within it, and the name says whether the client is in a chat. -/
theorem partner_names_fit :
    (∀ m : Msg, m.FromServer → m.NamesPartner →
      FitsName m.buffer.bytes ∧ m.buffer.str ≠ undefName) ∧
    ∀ inputs : List Client.Input, (∀ m, .rx m ∈ inputs → m.FromServer) →
      EveryStep Client.step (fun c i => ∀ src ∈ c.copied i, FitsName src) .boot inputs ∧
      Everywhere Client.step Client.NamesPartner .boot inputs := by
  have hserver : ∀ m : Msg, m.FromServer → m.NamesPartner →
      FitsName m.buffer.bytes ∧ m.buffer.str ≠ undefName := by
    rintro m ⟨es, r, outs, g, hes, hrun, hsent⟩ hm
    exact announced_names_fit hes hrun hm hsent
  refine ⟨hserver, fun inputs hinputs => ?_⟩
  have hnames : ∀ i ∈ inputs, ∀ m, i = .rx m → m.NamesPartner →
      FitsName m.buffer.bytes ∧ m.buffer.str ≠ undefName := by
    rintro i hi m rfl
    exact hserver m (hinputs m hi)
  refine ⟨everyStep_of_events (fun c i hi src hsrc => ?_) hnames, ?_⟩
  · exact Client.copied_fits (fun m he hm => (hi m he hm).1) src hsrc
  · refine everywhere_of_events ?_ hnames (iff_of_false Bool.false_ne_true (by decide))
    intro c i c' sent hi hc hs
    cases i with
    | rx m =>
        obtain ⟨rfl, -⟩ := Prod.mk.inj (Option.some.inj hs)
        exact Client.namesPartner_rx hc (hi m rfl)
    | line b =>
        have hc' : c' = (c.processSendMsg b).1 := by
          rw [Option.some.inj hs]
        rw [hc']
        exact Client.namesPartner_line hc b

end ChatSocket
