/-
# `Server.Conversation` — two clients from the request to the end

`a` asks for `b`, `b` accepts, the two talk, and one of them quits; or `b`
declines.  The registry is arbitrary: any other clients may be in it, in any
state.  Nobody else acts meanwhile.

`conversation_restores`: the conversation ends in the registry it began in, and
everything said in it has arrived, once and in order, and nowhere else.
`decline_restores_never` is the other ending: the two links are left.
-/
import ChatSocket.Server.Standing

namespace ChatSocket

open Kit

/-- What is sent to `fd`, in order. -/
def sentTo (fd : Int) (acts : List Act) : List Msg :=
  acts.filterMap fun
    | .sent g msg => if g = fd then some msg else none
    | .wrote _ => none

theorem sentTo_append (fd : Int) (acts acts' : List Act) :
    sentTo fd (acts ++ acts') = sentTo fd acts ++ sentTo fd acts' := List.filterMap_append

@[simp] theorem sentTo_nil (fd : Int) : sentTo fd [] = [] := rfl

@[simp] theorem sentTo_wrote (fd : Int) (w : Write) (acts : List Act) :
    sentTo fd (.wrote w :: acts) = sentTo fd acts := rfl

theorem sentTo_sent (fd g : Int) (msg : Msg) (acts : List Act) :
    sentTo fd (.sent g msg :: acts) = if g = fd then msg :: sentTo fd acts else sentTo fd acts := by
  by_cases hg : g = fd <;> simp [sentTo, hg]

/-- A text of `a` or of `b` that does not end the chat. -/
def Event.Says (a b : Int) (e : Event) : Prop :=
  ∃ fd msg, e = .rxMsg fd msg ∧ (fd = a ∨ fd = b) ∧ msg.msgType = .clientTxType ∧
    msg.buffer.str ≠ disconnectCmd

/-- What `fd` says in a conversation. -/
def said (fd : Int) (chat : List Event) : List Msg :=
  chat.filterMap fun
    | .rxMsg g msg => if g = fd then some msg else none
    | .accepted _ _ | .closed _ => none

theorem said_append (fd : Int) (chat chat' : List Event) :
    said fd (chat ++ chat') = said fd chat ++ said fd chat' := List.filterMap_append

/-- A text as it is passed on: its payload is untouched. -/
def Msg.relayed (msg : Msg) : Msg := { msg with msgType := .clientRxType }

/-- The answer to a request that has reached a free client. -/
def Msg.freeReply (ask : Msg) : Msg :=
  { toClientId := 0, msgType := .clientFree,
    buffer := (Buf.zero _).memcpy ask.buffer.bytes maxClientNameLen }

namespace Couple

variable {r : Registry} {a b : Int}

/-- The state of a chat. -/
abbrev chatting (r : Registry) (a b : Int) : Registry := r.between a b ⟨.busy, b⟩ ⟨.busy, a⟩

/-- One text: it goes to the other. -/
theorem says_step (h : Couple r a b) {e : Event} (he : e.Says a b) :
    ∃ acts, atomicStep (chatting r a b) e = some (chatting r a b, acts) ∧
      sentTo b acts = (said a [e]).map Msg.relayed ∧ sentTo a acts = (said b [e]).map Msg.relayed ∧
      ∀ g, g ≠ a → g ≠ b → sentTo g acts = [] := by
  obtain ⟨fd, msg, rfl, hfd, hmsg, hsaid⟩ := he
  have hsaid : strcmp msg.buffer.bytes disconnectCmd ≠ 0 := fun hd =>
    hsaid ((strcmp_eq_zero_iff _ _).mp hd)
  rcases hfd with rfl | rfl
  · refine ⟨_, h.relay hmsg hsaid, ?_, ?_, ?_⟩
    · simp [sentTo_sent, said, Msg.relayed]
    · simp [sentTo_sent, said, h.ne, h.ne.symm]
    · intro g _ hgb
      simp [sentTo_sent, Ne.symm hgb]
  · have hstep := h.symm.relay (y := ⟨.busy, fd⟩) hmsg hsaid
    rw [← h.swap] at hstep
    refine ⟨_, hstep, ?_, ?_, ?_⟩
    · simp [sentTo_sent, said, h.ne, h.ne.symm]
    · simp [sentTo_sent, said, Msg.relayed]
    · intro g hga _
      simp [sentTo_sent, Ne.symm hga]

/-- A whole chat, by induction on its texts: the two stay linked, and what was said has
arrived. -/
theorem chat_run (h : Couple r a b) {chat : List Event} (hchat : ∀ e ∈ chat, e.Says a b) :
    ∃ outs, trace atomicStep (chatting r a b) chat = some (chatting r a b, outs) ∧
      sentTo b outs.flatten = (said a chat).map Msg.relayed ∧
      sentTo a outs.flatten = (said b chat).map Msg.relayed ∧
      ∀ g, g ≠ a → g ≠ b → sentTo g outs.flatten = [] := by
  induction chat with
  | nil => exact ⟨[], rfl, rfl, rfl, fun _ _ _ => rfl⟩
  | cons e chat ih =>
      obtain ⟨he, hchat⟩ := List.forall_mem_cons.mp hchat
      obtain ⟨acts, hstep, hb, ha, hother⟩ := h.says_step he
      obtain ⟨outs, htrace, ihb, iha, ihother⟩ := ih hchat
      refine ⟨acts :: outs, trace_cons hstep htrace, ?_, ?_, ?_⟩
      · rw [List.flatten_cons, sentTo_append, hb, ihb, ← List.map_append, ← said_append]
        rfl
      · rw [List.flatten_cons, sentTo_append, ha, iha, ← List.map_append, ← said_append]
        rfl
      · intro g hga hgb
        rw [List.flatten_cons, sentTo_append, hother g hga hgb, ihother g hga hgb]
        rfl

/-- The farewell of `a` or of `b`: the other is told. -/
theorem quits_step (h : Couple r a b) {q : Int} (hq : q = a ∨ q = b) {bye : Msg}
    (hbye : bye.msgType = .clientTxType) (hquits : bye.buffer.str = disconnectCmd) :
    ∃ acts, atomicStep (chatting r a b) (.rxMsg q bye) = some (r.between a b .idle .idle, acts) ∧
      sentTo b acts = (if q = a then [.withText .clientDisconnected (r.nameOf a)] else []) ∧
      sentTo a acts = (if q = b then [.withText .clientDisconnected (r.nameOf b)] else []) ∧
      ∀ g, g ≠ a → g ≠ b → sentTo g acts = [] := by
  have hquits : strcmp bye.buffer.bytes disconnectCmd = 0 := (strcmp_eq_zero_iff _ _).mpr hquits
  rcases hq with rfl | rfl
  · refine ⟨_, h.quit hbye hquits, ?_, ?_, ?_⟩
    · simp [sentTo_sent]
    · simp [sentTo_sent, h.ne, h.ne.symm]
    · intro g _ hgb
      simp [sentTo_sent, Ne.symm hgb]
  · have hstep := h.symm.quit (y := ⟨.busy, q⟩) hbye hquits
    rw [← h.swap, ← h.swap] at hstep
    refine ⟨_, hstep, ?_, ?_, ?_⟩
    · simp [sentTo_sent, h.ne, h.ne.symm]
    · simp [sentTo_sent]
    · intro g hga _
      simp [sentTo_sent, Ne.symm hga]

end Couple

namespace Registry

variable {r : Registry} {a b : Int}

theorem isSome_of_standing {x : Standing} (h : r.standing a = some x) : (r.node a).isSome := by
  obtain ⟨n, hn, -⟩ := Option.map_eq_some_iff.mp h
  rw [hn]
  rfl

/-- A name is a C string. -/
theorem cstr_nameOf (r : Registry) (fd : Int) : cstr (r.nameOf fd) = r.nameOf fd := by
  rw [nameOf]
  cases r.getClientNameByFd fd with
  | undefName => rfl
  | nodeName addr =>
      simp only [strAt]
      split
      · rfl
      · exact cstr_cstr _

theorem getClientFdByName_congr (r : Registry) {name name' : List UInt8}
    (h : cstr name = cstr name') : r.getClientFdByName name = r.getClientFdByName name' := by
  rw [getClientFdByName_eq, getClientFdByName_eq, nodeByName_eq, nodeByName_eq, h]

end Registry

/-! ## From the request on -/

/-- Two clients, neither in a chat nor asked for one, of which `b` can be asked for by its
name. -/
structure Strangers (r : Registry) (a b : Int) : Prop where
  distinct : r.Distinct
  ne : a ≠ b
  left : r.standing a = some .idle
  right : r.standing b = some .idle
  found : r.getClientFdByName (r.nameOf b) = b
  names : r.nameOf a ≠ r.nameOf b

/-- A CONNECT that names `b`. -/
def Msg.AsksFor (msg : Msg) (r : Registry) (b : Int) : Prop :=
  msg.msgType = .connectToClient ∧ msg.buffer.str = r.nameOf b

namespace Strangers

variable {r : Registry} {a b : Int}

theorem couple (h : Strangers r a b) : Couple r a b :=
  ⟨h.distinct, h.ne, Registry.isSome_of_standing h.left, Registry.isSome_of_standing h.right⟩

/-- The request: `b` is asked, and both are linked. -/
theorem asks_step (h : Strangers r a b) {ask : Msg} (hask : ask.AsksFor r b) :
    atomicStep r (.rxMsg a ask)
      = some (r.between a b ⟨.free, b⟩ ⟨.reqPending, a⟩,
        [.wrote (.status b .reqPending), .wrote (.toFd a b), .wrote (.toFd b a),
         .sent b (.withText .connectionReqRx (r.nameOf a)), .sent a ask.freeReply]) := by
  obtain ⟨hmsg, hname⟩ := hask
  have hcstr : cstr ask.buffer.bytes = cstr (r.nameOf b) := by
    rw [r.cstr_nameOf]
    exact hname
  have hto : r.getClientFdByName ask.buffer.bytes = b := by
    rw [r.getClientFdByName_congr hcstr]
    exact h.found
  have hself : strcmp (r.nameOf a) ask.buffer.bytes ≠ 0 := by
    rw [ne_eq, strcmp_eq_zero_iff, hcstr, r.cstr_nameOf, r.cstr_nameOf]
    exact h.names
  have hstep := h.couple.connect (x := .idle) (y := .idle) hmsg hto hself rfl
  rw [Registry.between_self h.left h.right] at hstep
  exact hstep

end Strangers

variable {r : Registry} {a b : Int}

/-- A whole conversation ends in the registry it began in.  What `a` and `b` have been sent is
what they said to each other, and nobody else has been sent anything. -/
theorem conversation_restores (h : Strangers r a b) (ha : r.nameOf a ≠ undefName)
    (hb : r.nameOf b ≠ undefName) {ask yes bye : Msg} (hask : ask.AsksFor r b)
    (hyes : yes.msgType = .clientAcceptConnection) {chat : List Event}
    (hchat : ∀ e ∈ chat, e.Says a b) {q : Int} (hq : q = a ∨ q = b)
    (hbye : bye.msgType = .clientTxType) (hquits : bye.buffer.str = disconnectCmd) :
    ∃ outs,
      trace atomicStep r (.rxMsg a ask :: .rxMsg b yes :: (chat ++ [.rxMsg q bye]))
        = some (r, outs) ∧
      sentTo b outs.flatten
        = .withText .connectionReqRx (r.nameOf a) :: .withText .clientChatReady (r.nameOf a) ::
          ((said a chat).map Msg.relayed ++
            if q = a then [.withText .clientDisconnected (r.nameOf a)] else []) ∧
      sentTo a outs.flatten
        = ask.freeReply :: .withText .clientAcceptConnectionAck (r.nameOf b) ::
          ((said b chat).map Msg.relayed ++
            if q = b then [.withText .clientDisconnected (r.nameOf b)] else []) ∧
      ∀ g, g ≠ a → g ≠ b → sentTo g outs.flatten = [] := by
  have hc := h.couple
  have hundef : ∀ g, r.nameOf g ≠ undefName → strcmp (r.nameOf g) undefName ≠ 0 := by
    intro g hg he
    rw [strcmp_eq_zero_iff, r.cstr_nameOf] at he
    exact hg he
  have hpairs := hc.accept (x := ⟨.free, b⟩) hyes (by simp) (hundef a ha) (hundef b hb)
  obtain ⟨outs, hrun, hsb, hsa, hso⟩ := hc.chat_run hchat
  obtain ⟨last, hlast, hlb, hla, hlo⟩ := hc.quits_step hq hbye hquits
  rw [Registry.between_self h.left h.right] at hlast
  refine ⟨_, trace_cons (h.asks_step hask) (trace_cons hpairs
    (trace_append hrun (trace_cons hlast rfl))), ?_, ?_, ?_⟩
  · simp [sentTo_append, sentTo_sent, hsb, hlb, h.ne]
  · simp [sentTo_append, sentTo_sent, hsa, hla, h.ne.symm]
  · intro g hga hgb
    simp [sentTo_append, sentTo_sent, hso g hga hgb, hlo g hga hgb, Ne.symm hga, Ne.symm hgb]

/-- The registry after 4 and 5 have joined. -/
def twoJoined : Registry := afterRun [joins 4, joins 5]

/-- A request of 4 to be connected to 5. -/
def askFive : Msg := .withText .connectToClient (Registry.tempClientName 5).str

theorem strangers_twoJoined : Strangers twoJoined 4 5 where
  distinct := ⟨by decide +kernel, by decide +kernel, by decide +kernel⟩
  ne := by decide
  left := by decide +kernel
  right := by decide +kernel
  found := by decide +kernel
  names := by decide +kernel

/-- 4 asks, 5 accepts, greets and quits. -/
theorem conversation_of_two :
    ∃ outs, trace atomicStep twoJoined
        [.rxMsg 4 askFive, acceptsAsker 5, talks 5 (ascii "hello"), talks 5 disconnectCmd]
          = some (twoJoined, outs) ∧
      sentTo 4 outs.flatten
        = [askFive.freeReply, .withText .clientAcceptConnectionAck (twoJoined.nameOf 5),
           .withText .clientRxType (ascii "hello"),
           .withText .clientDisconnected (twoJoined.nameOf 5)] := by
  have hsaid : ∀ e ∈ [talks 5 (ascii "hello")], e.Says 4 5 :=
    List.forall_mem_singleton.mpr ⟨5, _, rfl, Or.inr rfl, rfl, by decide +kernel⟩
  have hask : askFive.AsksFor twoJoined 5 := ⟨rfl, by decide +kernel⟩
  have hyes : (Msg.ofType .clientAcceptConnection).msgType = .clientAcceptConnection := rfl
  have hbye : (Msg.withText .clientTxType disconnectCmd).msgType = .clientTxType := rfl
  obtain ⟨outs, hrun, -, hsent, -⟩ :=
    conversation_restores strangers_twoJoined (by decide +kernel) (by decide +kernel) hask hyes
      hsaid (Or.inr rfl) hbye (by decide +kernel)
  exact ⟨outs, hrun, hsent⟩

/-- A request that is declined leaves the two linked: the registry is never the one it was. -/
theorem decline_restores_never (h : Strangers r a b) {ask no : Msg} (hask : ask.AsksFor r b)
    (hno : no.msgType = .clientDeclineConnection) :
    ∃ r' outs, trace atomicStep r [.rxMsg a ask, .rxMsg b no] = some (r', outs) ∧
      r'.standing a = some ⟨.free, b⟩ ∧ r'.standing b = some ⟨.free, a⟩ ∧ r' ≠ r := by
  have hc := h.couple
  have hleft := hc.standing_left ⟨.free, b⟩ ⟨.free, a⟩
  have hright := hc.standing_right ⟨.free, b⟩ ⟨.free, a⟩
  refine ⟨_, _, trace_cons (h.asks_step hask) (trace_cons (hc.decline hno) rfl), hleft, hright, ?_⟩
  intro he
  rw [he, h.left] at hleft
  exact hc.right_valid (congrArg Standing.toFd (Option.some.inj hleft)).symm

theorem declined_request_of_two :
    ∃ r' outs, trace atomicStep twoJoined [.rxMsg 4 askFive, declinesAsker 5] = some (r', outs) ∧
      r'.standing 4 = some ⟨.free, 5⟩ ∧ r'.standing 5 = some ⟨.free, 4⟩ ∧ r' ≠ twoJoined :=
  decline_restores_never strangers_twoJoined ⟨rfl, by decide +kernel⟩ rfl

/-- 4 asks and 5 declines: 4 is still linked to 5. -/
theorem declined_request_leaves_links :
    Strangers twoJoined 4 5 ∧ askFive.AsksFor twoJoined 5 ∧
      play atomicStep twoJoined [.rxMsg 4 askFive, declinesAsker 5] ≠ some twoJoined ∧
      (final atomicStep twoJoined [.rxMsg 4 askFive, declinesAsker 5]).getConnFdByFd 4 = 5 :=
  ⟨strangers_twoJoined, ⟨rfl, by decide +kernel⟩, by decide +kernel, by decide +kernel⟩

end ChatSocket
