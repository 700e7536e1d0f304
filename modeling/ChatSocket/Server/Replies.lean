/-
# `Server.Replies` — what an answer of the server says

A client learns what has become of its request from the answer alone.  For a
CONNECT the answer, the message to the client asked for and the change of the
registry come from four walks through `client_list`, made one after the other;
`connect_agrees`: they speak of one node, and agree.

For a rename they need not.  The check compares the whole of the requested name
and the store keeps 63 characters of it, so a name that is longer is
acknowledged and not given: `setName_agrees_iff`.
-/
import ChatSocket.Server.Conversation
import ChatSocket.Server.Names

namespace ChatSocket

open Kit Registry

/-- The first node that stores `name`. -/
def Registry.firstNamed (r : Registry) (name : List UInt8) : Option ClientNode :=
  look (fun n : ClientNode => n.data.name.str) name r.clientList

variable {r : Registry} {a fd : Int}

theorem nodeByName_eq_firstNamed (r : Registry) (name : List UInt8) :
    r.nodeByName name = r.firstNamed (cstr name) := r.nodeByName_eq name

/-- A registered client is itself one that bears its name. -/
theorem firstNamed_nameOf (h : r.Distinct) (ha : (r.node a).isSome) :
    r.firstNamed (r.nameOf a) ≠ none := by
  obtain ⟨n, hn⟩ := Option.isSome_iff_exists.mp ha
  rw [h.nameOf_eq hn]
  intro hnone
  exact look_eq_none_iff.mp hnone n (look_mem hn) rfl

theorem strcmp_nameOf_iff (r : Registry) (a : Int) (p : Buf maxMsgLen) :
    strcmp (r.nameOf a) p.bytes = 0 ↔ r.nameOf a = p.str := by
  rw [strcmp_eq_zero_iff, r.cstr_nameOf]
  rfl

/-! ## A request to be connected -/

/-- The answer, the message to the client asked for and the change of the registry, on a request
of `a` for `name`. -/
structure ConnectAgrees (r : Registry) (a : Int) (name : List UInt8) (r' : Registry)
    (acts : List Act) (answer : MsgType) : Prop where
  found : answer = .clientFree ↔
    ∃ n, r.firstNamed name = some n ∧ r.nameOf a ≠ name ∧ n.data.chatStatus = .free
  told : answer = .clientFree ↔
    ∃ n, r.firstNamed name = some n ∧
      (sentTo n.fd acts).filter (·.msgType = .connectionReqRx)
        = [.withText .connectionReqRx (r.nameOf a)]
  linked : answer = .clientFree ↔
    ∃ n x, r.firstNamed name = some n ∧ n.data.chatStatus ≠ .reqPending ∧
      r.standing a = some x ∧ r' = r.between a n.fd { x with toFd := n.fd } ⟨.reqPending, a⟩
  self : answer = .attemptToConnectToSelf ↔ r.nameOf a = name
  nobody : answer = .clientNotExist ↔ r.firstNamed name = none
  busy : answer = .clientBusy ↔
    r.nameOf a ≠ name ∧ ∃ n, r.firstNamed name = some n ∧ n.data.chatStatus = .busy
  pending : answer = .clientStatusReqPending ↔
    r.nameOf a ≠ name ∧ ∃ n, r.firstNamed name = some n ∧ n.data.chatStatus = .reqPending
  quiet : answer ≠ .clientFree → (∀ g, g ≠ a → sentTo g acts = []) ∧ r' = r

/-- The answer for a client that is found. -/
def ChatStatus.answer : ChatStatus → MsgType
  | free => .clientFree
  | busy => .clientBusy
  | reqPending => .clientStatusReqPending
  | clientNotFound | max => .clientNotExist

theorem connectAnswer_eq (h : r.Distinct) (a : Int) (p : Buf maxMsgLen) :
    connectAnswer r a p.bytes
      = match r.firstNamed p.str with
        | none => .clientNotExist
        | some n =>
            if r.nameOf a = p.str then .attemptToConnectToSelf else n.data.chatStatus.answer := by
  have hby : r.nodeByName p.bytes = r.firstNamed p.str := nodeByName_eq_firstNamed r _
  simp only [connectAnswer, ne_eq, check_eq_nameExists_iff, getClientFdByName_eq,
    getClientChattingStatusByName, strcmp_nameOf_iff, hby]
  cases hn : r.firstNamed p.str with
  | none => rfl
  | some n =>
      have hvalid := h.valid n (look_mem hn)
      simp only [Option.isSome_some, not_true_eq_false, if_false, Option.map_some,
        Option.getD_some, if_neg hvalid]
      split
      · rfl
      · cases n.data.chatStatus <;> rfl

theorem connectTarget_eq (r : Registry) (a : Int) (p : Buf maxMsgLen) :
    r.connectTarget a p.bytes
      = match r.firstNamed p.str with
        | none => none
        | some n =>
            if r.nameOf a ≠ p.str ∧ n.data.chatStatus = .free then some n.fd else none := by
  have hby : r.nodeByName p.bytes = r.firstNamed p.str := nodeByName_eq_firstNamed r _
  cases hn : r.firstNamed p.str with
  | none => simp only [connectTarget, hby, hn]
  | some n => simp only [connectTarget, hby, hn, ne_eq, strcmp_nameOf_iff]

/-- The registry after a request that has found somebody. -/
theorem replay_connect (h : Couple r a fd) {x y : Standing} (hx : r.standing a = some x)
    (hy : r.standing fd = some y) :
    (Write.toFd fd a).apply ((Write.toFd a fd).apply ((Write.status fd .reqPending).apply r))
      = r.between a fd { x with toFd := fd } ⟨.reqPending, a⟩ := by
  have hself := between_self hx hy
  rw [← hself, h.apply_status_right x y (s := .reqPending) (by simp), h.apply_toFd_left,
    h.apply_toFd_right, hself]

/-- A link between `a` and a node that has not been asked is not there. -/
theorem ne_between {n : ClientNode} (hn : r.node n.fd = some n)
    (hfree : n.data.chatStatus ≠ .reqPending) (x : Standing) :
    r ≠ r.between a n.fd x ⟨.reqPending, a⟩ := by
  intro he
  have hnow : (r.between a n.fd x ⟨.reqPending, a⟩).standing n.fd
      = some ⟨n.data.chatStatus, n.data.toFd⟩ := by
    rw [← he, standing, hn]
    rfl
  have hreg : ((r.stand a x).node n.fd).isSome := by
    rw [node_stand]
    split
    · next he =>
        rw [← he, hn]
        rfl
    · rw [hn]
      rfl
  obtain ⟨m, hm⟩ := Option.isSome_iff_exists.mp hreg
  rw [between, standing_stand, if_pos rfl, hm] at hnow
  exact hfree (congrArg Standing.status (Option.some.inj hnow)).symm

/-- Which answer a client gets that is not told CHAT_STATUS_FREE. -/
theorem connectAnswer_none (h : r.Distinct) (hs : ∀ n ∈ r.clientList, n.data.chatStatus.Stored)
    {p : Buf maxMsgLen} (ht : r.connectTarget a p.bytes = none) :
    (r.nameOf a = p.str ∧ connectAnswer r a p.bytes = .attemptToConnectToSelf) ∨
      (r.firstNamed p.str = none ∧ connectAnswer r a p.bytes = .clientNotExist) ∨
      ∃ n, r.firstNamed p.str = some n ∧ r.nameOf a ≠ p.str ∧
        (n.data.chatStatus = .busy ∧ connectAnswer r a p.bytes = .clientBusy ∨
          n.data.chatStatus = .reqPending ∧
            connectAnswer r a p.bytes = .clientStatusReqPending) := by
  rw [connectTarget_eq] at ht
  rw [connectAnswer_eq h]
  cases hn : r.firstNamed p.str with
  | none => exact Or.inr (Or.inl ⟨rfl, rfl⟩)
  | some n =>
      by_cases hself : r.nameOf a = p.str
      · exact Or.inl ⟨hself, if_pos hself⟩
      · refine Or.inr (Or.inr ⟨n, rfl, hself, ?_⟩)
        simp only [hn, ne_eq, hself, not_false_eq_true, true_and] at ht
        rcases hs n (look_mem hn) with hst | hst | hst
        · rw [if_pos hst] at ht
          cases ht
        · exact Or.inl ⟨hst, by simp only [if_neg hself, hst, ChatStatus.answer]⟩
        · exact Or.inr ⟨hst, by simp only [if_neg hself, hst, ChatStatus.answer]⟩

/-- A request that reaches nobody: nothing of the three happens. -/
theorem connectAgrees_none (h : r.Distinct) (hs : ∀ n ∈ r.clientList, n.data.chatStatus.Stored)
    (ha : (r.node a).isSome) {p : Buf maxMsgLen} (ht : r.connectTarget a p.bytes = none)
    {answer : Msg} (hanswer : answer.msgType = connectAnswer r a p.bytes) :
    ConnectAgrees r a p.str r [.sent a answer] answer.msgType := by
  have hcause := connectAnswer_none h hs ht
  rw [← hanswer] at hcause
  rw [connectTarget_eq] at ht
  have hown := firstNamed_nameOf h ha
  have htype : answer.msgType ≠ .clientFree ∧ answer.msgType ≠ .connectionReqRx := by
    rcases hcause with ⟨-, he⟩ | ⟨-, he⟩ | ⟨n, -, -, ⟨-, he⟩ | ⟨-, he⟩⟩ <;> simp [he]
  obtain ⟨hfree, hreq⟩ := htype
  have hfound : ¬ ∃ n, r.firstNamed p.str = some n ∧ r.nameOf a ≠ p.str ∧
      n.data.chatStatus = .free := by
    rintro ⟨n, hn, hname, hst⟩
    simp [hn, hname, hst] at ht
  have htold : ¬ ∃ n, r.firstNamed p.str = some n ∧
      (sentTo n.fd [.sent a answer]).filter (·.msgType = .connectionReqRx)
        = [.withText .connectionReqRx (r.nameOf a)] := by
    rintro ⟨n, -, htold⟩
    rw [sentTo_sent] at htold
    split at htold <;> simp [hreq] at htold
  have hlinked : ¬ ∃ n x, r.firstNamed p.str = some n ∧ n.data.chatStatus ≠ .reqPending ∧
      r.standing a = some x ∧ r = r.between a n.fd { x with toFd := n.fd } ⟨.reqPending, a⟩ := by
    rintro ⟨n, x, hn, hst, -, hlinked⟩
    exact ne_between (h.node_of_mem (look_mem hn)) hst _ hlinked
  have hquiet : ∀ g, g ≠ a → sentTo g [.sent a answer] = [] := by
    intro g hg
    rw [sentTo_sent, if_neg hg.symm]
    rfl
  -- what is left is to name the cause, each answer its own
  have hagrees := ConnectAgrees.mk (iff_of_false hfree hfound) (iff_of_false hfree htold)
    (iff_of_false hfree hlinked)
  rcases hcause with ⟨hself, he⟩ | ⟨hnone, he⟩ | ⟨n, hn, hself, ⟨hst, he⟩ | ⟨hst, he⟩⟩
  · rw [hself] at hown
    exact hagrees (by simp [he, hself]) (by simp [he, hown]) (by simp [he, hself])
      (by simp [he, hself]) fun _ => ⟨hquiet, rfl⟩
  · have hself : r.nameOf a ≠ p.str := fun hself => hown (hself ▸ hnone)
    exact hagrees (by simp [he, hself]) (by simp [he, hnone]) (by simp [he, hnone])
      (by simp [he, hnone]) fun _ => ⟨hquiet, rfl⟩
  · exact hagrees (by simp [he, hself]) (by simp [he, hn]) (by simp [he, hn, hself, hst])
      (by simp [he, hn, hst]) fun _ => ⟨hquiet, rfl⟩
  · exact hagrees (by simp [he, hself]) (by simp [he, hn]) (by simp [he, hn, hst])
      (by simp [he, hn, hself, hst]) fun _ => ⟨hquiet, rfl⟩

/-- A request that reaches a free client: all of the three happen. -/
theorem connectAgrees_some (h : r.Distinct) (ha : (r.node a).isSome) {p : Buf maxMsgLen}
    {n : ClientNode} (hn : r.firstNamed p.str = some n) (hself : r.nameOf a ≠ p.str)
    (hfree : n.data.chatStatus = .free) {r' : Registry} {answer : Msg}
    (hanswer : answer.msgType = .clientFree) {x : Standing} (hx : r.standing a = some x)
    (hr' : r' = r.between a n.fd { x with toFd := n.fd } ⟨.reqPending, a⟩) :
    ConnectAgrees r a p.str r'
      [.wrote (.status n.fd .reqPending), .wrote (.toFd a n.fd), .wrote (.toFd n.fd a),
       .sent n.fd (.withText .connectionReqRx (r.nameOf a)), .sent a answer] answer.msgType := by
  have hown := firstNamed_nameOf h ha
  have hreq : answer.msgType ≠ .connectionReqRx := by simp [hanswer]
  have htold : (sentTo n.fd [.wrote (.status n.fd .reqPending), .wrote (.toFd a n.fd),
      .wrote (.toFd n.fd a), .sent n.fd (.withText .connectionReqRx (r.nameOf a)),
      .sent a answer]).filter (·.msgType = .connectionReqRx)
        = [.withText .connectionReqRx (r.nameOf a)] := by
    simp only [sentTo_wrote, sentTo_sent, if_true]
    split <;> simp [hreq]
  have hasked : n.data.chatStatus ≠ .reqPending := by simp [hfree]
  exact
    { found := iff_of_true hanswer ⟨n, hn, hself, hfree⟩
      told := iff_of_true hanswer ⟨n, hn, htold⟩
      linked := iff_of_true hanswer ⟨n, x, hn, hasked, hx, hr'⟩
      self := by simp [hanswer, hself]
      nobody := by simp [hanswer, hn]
      busy := by simp [hanswer, hn, hfree]
      pending := by simp [hanswer, hn, hfree]
      quiet := fun hne => absurd hanswer hne }

/-- A request to be connected gets one answer.  What the answer says, what the client asked for
is told and what becomes of the registry agree, whatever the links and statuses in the registry
are and however often a name is stored. -/
theorem connect_agrees (h : r.Distinct) (hs : ∀ n ∈ r.clientList, n.data.chatStatus.Stored)
    (ha : (r.node a).isSome) (p : Buf maxMsgLen) :
    ∃ r' acts answer,
      (handleChatConnectionRequest a p.bytes).run sem (⟨r, false⟩, [])
        = some ((), ⟨r', false⟩, acts) ∧
      sentTo a acts = [answer] ∧ ConnectAgrees r a p.str r' acts answer.msgType := by
  have hvalid := h.ne_invalidFd ha
  refine ⟨_, _, { toClientId := 0, msgType := connectAnswer r a p.bytes,
                  buffer := (Buf.zero _).memcpy p.bytes maxClientNameLen },
    connectRun r [] a p.bytes, ?_⟩
  rw [List.nil_append, h.connectActs_eq hvalid]
  cases ht : r.connectTarget a p.bytes with
  | none => exact ⟨by simp [sentTo_sent], connectAgrees_none h hs ha ht rfl⟩
  | some t =>
      obtain ⟨-, hne, -, -, -⟩ := h.connectTarget_spec ht
      rw [connectTarget_eq] at ht
      cases hn : r.firstNamed p.str with
      | none =>
          rw [hn] at ht
          cases ht
      | some n =>
          simp only [hn] at ht
          split at ht
          · next hcond =>
              obtain rfl := Option.some.inj ht
              obtain ⟨hself, hfree⟩ := hcond
              have hnode := h.node_of_mem (look_mem hn)
              have hcouple : Couple r a n.fd :=
                ⟨h, hne.symm, ha, Option.isSome_iff_exists.mpr ⟨n, hnode⟩⟩
              obtain ⟨m, hm⟩ := Option.isSome_iff_exists.mp ha
              have hx : r.standing a = some ⟨m.data.chatStatus, m.data.toFd⟩ := by
                rw [standing, hm]
                rfl
              have hy : r.standing n.fd = some ⟨n.data.chatStatus, n.data.toFd⟩ := by
                rw [standing, hnode]
                rfl
              refine ⟨?_, connectAgrees_some h ha hn hself hfree ?_ hx
                (replay_connect hcouple hx hy)⟩
              · simp [sentTo_sent, hne]
              · simp only [connectAnswer_eq h, hn, if_neg hself, hfree, ChatStatus.answer]
          · cases ht

theorem reachable_twoJoined : Reachable atomicStep .empty twoJoined :=
  ⟨[joins 4, joins 5], play_final (by decide +kernel)⟩

/-- 4 asks for 5. -/
theorem connect_agrees_of_two :
    ∃ r' acts answer,
      (handleChatConnectionRequest 4 askFive.buffer.bytes).run sem (⟨twoJoined, false⟩, [])
        = some ((), ⟨r', false⟩, acts) ∧
      sentTo 4 acts = [answer] ∧
      ConnectAgrees twoJoined 4 askFive.buffer.str r' acts answer.msgType :=
  have hwf : twoJoined.Wf := (reachable_twoJoined.inv good_atomicStep good_empty).wf
  connect_agrees hwf.distinct hwf.stored (by decide +kernel) _

/-! ## A request for a name -/

/-- The two answers to a request of `fd` for `name`, and what each says is so. -/
structure SetNameAgrees (r : Registry) (fd : Int) (name : List UInt8) (r' : Registry)
    (acts : List Act) : Prop where
  one : sentTo fd acts = [.ofType .setNameAckType] ∨ sentTo fd acts = [.ofType .setNameNackType]
  given : .ofType .setNameAckType ∈ sentTo fd acts →
    r'.nameOf fd = name ∧ r'.getClientFdByName name = fd ∧ ∀ g, g ≠ fd → r'.node g = r.node g
  taken : .ofType .setNameNackType ∈ sentTo fd acts → (r.firstNamed name).isSome ∧ r' = r

/-- What is stored of a name is the name, if it fits. -/
theorem storedName_eq_iff (name : List UInt8) :
    storedName name = cstr name ↔ strlen name < maxClientNameLen := by
  constructor
  · intro he
    have hlen := congrArg List.length he
    rw [storedName, List.length_take] at hlen
    simp only [strlen, maxClientNameLen] at hlen ⊢
    omega
  · intro hlt
    exact List.take_of_length_le (Nat.le_sub_one_of_lt hlt)

/-- What is done with a request for a name. -/
theorem setNameActs_eq (h : r.Distinct) (ha : (r.node fd).isSome) (name : List UInt8) :
    setNameActs r fd name
      = match r.firstNamed (cstr name) with
        | some _ => [.sent fd (.ofType .setNameNackType)]
        | none => [.wrote (.name fd name), .sent fd (.ofType .setNameAckType)] := by
  obtain ⟨n, hn⟩ := Option.isSome_iff_exists.mp ha
  have hlist : r.clientList ≠ [] := List.ne_nil_of_mem (look_mem hn)
  have hcheck : r.checkClientWithSameNameExistOrNot name
      = match r.firstNamed (cstr name) with
        | some _ => .nameExists
        | none => .nameNotExist := by
    rw [checkClientWithSameNameExistOrNot, if_neg hlist, nodeByName_eq_firstNamed]
    cases r.firstNamed (cstr name) <;> rfl
  have hset : (r.setNameOfClientByClientFd fd name).1 = .succ := by
    rw [setNameOfClientByClientFd, if_neg hlist, if_neg (h.ne_invalidFd ha), hn]
  simp only [setNameActs, hcheck, hset]
  cases r.firstNamed (cstr name) <;> rfl

section Renamed
variable (h : r.Distinct) (ha : (r.node fd).isSome) (name : List UInt8)
include h ha

theorem node_renamed (g : Int) (hg : g ≠ fd) :
    ((Write.name fd name).apply r).node g = r.node g := by
  rw [Write.apply_name r (h.ne_invalidFd ha), r.node_modify (fun _ => by rfl), if_neg hg]

theorem distinct_renamed : ((Write.name fd name).apply r).Distinct := by
  rw [Write.apply_name r (h.ne_invalidFd ha)]
  exact h.modify fd fun _ => rfl

theorem exists_renamed :
    ∃ n, ((Write.name fd name).apply r).node fd = some n ∧ n.data.name.str = storedName name := by
  obtain ⟨n, hn⟩ := Option.isSome_iff_exists.mp ha
  rw [Write.apply_name r (h.ne_invalidFd ha), r.node_modify (fun _ => by rfl), if_pos rfl, hn]
  exact ⟨_, rfl, Buf.str_strncpy_put _ _⟩

theorem nameOf_renamed : ((Write.name fd name).apply r).nameOf fd = storedName name := by
  obtain ⟨n, hn, hname⟩ := exists_renamed h ha name
  rw [(distinct_renamed h ha name).nameOf_eq hn, hname]

/-- A name that was nobody's and fits leads to the client that has it now. -/
theorem getClientFdByName_renamed (hfree : r.firstNamed (cstr name) = none)
    (hfits : storedName name = cstr name) :
    ((Write.name fd name).apply r).getClientFdByName (cstr name) = fd := by
  have hd := distinct_renamed h ha name
  rw [getClientFdByName_eq, nodeByName_eq_firstNamed, cstr_cstr]
  cases hm : ((Write.name fd name).apply r).firstNamed (cstr name) with
  | none =>
      obtain ⟨n, hn, hname⟩ := exists_renamed h ha name
      exact absurd (hname.trans hfits) (look_eq_none_iff.mp hm n (look_mem hn))
  | some m =>
      show m.fd = fd
      by_contra hne
      have hnode := hd.node_of_mem (look_mem hm)
      rw [node_renamed h ha name m.fd hne] at hnode
      have hbears := look_key hm
      exact look_eq_none_iff.mp hfree m (look_mem hnode) hbears

end Renamed

/-- In every reachable state, the answer to a request for a name says what is so exactly if the
name is a client's already or is shorter than MAX_CLIENT_NAME_LEN. -/
theorem setName_agrees_iff (hr : Reachable atomicStep .empty r) (ha : (r.node fd).isSome)
    {msg : Msg} (hmsg : msg.msgType = .setNameReqType) :
    ∃ r' acts, atomicStep r (.rxMsg fd msg) = some (r', acts) ∧
      (SetNameAgrees r fd msg.buffer.str r' acts ↔
        (r.firstNamed msg.buffer.str).isSome ∨ strlen msg.buffer.bytes < maxClientNameLen) := by
  have h := (hr.inv good_atomicStep good_empty).wf.distinct
  have hacts : (Event.rxMsg fd msg).acts r = setNameActs r fd msg.buffer.bytes := by
    simp only [Event.acts, rxActs, hmsg]
  refine ⟨_, _, atomicStep_eq_some_iff.mpr ⟨ha, rfl, rfl⟩, ?_⟩
  rw [hacts, setNameActs_eq h ha]
  change SetNameAgrees r fd (cstr msg.buffer.bytes) _ _ ↔
    (r.firstNamed (cstr msg.buffer.bytes)).isSome ∨ _
  cases hfree : r.firstNamed (cstr msg.buffer.bytes) with
  | some n =>
      have htaken : (r.firstNamed (cstr msg.buffer.bytes)).isSome := by
        rw [hfree]
        rfl
      exact iff_of_true ⟨Or.inr (by simp [sentTo_sent]), by simp [sentTo_sent, Msg.ofType],
        fun _ => ⟨htaken, rfl⟩⟩ (Or.inl rfl)
  | none =>
      rw [← storedName_eq_iff]
      constructor
      · intro hagrees
        have hname := (hagrees.given (by simp [sentTo_sent])).1
        exact Or.inr ((nameOf_renamed h ha msg.buffer.bytes).symm.trans hname)
      · intro hfits
        have hfits := hfits.resolve_left (by simp)
        have hname := (nameOf_renamed h ha msg.buffer.bytes).trans hfits
        exact ⟨Or.inl (by simp [sentTo_sent]),
          fun _ => ⟨hname, getClientFdByName_renamed h ha _ hfree hfits, node_renamed h ha _⟩,
          by simp [sentTo_sent, Msg.ofType]⟩

/-- 4 asks for a name of 64 characters. -/
def asksLongName : Msg := .withText .setNameReqType (List.replicate maxClientNameLen 0x61)

theorem setName_agrees_of_two :
    ∃ r' acts, atomicStep twoJoined (.rxMsg 4 asksLongName) = some (r', acts) ∧
      (SetNameAgrees twoJoined 4 asksLongName.buffer.str r' acts ↔
        (twoJoined.firstNamed asksLongName.buffer.str).isSome ∨
          strlen asksLongName.buffer.bytes < maxClientNameLen) :=
  setName_agrees_iff reachable_twoJoined (by decide +kernel) rfl

/-- The name is acknowledged; the client has another, and nobody is found by the one it asked
for. -/
theorem long_name_acknowledged :
    ∃ r' acts, atomicStep twoJoined (.rxMsg 4 asksLongName) = some (r', acts) ∧
      sentTo 4 acts = [.ofType .setNameAckType] ∧
      r'.nameOf 4 = List.replicate 63 0x61 ∧
      r'.getClientFdByName asksLongName.buffer.str = invalidFd ∧
      ¬ SetNameAgrees twoJoined 4 asksLongName.buffer.str r' acts := by
  refine ⟨_, _, atomicStep_eq_some_iff.mpr ⟨by decide +kernel, rfl, rfl⟩, by decide +kernel,
    by decide +kernel, by decide +kernel, ?_⟩
  intro hagrees
  have hname := (hagrees.given (by decide +kernel)).1
  revert hname
  decide +kernel

end ChatSocket
