/-
# `Server.Acts` — what an event can do

`acts` lists what the code does with an event.  `Does r e a` is the other way to
read it: one constructor for each thing an event can do, with what has to hold
in the registry `r` for it.  `does_of_mem` is the inversion that invariants of
single writes and messages are proved by, so that none of them has to walk the
handlers again.

On the way stand the walks by name: whom a CONNECT reaches, and what it means
that a client cannot be named.
-/
import ChatSocket.Server.Atomic

namespace ChatSocket

open Kit

namespace Registry

variable {r : Registry}

/-! ## Whom a CONNECT reaches -/

/-- The client to which the server takes the request of `fd` to be connected to `name`: the
first one of that name, if it is free and does not bear the name of `fd` itself. -/
def connectTarget (r : Registry) (fd : Int) (name : List UInt8) : Option Int :=
  match r.nodeByName name with
  | none => none
  | some n =>
      if strcmp (r.nameOf fd) name ≠ 0 ∧ n.data.chatStatus = .free then some n.fd else none

theorem nodeByName_mem {name : List UInt8} {n : ClientNode} (h : r.nodeByName name = some n) :
    n ∈ r.clientList := List.mem_of_find?_eq_some h

theorem nodeByName_name {name : List UInt8} {n : ClientNode} (h : r.nodeByName name = some n) :
    strcmp name n.data.name.bytes = 0 := by
  simpa using List.find?_some h

theorem nodeByName_of_nil (h : r.clientList = []) (name : List UInt8) :
    r.nodeByName name = none := by
  rw [nodeByName, h]
  rfl

/-- The first node of a name is the first that stores its C string. -/
theorem nodeByName_eq (r : Registry) (name : List UInt8) :
    r.nodeByName name = look (fun n : ClientNode => n.data.name.str) (cstr name) r.clientList := by
  unfold nodeByName look
  congr
  funext n
  exact decide_eq_decide.mpr ((strcmp_eq_zero_iff _ _).trans eq_comm)

theorem check_eq_nameExists_iff (name : List UInt8) :
    r.checkClientWithSameNameExistOrNot name = .nameExists ↔ (r.nodeByName name).isSome := by
  unfold checkClientWithSameNameExistOrNot
  split
  · next h => simp [nodeByName_of_nil h]
  · cases r.nodeByName name <;> simp

theorem getClientFdByName_eq (name : List UInt8) :
    r.getClientFdByName name = ((r.nodeByName name).map ClientNode.fd).getD invalidFd := by
  unfold getClientFdByName
  split
  · next h => simp [nodeByName_of_nil h]
  · cases r.nodeByName name <;> rfl

/-- The name of a registered client is the string its node stores. -/
theorem Distinct.nameOf_eq (h : r.Distinct) {fd : Int} {n : ClientNode} (hn : r.node fd = some n) :
    r.nameOf fd = n.data.name.str := by
  have hfd : fd ≠ invalidFd := h.ne_invalidFd (by rw [hn]; rfl)
  rw [nameOf, getClientNameByFd_eq, if_neg hfd, hn]
  simp only [Option.map_some, Option.getD_some, strAt_nodeName, h.look_addr hn]

theorem Wf.nameOf_eq (h : r.Wf) {fd : Int} {n : ClientNode} (hn : r.node fd = some n) :
    r.nameOf fd = n.data.name.str := h.distinct.nameOf_eq hn

theorem nameOf_unregistered {fd : Int} (hn : r.node fd = none) :
    r.nameOf fd = undefName := by
  rw [nameOf, getClientNameByFd_eq, hn]
  split <;> rfl

/-- The walks by name and by descriptor end at one node. -/
theorem Distinct.statusByName_eq (h : r.Distinct) (name : List UInt8) :
    r.getClientChattingStatusByName name
      = r.getClientChattingStatusByFd (r.getClientFdByName name) := by
  rw [h.status_eq, getClientFdByName_eq, getClientChattingStatusByName]
  cases hn : r.nodeByName name with
  | none =>
      show _ = ((r.node invalidFd).map _).getD _
      rw [h.node_invalidFd]
      rfl
  | some n =>
      show _ = ((r.node n.fd).map _).getD _
      rw [h.node_of_mem (nodeByName_mem hn)]
      rfl

/-- The first client of a name is not the client whose name is another. -/
theorem Distinct.ne_of_name (h : r.Distinct) {fd : Int} {name : List UInt8} {n : ClientNode}
    (hn : r.nodeByName name = some n) (hname : strcmp (r.nameOf fd) name ≠ 0) : fd ≠ n.fd := by
  rintro rfl
  have hm := nodeByName_name hn
  rw [strcmp_eq_zero_iff] at hm
  apply hname
  rw [strcmp_eq_zero_iff, h.nameOf_eq (h.node_of_mem (nodeByName_mem hn)), hm]
  exact cstr_cstr _

theorem Distinct.connectTarget_spec (h : r.Distinct) {fd t : Int} {name : List UInt8}
    (ht : r.connectTarget fd name = some t) :
    r.getClientFdByName name = t ∧ t ≠ fd ∧ t ≠ invalidFd ∧ (r.node t).isSome ∧
      r.getClientChattingStatusByFd t = .free := by
  unfold connectTarget at ht
  split at ht
  · cases ht
  · next n hn =>
      split at ht
      · next hcond =>
          obtain ⟨hname, hfree⟩ := hcond
          obtain rfl := Option.some.inj ht
          have hmem := nodeByName_mem hn
          refine ⟨?_, fun he => h.ne_of_name hn hname he.symm, h.valid n hmem, ?_, ?_⟩
          · rw [getClientFdByName_eq, hn]
            rfl
          · rw [h.node_of_mem hmem]
            rfl
          · rw [h.status_eq, h.node_of_mem hmem, Option.map_some, hfree]
            rfl
      · cases ht

/-- What is done with a CONNECT, by its target. -/
theorem Distinct.connectActs_eq (h : r.Distinct) {fd : Int} (hfd : fd ≠ invalidFd)
    (name : List UInt8) :
    connectActs r fd name
      = let answer : Msg := { toClientId := 0, msgType := connectAnswer r fd name,
                              buffer := (Buf.zero _).memcpy name maxClientNameLen }
        match r.connectTarget fd name with
        | some t =>
            [.wrote (.status t .reqPending), .wrote (.toFd fd t), .wrote (.toFd t fd),
             .sent t (.withText .connectionReqRx (r.nameOf fd)), .sent fd answer]
        | none => [.sent fd answer] := by
  simp only [connectActs, if_neg hfd, check_eq_nameExists_iff, connectTarget,
    getClientChattingStatusByName, getClientFdByName_eq]
  cases hn : r.nodeByName name with
  | none => simp
  | some n =>
      have hvalid := h.valid n (nodeByName_mem hn)
      by_cases hcond : strcmp (r.nameOf fd) name ≠ 0 ∧ n.data.chatStatus = .free
      · simp [hcond, hvalid]
      · simp only [Option.isSome_some, true_and, if_neg hcond]

theorem Wf.ne_of_name (h : r.Wf) {fd : Int} {name : List UInt8} {n : ClientNode}
    (hn : r.nodeByName name = some n) (hname : strcmp (r.nameOf fd) name ≠ 0) : fd ≠ n.fd :=
  h.distinct.ne_of_name hn hname

theorem Wf.connectTarget_spec (h : r.Wf) {fd t : Int} {name : List UInt8}
    (ht : r.connectTarget fd name = some t) :
    r.getClientFdByName name = t ∧ t ≠ fd ∧ t ≠ invalidFd ∧ (r.node t).isSome ∧
      r.getClientChattingStatusByFd t = .free := h.distinct.connectTarget_spec ht

end Registry

open Registry

/-- Nobody can be named under `fd`: nobody is registered, or the name is `UNDEF_NAME`. -/
abbrev Registry.Unnamed (r : Registry) (fd : Int) : Prop := strcmp (r.nameOf fd) undefName = 0

theorem Registry.unnamed_of_unregistered {r : Registry} {fd : Int} (hn : r.node fd = none) :
    r.Unnamed fd := by
  show strcmp (r.nameOf fd) undefName = 0
  rw [nameOf_unregistered hn, strcmp_eq_zero_iff]

/-! ## The inversion -/

/-- What an event can do, and when. -/
inductive Does (r : Registry) : Event → Act → Prop where
  | registers {fd ok} : Does r (.accepted fd ok) (.wrote (.add fd ok))
  | turnsAway {fd ok} : Does r (.accepted fd ok) (.sent fd (.ofType .maxClientReached))
  | renames {fd msg} : msg.msgType = .setNameReqType →
      r.checkClientWithSameNameExistOrNot msg.buffer.bytes = .nameNotExist →
      Does r (.rxMsg fd msg) (.wrote (.name fd msg.buffer.bytes))
  | answers {fd msg m} : m.msgType ≠ .clientRxType → m.msgType ≠ .clientDeclineConnectionAck →
      Does r (.rxMsg fd msg) (.sent fd m)
  | asks {fd msg t a} : msg.msgType = .connectToClient →
      r.connectTarget fd msg.buffer.bytes = some t →
      a ∈ [.wrote (.status t .reqPending), .wrote (.toFd fd t), .wrote (.toFd t fd),
        .sent t (.withText .connectionReqRx (r.nameOf fd))] →
      Does r (.rxMsg fd msg) a
  | loses {fd msg a} : msg.msgType = .clientAcceptConnection →
      r.getConnFdByFd fd ≠ invalidFd → r.Unnamed (r.getConnFdByFd fd) →
      a ∈ [.wrote (.status fd .free), .wrote (.toFd fd invalidFd)] →
      Does r (.rxMsg fd msg) a
  | refused {fd msg} : msg.msgType = .clientAcceptConnection →
      r.getClientChattingStatusByFd (r.getConnFdByFd fd) = .busy →
      Does r (.rxMsg fd msg) (.wrote (.status fd .free))
  | pairs {fd msg a} : msg.msgType = .clientAcceptConnection →
      r.getClientChattingStatusByFd fd = .reqPending → r.getConnFdByFd fd ≠ invalidFd →
      ¬ r.Unnamed (r.getConnFdByFd fd) →
      a ∈ [.wrote (.status fd .busy), .wrote (.status (r.getConnFdByFd fd) .busy),
        .wrote (.toFd fd (r.getConnFdByFd fd)), .wrote (.toFd (r.getConnFdByFd fd) fd),
        .sent (r.getConnFdByFd fd) (.withText .clientAcceptConnectionAck (r.nameOf fd))] →
      Does r (.rxMsg fd msg) a
  | quits {fd msg a} : msg.msgType = .clientTxType →
      r.getClientChattingStatusByFd fd = .busy → r.getConnFdByFd fd ≠ invalidFd →
      a ∈ [.wrote (.status fd .free), .wrote (.status (r.getConnFdByFd fd) .free),
        .wrote (.toFd fd invalidFd), .wrote (.toFd (r.getConnFdByFd fd) invalidFd),
        .sent (r.getConnFdByFd fd) (.withText .clientDisconnected (r.nameOf fd))] →
      Does r (.rxMsg fd msg) a
  | relays {fd msg} : msg.msgType = .clientTxType →
      r.getClientChattingStatusByFd fd = .busy → r.getConnFdByFd fd ≠ invalidFd →
      Does r (.rxMsg fd msg) (.sent (r.getConnFdByFd fd) { msg with msgType := .clientRxType })
  | declines {fd msg a} : msg.msgType = .clientDeclineConnection →
      r.getClientChattingStatusByFd fd = .reqPending → r.getConnFdByFd fd ≠ invalidFd →
      a ∈ [.sent (r.getConnFdByFd fd) (.withText .clientDeclineConnectionAck (r.nameOf fd)),
        .wrote (.status fd .free)] →
      Does r (.rxMsg fd msg) a
  | leaves {fd a} :
      a ∈ [.wrote (.status (r.getConnFdByFd fd) .free), .wrote (.toFd fd invalidFd),
        .sent (r.getConnFdByFd fd) (.withText .clientTermination (r.nameOf fd)),
        .wrote (.remove fd)] →
      Does r (.closed fd) a

variable {r : Registry}

theorem connectAnswer_ne (fd : Int) (name : List UInt8) :
    connectAnswer r fd name ≠ .clientRxType ∧
      connectAnswer r fd name ≠ .clientDeclineConnectionAck := by
  unfold connectAnswer
  repeat' split
  all_goals simp

theorem does_of_mem (h : r.Wf) {e : Event} (he : e.Possible r) {a : Act} (ha : a ∈ e.acts r) :
    Does r e a := by
  cases e with
  | accepted fd mallocOk =>
      simp only [Event.acts, registerActs] at ha
      rcases List.mem_cons.mp ha with rfl | ha
      · exact .registers
      · split at ha
        · cases ha
        · obtain rfl := List.mem_singleton.mp ha
          exact .turnsAway
  | closed fd =>
      simp only [Event.acts, closedActs] at ha
      apply Does.leaves
      rcases List.mem_append.mp ha with ha | ha
      · split at ha
        · exact List.mem_append_left [.wrote (.remove fd)] ha
        · cases ha
      · exact List.mem_append_right [_, _, _] ha
  | rxMsg fd msg =>
      simp only [Event.acts, rxActs] at ha
      cases hmsg : msg.msgType with
      | setNameReqType =>
          simp only [hmsg, setNameActs] at ha
          split at ha
          · obtain rfl := List.mem_singleton.mp ha
            exact .answers (by simp) (by simp)
          · next hcheck =>
              rcases List.mem_cons.mp ha with rfl | ha
              · exact .renames hmsg (not_not.mp hcheck)
              · split at ha
                · obtain rfl := List.mem_singleton.mp ha
                  exact .answers (by simp) (by simp)
                · cases ha
      | getClientListType =>
          simp only [hmsg, clientListActs] at ha
          split at ha
          · cases ha
          · obtain rfl := List.mem_singleton.mp ha
            exact .answers (by simp) (by simp)
      | connectToClient =>
          simp only [hmsg] at ha
          rw [h.distinct.connectActs_eq (h.ne_invalidFd he)] at ha
          have hne := connectAnswer_ne (r := r) fd msg.buffer.bytes
          cases ht : r.connectTarget fd msg.buffer.bytes with
          | none =>
              rw [ht] at ha
              obtain rfl := List.mem_singleton.mp ha
              exact .answers hne.1 hne.2
          | some t =>
              rw [ht] at ha
              rcases List.mem_append (s := [_, _, _, _]).mp ha with ha | ha
              · exact .asks hmsg ht ha
              · obtain rfl := List.mem_singleton.mp ha
                exact .answers hne.1 hne.2
      | clientAcceptConnection =>
          simp only [hmsg, acceptActs] at ha
          split at ha
          · cases ha
          next hc =>
          split at ha
          · next hun =>
              rcases List.mem_append (s := [_, _]).mp ha with ha | ha
              · exact .loses hmsg hc hun ha
              · obtain rfl := List.mem_singleton.mp ha
                exact .answers (by simp) (by simp)
          next hun =>
          split at ha
          · next hbusy =>
              rcases List.mem_cons.mp ha with rfl | ha
              · exact .refused hmsg hbusy
              · obtain rfl := List.mem_singleton.mp ha
                exact .answers (by simp) (by simp)
          split at ha
          · obtain rfl := List.mem_singleton.mp ha
            exact .answers (by simp) (by simp)
          next hst =>
          have hst := not_not.mp hst
          rcases List.mem_append.mp ha with ha | ha
          · exact .pairs hmsg hst hc hun (List.mem_append_left [_] ha)
          · split at ha
            · cases ha
            · rcases List.mem_cons.mp ha with rfl | ha
              · exact .answers (by simp) (by simp)
              · exact .pairs hmsg hst hc hun (List.mem_append_right [_, _, _, _] ha)
      | clientTxType =>
          simp only [hmsg, txActs] at ha
          split at ha
          · cases ha
          · next hidle =>
              obtain ⟨hst, hc⟩ := not_or.mp hidle
              split at ha
              · exact .quits hmsg (not_not.mp hst) hc ha
              · obtain rfl := List.mem_singleton.mp ha
                exact .relays hmsg (not_not.mp hst) hc
      | clientDeclineConnection =>
          simp only [hmsg, declineActs] at ha
          split at ha
          · cases ha
          · next hidle =>
              obtain ⟨-, hidle⟩ := not_or.mp hidle
              obtain ⟨hst, hc⟩ := not_or.mp hidle
              exact .declines hmsg (not_not.mp hst) hc ha
      | _ =>
          simp only [hmsg] at ha
          cases ha

end ChatSocket
