/-
# `Server.Farewell` — who is told that a client is gone?

When a connection closes, somebody may depend on it: the partner of its chat, a
client that it has asked and that has not answered, a client that has asked it
and waits for the answer.  The registry alone does not say who they are; a
`Ledger` is the server beside the two records that do.

The close branch tells at most one client, the one that the link of the closed
one leads to, and only if that is not CHAT_STATUS_FREE: `closesRight_iff`.  Of
the three kinds it has the first two in mind.  A client that waits for an answer
is itself CHAT_STATUS_FREE, so that from the first request on that gets through
there is a client whose close leaves another one waiting:
`closesRight_everywhere_iff`.
-/
import ChatSocket.Server.Nodes
import ChatSocket.Server.Replies
import ChatSocket.Server.Requests

namespace ChatSocket

open Kit Registry

variable {r : Registry}

/-! ## Who waits for whom -/

/-- The waiting clients after an event, each with the client whose answer it waits for, both by
their addresses.  A request that gets through is answered MSG_CLIENT_FREE: the one who made it
waits.  An answer, of either kind, ends the waiting for the one who gives it. -/
def Event.waits (r : Registry) (waits : List (Nat × Nat)) : Event → List (Nat × Nat)
  | rxMsg fd msg =>
      match r.node fd, msg.msgType with
      | some n, .connectToClient =>
          match (r.connectTarget fd msg.buffer.bytes).bind r.node with
          | some m => (n.addr, m.addr) :: waits
          | none => waits
      | some n, .clientAcceptConnection | some n, .clientDeclineConnection =>
          waits.filter fun p => p.2 ≠ n.addr
      | _, _ => waits
  | accepted _ _ | closed _ => waits

/-- The server, the record of who asked whom, and that of who waits for whom. -/
structure Ledger where
  asked : Asked
  waits : List (Nat × Nat)

namespace Ledger

def boot : Ledger := ⟨.boot, []⟩

abbrev registry (s : Ledger) : Registry := s.asked.registry

/-- `c` depends on `x`. -/
def Depends (s : Ledger) (x c : ClientNode) : Prop :=
  (x.data.chatStatus = .busy ∧ x.data.toFd = c.fd ∧ c.data.chatStatus = .busy ∧
      c.data.toFd = x.fd) ∨
    (c.data.chatStatus = .reqPending ∧ s.asked.asker c.addr = some x.addr) ∨
    (c.addr, x.addr) ∈ s.waits

instance (s : Ledger) (x c : ClientNode) : Decidable (s.Depends x c) :=
  inferInstanceAs (Decidable (_ ∨ _ ∨ _))

/-- The close of `x` tells every other client that depends on `x`, once, and nobody else. -/
def ClosesRight (s : Ledger) (x : ClientNode) : Prop :=
  ∀ c ∈ s.registry.clientList, c.fd ≠ x.fd →
    sentTo c.fd ((Event.closed x.fd).acts s.registry)
      = if s.Depends x c then [.withText .clientTermination (s.registry.nameOf x.fd)] else []

end Ledger

instance (s : Ledger) (x : ClientNode) : Decidable (s.ClosesRight x) := by
  unfold Ledger.ClosesRight
  infer_instance

def ledgerStep (s : Ledger) (e : Event) : Option (Ledger × List Act) :=
  (askStep s.asked e).map fun q => (⟨q.1, e.waits s.registry s.waits⟩, q.2)

/-- A request, if it is one, that reaches nobody. -/
def Event.ReachesNobody (r : Registry) : Event → Prop
  | rxMsg fd msg =>
      msg.msgType = .connectToClient → r.connectTarget fd msg.buffer.bytes = none
  | accepted _ _ | closed _ => True

/-! ## One close -/

/-- The client that is told of the close of `x` is the one at the end of its link, if it is not
CHAT_STATUS_FREE. -/
theorem sentTo_closed (h : r.Distinct) {x c : ClientNode} (hx : x ∈ r.clientList)
    (hc : c ∈ r.clientList) :
    sentTo c.fd ((Event.closed x.fd).acts r)
      = if x.data.toFd = c.fd ∧ c.data.chatStatus ≠ .free then
          [.withText .clientTermination (r.nameOf x.fd)]
        else [] := by
  have hto : r.getConnFdByFd x.fd = x.data.toFd := by
    rw [h.connFd_eq, h.node_of_mem hx]
    rfl
  have hst : r.getClientChattingStatusByFd c.fd = c.data.chatStatus := by
    rw [h.status_eq, h.node_of_mem hc]
    rfl
  simp only [Event.acts, closedActs, hto]
  by_cases hlink : x.data.toFd = c.fd
  · rw [hlink, hst]
    by_cases hfree : c.data.chatStatus = .free
    · simp [hfree]
    · simp [hfree, h.valid c hc, sentTo_sent]
  · simp only [hlink, false_and, if_false, sentTo_append]
    split <;> simp [sentTo_sent, hlink]

/-- A close tells whom it should exactly if the link of the client that closes leads to the only
other client that depends on it, or to none that is not CHAT_STATUS_FREE if there is no such
client. -/
theorem closesRight_iff {s : Ledger} (h : s.registry.Distinct) {x : ClientNode}
    (hx : x ∈ s.registry.clientList) :
    s.ClosesRight x ↔ ∀ c ∈ s.registry.clientList, c.fd ≠ x.fd →
      (s.Depends x c ↔ x.data.toFd = c.fd ∧ c.data.chatStatus ≠ .free) := by
  refine forall_congr' fun c => forall_congr' fun hc => forall_congr' fun _ => ?_
  rw [sentTo_closed h hx hc]
  by_cases hdep : s.Depends x c <;>
    by_cases hlink : x.data.toFd = c.fd ∧ c.data.chatStatus ≠ .free <;> simp [hdep, hlink]

/-! ## Before the first request -/

/-- Nobody is linked, in a chat or asked for one. -/
def Registry.Unlinked (r : Registry) : Prop :=
  ∀ n ∈ r.clientList, n.data.chatStatus = .free ∧ n.data.toFd = invalidFd

/-- Nobody has to do with anybody. -/
structure Ledger.Quiet (s : Ledger) : Prop where
  good : s.registry.Good
  unlinked : s.registry.Unlinked
  nobodyWaits : s.waits = []

theorem Ledger.quiet_boot : Ledger.boot.Quiet :=
  ⟨good_empty, fun _ h => (nomatch h), rfl⟩

/-- The writes that link nobody and ask nobody. -/
def Write.Unlinking : Write → Prop
  | add _ _ | remove _ | name _ _ => True
  | status _ _ | toFd _ _ => False

theorem Registry.Unlinked.apply (h : r.Unlinked) : ∀ {w : Write}, w.Unlinking → (w.apply r).Unlinked
  | .remove _, _ => fun n hn => h n (mem_of_mem_remove hn)
  | .name fd str, _ => by
      refine Write.apply_of_modifies h (w := .name fd str) trivial fun fd => ?_
      intro n hn
      exact forall_alter (p := fun n : ClientNode =>
        n.data.chatStatus = .free ∧ n.data.toFd = invalidFd) (fun _ hm => by exact hm) h n hn
  | .add fd ok, _ => by
      by_cases ha : r.Accepts ok
      · rw [Write.apply, r.addClientNodeToQueue_eq fd ha]
        exact List.forall_mem_append.mpr ⟨h, List.forall_mem_singleton.mpr ⟨rfl, rfl⟩⟩
      · rw [Write.apply, (r.addClientNodeToQueue_full fd ha).2]
        exact h

theorem Registry.Unlinked.replay : ∀ (acts : List Act) {r : Registry}, r.Unlinked →
    (∀ w, .wrote w ∈ acts → w.Unlinking) → (replay r acts).Unlinked
  | [], _, h, _ => h
  | .sent _ _ :: acts, r, h, hacts =>
      Registry.Unlinked.replay acts (r := r) h fun w hw => hacts w (List.mem_cons_of_mem _ hw)
  | .wrote _ :: acts, _, h, hacts =>
      Registry.Unlinked.replay acts (h.apply (hacts _ List.mem_cons_self)) fun w hw =>
        hacts w (List.mem_cons_of_mem _ hw)

theorem Registry.Unlinked.status (h : r.Unlinked) (hd : r.Distinct) (fd : Int) :
    r.getConnFdByFd fd = invalidFd ∧ r.getClientChattingStatusByFd fd ≠ .reqPending ∧
      r.getClientChattingStatusByFd fd ≠ .busy := by
  rw [hd.connFd_eq, hd.status_eq]
  cases hn : r.node fd with
  | none => simp
  | some n =>
      obtain ⟨hst, hto⟩ := h n (look_mem hn)
      simp [hst, hto]

/-- What an event writes where nobody is linked, if it is no request that gets through. -/
theorem unlinking_acts (h : r.Wf) (hu : r.Unlinked) {e : Event} (he : e.Possible r)
    (hnone : e.ReachesNobody r) {w : Write} (hw : .wrote w ∈ e.acts r) : w.Unlinking := by
  have hst := hu.status h.distinct
  have hdoes := does_of_mem h he hw
  cases hdoes with
  | registers | renames => trivial
  | refused _ hbusy => exact absurd hbusy (hst _).2.2
  | asks hmsg ht _ =>
      rw [hnone hmsg] at ht
      cases ht
  | loses _ hc _ _ => exact absurd (hst _).1 hc
  | pairs _ _ hc _ _ => exact absurd (hst _).1 hc
  | quits _ _ hc _ => exact absurd (hst _).1 hc
  | declines _ _ hc _ => exact absurd (hst _).1 hc
  | leaves =>
      simp only [Event.acts, closedActs, (hst _).1, ne_eq, not_true_eq_false, false_and, if_false,
        List.nil_append, List.mem_singleton, Act.wrote.injEq] at hw
      subst hw
      trivial

theorem ledgerStep_eq_some_iff {s s' : Ledger} {e : Event} {acts : List Act} :
    ledgerStep s e = some (s', acts) ↔
      e.Possible s.registry ∧ acts = e.acts s.registry ∧
        s' = ⟨⟨replay s.registry (e.acts s.registry), e.note s.registry s.asked.asker⟩,
          e.waits s.registry s.waits⟩ := by
  rw [ledgerStep, askStep, Option.map_map]
  exact atomicStep_map_eq_some_iff

/-- Nobody waits after an event that is no request getting through, if nobody did before. -/
theorem waits_nil {e : Event} (hnone : e.ReachesNobody r) : e.waits r [] = [] := by
  cases e with
  | accepted fd ok => rfl
  | closed fd => rfl
  | rxMsg fd msg =>
      simp only [Event.waits]
      split
      · next hmsg =>
          rw [hnone hmsg]
          rfl
      · rfl
      · rfl
      · rfl

/-- As long as no request gets through, nobody has to do with anybody. -/
theorem Ledger.Quiet.step {s s' : Ledger} {e : Event} {acts : List Act} (h : s.Quiet)
    (hs : ledgerStep s e = some (s', acts)) (hnone : e.ReachesNobody s.registry) : s'.Quiet := by
  obtain ⟨hposs, -, rfl⟩ := ledgerStep_eq_some_iff.mp hs
  refine ⟨h.good.step hposs, h.unlinked.replay _ fun w hw => ?_, ?_⟩
  · exact unlinking_acts h.good.wf h.unlinked hposs hnone hw
  · show e.waits s.registry s.waits = []
    rw [h.nobodyWaits, waits_nil hnone]

/-- Where nobody has to do with anybody, a close tells nobody, as it should. -/
theorem Ledger.Quiet.closesRight {s : Ledger} (h : s.Quiet) {x : ClientNode}
    (hx : x ∈ s.registry.clientList) : s.ClosesRight x := by
  rw [closesRight_iff h.good.wf.distinct hx]
  intro c hc _
  obtain ⟨hst, hto⟩ := h.unlinked c hc
  obtain ⟨hxst, -⟩ := h.unlinked x hx
  simp [Ledger.Depends, hst, hxst, h.nobodyWaits]

namespace Couple

variable {a b : Int} {n : ClientNode} (x y : Standing)

theorem node_right (h : Couple r a b) (hn : r.node b = some n) : (r.between a b x y).node b
    = some { n with data := { n.data with chatStatus := y.status, toFd := y.toFd } } := by
  rw [between, node_stand, if_pos rfl, node_stand, if_neg h.ne.symm, hn]
  rfl

theorem node_left (h : Couple r a b) (hn : r.node a = some n) : (r.between a b x y).node a
    = some { n with data := { n.data with chatStatus := x.status, toFd := x.toFd } } := by
  rw [h.swap]
  exact h.symm.node_right y x hn

end Couple

/-- The first request that gets through leaves its requester waiting for a client whose close
does not tell it. -/
theorem not_closesRight_of_request {s s' : Ledger} {fd t : Int} {msg : Msg} {acts : List Act}
    (h : s.Quiet) (hs : ledgerStep s (.rxMsg fd msg) = some (s', acts))
    (hmsg : msg.msgType = .connectToClient)
    (ht : s.registry.connectTarget fd msg.buffer.bytes = some t) :
    ∃ x ∈ s'.registry.clientList, ¬ s'.ClosesRight x := by
  obtain ⟨hposs, -, hs'⟩ := ledgerStep_eq_some_iff.mp hs
  have hd := h.good.wf.distinct
  obtain ⟨-, hne, -, htreg, -⟩ := hd.connectTarget_spec ht
  have hcouple : Couple s.registry fd t := ⟨hd, hne.symm, hposs, htreg⟩
  obtain ⟨n, hn⟩ := Option.isSome_iff_exists.mp hcouple.left
  obtain ⟨m, hm⟩ := Option.isSome_iff_exists.mp hcouple.right
  obtain ⟨hfree, -⟩ := h.unlinked n (look_mem hn)
  -- the registry after the request
  have hstand : ∀ {g : Int} {k : ClientNode}, s.registry.node g = some k →
      s.registry.standing g = some ⟨k.data.chatStatus, k.data.toFd⟩ := by
    intro g k hk
    rw [standing, hk]
    rfl
  have hreplay : replay s.registry ((Event.rxMsg fd msg).acts s.registry)
      = s.registry.between fd t ⟨n.data.chatStatus, t⟩ ⟨.reqPending, fd⟩ := by
    simp only [Event.acts, rxActs, hmsg, hd.connectActs_eq hcouple.left_valid, ht]
    exact replay_connect hcouple (hstand hn) (hstand hm)
  have hwaits : (Event.rxMsg fd msg).waits s.registry s.waits = [(n.addr, m.addr)] := by
    simp only [Event.waits, hn, hmsg, ht, Option.bind_some, hm, h.nobodyWaits]
  have hwf := (h.good.step hposs).wf
  rw [hreplay] at hs' hwf
  rw [hwaits] at hs'
  have hx := look_mem (hcouple.node_right ⟨n.data.chatStatus, t⟩ ⟨.reqPending, fd⟩ hm)
  have hc := look_mem (hcouple.node_left ⟨n.data.chatStatus, t⟩ ⟨.reqPending, fd⟩ hn)
  subst hs'
  -- the close of `t` does not tell `fd`, who waits and is free
  refine ⟨_, hx, fun hright => ?_⟩
  have hfds : n.fd ≠ m.fd := by
    rw [look_key hn, look_key hm]
    exact hcouple.ne
  rw [closesRight_iff hwf.distinct hx] at hright
  have htold := (hright _ hc hfds).mp (Or.inr (Or.inr List.mem_cons_self))
  exact htold.2 hfree

theorem Ledger.good_step (s : Ledger) (e : Event) (s' : Ledger) (acts : List Act)
    (h : s.registry.Good) (hs : ledgerStep s e = some (s', acts)) : s'.registry.Good := by
  obtain ⟨hposs, -, rfl⟩ := ledgerStep_eq_some_iff.mp hs
  exact h.step hposs

/-- In every reachable state, the close of a client tells whom it should exactly if its link leads
to the one other client that depends on it, or to none that is not CHAT_STATUS_FREE if nobody
does.  Over whole runs, every close would tell whom it should in every state exactly as long as no
request gets through. -/
theorem closesRight_everywhere_iff (es : List Event) :
    (∀ s, play ledgerStep .boot es = some s → ∀ x ∈ s.registry.clientList,
      (s.ClosesRight x ↔ ∀ c ∈ s.registry.clientList, c.fd ≠ x.fd →
        (s.Depends x c ↔ x.data.toFd = c.fd ∧ c.data.chatStatus ≠ .free))) ∧
    (Everywhere ledgerStep (fun s => ∀ x ∈ s.registry.clientList, s.ClosesRight x) .boot es ↔
      EveryStep ledgerStep (fun s e => e.ReachesNobody s.registry) .boot es) := by
  constructor
  · intro s hs x hx
    have hgood : s.registry.Good :=
      Reachable.inv (I := fun s => s.registry.Good) Ledger.good_step good_empty ⟨es, hs⟩
    exact closesRight_iff hgood.wf.distinct hx
  · refine everywhere_iff_while (fun s e s' acts h hs hnone => h.step hs hnone) ?_ es
      Ledger.quiet_boot fun x hx => (nomatch hx)
    intro s e s' acts h hs
    constructor
    · intro hright
      cases e with
      | accepted fd ok => trivial
      | closed fd => trivial
      | rxMsg fd msg =>
          intro hmsg
          rw [Option.eq_none_iff_forall_ne_some]
          intro t ht
          obtain ⟨x, hx, hwrong⟩ := not_closesRight_of_request h hs hmsg ht
          exact hwrong (hright x hx)
    · exact fun hnone x hx => (h.step hs hnone).closesRight hx

/-- 4 is told that 5 is free and waits for its answer; 5 closes, and 4 is told nothing. -/
theorem waiting_client_not_told :
    ¬ Everywhere ledgerStep (fun s => ∀ x ∈ s.registry.clientList, s.ClosesRight x) .boot
        [joins 4, joins 5, asks 4 5] ∧
      (sentTo 4 ((asks 4 5).acts twoJoined)).map Msg.msgType = [.clientFree] ∧
      sentTo 4 ((Event.closed 5).acts (afterRun [joins 4, joins 5, asks 4 5])) = [] :=
  ⟨by decide +kernel, by decide +kernel, by decide +kernel⟩

/-- 5 has declined the request of 4 and is in a chat with 6; 4 closes, and 5 is told that its
partner is gone. -/
example :
    let met : Ledger := final ledgerStep .boot
      [joins 4, joins 5, joins 6, asks 4 5, declinesAsker 5, asks 6 5, acceptsAsker 5]
    (∀ x ∈ met.registry.clientList, x.fd = 4 → ¬ met.ClosesRight x) ∧
      (sentTo 5 ((Event.closed 4).acts met.registry)).map Msg.msgType = [.clientTermination] ∧
      met.registry.getConnFdByFd 5 = 6 :=
  ⟨by decide +kernel, by decide +kernel, by decide +kernel⟩

end ChatSocket
