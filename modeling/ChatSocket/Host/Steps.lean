/-
# `Host.Steps` — what a step of the process can do

`Stepped h m h' acts` has one constructor for each thing a move can do, with what
has to hold for it; `stepped_of_hostStep` is the inversion that every invariant of
the process is proved by.  Most steps of the accept loop only take it to its next
point: those are in `LoopGoes`.
-/
import ChatSocket.Host.Basic

namespace ChatSocket

open Kit

/-- The steps of the accept loop that change nothing else. -/
inductive LoopGoes (h : Host) : Move → LoopPoint → Prop where
  | tests {a b} : h.loop = .waiting →
      LoopGoes h (.acceptLoop a b) (if h.terminate then h.joinHead else .accepting)
  | fails {i} : h.loop = .accepting →
      LoopGoes h (.acceptFails i) (if i && h.terminate then h.joinHead else .waiting)
  | counts {fd a b} : h.loop = .accepted fd → h.server.mutexHeld = false →
      LoopGoes h (.acceptLoop a b) (.counted fd h.registry.totalAvailableClients.toNat)
  | noMemory {fd count b} : h.loop = .counted fd count → count < maxClient →
      LoopGoes h (.acceptLoop false b) .waiting
  | noThread {fd count} : h.loop = .counted fd count → count < maxClient →
      LoopGoes h (.acceptLoop true false) .failed
  | allJoined {a b} : h.loop = .joining none → LoopGoes h (.acceptLoop a b) .freeing
  | joinsGone {node a b} : h.loop = .joining (some node) →
      look ClientNode.addr node h.registry.clientList = none →
      LoopGoes h (.acceptLoop a b) (.joining none)
  | joins {node n t a b} : h.loop = .joining (some node) →
      look ClientNode.addr node h.registry.clientList = some n → h.conns n.fd = some t →
      LoopGoes h (.acceptLoop a b) (.joinWait node t)
  | joined {node t a b} : h.loop = .joinWait node t →
      (h.threads t).map Thread.stage = some .exited →
      LoopGoes h (.acceptLoop a b) (.joining (nextAddr node h.registry.clientList))
  | allFreed {a b} : h.loop = .freeing → h.registry.clientList = [] →
      LoopGoes h (.acceptLoop a b) .freed

/-- The quiet steps of a thread. -/
inductive Quiets (r : Registry) (terminate : Bool) : Stage → Answer → Stage → Prop where
  | notGreeted : Quiets r terminate .greeting (.sent false) .exited
  | acked {c} : Recv.Acks c → Quiets r terminate .awaitingAck (.recv c) (.serving .done)
  | notAcked {c} : ¬ Recv.Acks c → Quiets r terminate .awaitingAck (.recv c) .exited
  | stops : terminate = true → Quiets r terminate (.serving .done) .none .exited
  | polls : terminate = false → Quiets r terminate (.serving .done) .none .polling
  | hears {chunk} : Quiets r terminate .polling (.poll (.input (.bytes chunk)))
      (.rx (recvInto (.zero _) chunk.bytes).msg)
  | hangsUp {p} : p = .error ∨ p = .input .closed → Quiets r terminate .polling (.poll p) .closing
  | again {p} : p = .timeout ∨ p = .noInput ∨ p = .input .error →
      Quiets r terminate .polling (.poll p) (.serving .done)
  | lists : Quiets r terminate .listHead .none
      (listOn (r.clientList.head?.map ClientNode.addr) (.zero _) 0)
  | visits {a list listLen} : Quiets r terminate (.listing a list listLen) .none
      (visit r a list listLen)

/-- What a step can do. -/
inductive Stepped (h : Host) : Move → Host → List Act → Prop where
  | loops {m l} : LoopGoes h m l → Stepped h m (h.loopAt l) []
  | accepts {fd} : h.loop = .accepting → 0 ≤ fd → fd < 2 ^ 31 → h.conns fd = none →
      Stepped h (.accepts fd)
        { h.loopAt (.accepted fd) with
          conns := Function.update h.conns fd (some h.accepts)
          accepts := h.accepts + 1 } []
  | spawns {fd count t} : h.loop = .counted fd count → count < maxClient →
      h.conns fd = some t →
      Stepped h (.acceptLoop true true)
        { h.loopAt .waiting with
          threads := Function.update h.threads t (some ⟨fd, .starting⟩) } []
  | turnsAway {fd count a b} : h.loop = .counted fd count → ¬ count < maxClient →
      Stepped h (.acceptLoop a b)
        ((h.perform [.sent fd (.ofType .maxClientReached)] h.server.mutexHeld).loopAt .waiting)
        [.sent fd (.ofType .maxClientReached)]
  | frees {n rest a b} : h.loop = .freeing → h.registry.clientList = n :: rest →
      Stepped h (.acceptLoop a b)
        { h with server := ⟨{ h.registry with clientList := rest }, h.server.mutexHeld⟩ } []
  | terminates : Stepped h .sigint { h with terminate := true } []
  | registers {t th ok} : h.threads t = some th → th.stage = .starting →
      h.server.mutexHeld = false →
      Stepped h (.thread t (.malloc ok))
        ((h.perform (registerActs h.registry th.fd ok) false).goto t th
          (if (h.registry.addClientNodeToQueue th.fd ok).1 ≠ .succ then .exited else .greeting))
        (registerActs h.registry th.fd ok)
  | greets {t th} : h.threads t = some th → th.stage = .greeting →
      Stepped h (.thread t (.sent true))
        ((h.perform [.sent th.fd connEstablishReq] h.server.mutexHeld).goto t th .awaitingAck)
        [.sent th.fd connEstablishReq]
  | serves {t th p} : h.threads t = some th → th.stage = .serving p → p ≠ .done →
      (p.locks = true → h.server.mutexHeld = false) →
      Stepped h (.thread t .none)
        ((h.perform (p.acts th.fd h.registry)
          (if p.locks then p.leavesHeld th.fd h.registry else h.server.mutexHeld)).goto t th
          (.serving (p.next th.fd h.registry)))
        (p.acts th.fd h.registry)
  | closes {t th} : h.threads t = some th → th.stage = .closing → h.server.mutexHeld = false →
      Stepped h (.thread t .none)
        ((h.perform (closedActs h.registry th.fd) false).goto t th .exited)
        (closedActs h.registry th.fd)
  | quiet {t th answer stage} : h.threads t = some th →
      Quiets h.registry h.terminate th.stage answer stage →
      Stepped h (.thread t answer) (h.goto t th stage) []

theorem handler?_eq_some_iff {s : Stage} {answer : Answer} {p : Point} :
    s.handler? answer = some p ↔ s = .serving p ∧ p ≠ .done ∧ answer = .none := by
  constructor
  · intro h
    unfold Stage.handler? at h
    split at h
    · cases h
    · next hp =>
        cases h
        exact ⟨rfl, hp, rfl⟩
    · cases h
  · rintro ⟨rfl, hp, rfl⟩
    cases p with
    | done => exact absurd rfl hp
    | _ => rfl

/-! ## Where a message and a walk of the list lead -/

theorem rx_cases {P : Stage → Prop} (msg : Msg) (hlist : P .listHead)
    (hstart : P (.serving (.start msg))) : P (.rx msg) := by
  unfold Stage.rx
  split
  · exact hlist
  · exact hstart

theorem listOn_cases {P : Stage → Prop} {next : Option Nat} (list : Buf maxMsgLen) (listLen : Nat)
    (hreply : ∀ msg, P (.serving (.reply msg)))
    (hnext : ∀ b, next = some b → P (.listing b list listLen)) : P (listOn next list listLen) := by
  cases next with
  | none => exact hreply _
  | some b => exact hnext b rfl

/-- A visited node leads to the next node or to the end of the walk. -/
theorem visit_cases {P : Stage → Prop} (r : Registry) (a : Nat) (list : Buf maxMsgLen)
    (listLen : Nat) (hreply : ∀ msg, P (.serving (.reply msg)))
    (hnext : ∀ b list' listLen', nextAddr a r.clientList = some b →
      P (.listing b list' listLen')) : P (visit r a list listLen) := by
  unfold visit
  split
  · exact hreply _
  · split
    · exact hreply _
    · exact listOn_cases _ _ hreply fun b hb => hnext b _ _ hb

/-- Where a quiet step can lead. -/
theorem after_quiets {P : Stage → Prop} {r : Registry} {terminate : Bool} {stage stage' : Stage}
    {answer : Answer} (hq : Quiets r terminate stage answer stage') (hexited : P .exited)
    (hpolling : P .polling) (hclosing : P .closing) (hhead : P .listHead)
    (hlisting : ∀ a list listLen, P (.listing a list listLen)) (hdone : P (.serving .done))
    (hreply : ∀ msg, P (.serving (.reply msg))) (hstart : ∀ msg, P (.serving (.start msg))) :
    P stage' := by
  cases hq with
  | notGreeted | notAcked | stops => exact hexited
  | acked | again => exact hdone
  | polls => exact hpolling
  | hears => exact rx_cases _ hhead (hstart _)
  | hangsUp => exact hclosing
  | lists => exact listOn_cases _ _ hreply fun _ _ => hlisting _ _ _
  | visits => exact visit_cases _ _ _ _ hreply fun _ _ _ _ => hlisting _ _ _

theorem quiets_of_quiet {r : Registry} {terminate : Bool} {stage stage' : Stage} {answer : Answer}
    (hq : stage.quiet r terminate answer = some stage') :
    Quiets r terminate stage answer stage' := by
  unfold Stage.quiet at hq
  split at hq
  · cases hq
    exact .notGreeted
  · obtain rfl := Option.some.inj hq
    split
    · next hc => exact .acked hc
    · next hc => exact .notAcked hc
  · obtain rfl := Option.some.inj hq
    cases terminate with
    | true => exact .stops rfl
    | false => exact .polls rfl
  · next p =>
      obtain rfl := Option.some.inj hq
      match p with
      | .error => exact .hangsUp (Or.inl rfl)
      | .timeout => exact .again (Or.inl rfl)
      | .noInput => exact .again (Or.inr (Or.inl rfl))
      | .input (.bytes chunk) => exact .hears
      | .input .closed => exact .hangsUp (Or.inr rfl)
      | .input .error => exact .again (Or.inr (Or.inr rfl))
  · cases hq
    exact .lists
  · cases hq
    exact .visits
  · cases hq

namespace Host

variable {h h' : Host} {acts : List Act}

theorem stepped_of_threadStep {t : Nat} {th : Thread} {answer : Answer}
    (ht : h.threads t = some th) (hs : h.threadStep t th answer = some (h', acts)) :
    Stepped h (.thread t answer) h' acts := by
  simp only [threadStep] at hs
  split at hs
  · next hst =>
      split at hs
      · cases hs
      · next hfree =>
          cases hs
          exact .registers ht hst (by simpa using hfree)
  · next hst =>
      cases hs
      exact .greets ht hst
  · next hst =>
      split at hs
      · cases hs
      · next hfree =>
          cases hs
          exact .closes ht hst (by simpa using hfree)
  · split at hs
    · next p hp =>
        obtain ⟨hst, hdone, rfl⟩ := handler?_eq_some_iff.mp hp
        split at hs
        · cases hs
        · next hfree =>
            cases hs
            exact .serves ht hst hdone fun hl => by simpa [hl] using hfree
    · obtain ⟨stage, hq, he⟩ := Option.map_eq_some_iff.mp hs
      cases he
      exact .quiet ht (quiets_of_quiet hq)

theorem stepped_of_loopStep {a b : Bool} (hs : h.loopStep a b = some (h', acts)) :
    Stepped h (.acceptLoop a b) h' acts := by
  unfold loopStep at hs
  split at hs
  · next hl =>
      cases hs
      exact .loops (.tests hl)
  · next hl =>
      split at hs
      · cases hs
      · next hfree =>
          cases hs
          exact .loops (.counts hl (by simpa using hfree))
  · next hl =>
      split at hs
      · next hlt =>
          cases a with
          | false =>
              cases hs
              exact .loops (.noMemory hl hlt)
          | true =>
              cases b with
              | false =>
                  cases hs
                  exact .loops (.noThread hl hlt)
              | true =>
                  obtain ⟨t, ht, he⟩ := Option.map_eq_some_iff.mp hs
                  cases he
                  exact .spawns hl hlt ht
      · next hge =>
          cases hs
          exact .turnsAway hl hge
  · next hl =>
      cases hs
      exact .loops (.allJoined hl)
  · next hl =>
      split at hs
      · next hn =>
          cases hs
          exact .loops (.joinsGone hl hn)
      · next hn =>
          obtain ⟨t, ht, he⟩ := Option.map_eq_some_iff.mp hs
          cases he
          exact .loops (.joins hl hn ht)
  · next hl =>
      split at hs
      · next hex =>
          cases hs
          exact .loops (.joined hl hex)
      · cases hs
  · next hl =>
      split at hs
      · next hlist =>
          cases hs
          exact .loops (.allFreed hl hlist)
      · next hlist =>
          cases hs
          exact .frees hl hlist
  · cases hs
  · cases hs
  · cases hs

end Host

theorem stepped_of_hostStep {h h' : Host} {m : Move} {acts : List Act}
    (hs : hostStep h m = some (h', acts)) : Stepped h m h' acts := by
  unfold hostStep at hs
  split at hs
  · split at hs
    · next hc =>
        cases hs
        exact .accepts hc.1 hc.2.1 hc.2.2.1 hc.2.2.2
    · cases hs
  · split at hs
    · next hc =>
        cases hs
        exact .loops (.fails hc)
    · cases hs
  · exact Host.stepped_of_loopStep hs
  · obtain ⟨th, ht, he⟩ := Option.bind_eq_some_iff.mp hs
    exact Host.stepped_of_threadStep ht he
  · cases hs
    exact .terminates

/-! ## Runs in examples -/

/-- A message that comes whole. -/
def Msg.chunk (m : Msg) : Chunk sizeofMsg :=
  ⟨m.image (.zero 3), by rw [Msg.length_image]; decide, Nat.le_of_eq (Msg.length_image _ _)⟩

/-- The accept loop goes on; what it asks for it gets. -/
def loopGo : Move := .acceptLoop true true

/-- Thread `t` goes on. -/
def go (t : Nat) : Move := .thread t .none

/-- The client of thread `t` sends a message. -/
def tells (t : Nat) (m : Msg) : Move := .thread t (.poll (.input (.bytes m.chunk)))

/-- The client of thread `t` hangs up. -/
def hangs (t : Nat) : Move := .thread t (.poll (.input .closed))

/-- Connection `t` is accepted on `fd`, and gets its thread. -/
def calls (fd : Int) : List Move := [loopGo, .accepts fd, loopGo, loopGo]

/-- The thread registers its connection, which answers the handshake. -/
def shakes (t : Nat) : List Move :=
  [.thread t (.malloc true), .thread t (.sent true),
   .thread t (.recv (.bytes (Msg.ofType .connEstablishAck).chunk)), go t]

def arrives (t : Nat) (fd : Int) : List Move := calls fd ++ shakes t

/-- A request to be connected to the client that still has the name it got under `fd`. -/
def asksFor (fd : Int) : Msg := .withText .connectToClient (Registry.tempClientName fd).str

/-- The text that ends a chat. -/
def quits : Msg := .withText .clientTxType disconnectCmd

/-- The process a run leads to. -/
abbrev afterMoves (ms : List Move) : Host := final hostStep .boot ms

end ChatSocket
