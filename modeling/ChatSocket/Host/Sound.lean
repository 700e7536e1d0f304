/-
# `Host.Sound` — what holds of the process at all times

`Sound` is the invariant the results about the process rest on.  Its core says who
may touch what: a descriptor is open for the one connection it stands for, that
connection's thread holds it until it exits, and a node belongs to the thread
whose descriptor it is under.  So the registration of a thread always comes under
a descriptor no node has, and the removal of a thread takes away its own node and
no other.

Until `free_all_client_nodes` starts, the counter counts the nodes and a thread
that is registered has its node.
-/
import ChatSocket.Host.Steps
import ChatSocket.Server.Nodes

namespace ChatSocket

open Kit Registry

/-- `free_all_client_nodes` has been called. -/
def LoopPoint.Shut : LoopPoint → Prop
  | freeing | freed => True
  | _ => False

/-- The `while` loop of `wait_for_client_conn_and_accept` is over. -/
def LoopPoint.Down : LoopPoint → Prop
  | joining _ | joinWait _ _ | freeing | freed => True
  | _ => False

theorem LoopPoint.Shut.down : ∀ {l : LoopPoint}, l.Shut → l.Down
  | freeing, h | freed, h => h

/-- The descriptor that is still the accept loop's. -/
def LoopPoint.fd? : LoopPoint → Option Int
  | accepted fd | counted fd _ => some fd
  | _ => none

/-- The thread has registered and not exited. -/
def Stage.Registered : Stage → Prop
  | starting | exited => False
  | _ => True

theorem Stage.registered_iff {s : Stage} : s.Registered ↔ s ≠ .starting ∧ s ≠ .exited := by
  cases s <;> simp [Registered]

structure Host.Sound (h : Host) : Prop where
  wf : h.registry.Wf
  named : h.registry.Named
  counted : ¬ h.loop.Shut → h.registry.totalAvailableClients.toNat = h.registry.clientList.length
  bounded : ¬ h.loop.Shut → h.registry.clientList.length ≤ maxClient
  /-- A node is its thread's. -/
  owner : ∀ n ∈ h.registry.clientList, ∃ t th, h.conns n.fd = some t ∧ h.threads t = some th ∧
    th.fd = n.fd ∧ th.stage ≠ .starting
  holds : ∀ t th, h.threads t = some th → th.stage ≠ .exited → h.conns th.fd = some t
  registered : ∀ t th, h.threads t = some th → th.stage.Registered → ¬ h.loop.Shut →
    (h.registry.node th.fd).isSome
  opened : ∀ fd t, h.conns fd = some t → t < h.accepts ∧ 0 ≤ fd ∧ fd < 2 ^ 31
  numbered : ∀ t th, h.threads t = some th → t < h.accepts
  pending : ∀ fd, h.loop.fd? = some fd → ∃ t, h.conns fd = some t ∧ h.threads t = none
  down : h.loop.Down → h.terminate = true

namespace Host

variable {h : Host}

theorem sound_boot : boot.Sound where
  wf := wf_empty
  named := fun _ hn => absurd hn List.not_mem_nil
  counted := fun _ => rfl
  bounded := fun _ => by decide
  owner := fun _ hn => absurd hn List.not_mem_nil
  holds := fun _ _ ht => nomatch ht
  registered := fun _ _ ht => nomatch ht
  opened := fun _ _ ht => nomatch ht
  numbered := fun _ _ ht => nomatch ht
  pending := fun _ hl => nomatch hl
  down := fun hl => hl.elim

/-! ## Reading a step -/

theorem threads_goto {t : Nat} {th : Thread} {stage : Stage} {t' : Nat} :
    (h.goto t th stage).threads t' = if t' = t then some { th with stage := stage }
      else h.threads t' :=
  Function.update_apply h.threads t (some { th with stage := stage }) t'

theorem threads_goto_self {t : Nat} {th : Thread} {stage : Stage} :
    (h.goto t th stage).threads t = some { th with stage := stage } := by
  rw [threads_goto, if_pos rfl]

/-- A thread is where it went. -/
theorem eq_of_goto {t : Nat} {th th' : Thread} {stage : Stage}
    (ht : (h.goto t th stage).threads t = some th') : { th with stage := stage } = th' :=
  Option.some.inj (threads_goto_self.symm.trans ht)

/-- What holds of the thread that went on and of all others holds of all. -/
theorem forall_goto {P : Nat → Thread → Prop} {t : Nat} {th : Thread} {stage : Stage}
    (hnew : P t { th with stage := stage })
    (hold : ∀ t' th', t' ≠ t → h.threads t' = some th' → P t' th') :
    ∀ t' th', (h.goto t th stage).threads t' = some th' → P t' th' := by
  intro t' th' ht'
  rw [threads_goto] at ht'
  split at ht'
  · next htt =>
      cases ht'
      rw [htt]
      exact hnew
  · next htt => exact hold t' th' htt ht'

theorem conns_perform {acts : List Act} (hacts : ∀ g, .wrote (.remove g) ∉ acts) (held : Bool) :
    (h.perform acts held).conns = h.conns := by
  funext g
  exact if_neg fun hc => hacts g hc.1

@[simp] theorem conns_goto {t : Nat} {th : Thread} {stage : Stage} :
    (h.goto t th stage).conns = h.conns := rfl

@[simp] theorem conns_loopAt {l : LoopPoint} : (h.loopAt l).conns = h.conns := rfl

@[simp] theorem conns_sent {fd : Int} {msg : Msg} {held : Bool} :
    (h.perform [.sent fd msg] held).conns = h.conns :=
  conns_perform (by simp) held

theorem conns_register (r : Registry) (fd : Int) (ok held : Bool) :
    (h.perform (registerActs r fd ok) held).conns = h.conns := by
  refine conns_perform (fun g hg => ?_) held
  simp only [registerActs] at hg
  split at hg <;> simp at hg

theorem conns_perform_of_inner {acts : List Act} (hacts : ∀ a ∈ acts, a.Inner) (held : Bool) :
    (h.perform acts held).conns = h.conns :=
  conns_perform (fun _ hg => (hacts _ hg : Act.Inner (.wrote (.remove _)))) held

/-- What is to be known of the acts of a step. -/
theorem perform_congr {acts acts' : List Act} {held : Bool}
    (hreplay : replay h.registry acts = replay h.registry acts')
    (hconns : (h.perform acts held).conns = (h.perform acts' held).conns)
    (hmsgs : ∀ c, msgsOn h.conns c acts = msgsOn h.conns c acts') :
    h.perform acts held = h.perform acts' held := by
  have hclose : closeRemoved h.registry acts h.conns = closeRemoved h.registry acts' h.conns :=
    hconns
  simp only [perform, hreplay, hclose, hmsgs]

theorem msgsOn_append (conns : Int → Option Nat) (c : Nat) (acts acts' : List Act) :
    msgsOn conns c (acts ++ acts') = msgsOn conns c acts ++ msgsOn conns c acts' :=
  List.filterMap_append

/-- The acts of a handler can be performed before what follows them. -/
theorem perform_append {acts : List Act} (hacts : ∀ a ∈ acts, a.Inner) (acts' : List Act)
    (held : Bool) : h.perform (acts ++ acts') held = (h.perform acts held).perform acts' held := by
  have hsame := sameNodes_replay acts h.registry hacts
  have hconns := conns_perform_of_inner (h := h) hacts held
  have hreplay : replay h.registry (acts ++ acts') = replay (replay h.registry acts) acts' :=
    replay_append acts acts' h.registry
  have hclose : closeRemoved h.registry (acts ++ acts') h.conns
      = closeRemoved (replay h.registry acts) acts' h.conns := by
    funext g
    have hmem : Act.wrote (.remove g) ∈ acts ++ acts' ↔ Act.wrote (.remove g) ∈ acts' := by
      rw [List.mem_append]
      exact or_iff_right fun hg => (hacts _ hg : Act.Inner (.wrote (.remove g)))
    simp only [closeRemoved, hmem, hsame.node_isSome]
  have hwritten : ∀ c, h.written c ++ msgsOn h.conns c (acts ++ acts')
      = (h.written c ++ msgsOn h.conns c acts) ++ msgsOn h.conns c acts' := by
    intro c
    rw [msgsOn_append, List.append_assoc]
  calc h.perform (acts ++ acts') held
      = { h with
          server := ⟨replay (replay h.registry acts) acts', held⟩
          conns := closeRemoved (replay h.registry acts) acts' h.conns
          written := fun c => (h.written c ++ msgsOn h.conns c acts) ++ msgsOn h.conns c acts' } := by
        simp only [perform, hreplay, hclose, hwritten]
    _ = (h.perform acts held).perform acts' held := by
        rw [perform, hconns]
        rfl

/-! ## Who holds what -/

theorem Sound.fd_ne_invalidFd (hs : h.Sound) {t : Nat} {th : Thread} (ht : h.threads t = some th)
    (hex : th.stage ≠ .exited) : th.fd ≠ invalidFd := by
  intro he
  have h0 := (hs.opened th.fd t (hs.holds t th ht hex)).2.1
  rw [he] at h0
  exact absurd h0 (by decide)

/-- A thread that has not registered has no node. -/
theorem Sound.node_starting (hs : h.Sound) {t : Nat} {th : Thread} (ht : h.threads t = some th)
    (hst : th.stage = .starting) : h.registry.node th.fd = none := by
  rw [node, look_eq_none_iff]
  intro n hn he
  obtain ⟨t', th', hc, ht', -, hne⟩ := hs.owner n hn
  rw [he, hs.holds t th ht (by rw [hst]; simp)] at hc
  cases hc
  rw [ht] at ht'
  cases ht'
  exact hne hst

/-- No two threads hold one descriptor. -/
theorem Sound.fd_inj (hs : h.Sound) {t t' : Nat} {th th' : Thread} (ht : h.threads t = some th)
    (ht' : h.threads t' = some th') (hex : th.stage ≠ .exited) (hex' : th'.stage ≠ .exited)
    (hfd : th.fd = th'.fd) : t = t' := by
  have hc := hs.holds t th ht hex
  rw [hfd, hs.holds t' th' ht' hex'] at hc
  exact (Option.some.inj hc).symm

/-- The node under the descriptor of a thread belongs to it. -/
theorem Sound.owner_eq (hs : h.Sound) {t : Nat} {n : ClientNode} (hn : n ∈ h.registry.clientList)
    (hc : h.conns n.fd = some t) : ∃ th, h.threads t = some th ∧ th.fd = n.fd ∧
      th.stage ≠ .starting := by
  obtain ⟨t', th, hc', ht, hfd, hne⟩ := hs.owner n hn
  rw [hc] at hc'
  cases hc'
  exact ⟨th, ht, hfd, hne⟩

/-! ## The steps keep it -/

/-- The loop goes on, and holds no new descriptor. -/
theorem Sound.loopAt (hs : h.Sound) {l : LoopPoint} (hshut : h.loop.Shut → l.Shut)
    (hfd : ∀ fd, l.fd? = some fd → h.loop.fd? = some fd)
    (hdown : l.Down → h.terminate = true) : (h.loopAt l).Sound :=
  { hs with
    counted := fun hl => hs.counted fun hl' => hl (hshut hl')
    bounded := fun hl => hs.bounded fun hl' => hl (hshut hl')
    registered := fun t th ht hr hl => hs.registered t th ht hr fun hl' => hl (hshut hl')
    pending := fun fd hl => hs.pending fd (hfd fd hl)
    down := hdown }

/-- A thread goes on, without registering. -/
theorem Sound.goto (hs : h.Sound) {t : Nat} {th : Thread} {stage : Stage}
    (ht : h.threads t = some th) (hex : th.stage ≠ .exited) (hnew : stage ≠ .starting)
    (hreg : stage.Registered → th.stage.Registered) : (h.goto t th stage).Sound := by
  refine { hs with owner := ?_, holds := ?_, registered := ?_, numbered := ?_, pending := ?_ }
  · intro n hn
    obtain ⟨t', th', hc, ht', hfd, hne⟩ := hs.owner n hn
    by_cases htt : t' = t
    · subst htt
      rw [ht] at ht'
      cases ht'
      exact ⟨t', { th with stage := stage }, hc, threads_goto_self, hfd, hnew⟩
    · exact ⟨t', th', hc, by rw [threads_goto, if_neg htt, ht'], hfd, hne⟩
  · exact forall_goto (fun _ => hs.holds t th ht hex) fun t' th' _ ht' => hs.holds t' th' ht'
  · exact forall_goto (fun hr hl => hs.registered t th ht (hreg hr) hl)
      fun t' th' _ ht' => hs.registered t' th' ht'
  · exact forall_goto (hs.numbered t th ht) fun t' th' _ ht' => hs.numbered t' th' ht'
  · intro fd hl
    obtain ⟨t', hc, hnone⟩ := hs.pending fd hl
    refine ⟨t', hc, ?_⟩
    rw [threads_goto, if_neg, hnone]
    rintro rfl
    rw [ht] at hnone
    cases hnone

/-- The acts of a handler. -/
theorem Sound.perform_inner (hs : h.Sound) {acts : List Act} (hacts : ∀ a ∈ acts, a.Inner)
    (held : Bool) : (h.perform acts held).Sound := by
  have hsame := sameNodes_replay acts h.registry hacts
  have hconns := conns_perform_of_inner (h := h) hacts held
  refine { hs with
    wf := hs.wf.replay_inner hacts
    named := hs.named.replay_inner hacts
    counted := ?_, bounded := ?_, owner := ?_, holds := ?_, registered := ?_, opened := ?_
    pending := ?_ }
  · intro hl
    show (replay h.registry acts).totalAvailableClients.toNat
      = (replay h.registry acts).clientList.length
    rw [hsame.total, hsame.length]
    exact hs.counted hl
  · intro hl
    show (replay h.registry acts).clientList.length ≤ maxClient
    rw [hsame.length]
    exact hs.bounded hl
  · intro n hn
    obtain ⟨m, hm, -, hfd⟩ := hsame.exists_mem hn
    rw [hconns, ← hfd]
    exact hs.owner m hm
  · rw [hconns]
    exact hs.holds
  · intro t th ht hr hl
    show ((replay h.registry acts).node th.fd).isSome
    rw [hsame.node_isSome]
    exact hs.registered t th ht hr hl
  · rw [hconns]
    exact hs.opened
  · rw [hconns]
    exact hs.pending

/-- A thread registers, or is turned away. -/
theorem Sound.registers (hs : h.Sound) {t : Nat} {th : Thread} (ht : h.threads t = some th)
    (hst : th.stage = .starting) (ok held : Bool) :
    ((h.perform (registerActs h.registry th.fd ok) held).goto t th
      (if (h.registry.addClientNodeToQueue th.fd ok).1 ≠ .succ then .exited
        else .greeting)).Sound := by
  have hex : th.stage ≠ .exited := by rw [hst]; simp
  have hfd := hs.fd_ne_invalidFd ht hex
  have hnone := hs.node_starting ht hst
  have hc := hs.holds t th ht hex
  obtain ⟨-, h0, h1⟩ := hs.opened th.fd t hc
  have hconns := conns_register (h := h) h.registry th.fd ok held
  have hreg := replay_registerActs h.registry th.fd ok
  by_cases ha : h.registry.Accepts ok
  · have hadd := h.registry.addClientNodeToQueue_eq th.fd ha
    have hlist : ((Write.add th.fd ok).apply h.registry).clientList
        = h.registry.clientList ++ [h.registry.newNode th.fd] := by
      rw [Write.apply, hadd]
    have htotal : ((Write.add th.fd ok).apply h.registry).totalAvailableClients
        = h.registry.totalAvailableClients + 1 := by
      rw [Write.apply, hadd]
    have hstage : (if (h.registry.addClientNodeToQueue th.fd ok).1 ≠ .succ then Stage.exited
        else .greeting) = .greeting := by
      rw [hadd]
      rfl
    have hlt := ha.1
    rw [hstage]
    constructor
    · show (replay h.registry _).Wf
      rw [hreg]
      exact hs.wf.apply ⟨hfd, hnone⟩
    · show (replay h.registry _).Named
      rw [hreg]
      exact hs.named.register h0 h1 ok
    · intro hl
      show (replay h.registry _).totalAvailableClients.toNat
        = (replay h.registry _).clientList.length
      have hcount := hs.counted hl
      rw [hreg, hlist, htotal, List.length_append, List.length_singleton, ← hcount,
        UInt8.toNat_add]
      simp only [maxClient] at hlt
      have hone : (1 : UInt8).toNat = 1 := rfl
      omega
    · intro hl
      show (replay h.registry _).clientList.length ≤ maxClient
      have hcount := hs.counted hl
      rw [hreg, hlist, List.length_append, List.length_singleton, ← hcount]
      exact hlt
    · intro n hn
      have hn : n ∈ (replay h.registry (registerActs h.registry th.fd ok)).clientList := hn
      rw [hreg, hlist] at hn
      show ∃ t' th', (h.perform _ held).conns n.fd = some t' ∧ _
      rw [hconns]
      rcases List.mem_append.mp hn with hn | hn
      · obtain ⟨t', th', hc', ht', hfd', hne⟩ := hs.owner n hn
        have htt : t' ≠ t := by
          rintro rfl
          rw [ht] at ht'
          cases ht'
          exact hne hst
        exact ⟨t', th', hc', by rw [threads_goto, if_neg htt]; exact ht', hfd', hne⟩
      · rw [List.mem_singleton.mp hn]
        exact ⟨t, { th with stage := .greeting }, hc, threads_goto_self, rfl,
          by simp⟩
    · show ∀ (t' : Nat) (th' : Thread), _ → _ → (h.perform _ held).conns th'.fd = some t'
      rw [hconns]
      exact forall_goto (fun _ => hc) fun t' th' _ ht' => hs.holds t' th' ht'
    · have hnode : ∀ g, ((Write.add th.fd ok).apply h.registry).node g
          = if g = th.fd ∧ h.registry.Accepts ok then some (h.registry.newNode th.fd)
            else h.registry.node g := node_add hnone
      show ∀ (t' : Nat) (th' : Thread), _ → _ → _ → ((replay h.registry _).node th'.fd).isSome
      rw [hreg]
      refine forall_goto (fun _ _ => ?_) fun t' th' _ ht' hr hl => ?_
      · rw [hnode, if_pos ⟨rfl, ha⟩]
        rfl
      · rw [hnode]
        split
        · rfl
        · exact hs.registered t' th' ht' hr hl
    · show ∀ (fd : Int) (t' : Nat), (h.perform _ held).conns fd = some t' → _
      rw [hconns]
      exact hs.opened
    · exact forall_goto (hs.numbered t th ht) fun t' th' _ ht' => hs.numbered t' th' ht'
    · intro fd hl
      obtain ⟨t', hc', hn'⟩ := hs.pending fd hl
      refine ⟨t', ?_, ?_⟩
      · show (h.perform _ held).conns fd = some t'
        rw [hconns]
        exact hc'
      · rw [threads_goto, if_neg]
        · exact hn'
        · rintro rfl
          rw [ht] at hn'
          cases hn'
    · exact hs.down
  · obtain ⟨hne, hsame⟩ := h.registry.addClientNodeToQueue_full th.fd ha
    have hperform : h.perform (registerActs h.registry th.fd ok) held
        = h.perform [.sent th.fd (.ofType .maxClientReached)] held := by
      refine perform_congr ?_ ?_ fun c => ?_
      · rw [hreg]
        exact hsame
      · rw [hconns]
        exact (conns_perform (by simp) held).symm
      · rw [registerActs, if_neg hne]
        rfl
    rw [if_pos hne, hperform]
    exact (hs.perform_inner (by simp [Act.Inner]) held).goto ht hex (by simp) False.elim

/-- A thread removes its node, and exits. -/
theorem Sound.removes (hs : h.Sound) {t : Nat} {th : Thread} (ht : h.threads t = some th)
    (hreg : th.stage.Registered) (held : Bool) :
    ((h.perform [.wrote (.remove th.fd)] held).goto t th .exited).Sound := by
  have hex := (Stage.registered_iff.mp hreg).2
  have hc := hs.holds t th ht hex
  -- a descriptor another thread holds stays open
  have hconns : ∀ {fd : Int}, fd ≠ th.fd →
      closeRemoved h.registry [.wrote (.remove th.fd)] h.conns fd = h.conns fd := by
    intro fd hfd
    exact if_neg fun hr => hfd (by simpa using hr.1)
  have hopen : ∀ {fd : Int} {t' : Nat},
      closeRemoved h.registry [.wrote (.remove th.fd)] h.conns fd = some t' →
        h.conns fd = some t' := by
    intro fd t' hfd
    rw [closeRemoved] at hfd
    split at hfd
    · cases hfd
    · exact hfd
  have hother : ∀ {t' : Nat} {th' : Thread}, t' ≠ t → h.threads t' = some th' →
      th'.stage ≠ .exited → th'.fd ≠ th.fd :=
    fun htt ht' hex' he => htt (hs.fd_inj ht' ht hex' hex he)
  constructor
  · exact hs.wf.apply (w := .remove th.fd) trivial
  · exact fun n hn => hs.named n (hs.wf.mem_remove hn).1
  · intro hl
    have hnode := hs.registered t th ht hreg hl
    have hcount := hs.counted hl
    have hlen := hs.wf.length_remove hnode
    show ((Write.remove th.fd).apply h.registry).totalAvailableClients.toNat
      = ((Write.remove th.fd).apply h.registry).clientList.length
    rw [hs.wf.total_remove hnode, UInt8.toNat_sub_of_le, hcount, ← hlen]
    · rfl
    · rw [UInt8.le_iff_toNat_le, hcount, ← hlen]
      exact Nat.le_add_left _ _
  · intro hl
    have hnode := hs.registered t th ht hreg hl
    have hlen := hs.wf.length_remove hnode
    have hle := hs.bounded hl
    show ((Write.remove th.fd).apply h.registry).clientList.length ≤ maxClient
    omega
  · intro n hn
    obtain ⟨hmem, hne⟩ := hs.wf.mem_remove hn
    obtain ⟨t', th', hc', ht', hfd, hst⟩ := hs.owner n hmem
    have htt : t' ≠ t := by
      rintro rfl
      rw [ht] at ht'
      cases ht'
      exact hne hfd.symm
    exact ⟨t', th', (hconns hne).trans hc', by rw [threads_goto, if_neg htt]; exact ht', hfd, hst⟩
  · exact forall_goto (fun hx => absurd rfl hx) fun t' th' htt ht' hex' =>
      (hconns (hother htt ht' hex')).trans (hs.holds t' th' ht' hex')
  · refine forall_goto False.elim fun t' th' htt ht' hr hl => ?_
    show (((Write.remove th.fd).apply h.registry).node th'.fd).isSome
    rw [hs.wf.node_remove, if_neg (hother htt ht' (Stage.registered_iff.mp hr).2)]
    exact hs.registered t' th' ht' hr hl
  · exact fun fd t' hc' => hs.opened fd t' (hopen hc')
  · exact forall_goto (hs.numbered t th ht) fun t' th' _ ht' => hs.numbered t' th' ht'
  · intro fd hl
    obtain ⟨t', hc', hnone⟩ := hs.pending fd hl
    have htt : t' ≠ t := by
      rintro rfl
      rw [ht] at hnone
      cases hnone
    have hfd : fd ≠ th.fd := by
      rintro rfl
      rw [hc] at hc'
      exact htt (Option.some.inj hc').symm
    exact ⟨t', (hconns hfd).trans hc', by rw [threads_goto, if_neg htt]; exact hnone⟩
  · exact hs.down

/-- A thread sees its connection closed. -/
theorem Sound.closes (hs : h.Sound) {t : Nat} {th : Thread} (ht : h.threads t = some th)
    (hreg : th.stage.Registered) (held : Bool) :
    ((h.perform (closedActs h.registry th.fd) held).goto t th .exited).Sound := by
  have hinner := inner_closedActs h.registry th.fd
  rw [closedActs, perform_append hinner]
  exact (hs.perform_inner hinner held).removes ht hreg held

/-- `accept` returns a descriptor. -/
theorem Sound.accepts (hs : h.Sound) {fd : Int} (hl : h.loop = .accepting) (h0 : 0 ≤ fd)
    (h1 : fd < 2 ^ 31) (hfree : h.conns fd = none) :
    Sound { h.loopAt (.accepted fd) with
      conns := Function.update h.conns fd (some h.accepts)
      accepts := h.accepts + 1 } := by
  have hshut : ¬ h.loop.Shut := by
    rw [hl]
    exact id
  have hother : ∀ {g : Int} {t : Nat}, h.conns g = some t →
      Function.update h.conns fd (some h.accepts) g = some t := by
    intro g t hc
    rw [Function.update_of_ne, hc]
    rintro rfl
    rw [hfree] at hc
    cases hc
  have hfresh : h.threads h.accepts = none := by
    rw [Option.eq_none_iff_forall_ne_some]
    exact fun th ht => Nat.lt_irrefl _ (hs.numbered _ th ht)
  exact
    { hs with
      counted := fun _ => hs.counted hshut
      bounded := fun _ => hs.bounded hshut
      owner := fun n hn =>
        let ⟨t, th, hc, hrest⟩ := hs.owner n hn
        ⟨t, th, hother hc, hrest⟩
      holds := fun t th ht hex => hother (hs.holds t th ht hex)
      registered := fun t th ht hr _ => hs.registered t th ht hr hshut
      opened := by
        intro g t hc
        replace hc : Function.update h.conns fd (some h.accepts) g = some t := hc
        rw [Function.update_apply] at hc
        split at hc
        · next hg =>
            cases hc
            exact ⟨Nat.lt_succ_self _, hg ▸ h0, hg ▸ h1⟩
        · obtain ⟨hlt, hrest⟩ := hs.opened g t hc
          exact ⟨Nat.lt_succ_of_lt hlt, hrest⟩
      numbered := fun t th ht => Nat.lt_succ_of_lt (hs.numbered t th ht)
      pending := by
        intro g hg
        cases hg
        exact ⟨h.accepts, Function.update_self _ _ _, hfresh⟩
      down := False.elim }

/-- A connection gets its thread. -/
theorem Sound.spawns (hs : h.Sound) {fd : Int} {count t : Nat} (hl : h.loop = .counted fd count)
    (hc : h.conns fd = some t) :
    Sound { h.loopAt .waiting with
      threads := Function.update h.threads t (some ⟨fd, .starting⟩) } := by
  have hshut : ¬ h.loop.Shut := by
    rw [hl]
    exact id
  have hnone : h.threads t = none := by
    obtain ⟨t', hc', hnone⟩ := hs.pending fd (by rw [hl]; rfl)
    rw [hc] at hc'
    cases hc'
    exact hnone
  have hother : ∀ {t' : Nat} {th : Thread}, h.threads t' = some th → t' ≠ t := by
    rintro t' th ht rfl
    rw [hnone] at ht
    cases ht
  have hcases : ∀ {t' : Nat} {th : Thread},
      Function.update h.threads t (some ⟨fd, .starting⟩) t' = some th →
        (t' = t ∧ th = ⟨fd, .starting⟩) ∨ h.threads t' = some th := by
    intro t' th ht
    rw [Function.update_apply] at ht
    split at ht
    · next htt =>
        cases ht
        exact Or.inl ⟨htt, rfl⟩
    · exact Or.inr ht
  exact
    { hs with
      counted := fun _ => hs.counted hshut
      bounded := fun _ => hs.bounded hshut
      owner := by
        intro n hn
        obtain ⟨t', th, hc', ht, hrest⟩ := hs.owner n hn
        exact ⟨t', th, hc', (Function.update_of_ne (hother ht) _ _).trans ht, hrest⟩
      holds := by
        intro t' th ht hex
        rcases hcases ht with ⟨rfl, rfl⟩ | ht
        · exact hc
        · exact hs.holds t' th ht hex
      registered := by
        intro t' th ht hr _
        rcases hcases ht with ⟨rfl, rfl⟩ | ht
        · exact hr.elim
        · exact hs.registered t' th ht hr hshut
      numbered := by
        intro t' th ht
        rcases hcases ht with ⟨rfl, rfl⟩ | ht
        · exact (hs.opened fd t' hc).1
        · exact hs.numbered t' th ht
      pending := fun _ hp => nomatch hp
      down := False.elim }

/-- A node is freed. -/
theorem Sound.frees (hs : h.Sound) {n : ClientNode} {rest : List ClientNode}
    (hl : h.loop = .freeing) (hlist : h.registry.clientList = n :: rest) :
    Sound { h with
      server := ⟨{ h.registry with clientList := rest }, h.server.mutexHeld⟩ } := by
  have hshut : h.loop.Shut := by
    rw [hl]
    trivial
  have hsub : rest.Sublist h.registry.clientList := by
    rw [hlist]
    exact List.sublist_cons_self n rest
  exact
    { hs with
      wf :=
        { fds := hs.wf.fds.sublist (hsub.map _)
          addrs := hs.wf.addrs.sublist (hsub.map _)
          valid := fun m hm => hs.wf.valid m (hsub.subset hm)
          fresh := fun m hm => hs.wf.fresh m (hsub.subset hm)
          stored := fun m hm => hs.wf.stored m (hsub.subset hm) }
      named := fun m hm => hs.named m (hsub.subset hm)
      counted := fun hn => absurd hshut hn
      bounded := fun hn => absurd hshut hn
      owner := fun m hm => hs.owner m (hsub.subset hm)
      registered := fun _ _ _ _ hn => absurd hshut hn }

/-- The accept loop goes on, on its own. -/
theorem Sound.loopGoes (hs : h.Sound) {m : Move} {l : LoopPoint} (hl : LoopGoes h m l) :
    (h.loopAt l).Sound := by
  cases hl with
  | tests hw =>
      refine hs.loopAt (fun hn => ?_) (fun fd hfd => ?_) fun hd => ?_
      · rw [hw] at hn
        exact hn.elim
      · split at hfd <;> cases hfd
      · split at hd
        · assumption
        · exact hd.elim
  | @fails i ha =>
      refine hs.loopAt (fun hn => ?_) (fun fd hfd => ?_) fun hd => ?_
      · rw [ha] at hn
        exact hn.elim
      · split at hfd <;> cases hfd
      · split at hd
        · next hterm => exact (Bool.and_eq_true_iff.mp hterm).2
        · exact hd.elim
  | counts ha _ =>
      refine hs.loopAt (fun hn => ?_) (fun fd hfd => ?_) False.elim
      · rw [ha] at hn
        exact hn.elim
      · rw [ha]
        exact hfd
  | noMemory hj _ | noThread hj _ =>
      refine hs.loopAt (fun hn => ?_) (fun fd hfd => nomatch hfd) False.elim
      rw [hj] at hn
      exact hn.elim
  | allJoined hj | joinsGone hj _ | joins hj _ _ | joined hj _ =>
      refine hs.loopAt (fun hn => ?_) (fun fd hfd => nomatch hfd) fun _ => hs.down ?_
      · rw [hj] at hn
        exact hn.elim
      · rw [hj]
        trivial
  | allFreed hf _ =>
      refine hs.loopAt (fun _ => trivial) (fun fd hfd => nomatch hfd) fun _ => hs.down ?_
      rw [hf]
      trivial

/-- A thread that makes a quiet step has registered, and does not start again. -/
theorem registered_of_quiets {r : Registry} {terminate : Bool} {stage stage' : Stage}
    {answer : Answer} (hq : Quiets r terminate stage answer stage') :
    stage.Registered ∧ stage' ≠ .starting := by
  cases hq with
  | hears => exact ⟨trivial, rx_cases (P := (· ≠ .starting)) _ (by simp) (by simp)⟩
  | lists => exact ⟨trivial, listOn_cases (P := (· ≠ .starting)) _ _ (by simp) (by simp)⟩
  | visits => exact ⟨trivial, visit_cases (P := (· ≠ .starting)) _ _ _ _ (by simp) (by simp)⟩
  | _ => exact ⟨trivial, by simp⟩

/-- Every step keeps `Sound`. -/
theorem Sound.step (hs : h.Sound) {m : Move} {h' : Host} {acts : List Act}
    (hstep : hostStep h m = some (h', acts)) : h'.Sound := by
  cases stepped_of_hostStep hstep with
  | loops hl => exact hs.loopGoes hl
  | accepts hl h0 h1 hfree => exact hs.accepts hl h0 h1 hfree
  | spawns hl _ hc => exact hs.spawns hl hc
  | turnsAway hl _ =>
      refine (hs.perform_inner (by simp [Act.Inner]) _).loopAt (fun hn => ?_)
        (fun fd hfd => nomatch hfd) False.elim
      rw [show (h.perform _ _).loop = h.loop from rfl, hl] at hn
      exact hn.elim
  | frees hl hlist => exact hs.frees hl hlist
  | terminates => exact { hs with down := fun _ => rfl }
  | registers ht hst _ => exact hs.registers ht hst _ _
  | greets ht hst =>
      exact (hs.perform_inner (by simp [Act.Inner]) _).goto ht (by simp [hst]) (by simp)
        fun _ => by rw [hst]; trivial
  | serves ht hst _ _ =>
      exact (hs.perform_inner (Point.inner_acts _ _ _) _).goto ht (by simp [hst]) (by simp)
        fun _ => by rw [hst]; trivial
  | closes ht hst _ => exact hs.closes ht (by rw [hst]; trivial) _
  | quiet ht hq =>
      obtain ⟨hreg, hne⟩ := registered_of_quiets hq
      exact hs.goto ht (Stage.registered_iff.mp hreg).2 hne fun _ => hreg

theorem sound_of_reachable (hr : Reachable hostStep boot h) : h.Sound :=
  hr.inv (fun _ _ _ _ hs hstep => hs.step hstep) sound_boot

end Host

end ChatSocket
