/-
# `Host.Slots` — what a connection that came to nothing leaves behind

Before a shutdown every node should belong to a thread that serves it, and every
open descriptor to a node or to whoever still decides about it.  Both are lost on
the exits that end a connection early.  A thread whose handshake fails exits and
leaves its node (`served_everywhere_iff`); a connection that is turned away, or
for which memory or a thread is missing, is never closed
(`sockets_everywhere_iff`).  In both cases these are the only steps that lose
anything.
-/
import ChatSocket.Host.Effects

namespace ChatSocket

open Kit Registry

/-! ## Slots -/

/-- Every node belongs to a thread that is in its handshake or in its receive loop, and no node
belongs to a thread that has ended. -/
structure Host.SlotsServed (h : Host) : Prop where
  served : ∀ n ∈ h.registry.clientList, ∃ t th, h.conns n.fd = some t ∧ h.threads t = some th ∧
    th.fd = n.fd ∧ th.stage.Registered
  ended : ∀ t th, h.threads t = some th → th.stage = .exited →
    ∀ n ∈ h.registry.clientList, h.conns n.fd ≠ some t
  counted : h.registry.totalAvailableClients.toNat = h.registry.clientList.length

/-- The steps that leave no node behind: before a shutdown, no handshake fails. -/
def Move.KeepsSlots (h : Host) : Move → Prop
  | .thread _ (.sent ok) => h.terminate = false → ok = true
  | .thread _ (.recv c) => h.terminate = false → c.Acks
  | _ => True

namespace Host

variable {h h' : Host} {m : Move} {acts : List Act}

/-- Until a shutdown the slots are served exactly if every thread that ended had none. -/
theorem Sound.slotsServed_iff (hs : h.Sound) (hterm : h.terminate = false) :
    h.SlotsServed ↔ ∀ t th, h.threads t = some th → th.stage = .exited →
      ∀ n ∈ h.registry.clientList, h.conns n.fd ≠ some t := by
  have hshut : ¬ h.loop.Shut := by
    intro hl
    rw [hs.down hl.down] at hterm
    cases hterm
  refine ⟨SlotsServed.ended, fun hended => ⟨fun n hn => ?_, hended, hs.counted hshut⟩⟩
  obtain ⟨t, th, hc, ht, hfd, hst⟩ := hs.owner n hn
  exact ⟨t, th, hc, ht, hfd, Stage.registered_iff.mpr ⟨hst, fun he => hended t th ht he n hn hc⟩⟩

/-- The node of a thread is known by the thread. -/
theorem Sound.thread_of_node (hs : h.Sound) {n : ClientNode} (hn : n ∈ h.registry.clientList)
    {t : Nat} {th : Thread} (ht : h.threads t = some th) (hc : h.conns n.fd = some t) :
    th.fd = n.fd := by
  obtain ⟨th', ht', hfd, -⟩ := hs.owner_eq hn hc
  rw [ht] at ht'
  cases ht'
  exact hfd

/-- A thread that exits on its own has failed its handshake, or sees the shutdown. -/
theorem exits_of_quiets {r : Registry} {terminate : Bool} {stage stage' : Stage} {answer : Answer}
    (hq : Quiets r terminate stage answer stage') (hex : stage' = .exited) :
    answer = .sent false ∨ (∃ c, answer = .recv c ∧ ¬ c.Acks) ∨ terminate = true := by
  have hlist : ∀ {next : Option Nat} {list : Buf maxMsgLen} {listLen : Nat},
      listOn next list listLen ≠ .exited :=
    fun {_ _ _} => listOn_cases (P := (· ≠ .exited)) _ _ (by simp) (by simp)
  cases hq with
  | notGreeted => exact Or.inl rfl
  | notAcked hc => exact Or.inr (Or.inl ⟨_, rfl, hc⟩)
  | stops hterm => exact Or.inr (Or.inr hterm)
  | hears => exact absurd hex (rx_cases (P := (· ≠ .exited)) _ (by simp) (by simp))
  | lists => exact absurd hex hlist
  | visits => exact absurd hex (visit_cases (P := (· ≠ .exited)) _ _ _ _ (by simp) (by simp))
  | _ => cases hex

/-- A thread that ends under a step that fails no handshake leaves no node. -/
theorem ended_step (hs : h.Sound) (hterm : h.terminate = false) (hp : h.SlotsServed)
    (hstep : Stepped h m h' acts) (hm : m.KeepsSlots h) :
    ∀ t th, h'.threads t = some th → th.stage = .exited →
      ∀ n ∈ h'.registry.clientList, h'.conns n.fd ≠ some t := by
  refine forall_threads hstep (fun _ _ _ hex => nomatch hex) ?_ ?_
  · rintro t answer th th' rfl ht ht' hex n hn hc'
    have hc : h.conns n.fd = some t := by
      rcases conns_step hstep hc' with hc | ⟨hacc, -⟩
      · exact hc
      · cases hacc
    -- the node was there before, or it is the one the thread registers
    have hnode := node_step hs hstep hn
    cases hstep with
    | loops hl => cases hl
    | registers hth hst _ =>
        cases eq_of_goto ht'
        rcases hnode with ⟨n₀, hn₀, -, hfd⟩ | ⟨⟨_, _, _, he, -, -, -, ha⟩, -⟩
        · obtain ⟨th', ht', -, hne⟩ := hs.owner_eq hn₀ (hfd ▸ hc)
          rw [hth] at ht'
          cases ht'
          exact hne hst
        · cases he
          rw [h.registry.addClientNodeToQueue_eq _ ha] at hex
          cases hex
    | greets | serves =>
        cases eq_of_goto ht'
        cases hex
    | closes hth hst hfree =>
        rcases hnode with ⟨n₀, hn₀, -, hfd⟩ | ⟨⟨_, _, _, he, -⟩, -⟩
        · exact no_node_of_closes hs (.closes hth hst hfree) ⟨t, _, rfl, hth, hst, rfl⟩ hn
            (hfd.symm.trans (hs.thread_of_node hn₀ hth (hfd ▸ hc)).symm)
        · cases he
    | quiet hth hq =>
        cases eq_of_goto ht'
        rcases exits_of_quiets hq hex with rfl | ⟨c, rfl, hc⟩ | hterm'
        · cases hm hterm
        · exact hc (hm hterm)
        · rw [hterm] at hterm'
          cases hterm'
  · intro t th hmt ht hex n hn hc'
    have hc : h.conns n.fd = some t := by
      rcases conns_step hstep hc' with hc | ⟨-, rfl, -⟩
      · exact hc
      · exact absurd (hs.numbered _ th ht) (Nat.lt_irrefl _)
    rcases node_step hs hstep hn with ⟨n₀, hn₀, -, hfd⟩ | ⟨⟨t', th', ok, rfl, ht', hst, hfd, -⟩, -⟩
    · exact hp.ended t th ht hex n₀ hn₀ (hfd ▸ hc)
    · rw [← hfd, hs.holds t' th' ht' (by simp [hst])] at hc
      cases hc
      exact hmt _ rfl

/-- Until a shutdown, a step keeps the slots served exactly if it fails no handshake. -/
theorem slotsServed_step_iff (hs : h.Sound) (hp : h.terminate = false → h.SlotsServed)
    (hstep : Stepped h m h' acts) (hs' : h'.Sound) :
    (h'.terminate = false → h'.SlotsServed) ↔ m.KeepsSlots h := by
  cases hterm : h.terminate with
  | true =>
      have hterm' := terminate_step hstep hterm
      refine ⟨fun _ => ?_, fun _ hf => ?_⟩
      · unfold Move.KeepsSlots
        split <;> simp [hterm]
      · rw [hterm'] at hf
        cases hf
  | false =>
      refine ⟨fun hp' => ?_, fun hm hf =>
        (hs'.slotsServed_iff hf).mpr (ended_step hs hterm (hp hterm) hstep hm)⟩
      have hshut : ¬ h.loop.Shut := fun hl => by
        rw [hs.down hl.down] at hterm
        cases hterm
      -- a thread that has registered and is gone after the step has left its node
      have hleft : ∀ {t : Nat} {th : Thread}, h.threads t = some th → th.stage.Registered →
          h' = h.goto t th .exited → False := by
        rintro t th ht hreg rfl
        obtain ⟨n, hn⟩ := Option.isSome_iff_exists.mp (hs.registered t th ht hreg hshut)
        have hfd : n.fd = th.fd := look_key hn
        refine (hp' hterm).ended t { th with stage := .exited } threads_goto_self rfl
          n (look_mem hn) ?_
        rw [hfd]
        exact hs.holds t th ht (Stage.registered_iff.mp hreg).2
      cases hstep with
      | @quiet _ th _ _ ht hq =>
          have hreg := (registered_of_quiets hq).1
          obtain ⟨fd, stage⟩ := th
          cases hq with
          | notGreeted => exact (hleft ht hreg rfl).elim
          | acked hc => exact fun _ => hc
          | notAcked => exact (hleft ht hreg rfl).elim
          | _ => trivial
      | loops hl => cases hl <;> trivial
      | greets => exact fun _ => rfl
      | _ => trivial

end Host

/-- Over whole runs, the slots are served until a shutdown exactly as long as no handshake
fails. -/
theorem served_everywhere_iff (ms : List Move) :
    Everywhere hostStep (fun h => h.terminate = false → h.SlotsServed) .boot ms ↔
      EveryStep hostStep (fun h m => m.KeepsSlots h) .boot ms :=
  everywhere_iff (fun _ _ _ _ hs hstep => Host.Sound.step hs hstep)
    (fun _ _ _ _ hs hp hstep =>
      Host.slotsServed_step_iff hs hp (stepped_of_hostStep hstep) (hs.step hstep)) ms
    Host.sound_boot fun _ =>
      ⟨fun _ hn => absurd hn List.not_mem_nil, fun _ _ ht => (nomatch ht), rfl⟩

/-- A client that hangs up in the handshake keeps its slot. -/
theorem slot_lost_in_handshake :
    ¬ ∀ ms, Everywhere hostStep (fun h => h.terminate = false → h.SlotsServed) .boot ms := by
  intro h
  have hlast := (h (calls 4 ++ [.thread 0 (.malloc true), .thread 0 (.sent true),
    .thread 0 (.recv .closed)])).at_play (play_final (by decide +kernel))
  exact (hlast (by decide +kernel)).ended 0 ⟨4, .exited⟩ (by decide +kernel) rfl
    (Registry.empty.newNode 4) (by decide +kernel) (by decide +kernel)

/-! ## Sockets -/

/-- Every open descriptor is that of a node, or is held by the accept loop or by a thread that
has not registered. -/
def Host.SocketsHeld (h : Host) : Prop :=
  ∀ fd t, h.conns fd = some t → (h.registry.node fd).isSome ∨ h.loop.fd? = some fd ∨
    h.threads t = some ⟨fd, .starting⟩

/-- The steps that lose no descriptor: before a shutdown, every connection that is accepted is
given memory, a thread and a node. -/
def Move.KeepsSockets (h : Host) : Move → Prop
  | .acceptLoop mallocOk createOk => h.terminate = false → ∀ fd count,
      h.loop = .counted fd count → count < maxClient ∧ mallocOk = true ∧ createOk = true
  | .thread _ (.malloc ok) => h.terminate = false → h.registry.Accepts ok
  | _ => True

namespace Host

variable {h h' : Host} {m : Move} {acts : List Act}

theorem not_freeing (hs : h.Sound) (hterm : h.terminate = false) : h.loop ≠ .freeing := by
  intro hl
  rw [hs.down (by rw [hl]; trivial)] at hterm
  cases hterm

/-- Until a shutdown, a step that gives a connection what it needs loses no descriptor. -/
theorem socketsHeld_step (hs : h.Sound) (hterm : h.terminate = false) (hp : h.SocketsHeld)
    (hstep : Stepped h m h' acts) (hm : m.KeepsSockets h) : h'.SocketsHeld := by
  intro fd t hc'
  rcases conns_step hstep hc' with hc | ⟨rfl, -, -⟩
  · rcases hp fd t hc with hn | hl | ht
    · left
      rcases em (h.Closes m fd) with hclose | hclose
      · rw [conns_of_closes hstep hclose hn] at hc'
        cases hc'
      · obtain ⟨n, hn⟩ := Option.isSome_iff_exists.mp hn
        have hfd : n.fd = fd := look_key hn
        obtain ⟨n', hn', -, hfd'⟩ := node_kept hs hstep (look_mem hn) (by rw [hfd]; exact hclose)
          fun _ _ _ => not_freeing hs hterm
        rw [node_isSome_iff]
        exact List.mem_map.mpr ⟨n', hn', hfd'.trans hfd⟩
    · -- the accept loop hands its descriptor on, or keeps it
      right
      cases hstep with
      | loops hgoes =>
          cases hgoes with
          | counts hacc => exact Or.inl (by rw [hacc] at hl; exact hl)
          | noMemory hcount => cases (hm hterm _ _ hcount).2.1
          | noThread hcount => cases (hm hterm _ _ hcount).2.2
          | tests hw | fails hw | allJoined hw | joinsGone hw | joins hw | joined hw | allFreed hw =>
              rw [hw] at hl
              cases hl
      | accepts hacc =>
          rw [hacc] at hl
          cases hl
      | spawns hcount _ hc₀ =>
          rw [hcount] at hl
          cases hl
          rw [hc] at hc₀
          cases hc₀
          exact Or.inr (Function.update_self _ _ _)
      | turnsAway hcount hge => exact absurd (hm hterm _ _ hcount).1 hge
      | frees | terminates | registers | greets | serves | closes | quiet => exact Or.inl hl
    · rcases em (∃ answer, m = .thread t answer) with ⟨answer, rfl⟩ | hmt
      · left
        cases hstep with
        | loops hgoes => cases hgoes
        | registers hth hst _ =>
            rw [ht] at hth
            cases hth
            show ((replay h.registry _).node fd).isSome
            rw [replay_registerActs, node_add (hs.node_starting ht hst), if_pos ⟨rfl, hm hterm⟩]
            rfl
        | greets hth hst | serves hth hst | closes hth hst =>
            rw [ht] at hth
            cases hth
            cases hst
        | quiet hth hq =>
            rw [ht] at hth
            cases hth
            cases hq
      · exact Or.inr (Or.inr (threads_kept hs hstep ht fun answer he => hmt ⟨answer, he⟩))
  · cases hstep with
    | loops hgoes => cases hgoes
    | accepts => exact Or.inr (Or.inl rfl)

/-- Until a shutdown, a step loses no descriptor exactly if it gives a connection that is
accepted what it needs. -/
theorem socketsHeld_step_iff (hs : h.Sound) (hp : h.terminate = false → h.SocketsHeld)
    (hstep : Stepped h m h' acts) :
    (h'.terminate = false → h'.SocketsHeld) ↔ m.KeepsSockets h := by
  cases hterm : h.terminate with
  | true =>
      have hterm' := terminate_step hstep hterm
      refine ⟨fun _ => ?_, fun _ hf => ?_⟩
      · unfold Move.KeepsSockets
        split <;> simp [hterm]
      · rw [hterm'] at hf
        cases hf
  | false =>
      refine ⟨fun hp' => ?_, fun hm _ => socketsHeld_step hs hterm (hp hterm) hstep hm⟩
      -- what the loop held and no thread was made for is held by nobody
      have hlost : ∀ {fd : Int}, h.loop.fd? = some fd → h'.loop = .waiting ∨ h'.loop = .failed →
          h'.terminate = false → h'.conns = h.conns → h'.threads = h.threads →
          h'.registry = h.registry → False := by
        intro fd hl hl' hterm' hconns hthreads hreg
        obtain ⟨t, hc, hnone⟩ := hs.pending fd hl
        rcases hp' hterm' fd t (by rw [hconns, hc]) with hn | hfd | ht
        · rw [hreg] at hn
          obtain ⟨n, hn⟩ := Option.isSome_iff_exists.mp hn
          have hfd : n.fd = fd := look_key hn
          obtain ⟨th, ht, -⟩ := hs.owner_eq (look_mem hn) (hfd ▸ hc)
          rw [hnone] at ht
          cases ht
        · rcases hl' with hl' | hl' <;> rw [hl'] at hfd <;> cases hfd
        · rw [hthreads, hnone] at ht
          cases ht
      cases hstep with
      | loops hgoes =>
          cases hgoes with
          | noMemory hcount =>
              exact (hlost (by rw [hcount]; rfl) (Or.inl rfl) hterm rfl rfl rfl).elim
          | noThread hcount =>
              exact (hlost (by rw [hcount]; rfl) (Or.inr rfl) hterm rfl rfl rfl).elim
          | fails => trivial
          | tests hw | counts hw | allJoined hw | joinsGone hw | joins hw | joined hw
          | allFreed hw =>
              intro _ fd count hcount
              rw [hw] at hcount
              cases hcount
      | turnsAway hcount =>
          refine (hlost (by rw [hcount]; rfl) (Or.inl rfl) hterm ?_ rfl rfl).elim
          rw [conns_loopAt, conns_sent]
      | spawns hcount hlt =>
          intro _ fd count hc
          rw [hcount] at hc
          cases hc
          exact ⟨hlt, rfl, rfl⟩
      | frees hl =>
          intro _ fd count hc
          rw [hl] at hc
          cases hc
      | @registers t th ok ht hst _ =>
          intro _
          by_contra ha
          obtain ⟨hne, hsame⟩ := h.registry.addClientNodeToQueue_full th.fd ha
          have hc := hs.holds t th ht (by simp [hst])
          rcases hp' hterm th.fd t ((congrFun (conns_register _ _ _ false) _).trans hc)
            with hn | hl | ht'
          · replace hn : ((replay h.registry (registerActs h.registry th.fd ok)).node th.fd).isSome :=
              hn
            rw [replay_registerActs, Write.apply, hsame, hs.node_starting ht hst] at hn
            cases hn
          · obtain ⟨t', hc', hnone⟩ := hs.pending th.fd hl
            rw [hc] at hc'
            cases hc'
            rw [ht] at hnone
            cases hnone
          · rw [threads_goto, if_pos rfl, if_pos hne] at ht'
            cases ht'
      | @quiet _ th _ _ ht hq =>
          obtain ⟨fd, stage⟩ := th
          cases hq <;> trivial
      | _ => trivial

end Host

/-- Over whole runs, no descriptor is lost until a shutdown exactly as long as every connection
that is accepted is given memory, a thread and a node. -/
theorem sockets_everywhere_iff (ms : List Move) :
    Everywhere hostStep (fun h => h.terminate = false → h.SocketsHeld) .boot ms ↔
      EveryStep hostStep (fun h m => m.KeepsSockets h) .boot ms :=
  everywhere_iff (fun _ _ _ _ hs hstep => Host.Sound.step hs hstep)
    (fun _ _ _ _ hs hp hstep => Host.socketsHeld_step_iff hs hp (stepped_of_hostStep hstep)) ms
    Host.sound_boot fun _ _ _ hc => nomatch hc

/-- A connection that is told that there are too many clients is never closed. -/
theorem socket_lost_in_refusal :
    ¬ ∀ ms, Everywhere hostStep (fun h => h.terminate = false → h.SocketsHeld) .boot ms := by
  intro h
  have hlast := (h (calls 4 ++ [.thread 0 (.malloc false)])).at_play
    (play_final (by decide +kernel))
  rcases hlast (by decide +kernel) 4 0 (by decide +kernel) with hn | hl | ht
  · revert hn
    decide +kernel
  · revert hl
    decide +kernel
  · revert ht
    decide +kernel

end ChatSocket
