/-
# `Host.Shutdown` — what becomes of the process after SIGINT

Once `server_terminate` is set, a thread that has handled its message does not
receive another one, and the accept loop accepts one more connection at most.
What is left to do can be counted then (`Host.left`): the steps of the threads up to
their end, and for the accept loop the nodes it still has to join and to free, the
ones that are still to be registered among them.  Every step but another SIGINT
makes it less.

So the process does not go on for ever, however its threads are interleaved and
whatever the clients do; and where it stops with the mutex free, all threads have
ended and `wait_for_client_conn_and_accept` has returned: `shutdown_completes`.
-/
import ChatSocket.Host.Walks

namespace ChatSocket

open Kit Registry

/-- The steps a thread makes until it ends, at most; one that registers leaves a node to be
joined and freed. -/
def Stage.left : Stage → Nat
  | exited => 0
  | closing => 1
  | awaitingAck => 2
  | greeting => 3
  | starting => 7
  | polling => maxMsgLen + 4
  | serving p => p.rank + 1
  | listHead => maxMsgLen + 3
  | listing _ _ listLen => maxMsgLen - listLen + 2

theorem Stage.left_le (s : Stage) : s.left ≤ maxMsgLen + 4 := by
  cases s with
  | serving p => cases p <;> simp [left, Point.rank, maxMsgLen]
  | listing _ _ listLen =>
      simp only [left]
      omega
  | _ => simp [left, maxMsgLen]

/-- The steps of the accept loop, for the nodes that are there now. -/
def LoopPoint.left (addrs : List Nat) : LoopPoint → Nat
  | freed | failed => 0
  | freeing => addrs.length + 1
  | joining none => addrs.length + 2
  | joining (some a) => 2 * addrs.countP (a ≤ ·) + addrs.length + 3
  | joinWait a _ => 2 * addrs.countP (a < ·) + addrs.length + 4
  | waiting => 3 * addrs.length + 4
  | counted _ _ => 3 * addrs.length + 12
  | accepted _ => 3 * addrs.length + 13
  | accepting => 3 * addrs.length + 14

namespace LoopPoint

variable {addrs addrs' : List Nat}

/-- Fewer nodes are sooner joined and freed. -/
theorem left_mono (h : addrs'.Sublist addrs) (l : LoopPoint) : l.left addrs' ≤ l.left addrs := by
  have hlen := h.length_le
  cases l with
  | joining node =>
      cases node with
      | none => exact Nat.add_le_add_right hlen 2
      | some a =>
          have hcount := h.countP_le (p := fun x => a ≤ x)
          simp only [left]
          omega
  | joinWait a t =>
      have hcount := h.countP_le (p := fun x => a < x)
      simp only [left]
      omega
  | _ =>
      simp only [left]
      omega

/-- A new node is three more steps. -/
theorem left_concat (b : Nat) (l : LoopPoint) : l.left (addrs ++ [b]) ≤ l.left addrs + 3 := by
  have hcount : ∀ p : Nat → Bool, (addrs ++ [b]).countP p ≤ addrs.countP p + 1 := by
    intro p
    rw [List.countP_append]
    exact Nat.add_le_add_left (List.countP_le_length) _
  cases l with
  | joining node =>
      cases node with
      | none =>
          simp only [left, List.length_append, List.length_singleton]
          omega
      | some a =>
          have hle := hcount fun x => a ≤ x
          simp only [left, List.length_append, List.length_singleton]
          omega
  | joinWait a t =>
      have hle := hcount fun x => a < x
      simp only [left, List.length_append, List.length_singleton]
      omega
  | _ =>
      simp only [left, List.length_append, List.length_singleton]
      omega

/-- The walk starts. -/
theorem left_joinHead (addrs : List Nat) :
    (joining addrs.head?).left addrs < (waiting).left addrs := by
  cases addrs with
  | nil => exact (by decide : (2 : Nat) < 4)
  | cons a addrs =>
      have hle : (a :: addrs).countP (a ≤ ·) ≤ (a :: addrs).length := List.countP_le_length
      simp only [List.head?_cons, left]
      omega

/-- A node that is there is waited for. -/
theorem left_joins {a : Nat} (ha : a ∈ addrs) (t : Nat) :
    (joinWait a t).left addrs < (joining (some a)).left addrs := by
  have hcount : addrs.countP (a < ·) < addrs.countP (a ≤ ·) := by
    have hmono : ∀ l : List Nat, l.countP (a < ·) ≤ l.countP (a ≤ ·) := fun l =>
      List.countP_mono_left fun x _ hx => decide_eq_true (Nat.le_of_lt (of_decide_eq_true hx))
    obtain ⟨pre, post, rfl⟩ := List.append_of_mem ha
    have hpre := hmono pre
    have hpost := hmono post
    rw [List.countP_append, List.countP_append, List.countP_cons_of_neg (by simp),
      List.countP_cons_of_pos (by simp)]
    omega
  simp only [left]
  omega

/-- The walk goes on from a node. -/
theorem left_joined (hl : addrs.Pairwise (· < ·)) (a t : Nat) :
    (joining (after a addrs)).left addrs < (joinWait a t).left addrs := by
  cases hnext : after a addrs with
  | none =>
      simp only [left]
      omega
  | some b =>
      have hlt := (after_spec hl hnext).1
      have hcount : addrs.countP (b ≤ ·) ≤ addrs.countP (a < ·) :=
        List.countP_mono_left fun x _ hx => by
          have hx := of_decide_eq_true hx
          exact decide_eq_true (by omega)
      simp only [left]
      omega

end LoopPoint

namespace Host

variable {h h' : Host} {m : Move} {acts : List Act}

/-- What is left to do for the threads. -/
def threadsLeft (h : Host) : Nat :=
  ∑ t ∈ Finset.range h.accepts, (h.threads t).elim 0 fun th => th.stage.left

/-- What is left to do. -/
def left (h : Host) : Nat := h.loop.left h.addrs + h.threadsLeft

/-! ## Every step makes it less -/

/-- A step of the accept loop by itself. -/
theorem left_loopGoes (ho : h.Ordered) (hterm : h.terminate = true) {l : LoopPoint}
    (hl : LoopGoes h m l) : l.left h.addrs < h.loop.left h.addrs := by
  have hhead : h.joinHead = .joining h.addrs.head? := by
    rw [joinHead, addrs, List.head?_map]
  have hstart := LoopPoint.left_joinHead h.addrs
  cases hl with
  | tests hj =>
      rw [hj, if_pos hterm, hhead]
      exact hstart
  | fails hj =>
      rw [hj]
      split
      · rw [hhead]
        refine hstart.trans ?_
        simp only [LoopPoint.left]
        omega
      · simp only [LoopPoint.left]
        omega
  | counts hj | noMemory hj | noThread hj | allJoined hj | joinsGone hj | allFreed hj =>
      rw [hj]
      simp only [LoopPoint.left]
      omega
  | joins hj hn =>
      rw [hj]
      refine LoopPoint.left_joins (List.mem_map.mpr ⟨_, look_mem hn, look_key hn⟩) _
  | joined hj =>
      rw [hj, nextAddr_eq_after]
      exact LoopPoint.left_joined ho _ _

/-- Where an own step takes a thread: it is nearer to its end, and by more than one step if it
leaves a node. -/
theorem left_goes (hl : h.ListsTracked) (hterm : h.terminate = true) {t : Nat} {answer : Answer}
    {th th' : Thread} (ht : h.threads t = some th) (hg : h.Goes th answer th') :
    th'.stage.left < th.stage.left ∧ (th.stage = .starting → th'.stage.left + 4 ≤ th.stage.left) := by
  have hrank : ∀ p : Point, p.rank + 1 < maxMsgLen + 4 := by
    intro p
    cases p <;> simp [Point.rank, maxMsgLen]
  cases hg with
  | registers hst =>
      rcases hst with rfl | rfl <;> simp [Stage.left]
  | greets | closes => simp [Stage.left]
  | serves hp =>
      refine ⟨Nat.succ_lt_succ (Point.rank_next hp _ _), fun he => ?_⟩
      cases he
  | quiet hq =>
      cases hq with
      | notGreeted | acked | notAcked | stops => simp [Stage.left, Point.rank]
      | polls hgo =>
          rw [hterm] at hgo
          cases hgo
      | hangsUp | again => simp [Stage.left, Point.rank, maxMsgLen]
      | hears =>
          refine ⟨?_, fun he => by cases he⟩
          refine rx_cases (P := fun s => s.left < maxMsgLen + 4) _ ?_ (hrank _)
          exact Nat.lt_succ_self _
      | lists =>
          refine ⟨?_, fun he => by cases he⟩
          refine listOn_cases (P := fun s => s.left < maxMsgLen + 3) _ _ (fun _ => ?_) fun _ _ => ?_
          · simp [Stage.left, Point.rank, maxMsgLen]
          · exact Nat.lt_succ_self _
      | @visits a list listLen =>
          refine ⟨?_, fun he => by cases he⟩
          obtain ⟨hlist, hlt⟩ := hl t _ ht
          have hturns := turns_visit h.registry a hlist hlt
          have hleft : (visit h.registry a list listLen).left
              = (visit h.registry a list listLen).turns + 1 :=
            visit_cases (P := fun s => s.left = s.turns + 1) _ _ _ _ (fun _ => rfl)
              fun _ _ _ _ => rfl
          rw [hleft]
          exact Nat.succ_lt_succ hturns

/-- One thread goes on. -/
theorem threadsLeft_update {t : Nat} {th th' : Thread} (ht : h.threads t = some th)
    (hlt : t < h.accepts) (hthreads : h'.threads = Function.update h.threads t (some th'))
    (haccepts : h'.accepts = h.accepts) :
    h'.threadsLeft + th.stage.left = h.threadsLeft + th'.stage.left := by
  have hsum := sum_add_of_eq_off (f := fun i => (h'.threads i).elim 0 fun th => th.stage.left)
    (g := fun i => (h.threads i).elim 0 fun th => th.stage.left) hlt fun i hi => by
      rw [hthreads, Function.update_of_ne hi]
  simp only [ht, hthreads, Function.update_self, Option.elim_some] at hsum
  rw [threadsLeft, threadsLeft, haccepts, hthreads]
  exact hsum

/-- Every step but a SIGINT. -/
theorem left_step (hw : h.Walked) (hterm : h.terminate = true) (hstep : Stepped h m h' acts)
    (hm : m ≠ .sigint) : h'.left < h.left := by
  have hs := hw.turning.sound
  rcases em (∃ t answer, m = .thread t answer) with ⟨t, answer, rfl⟩ | hloop
  · obtain ⟨th, th', ht, hthreads, haccepts, hl, -⟩ := threads_of_step hstep
    have ht' : h'.threads t = some th' := by rw [hthreads, Function.update_self]
    have hsum := threadsLeft_update ht (hs.numbered t th ht) hthreads haccepts
    obtain ⟨hlt, hstarting⟩ :=
      left_goes hw.turning.lists hterm ht (goes_of_step hstep ht ht')
    simp only [left, hl]
    rcases addrs_step hs hstep with ⟨t₁, th₁, he, ht₁, hst, haddrs⟩ | hsub
    · cases he
      rw [ht] at ht₁
      cases ht₁
      have hle : h.loop.left (h.addrs ++ [h.registry.mallocs]) ≤ h.loop.left h.addrs + 3 :=
        LoopPoint.left_concat _ _
      have hless := hstarting hst
      rw [haddrs]
      omega
    · have hle := LoopPoint.left_mono hsub h.loop
      omega
  · cases hstep with
    | loops hl => exact Nat.add_lt_add_right (left_loopGoes hw.ordered hterm hl) _
    | @accepts fd hj =>
        have hnone : h.threads h.accepts = none :=
          Option.eq_none_iff_forall_ne_some.mpr fun th ht => Nat.lt_irrefl _ (hs.numbered _ th ht)
        have hsum : ∑ t ∈ Finset.range (h.accepts + 1),
            (h.threads t).elim 0 (fun th => th.stage.left) = h.threadsLeft := by
          rw [Finset.sum_range_succ, hnone]
          rfl
        show (LoopPoint.accepted fd).left h.addrs + ∑ t ∈ Finset.range (h.accepts + 1),
          (h.threads t).elim 0 (fun th => th.stage.left) < _
        rw [hsum, left, hj]
        exact Nat.add_lt_add_right (Nat.lt_succ_self _) _
    | @spawns fd count t hj _ hc =>
        obtain ⟨t', hc', hnone⟩ := hs.pending fd (by rw [hj]; rfl)
        cases hc.symm.trans hc'
        have hsum := sum_add_of_eq_off
          (f := fun i => (Function.update h.threads t (some ⟨fd, .starting⟩) i).elim 0
            fun th => th.stage.left)
          (g := fun i => (h.threads i).elim 0 fun th => th.stage.left) (hs.opened fd t hc).1
          fun i hi => by rw [Function.update_of_ne hi]
        simp only [Function.update_self, hnone, Option.elim_some, Option.elim_none] at hsum
        show LoopPoint.waiting.left h.addrs + ∑ t ∈ Finset.range h.accepts, _ < _
        rw [left, hj, threadsLeft]
        simp only [LoopPoint.left, Stage.left] at hsum ⊢
        omega
    | turnsAway hj =>
        show LoopPoint.waiting.left h.addrs + h.threadsLeft < _
        rw [left, hj]
        refine Nat.add_lt_add_right ?_ _
        simp only [LoopPoint.left]
        omega
    | frees hj hlist =>
        show h.loop.left (List.map _ _) + h.threadsLeft < _
        rw [left, hj, addrs, hlist]
        exact Nat.add_lt_add_right (Nat.lt_succ_self _) _
    | terminates => exact absurd rfl hm
    | registers | greets | serves | closes | quiet => exact absurd ⟨_, _, rfl⟩ hloop

/-! ## Where it stops -/

theorem threads_isSome (hs : h.Sound) (hstep : Stepped h m h' acts) {t : Nat}
    (ht : (h.threads t).isSome) : (h'.threads t).isSome := by
  obtain ⟨th, ht⟩ := Option.isSome_iff_exists.mp ht
  rcases em (∃ answer, m = .thread t answer) with ⟨answer, rfl⟩ | hm
  · obtain ⟨th', ht'⟩ := thread_after hstep
    rw [ht']
    rfl
  · rw [threads_kept hs hstep ht fun answer he => hm ⟨answer, he⟩]
    rfl

/-- The loop waits for the thread of a node it has found. -/
theorem joinWait_step (hs : h.Sound) (hj : ∀ a t, h.loop = .joinWait a t → (h.threads t).isSome)
    (hstep : Stepped h m h' acts) : ∀ a t, h'.loop = .joinWait a t → (h'.threads t).isSome := by
  intro a t hl
  have hbefore : h.loop = .joinWait a t → (h'.threads t).isSome := fun he =>
    threads_isSome hs hstep (hj a t he)
  cases hstep with
  | loops hgo =>
      cases hgo with
      | joins _ hn hc =>
          cases hl
          obtain ⟨th, ht, -⟩ := hs.owner_eq (look_mem hn) hc
          exact Option.isSome_iff_exists.mpr ⟨th, ht⟩
      | tests | fails =>
          replace hl : (if _ then h.joinHead else _) = LoopPoint.joinWait a t := hl
          split at hl <;> cases hl
      | _ => cases hl
  | accepts | spawns | turnsAway => cases hl
  | frees | terminates | registers | greets | serves | closes | quiet => exact hbefore hl

/-- The process as far as its end goes. -/
structure Ending (h : Host) : Prop where
  walked : h.Walked
  joins : ∀ a t, h.loop = .joinWait a t → (h.threads t).isSome

theorem ending_boot : boot.Ending := ⟨walked_boot, fun _ _ hl => by cases hl⟩

theorem Ending.step (he : h.Ending) (hs : hostStep h m = some (h', acts)) : h'.Ending :=
  ⟨he.walked.step hs,
    joinWait_step he.walked.turning.sound he.joins (stepped_of_hostStep hs)⟩

theorem ending_of_reachable (hr : Reachable hostStep boot h) : h.Ending :=
  hr.inv (fun _ _ _ _ he hs => he.step hs) ending_boot

/-- A thread that has not ended can go on, unless it needs the mutex. -/
theorem possible_of_not_exited (hfree : h.server.mutexHeld = false) {t : Nat} {th : Thread}
    (ht : h.threads t = some th) (hex : th.stage ≠ .exited) :
    ∃ answer, (hostStep h (.thread t answer)).isSome := by
  have hstep : ∀ answer, hostStep h (.thread t answer) = h.threadStep t th answer := by
    intro answer
    show (h.threads t).bind _ = _
    rw [ht]
    rfl
  obtain ⟨fd, stage⟩ := th
  cases stage with
  | starting => exact ⟨.malloc true, by simp [hstep, threadStep, hfree]⟩
  | greeting => exact ⟨.sent false, by rw [hstep]; rfl⟩
  | awaitingAck => exact ⟨.recv .error, by rw [hstep]; rfl⟩
  | polling => exact ⟨.poll .timeout, by rw [hstep]; rfl⟩
  | serving p =>
      rcases eq_or_ne p .done with rfl | hp
      · exact ⟨.none, by rw [hstep]; rfl⟩
      · exact ⟨.none, (possible_iff_of_handling ht hp).mpr fun _ => hfree⟩
  | listHead | listing => exact ⟨.none, (possible_iff_of_handling ht trivial).mpr fun _ => hfree⟩
  | closing => exact ⟨.none, by simp [hstep, threadStep, hfree]⟩
  | exited => exact absurd rfl hex

/-- Where the accept loop cannot go on, it has returned. -/
theorem returned_of_stuck (he : h.Ending) (hfree : h.server.mutexHeld = false)
    (hex : ∀ t th, h.threads t = some th → th.stage = .exited)
    (hstuck : ∀ m, m ≠ .sigint → hostStep h m = none) : h.loop = .failed ∨ h.loop = .freed := by
  have hs := he.walked.turning.sound
  have hloop : ∀ a b, h.loopStep a b = none := fun a b => hstuck (.acceptLoop a b) (by simp)
  cases hj : h.loop with
  | waiting | freeing =>
      have hnone := hloop false false
      simp only [loopStep, hj] at hnone
      split at hnone <;> cases hnone
  | accepting =>
      have hnone := hstuck (.acceptFails false) (by simp)
      rw [hostStep, if_pos hj] at hnone
      cases hnone
  | accepted fd =>
      have hnone := hloop false false
      simp only [loopStep, hj, hfree] at hnone
      cases hnone
  | counted fd count =>
      have hnone := hloop false false
      simp only [loopStep, hj] at hnone
      split at hnone <;> cases hnone
  | joining node =>
      have hnone := hloop false false
      cases node with
      | none =>
          simp only [loopStep, hj] at hnone
          cases hnone
      | some a =>
          simp only [loopStep, hj] at hnone
          split at hnone
          · cases hnone
          · next n hn =>
              obtain ⟨t, th, hc, -⟩ := hs.owner n (look_mem hn)
              rw [hc] at hnone
              cases hnone
  | joinWait a t =>
      have hnone := hloop false false
      obtain ⟨th, ht⟩ := Option.isSome_iff_exists.mp (he.joins a t hj)
      have hexited : (h.threads t).map Thread.stage = some .exited := by
        rw [ht, Option.map_some, hex t th ht]
      simp only [loopStep, hj, if_pos hexited] at hnone
      cases hnone
  | failed => exact Or.inl rfl
  | freed => exact Or.inr rfl

/-! ## The bound -/

theorem left_le (h : Host) :
    h.left ≤ (maxMsgLen + 4) * h.accepts + 3 * h.registry.clientList.length + 14 := by
  have hloop : h.loop.left h.addrs ≤ 3 * h.registry.clientList.length + 14 := by
    have hlen : h.addrs.length = h.registry.clientList.length := List.length_map _
    cases h.loop with
    | joining node =>
        cases node with
        | none =>
            simp only [LoopPoint.left]
            omega
        | some a =>
            have hcount : h.addrs.countP (a ≤ ·) ≤ h.addrs.length := List.countP_le_length
            simp only [LoopPoint.left]
            omega
    | joinWait a t =>
        have hcount : h.addrs.countP (a < ·) ≤ h.addrs.length := List.countP_le_length
        simp only [LoopPoint.left]
        omega
    | _ =>
        simp only [LoopPoint.left]
        omega
  have hthreads : h.threadsLeft ≤ h.accepts • (maxMsgLen + 4) := by
    have hle := Finset.sum_le_card_nsmul (Finset.range h.accepts)
      (fun t => (h.threads t).elim 0 fun th => th.stage.left) (maxMsgLen + 4) fun t _ => by
        cases h.threads t with
        | none => exact Nat.zero_le _
        | some th => exact th.stage.left_le
    rwa [Finset.card_range] at hle
  rw [nsmul_eq_mul, Nat.cast_id, Nat.mul_comm] at hthreads
  rw [left]
  omega

theorem terminate_kept (hstep : Stepped h m h' acts) (hterm : h.terminate = true) :
    h'.terminate = true := by
  cases hstep with
  | terminates => rfl
  | _ => exact hterm

end Host

/-- Two clients are there, and the accept loop is in `accept`. -/
@[irreducible] def interrupted : List Move := arrives 0 4 ++ arrives 1 5 ++ [loopGo, .sigint]

/-- The one hangs up while it is waited for, the other one sends a last message. -/
def winds : List Move :=
  [.acceptFails true, loopGo, tells 1 (.ofType .clientTxType), go 1, go 1, hangs 0, go 0, loopGo,
    loopGo, loopGo, loopGo]

end ChatSocket
