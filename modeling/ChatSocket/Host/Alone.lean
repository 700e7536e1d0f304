/-
# `Host.Alone` — a handler that nobody interrupts

The results of `Server.Atomic` and of what is built on it are about handlers that
run from start to end.  The process is made of finer steps.  Here the two meet: a
thread that has received a message, and makes its steps while nobody else makes
any, ends with the registry, the mutex and the messages that the whole handler
leaves at once (`play_rx`).
-/
import ChatSocket.Host.Together

namespace ChatSocket

open Kit Registry

/-- More steps than this a handler does not make. -/
def Point.rank : Point → Nat
  | done => 0
  | undoRequest | tell _ _ | reply _ => 1
  | setName _ | ask _ _ _ | copyRefused _ | ready _ _ _ | tellDeclined _ _ | disconnect _ => 2
  | copyAsker _ _ _ | refuse _ | copyConn _ _ _ | copyDecliner _ _ | tx _ => 3
  | link _ _ _ | copyMine _ _ _ | decline => 4
  | claim _ _ | checkMine _ _ _ => 5
  | connect _ | checkConn _ _ _ => 6
  | pair _ => 7
  | accept => 8

theorem Point.rank_next {p : Point} (hp : p ≠ done) (fd : Int) (r : Registry) :
    (p.next fd r).rank < p.rank := by
  cases p with
  | done => exact absurd rfl hp
  | setName | connect | claim | accept | checkConn | checkMine | decline | tx =>
      simp only [next]
      repeat' split
      all_goals simp [rank]
  | _ => simp [next, rank]

/-! ## The walk of `get_client_list` -/

theorem getClientListLoop_cons (n : ClientNode) (rest : List ClientNode) (list : Buf maxMsgLen)
    (listLen : Nat) :
    getClientListLoop (n :: rest) list listLen =
      match listNode n.data.name.bytes list listLen with
      | none => list
      | some (list', listLen') => getClientListLoop rest list' listLen' := by
  simp only [getClientListLoop, listNode]
  split
  · rfl
  · split <;> rfl

theorem nextAddr_append {pre rest : List ClientNode} {n : ClientNode}
    (hnd : ((pre ++ n :: rest).map ClientNode.addr).Nodup) :
    nextAddr n.addr (pre ++ n :: rest) = rest.head?.map ClientNode.addr := by
  induction pre with
  | nil => rw [List.nil_append, nextAddr, if_pos rfl]
  | cons m pre ih =>
      rw [List.cons_append, List.map_cons, List.nodup_cons] at hnd
      have hne : m.addr ≠ n.addr := fun he => hnd.1 (by rw [he]; simp)
      rw [List.cons_append, nextAddr, if_neg hne]
      exact ih hnd.2

namespace Host

variable {h : Host} {t : Nat} {fd : Int}

theorem goto_goto (t : Nat) (th : Thread) (stage stage' : Stage) :
    (h.goto t th stage).goto t { th with stage := stage } stage' = h.goto t th stage' := by
  simp only [goto, Function.update_idem]

theorem step_walk {t : Nat} {th : Thread} {stage stage' : Stage}
    (hwalk : stage matches .listHead | .listing ..)
    (hq : stage.quiet h.registry h.terminate .none = some stage') :
    hostStep (h.goto t th stage) (go t) = some (h.goto t th stage', []) := by
  simp only [hostStep, go, threads_goto_self, Option.bind_some]
  cases stage with
  | listHead | listing =>
      cases hq
      show some (Host.goto (h.goto t th _) t _ _, []) = _
      rw [goto_goto]
      rfl
  | _ => cases hwalk

/-- The rest of a walk that nobody disturbs. -/
theorem play_listing {pre rest : List ClientNode} {n : ClientNode}
    (hr : h.registry.clientList = pre ++ n :: rest) (hwf : h.registry.Wf) (t : Nat) (th : Thread)
    (list : Buf maxMsgLen) (listLen : Nat) :
    ∃ k, play hostStep (h.goto t th (.listing n.addr list listLen)) (List.replicate k (go t))
      = some (h.goto t th (listReply (getClientListLoop (n :: rest) list listLen))) := by
  have hnd := hwf.addrs
  rw [hr] at hnd
  have hlook : look ClientNode.addr n.addr h.registry.clientList = some n :=
    look_of_mem hwf.addrs (by rw [hr]; simp)
  have hstep : hostStep (h.goto t th (.listing n.addr list listLen)) (go t)
      = some (h.goto t th (visit h.registry n.addr list listLen), []) := step_walk rfl rfl
  have hnext : nextAddr n.addr h.registry.clientList = rest.head?.map ClientNode.addr := by
    rw [hr, nextAddr_append hnd]
  rw [getClientListLoop_cons]
  cases hnode : listNode n.data.name.bytes list listLen with
  | none =>
      have hvisit : visit h.registry n.addr list listLen = listReply list := by
        simp only [visit, hlook, hnode]
      rw [hvisit] at hstep
      exact ⟨1, by rw [List.replicate_one, play, hstep]; rfl⟩
  | some p =>
      have hvisit : visit h.registry n.addr list listLen =
          listOn (rest.head?.map ClientNode.addr) p.1 p.2 := by
        simp only [visit, hlook, hnode, hnext]
      rw [hvisit] at hstep
      cases rest with
      | nil => exact ⟨1, by rw [List.replicate_one, play, hstep]; rfl⟩
      | cons m rest =>
          have hrest : h.registry.clientList = (pre ++ [n]) ++ m :: rest := by
            rw [hr, List.append_assoc, List.singleton_append]
          obtain ⟨k, hk⟩ := play_listing hrest hwf t th p.1 p.2
          exact ⟨k + 1, by rw [List.replicate_succ, play, hstep]; exact hk⟩
termination_by rest.length

/-- A walk that nobody disturbs makes the list that `get_client_list` makes. -/
theorem play_listHead (hwf : h.registry.Wf) (t : Nat) (th : Thread) :
    ∃ k, play hostStep (h.goto t th .listHead) (List.replicate k (go t))
      = some (h.goto t th (listReply (h.registry.getClientList (.zero _)).2)) := by
  have hstep : hostStep (h.goto t th .listHead) (go t)
      = some (h.goto t th (listOn (h.registry.clientList.head?.map ClientNode.addr) (.zero _) 0),
          []) := step_walk rfl rfl
  cases hlist : h.registry.clientList with
  | nil =>
      rw [hlist] at hstep
      exact ⟨1, by rw [List.replicate_one, play, hstep, getClientList, if_pos hlist]; rfl⟩
  | cons n rest =>
      rw [hlist] at hstep
      have hall : h.registry.clientList = [] ++ n :: rest := hlist
      obtain ⟨k, hk⟩ := play_listing hall hwf t th (.zero _) 0
      refine ⟨k + 1, ?_⟩
      rw [List.replicate_succ, play, hstep, getClientList, if_neg (by rw [hlist]; simp), hlist]
      exact hk

/-! ## The handlers -/

/-- A step of a handler that is not kept waiting. -/
theorem step_serving {p : Point} (ht : h.threads t = some ⟨fd, .serving p⟩) (hp : p ≠ .done)
    (hfree : (p.locks && h.server.mutexHeld) = false) :
    hostStep h (go t) = some (h.serve t fd p, p.acts fd h.registry) := by
  have hhandler : Stage.handler? (.serving p) .none = some p :=
    handler?_eq_some_iff.mpr ⟨rfl, hp, rfl⟩
  simp only [hostStep, go, ht, Option.bind_some, threadStep, hhandler, hfree, Bool.false_eq_true,
    if_false]
  rfl

theorem written_nil (h : Host) (c : Nat) : h.written c = h.written c ++ msgsOn h.conns c [] :=
  (List.append_nil _).symm

/-- What is left of a handler runs to its end. -/
theorem play_prog (hfd : fd ≠ invalidFd) {written : Nat → List Msg} {server : Server}
    {conns : Int → Option Nat} {log' : List Act} (p : Point) :
    ∀ {h : Host} {log : List Act}, h.threads t = some ⟨fd, .serving p⟩ → h.conns = conns →
      (∀ c, h.written c = written c ++ msgsOn conns c log) →
      (p.prog fd).run sem (h.server, log) = some ((), server, log') →
      ∃ k h', play hostStep h (List.replicate k (go t)) = some h' ∧ h'.server = server ∧
        h'.threads = Function.update h.threads t (some ⟨fd, .serving .done⟩) ∧
        ∀ c, h'.written c = written c ++ msgsOn conns c log' := by
  intro h log ht hconns hlog hrun
  rcases eq_or_ne p .done with rfl | hp
  · cases hrun
    exact ⟨0, h, rfl, rfl, (Function.update_eq_self_iff.mpr ht.symm).symm, hlog⟩
  · have hdec := Point.rank_next hp fd h.registry
    rw [show h.server = ⟨h.registry, h.server.mutexHeld⟩ from rfl,
      Point.run_step fd h.registry log hfd hp] at hrun
    split at hrun
    · cases hrun
    next hfree =>
    have hlog' : ∀ c, (h.serve t fd p).written c
        = written c ++ msgsOn conns c (log ++ p.acts fd h.registry) := by
      intro c
      rw [written_serve, hlog, hconns, msgsOn_append, List.append_assoc]
    obtain ⟨k, h', hplay, hserver, hthreads, hwritten⟩ := play_prog hfd (p.next fd h.registry)
      threads_serve_self (conns_serve.trans hconns) hlog' hrun
    refine ⟨k + 1, h', ?_, hserver, ?_, hwritten⟩
    · rw [List.replicate_succ, play, step_serving ht hp (by simpa using hfree)]
      exact hplay
    · rw [hthreads]
      exact Function.update_idem _ _ _
termination_by p.rank

/-- The walk and the reply. -/
theorem play_list (hwf : h.registry.Wf) (hfd : fd ≠ invalidFd)
    (ht : h.threads t = some ⟨fd, .listHead⟩) :
    ∃ k h', play hostStep h (List.replicate k (go t)) = some h' ∧ h'.server = h.server ∧
      h'.threads = Function.update h.threads t (some ⟨fd, .serving .done⟩) ∧
      ∀ c, h'.written c = h.written c ++ msgsOn h.conns c [.sent fd
        { Msg.ofType .getClientListType with
          buffer := (h.registry.getClientList (.zero _)).2 }] := by
  have hhead : h.goto t ⟨fd, .listHead⟩ .listHead = h := by
    rw [goto, Function.update_eq_self_iff.mpr ht.symm]
  obtain ⟨k, hwalk⟩ := play_listHead hwf t ⟨fd, .listHead⟩
  rw [hhead] at hwalk
  have hreply : (h.goto t ⟨fd, .listHead⟩
      (listReply (h.registry.getClientList (.zero _)).2)).threads t
        = some ⟨fd, listReply (h.registry.getClientList (.zero _)).2⟩ :=
    threads_goto.trans (if_pos rfl)
  obtain ⟨k', h', hplay, hserver, hthreads, hwritten⟩ := play_prog hfd _ hreply rfl
    (written_nil (h.goto t _ _)) rfl
  refine ⟨k + k', h', ?_, hserver, hthreads.trans (Function.update_idem _ _ _), hwritten⟩
  rw [← List.replicate_append_replicate, play_append, hwalk]
  exact hplay

/-- A thread that has received a message, and is not interrupted, does what the handler of the
message does from start to end. -/
theorem play_rx (hs : h.Sound) {msg : Msg} (ht : h.threads t = some ⟨fd, .rx msg⟩)
    (hfree : h.server.mutexHeld = false) :
    ∃ k h', play hostStep h (List.replicate k (go t)) = some h' ∧
      h'.server = ⟨replay h.registry ((Event.rxMsg fd msg).acts h.registry),
        (Event.rxMsg fd msg).leavesHeld h.registry⟩ ∧
      h'.threads = Function.update h.threads t (some ⟨fd, .serving .done⟩) ∧
      ∀ c, h'.written c
        = h.written c ++ msgsOn h.conns c ((Event.rxMsg fd msg).acts h.registry) := by
  have hfd : fd ≠ invalidFd := by
    refine hs.fd_ne_invalidFd ht ?_
    exact rx_cases (P := (· ≠ .exited)) msg (by simp) (by simp)
  have hserver : h.server = ⟨h.registry, false⟩ := by rw [← hfree]
  rcases eq_or_ne msg.msgType .getClientListType with hlist | hlist
  · rw [Stage.rx, if_pos hlist] at ht
    have hacts : (Event.rxMsg fd msg).acts h.registry = [.sent fd { Msg.ofType .getClientListType
        with buffer := (h.registry.getClientList (.zero _)).2 }] := by
      simp [Event.acts, rxActs, hlist, clientListActs, hfd]
    have hheld : (Event.rxMsg fd msg).leavesHeld h.registry = false := by
      simp [Event.leavesHeld, hlist]
    rw [hacts, hheld]
    exact hserver ▸ play_list hs.wf hfd ht
  · rw [Stage.rx, if_neg hlist] at ht
    have hrun := run_prog h.registry [] (.rxMsg fd msg)
    rw [show (Event.rxMsg fd msg).prog = (Point.start msg).prog fd from
      (Point.prog_start fd msg hlist).symm, ← hserver] at hrun
    exact play_prog hfd (Point.start msg) ht rfl (written_nil h) hrun

end Host

end ChatSocket
