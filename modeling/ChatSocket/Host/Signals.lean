/-
# `Host.Signals` — a client that leaves, and the life of the process

`init_srv` takes SIGINT and leaves SIGPIPE as it is, and `send_msg_to_fd` calls
`send` without MSG_NOSIGNAL.  So a send on a connection that its peer has reset
does not return ERR_MSG_SEND: the process is killed in it.

A `Process` is a `Host` with what its signals do and with the connections that
have been reset.  A peer resets its connection by aborting it, or by being sent
something after it closed; that happens between any two steps of the server, which
does not learn of it.  A reset in the middle of a section is as one before it.

`sendsOn` reads off the state which descriptors a step will send on, and
`sendsBy_eq` says that these are the sends of the step.  `process_survives_iff`: the
process goes on exactly as long as none of them stands for a reset connection.
-/
import ChatSocket.Host.Steps

namespace ChatSocket

open Kit

inductive Signal where
  | sigint
  | sigpipe
  deriving DecidableEq

/-- What a signal does; by default either of the two kills the process. -/
inductive Disposition where
  | byDefault
  | sigIntHandler
  deriving DecidableEq

/-- What `init_srv` does to the signals. -/
def initSrv (d : Signal → Disposition) : Signal → Disposition :=
  Function.update d .sigint .sigIntHandler

structure Process where
  host : Host
  /-- The connections that their peers have reset. -/
  reset : Nat → Bool
  dispositions : Signal → Disposition
  terminated : Bool

inductive ProcMove where
  /-- The server makes a step, or a SIGINT comes. -/
  | server (m : Move)
  /-- The peer resets connection `c`. -/
  | resets (c : Nat)
  deriving DecidableEq

/-! ## What a step will send -/

/-- The descriptors that the next step of a handler sends on. -/
def Point.sendsOn (fd : Int) : Point → List Int
  | ask _ connFd _ | tellDeclined connFd _ | tell connFd _ => [connFd]
  | ready _ _ _ | reply _ => [fd]
  | _ => []

def Stage.sendsOn (r : Registry) (fd : Int) : Stage → Answer → List Int
  | starting, .malloc ok =>
      if r.totalAvailableClients.toNat < maxClient ∧ ok then [] else [fd]
  | greeting, .sent _ => [fd]
  | serving p, .none => p.sendsOn fd
  | closing, .none =>
      let connFd := r.getConnFdByFd fd
      if connFd ≠ invalidFd ∧ r.getClientChattingStatusByFd connFd ≠ .free then [connFd] else []
  | _, _ => []

def LoopPoint.sendsOn : LoopPoint → List Int
  | counted fd count => if count < maxClient then [] else [fd]
  | _ => []

/-- The descriptors that a move sends on. -/
def Host.sendsOn (h : Host) : Move → List Int
  | .thread t answer => (h.threads t).elim [] fun th => th.stage.sendsOn h.registry th.fd answer
  | .acceptLoop _ _ => h.loop.sendsOn
  | .accepts _ | .acceptFails _ | .sigint => []

/-! ## The process -/

namespace Process

def boot : Process where
  host := .boot
  reset := fun _ => false
  dispositions := initSrv fun _ => .byDefault
  terminated := false

/-- The descriptor stands for a connection that its peer has reset. -/
def WasReset (p : Process) (fd : Int) : Prop := ∃ c ∈ p.host.conns fd, p.reset c = true

instance (p : Process) (fd : Int) : Decidable (p.WasReset fd) :=
  inferInstanceAs (Decidable (∃ c ∈ p.host.conns fd, _))

/-- The connection is not there any more. -/
def GoneAway (p : Process) (fd : Int) : Prop := p.host.conns fd = none ∨ p.WasReset fd

/-- What `send_msg_to_fd` returns, if it returns; `ok` is what `send` answers on a connection
that is in order. -/
def sendMsgToFd (p : Process) (ok : Bool) (fd : Int) : Option SrvErr :=
  match p.host.conns fd with
  | none => some .msgSend
  | some c =>
      if p.reset c then
        match p.dispositions .sigpipe with
        | .byDefault => none
        | .sigIntHandler => some .msgSend
      else some (if ok then .succ else .msgSend)

/-- What is sent on a connection that was reset does not get there. -/
def after (p : Process) (h : Host) : Process :=
  { p with host := { h with
      written := fun c => if p.reset c then p.host.written c else h.written c } }

end Process

/-- What `send` answers. -/
def Move.sendOk : Move → Bool
  | .thread _ (.sent ok) => ok
  | _ => true

/-- It answers that the greeting is sent. -/
def Move.greeted : Move → Bool
  | .thread _ (.sent ok) => ok
  | _ => false

def Act.sentOn? : Act → Option Int
  | sent fd _ => some fd
  | wrote _ => none

/-- The descriptors a step has sent on; a greeting that fails leaves nothing among its acts. -/
def Host.sendsBy (h : Host) (acts : List Act) : Move → List Int
  | .thread t (.sent false) => ((h.threads t).map Thread.fd).toList
  | _ => acts.filterMap Act.sentOn?

/-- One step of the process, and the descriptors it sends on with what each send returns.
`send` does not answer the greeting with success where it fails. -/
def processStep (p : Process) : ProcMove → Option (Process × List (Int × Option SrvErr))
  | .resets c =>
      if p.terminated then none
      else some ({ p with reset := Function.update p.reset c true }, [])
  | .server m =>
      if p.terminated then none
      else if m = .sigint ∧ p.dispositions .sigint = .byDefault then
        some ({ p with terminated := true }, [])
      else
        (hostStep p.host m).bind fun q =>
          let sends := (p.host.sendsBy q.2 m).map fun fd => (fd, p.sendMsgToFd m.sendOk fd)
          if sends.any fun s => s.2.isNone then some ({ p with terminated := true }, sends)
          else if m.greeted ∧ sends.any fun s => s.2 ≠ some .succ then none
          else some (p.after q.1, sends)

/-! ## The sends of a step -/

theorem sentOn_point (p : Point) (fd : Int) (r : Registry) :
    (p.acts fd r).filterMap Act.sentOn? = p.sendsOn fd := by
  cases p with
  | setName msg | accept =>
      simp only [Point.acts]
      split <;> rfl
  | _ => rfl

theorem sentOn_registerActs (r : Registry) (fd : Int) (ok : Bool) :
    (registerActs r fd ok).filterMap Act.sentOn? = Stage.starting.sendsOn r fd (.malloc ok) := by
  have hsucc : (r.addClientNodeToQueue fd ok).1 = .succ ↔
      r.totalAvailableClients.toNat < maxClient ∧ ok := by
    unfold Registry.addClientNodeToQueue
    by_cases hfull : r.totalAvailableClients.toNat ≥ maxClient
    · simp [if_pos hfull, Nat.not_lt.mpr hfull]
    · cases ok with
      | false => simp [if_neg hfull]
      | true => simp [if_neg hfull, Nat.lt_of_not_le hfull]
  simp only [registerActs, Stage.sendsOn, hsucc]
  split <;> rfl

theorem sentOn_closedActs (r : Registry) (fd : Int) :
    (closedActs r fd).filterMap Act.sentOn? = Stage.closing.sendsOn r fd .none := by
  simp only [closedActs, Stage.sendsOn]
  split <;> rfl

/-- A thread that only goes on to its next stage has sent at most a greeting that failed. -/
theorem sendsOn_quiet {r : Registry} {terminate : Bool} {stage stage' : Stage} {answer : Answer}
    (fd : Int) (hq : Quiets r terminate stage answer stage') :
    stage.sendsOn r fd answer = if answer = .sent false then [fd] else [] := by
  cases hq <;> rfl

/-- The sends of a step can be told before it. -/
theorem sendsBy_eq {h h' : Host} {m : Move} {acts : List Act}
    (hs : hostStep h m = some (h', acts)) : h.sendsBy acts m = h.sendsOn m := by
  cases stepped_of_hostStep hs with
  | loops hl =>
      cases hl with
      | fails => rfl
      | noMemory hloop hlt | noThread hloop hlt =>
          simp only [Host.sendsOn, hloop, LoopPoint.sendsOn, if_pos hlt]
          rfl
      | tests hloop | counts hloop | allJoined hloop | joinsGone hloop | joins hloop
      | joined hloop | allFreed hloop =>
          simp only [Host.sendsOn, hloop, LoopPoint.sendsOn]
          rfl
  | accepts => rfl
  | spawns hloop hlt =>
      simp only [Host.sendsOn, hloop, LoopPoint.sendsOn, if_pos hlt]
      rfl
  | turnsAway hloop hge =>
      simp only [Host.sendsOn, hloop, LoopPoint.sendsOn, if_neg hge]
      rfl
  | frees hloop =>
      simp only [Host.sendsOn, hloop, LoopPoint.sendsOn]
      rfl
  | terminates => rfl
  | registers ht hst =>
      simp only [Host.sendsOn, ht, hst, Option.elim_some]
      exact sentOn_registerActs _ _ _
  | greets ht hst =>
      simp only [Host.sendsOn, ht, hst, Option.elim_some]
      rfl
  | serves ht hst =>
      simp only [Host.sendsOn, ht, hst, Option.elim_some]
      exact sentOn_point _ _ _
  | closes ht hst =>
      simp only [Host.sendsOn, ht, hst, Option.elim_some]
      exact sentOn_closedActs _ _
  | quiet ht hq =>
      simp only [Host.sendsOn, ht, Option.elim_some, sendsOn_quiet _ hq]
      split
      · next ha =>
          subst ha
          simp [Host.sendsBy, ht]
      · next ha =>
          unfold Host.sendsBy
          split
          · next heq =>
              cases heq
              exact absurd rfl ha
          · rfl

/-! ## What kills the process -/

namespace Process

variable {p p' : Process} {m : Move} {sends : List (Int × Option SrvErr)}

theorem sendMsgToFd_eq_none_iff (ok : Bool) (fd : Int) :
    p.sendMsgToFd ok fd = none ↔ p.dispositions .sigpipe = .byDefault ∧ p.WasReset fd := by
  unfold sendMsgToFd WasReset
  cases p.host.conns fd with
  | none => simp
  | some c =>
      cases hreset : p.reset c with
      | false => simp [hreset]
      | true => cases hpipe : p.dispositions .sigpipe <;> simp [hreset]

/-- On a connection that has gone away `send_msg_to_fd` fails, if it returns. -/
theorem sendMsgToFd_goneAway {ok : Bool} {fd : Int} (hgone : p.GoneAway fd) :
    p.sendMsgToFd ok fd = none ∨ p.sendMsgToFd ok fd = some .msgSend := by
  rcases hgone with hclosed | ⟨c, hc, hreset⟩
  · simp [sendMsgToFd, hclosed]
  · have hc : p.host.conns fd = some c := hc
    simp only [sendMsgToFd, hc, if_pos hreset]
    split
    · exact Or.inl rfl
    · exact Or.inr rfl

/-- No send of the step is on a connection that its peer has reset. -/
def SendsToPresent (p : Process) : ProcMove → Prop
  | .server m => ∀ fd ∈ p.host.sendsOn m, ¬ p.WasReset fd
  | .resets _ => True

instance (p : Process) : ∀ e, Decidable (p.SendsToPresent e)
  | .server m => inferInstanceAs (Decidable (∀ fd ∈ p.host.sendsOn m, _))
  | .resets _ => inferInstanceAs (Decidable True)

/-- Every `send_msg_to_fd` of the step on a connection that has gone away returns ERR_MSG_SEND. -/
def ReportsGone (p : Process) (e : ProcMove) : Prop :=
  ∀ q, processStep p e = some q → ∀ s ∈ q.2, p.GoneAway s.1 → s.2 = some .msgSend

/-- A step of the server sends where the state says; the process is alive after it if every
`send` returned. -/
theorem server_step (hs : processStep p (.server m) = some (p', sends)) :
    sends = (p.host.sendsOn m).map (fun fd => (fd, p.sendMsgToFd m.sendOk fd)) ∧
      p'.dispositions = p.dispositions ∧
      (p.dispositions .sigint ≠ .byDefault →
        (p'.terminated = false ↔ ∀ s ∈ sends, s.2 ≠ none)) := by
  simp only [processStep] at hs
  split at hs
  · cases hs
  next halive =>
  split at hs
  · next hint =>
      cases hs
      rw [hint.1]
      exact ⟨rfl, rfl, fun hne => absurd hint.2 hne⟩
  obtain ⟨q, hq, hs⟩ := Option.bind_eq_some_iff.mp hs
  rw [sendsBy_eq hq] at hs
  split at hs
  · next hkilled =>
      cases hs
      refine ⟨rfl, rfl, fun _ => ?_⟩
      simpa using hkilled
  next hreturned =>
  split at hs
  · cases hs
  cases hs
  refine ⟨rfl, rfl, fun _ => ?_⟩
  simpa [after, halive] using hreturned

theorem reset_step {c : Nat} (hs : processStep p (.resets c) = some (p', sends)) :
    sends = [] ∧ p'.dispositions = p.dispositions ∧ p'.terminated = false := by
  simp only [processStep] at hs
  split at hs
  · cases hs
  · next halive =>
      cases hs
      exact ⟨rfl, rfl, by simpa using halive⟩

theorem dispositions_kept {e : ProcMove} (hs : processStep p e = some (p', sends)) :
    p'.dispositions = p.dispositions := by
  cases e with
  | server m => exact (server_step hs).2.1
  | resets c => exact (reset_step hs).2.1

/-- As long as SIGINT is taken, a step kills the process only by a SIGPIPE. -/
theorem alive_step {e : ProcMove} (hint : p.dispositions .sigint ≠ .byDefault)
    (hs : processStep p e = some (p', sends)) :
    p'.terminated = false ↔ p.dispositions .sigpipe ≠ .byDefault ∨ p.SendsToPresent e := by
  cases e with
  | server m =>
      obtain ⟨rfl, -, halive⟩ := server_step hs
      rw [halive hint, List.forall_mem_map]
      simp only [ne_eq, sendMsgToFd_eq_none_iff, not_and]
      constructor
      · intro h
        by_cases hpipe : p.dispositions .sigpipe = .byDefault
        · exact Or.inr fun fd hfd => h fd hfd hpipe
        · exact Or.inl hpipe
      · rintro (hpipe | hpresent) fd hfd hdefault
        · exact absurd hdefault hpipe
        · exact hpresent fd hfd
  | resets c =>
      obtain ⟨-, -, halive⟩ := reset_step hs
      exact ⟨fun _ => Or.inr trivial, fun _ => halive⟩

theorem SendsToPresent.reportsGone {e : ProcMove} (h : p.SendsToPresent e) :
    p.ReportsGone e := by
  rintro ⟨p', sends⟩ hs s hmem hgone
  cases e with
  | server m =>
      obtain ⟨rfl, -, -⟩ := server_step hs
      obtain ⟨fd, hfd, rfl⟩ := List.mem_map.mp hmem
      rcases sendMsgToFd_goneAway hgone with hkilled | hfails
      · exact absurd ((sendMsgToFd_eq_none_iff _ _).mp hkilled).2 (h fd hfd)
      · exact hfails
  | resets c =>
      obtain ⟨rfl, -, -⟩ := reset_step hs
      cases hmem

/-- If no signal is left as it is by default, the process goes on in every run. -/
theorem survives_of_handled (hall : ∀ sig, p.dispositions sig ≠ .byDefault)
    (halive : p.terminated = false) (ms : List ProcMove) :
    Everywhere processStep (fun q => q.terminated = false) p ms := by
  have hinv : Everywhere processStep
      (fun q : Process => (∀ sig, q.dispositions sig ≠ .byDefault) ∧ q.terminated = false) p ms := by
    refine everywhere_of_inv ?_ ms ⟨hall, halive⟩
    rintro s e s' o ⟨hall, -⟩ hs
    rw [dispositions_kept hs]
    exact ⟨hall, (alive_step (hall .sigint) hs).mpr (Or.inl (hall .sigpipe))⟩
  exact hinv.mono fun _ h => h.2

end Process

/-- The server as `init_srv` sets it up is never killed, and every `send_msg_to_fd` on a connection
that has gone away returns ERR_MSG_SEND, exactly in the runs in which it never sends on a connection
that its peer has reset. -/
theorem process_survives_iff (ms : List ProcMove) :
    (Everywhere processStep (fun p => p.terminated = false) .boot ms ∧
        EveryStep processStep Process.ReportsGone .boot ms) ↔
      EveryStep processStep Process.SendsToPresent .boot ms := by
  have halive : Everywhere processStep (fun p => p.terminated = false) .boot ms ↔
      EveryStep processStep Process.SendsToPresent .boot ms := by
    refine everywhere_iff (I := fun p => p.dispositions = initSrv fun _ => .byDefault) ?_ ?_ ms
      rfl rfl
    · intro p e p' o hp hs
      exact (Process.dispositions_kept hs).trans hp
    · intro p e p' o hp _ hs
      rw [Process.alive_step (by rw [hp]; decide) hs, hp]
      exact or_iff_right fun hne => hne (by decide)
  constructor
  · exact fun h => halive.mp h.1
  · exact fun h => ⟨halive.mpr h, h.mono fun _ _ hp => hp.reportsGone⟩

/-- 4 and 5 are in a chat, and 5 is gone: what 4 wrote last was answered by a reset. -/
@[irreducible] def writesToGone : List ProcMove :=
  (arrives 0 4 ++ arrives 1 5 ++ [tells 0 (asksFor 5)] ++ List.replicate 7 (go 0) ++
    [tells 1 (.ofType .clientAcceptConnection)] ++ List.replicate 9 (go 1) ++
    [tells 0 (.withText .clientTxType (ascii "hi")), go 0, go 0, go 0]).map .server ++
  [.resets 1] ++
  [tells 0 (.withText .clientTxType (ascii "there?")), go 0, go 0].map .server

theorem killed_by_write_to_gone :
    ¬ (Everywhere processStep (fun p => p.terminated = false) .boot writesToGone ∧
        EveryStep processStep Process.ReportsGone .boot writesToGone) := by
  have hkilled : ¬ Everywhere processStep (fun p => p.terminated = false) .boot writesToGone := by
    decide +kernel
  exact fun h => hkilled h.1

end ChatSocket
