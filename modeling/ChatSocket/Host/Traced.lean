/-
# `Host.Traced` — what a bystander writes down of a run

A descriptor is a number, and the kernel hands it out again once it is closed.
`Traced` is the process with what the code does not keep: which connection a
peer's descriptor stood for when a handler read it (`meant`), on which
connections a MSG_CONN_ESTABLISH_ACK has come (`acked`), and which thread was the
last to claim a node for a request (`claimant`).  Nothing of it decides anything:
a traced run is a run of the process (`play_host`).

The first result made for it is about the messages that handlers send to a peer
after they have released the mutex.  They reach the connection that was meant as
long as no descriptor is closed, or handed out again, that a handler has read as
its peer's and still uses (`peers_as_meant_everywhere`).
-/
import ChatSocket.Host.Effects

namespace ChatSocket

open Kit Registry

/-- The peer's descriptor, from the section that reads it to the last use. -/
def Point.peer? : Point → Option Int
  | link _ _ connFd | copyAsker _ _ connFd | ask _ connFd _ | pair connFd | checkConn connFd _ _
  | checkMine connFd _ _ | copyMine connFd _ _ | copyConn connFd _ _ | ready connFd _ _
  | copyDecliner connFd _ | tellDeclined connFd _ | disconnect connFd | tell connFd _ => some connFd
  | _ => none

/-- The peer that is sent a message next. -/
def Point.sendsTo? : Point → Option Int
  | ask _ connFd _ | tellDeclined connFd _ | tell connFd _ => some connFd
  | _ => none

/-- The name under which the next step claims a client. -/
def Point.claims? : Point → Option (List UInt8)
  | claim name _ => some name
  | _ => none

def Stage.peer? : Stage → Option Int
  | serving p => p.peer?
  | _ => none

def Stage.sendsTo? : Stage → Option Int
  | serving p => p.sendsTo?
  | _ => none

def Stage.claims? : Stage → Option (List UInt8)
  | serving p => p.claims?
  | _ => none

structure Traced where
  host : Host
  /-- By thread: what the peer's descriptor stood for when it was read. -/
  meant : Nat → Option Nat
  /-- By connection. -/
  acked : Nat → Bool
  /-- By the address of a node. -/
  claimant : Nat → Option Nat

namespace Traced

def boot : Traced := ⟨.boot, fun _ => none, fun _ => false, fun _ => none⟩

/-- What is meant by the peer's descriptor after a step of the thread: it is read in the step
before which there is none. -/
def noteMeant (s : Traced) (t : Nat) : Option Nat :=
  match s.host.threads t with
  | some ⟨fd, .serving p⟩ =>
      if p.peer? = none then (p.next fd s.host.registry).peer?.bind s.host.conns
      else s.meant t
  | _ => s.meant t

def noteClaimant (s : Traced) (t : Nat) : Nat → Option Nat :=
  match s.host.threads t with
  | some ⟨_, .serving (.claim name _)⟩ =>
      match s.host.registry.nodeByName name with
      | some n => Function.update s.claimant n.addr (some t)
      | none => s.claimant
  | _ => s.claimant

/-- The next step of the process is written down. -/
def note (s : Traced) (h' : Host) : Move → Traced
  | .thread t .none => ⟨h', Function.update s.meant t (s.noteMeant t), s.acked, s.noteClaimant t⟩
  | .thread t (.recv c) =>
      ⟨h', s.meant, if c.Acks then Function.update s.acked t true else s.acked, s.claimant⟩
  | _ => ⟨h', s.meant, s.acked, s.claimant⟩

end Traced

def tracedStep (s : Traced) (m : Move) : Option (Traced × List Act) :=
  (hostStep s.host m).map fun q => (s.note q.1 m, q.2)

namespace Traced

variable {s s' : Traced} {m : Move} {acts : List Act}

@[simp] theorem host_note (s : Traced) (h' : Host) (m : Move) : (s.note h' m).host = h' := by
  unfold note
  split <;> rfl

theorem tracedStep_eq_some (hstep : tracedStep s m = some (s', acts)) :
    ∃ h', hostStep s.host m = some (h', acts) ∧ s' = s.note h' m := by
  obtain ⟨⟨h', acts'⟩, hs, he⟩ := Option.map_eq_some_iff.mp hstep
  cases he
  exact ⟨h', hs, rfl⟩

/-- A traced run is a run of the process. -/
theorem play_host (ms : List Move) (s : Traced) :
    (play tracedStep s ms).map Traced.host = play hostStep s.host ms := by
  induction ms generalizing s with
  | nil => rfl
  | cons m ms ih =>
      simp only [play, tracedStep]
      cases hostStep s.host m with
      | none => rfl
      | some q =>
          have hrest := ih (s.note q.1 m)
          rw [host_note] at hrest
          exact hrest

theorem sound_step (s : Traced) (m : Move) (s' : Traced) (acts : List Act) (hs : s.host.Sound)
    (hstep : tracedStep s m = some (s', acts)) : s'.host.Sound := by
  obtain ⟨h', hh, rfl⟩ := tracedStep_eq_some hstep
  rw [host_note]
  exact hs.step hh

/-- What is noted of a thread's peer is noted when the thread moves. -/
theorem meant_note_other {h' : Host} {t : Nat} (hm : ∀ answer, m ≠ .thread t answer) :
    (s.note h' m).meant t = s.meant t := by
  cases m with
  | thread t' answer =>
      have htt : t ≠ t' := by
        rintro rfl
        exact hm answer rfl
      cases answer with
      | none => exact Function.update_of_ne htt _ _
      | _ => rfl
  | _ => rfl

theorem meant_note_serving {h' : Host} {t : Nat} {fd : Int} {p : Point}
    (ht : s.host.threads t = some ⟨fd, .serving p⟩) :
    (s.note h' (.thread t .none)).meant t =
      if p.peer? = none then (p.next fd s.host.registry).peer?.bind s.host.conns
      else s.meant t := by
  refine (Function.update_self _ _ _).trans ?_
  rw [noteMeant, ht]

end Traced

/-! ## The peer that was meant -/

/-- A message to a peer goes to the connection the descriptor stood for when it was read. -/
def Move.SendsAsMeant (s : Traced) : Move → Prop
  | .thread t _ => ∀ th ∈ s.host.threads t, ∀ g ∈ th.stage.sendsTo?, s.host.conns g = s.meant t
  | _ => True

instance (s : Traced) : ∀ m : Move, Decidable (m.SendsAsMeant s)
  | .thread t _ => inferInstanceAs (Decidable (∀ th ∈ s.host.threads t, _))
  | .acceptLoop _ _ | .accepts _ | .acceptFails _ | .sigint => inferInstanceAs (Decidable True)

/-- Every descriptor that a handler has read as its peer's stands for what it stood for then. -/
def Traced.PeersAsMeant (s : Traced) : Prop :=
  ∀ t th, s.host.threads t = some th → ∀ g, th.stage.peer? = some g →
    s.host.conns g = s.meant t

/-- The steps that spare the peers of handlers: `accept` returns no descriptor, and no thread
closes its own, that some handler has read as its peer's. -/
def Move.SparesPeers (h : Host) : Move → Prop
  | .accepts fd => ∀ t th, h.threads t = some th → th.stage.peer? ≠ some fd
  | .thread t _ => ∀ th, h.threads t = some th → th.stage = .closing →
      (h.registry.node th.fd).isSome → ∀ t' th', h.threads t' = some th' →
        th'.stage.peer? ≠ some th.fd
  | _ => True

theorem Point.peer_of_sendsTo {p : Point} {g : Int} (h : p.sendsTo? = some g) :
    p.peer? = some g := by
  cases p with
  | ask | tellDeclined | tell => exact h
  | _ => cases h

/-- A handler has one peer. -/
theorem Point.peer_next {p : Point} {g : Int} (fd : Int) (r : Registry) (h : p.peer? = some g) :
    (p.next fd r).peer? = none ∨ (p.next fd r).peer? = some g := by
  cases p with
  | checkConn | checkMine =>
      simp only [next]
      split
      · exact Or.inl rfl
      · exact Or.inr h
  | ask | tellDeclined | tell => exact Or.inl rfl
  | link | copyAsker | pair | copyMine | copyConn | ready | copyDecliner | disconnect =>
      exact Or.inr h
  | _ => cases h

/-- A handler sends to its own client or to its peer. -/
theorem Point.mem_sent {p : Point} {fd g : Int} {r : Registry} {msg : Msg}
    (h : .sent g msg ∈ p.acts fd r) : g = fd ∨ p.peer? = some g := by
  cases p with
  | setName m =>
      rw [acts] at h
      split at h <;> simp at h
  | accept =>
      rw [acts] at h
      split at h <;> simp at h
  | ready | reply =>
      obtain ⟨rfl, -⟩ := by simpa [acts] using h
      exact Or.inl rfl
  | ask | tellDeclined | tell =>
      obtain ⟨rfl, -⟩ := by simpa [acts] using h
      exact Or.inr rfl
  | _ => simp [acts] at h

theorem Point.peer_start (msg : Msg) : (start msg).peer? = none := by
  unfold start
  split <;> rfl

/-- A quiet step reads no peer's descriptor. -/
theorem peer_quiets {r : Registry} {terminate : Bool} {stage stage' : Stage} {answer : Answer}
    (hq : Quiets r terminate stage answer stage') : stage'.peer? = none :=
  after_quiets (P := fun s => s.peer? = none) hq rfl rfl rfl rfl (fun _ _ _ => rfl) rfl
    (fun _ => rfl) Point.peer_start

namespace Traced

variable {s s' : Traced} {m : Move} {acts : List Act}

/-- A peer's descriptor that a step spares stands for what it stood for. -/
theorem conns_spared {h h' : Host} (hstep : Stepped h m h' acts) (hm : m.SparesPeers h) {t : Nat}
    {th : Thread} (ht : h.threads t = some th) {g : Int} (hg : th.stage.peer? = some g) :
    h'.conns g = h.conns g := by
  cases hc : h.conns g with
  | none =>
      rw [Option.eq_none_iff_forall_ne_some]
      intro c hc'
      rcases Host.conns_step hstep hc' with hc₀ | ⟨rfl, -, -⟩
      · rw [hc] at hc₀
        cases hc₀
      · exact hm t th ht hg
  | some c =>
      refine Host.conns_kept hstep hc ?_
      rintro ⟨t', th', rfl, ht', hst, rfl⟩
      rw [← Option.not_isSome_iff_eq_none]
      exact fun hn => hm th' ht' hst hn t th ht hg

theorem peersAsMeant_step (hp : s.PeersAsMeant)
    (hstep : tracedStep s m = some (s', acts)) (hm : m.SparesPeers s.host) : s'.PeersAsMeant := by
  obtain ⟨h', hh, rfl⟩ := tracedStep_eq_some hstep
  have hstep := stepped_of_hostStep hh
  rw [PeersAsMeant, host_note]
  refine Host.forall_threads hstep (fun _ _ _ _ hg => nomatch hg) ?_ fun t th hmt ht g hg => ?_
  · rintro t answer th th' rfl ht ht' g hg
    cases Host.goes_of_step hstep ht ht' with
    | registers hst => rcases hst with rfl | rfl <;> cases hg
    | greets | closes => cases hg
    | @serves fd p hdone =>
        replace hg : (p.next fd s.host.registry).peer? = some g := hg
        obtain ⟨-, -, rfl⟩ := Host.serving_step hstep ht hdone
        rw [meant_note_serving ht, Host.conns_goto,
          Host.conns_perform_of_inner (Point.inner_acts _ _ _)]
        split
        · rw [hg, Option.bind_some]
        · next hpeer =>
            obtain ⟨g₀, hg₀⟩ := Option.ne_none_iff_exists'.mp hpeer
            rcases Point.peer_next fd s.host.registry hg₀ with hnone | hsome
            · rw [hnone] at hg
              cases hg
            · rw [hsome] at hg
              cases hg
              exact hp t _ ht g hg₀
    | quiet hq =>
        rw [show Stage.peer? _ = none from peer_quiets hq] at hg
        cases hg
  · rw [meant_note_other hmt, conns_spared hstep hm ht hg]
    exact hp t th ht g hg

/-- Every peer's descriptor stands for the peer that was meant exactly by the steps that spare
the peers of handlers. -/
theorem peersAsMeant_step_iff (hs : s.host.Sound) (hp : s.PeersAsMeant)
    (hstep : tracedStep s m = some (s', acts)) : s'.PeersAsMeant ↔ m.SparesPeers s.host := by
  refine ⟨fun hp' => ?_, peersAsMeant_step hp hstep⟩
  obtain ⟨h', hh, rfl⟩ := tracedStep_eq_some hstep
  have hstep := stepped_of_hostStep hh
  rw [PeersAsMeant, host_note] at hp'
  cases hstep with
  | @accepts fd _ _ _ hfree =>
      intro t th ht hg
      have hother : ∀ answer, Move.accepts fd ≠ .thread t answer := fun _ he => nomatch he
      have hnew := hp' t th ht _ hg
      have hold := hp t th ht _ hg
      rw [meant_note_other hother, ← hold, hfree] at hnew
      replace hnew : Function.update s.host.conns _ _ _ = none := hnew
      rw [Function.update_self] at hnew
      cases hnew
  | @closes t th ht hst hf =>
      intro th₀ ht₀ _ hn t' th' ht' hg
      rw [ht] at ht₀
      cases ht₀
      have htt : ∀ answer, Move.thread t .none ≠ .thread t' answer := by
        intro answer he
        cases he
        rw [ht] at ht'
        cases ht'
        rw [hst] at hg
        cases hg
      have hnew := hp' t' th' (Host.threads_kept hs (.closes ht hst hf) ht' htt) _ hg
      have hold := hp t' th' ht' _ hg
      rw [meant_note_other htt, ← hold, hs.holds t th ht (by simp [hst]),
        Host.conns_of_closes (.closes ht hst hf) ⟨t, th, rfl, ht, hst, rfl⟩ hn] at hnew
      cases hnew
  | registers ht hst | greets ht hst | serves ht hst =>
      intro th' ht' hcl
      rw [ht] at ht'
      cases ht'
      rw [hst] at hcl
      cases hcl
  | quiet ht hq =>
      intro th' ht' hcl
      rw [ht] at ht'
      cases ht'
      rw [hcl] at hq
      cases hq
  | loops hl => cases hl <;> trivial
  | spawns | turnsAway | frees | terminates => trivial

theorem PeersAsMeant.sends (hp : s.PeersAsMeant) (m : Move) : m.SendsAsMeant s := by
  cases m with
  | thread t answer =>
      intro th ht g hg
      refine hp t th ht g ?_
      cases hst : th.stage with
      | serving p =>
          rw [hst] at hg
          exact Point.peer_of_sendsTo hg
      | _ =>
          rw [hst] at hg
          cases hg
  | _ => trivial

end Traced

/-- Over whole runs, every descriptor that a handler has read as its peer's stands for the peer
that was meant exactly as long as every step spares the peers of handlers; and then every
message to a peer goes to the connection that was meant. -/
theorem peers_as_meant_everywhere (ms : List Move) :
    (Everywhere tracedStep Traced.PeersAsMeant .boot ms ↔
      EveryStep tracedStep (fun s m => m.SparesPeers s.host) .boot ms) ∧
    (EveryStep tracedStep (fun s m => m.SparesPeers s.host) .boot ms →
      EveryStep tracedStep (fun s m => m.SendsAsMeant s) .boot ms) := by
  have hiff : Everywhere tracedStep Traced.PeersAsMeant .boot ms ↔
      EveryStep tracedStep (fun s m => m.SparesPeers s.host) .boot ms :=
    everywhere_iff Traced.sound_step
      (fun _ _ _ _ hs hp hstep => Traced.peersAsMeant_step_iff hs hp hstep) ms Host.sound_boot
      fun _ _ ht => nomatch ht
  exact ⟨hiff, fun hm => (hiff.mpr hm).everyStep fun _ m hp => hp.sends m⟩

/-- The partner hangs up, a stranger is given its descriptor, and a text reaches the stranger. -/
theorem text_sent_to_stranger :
    ¬ ∀ ms, EveryStep tracedStep (fun s m => m.SendsAsMeant s) .boot ms := by
  intro h
  have hrun := h (arrives 0 4 ++ arrives 1 5 ++
    [tells 0 (asksFor 5)] ++ List.replicate 7 (go 0) ++
    [tells 1 (.ofType .clientAcceptConnection)] ++ List.replicate 9 (go 1) ++
    [tells 0 (.withText .clientTxType (ascii "hello")), go 0, hangs 1, go 1] ++ calls 5 ++ [go 0])
  revert hrun
  decide +kernel

end ChatSocket
