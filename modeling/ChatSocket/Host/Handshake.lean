/-
# `Host.Handshake` — what crosses a connection before it is verified

A connection is verified when a whole MSG_CONN_ESTABLISH_ACK has come on it.
Until then nothing should be written to it but the two handshake messages, and
nothing that comes on it should reach a handler.  The second is true of every
run.  The first is not: a node can be found by its name before the handshake is
over, and a descriptor that links and handlers still name can be that of a new
connection.

`handshake_first_everywhere`: without those two, nothing else can overtake the
handshake.  The invariant is that whatever is linked, and whatever a handler has
read as its peer's, stands for a verified connection or for none.
-/
import ChatSocket.Host.Traced

namespace ChatSocket

open Kit Registry

/-- MSG_CONN_ESTABLISH_REQ or MSG_MAX_CLIENT_REACHED. -/
def Msg.Handshake (m : Msg) : Prop :=
  m.msgType = .connEstablishReq ∨ m.msgType = .maxClientReached

/-- Past the handshake. -/
def Stage.Past : Stage → Prop
  | polling | serving _ | listHead | listing _ _ _ | closing => True
  | starting | greeting | awaitingAck | exited => False

/-- Nothing crosses a connection before the handshake. -/
structure Traced.HandshakeFirst (s : Traced) : Prop where
  written : ∀ c, s.acked c = false → ∀ msg ∈ s.host.written c, msg.Handshake
  heard : ∀ c th, s.acked c = false → s.host.threads c = some th → ¬ th.stage.Past
  first : ∀ c msg, (s.host.written c).head? = some msg → msg.Handshake

/-- The steps after which the handshake is still first: `accept` returns no descriptor that a
link or a handler still names, and no request claims a client that is not verified. -/
def Move.SparesUnverified (s : Traced) : Move → Prop
  | .accepts fd => (∀ n ∈ s.host.registry.clientList, n.data.toFd ≠ fd) ∧
      ∀ t < s.host.accepts, ∀ th ∈ s.host.threads t, th.stage.peer? ≠ some fd
  | .thread t .none => ∀ th ∈ s.host.threads t, ∀ name ∈ th.stage.claims?,
      ∀ n ∈ s.host.registry.nodeByName name, ∀ c ∈ s.host.conns n.fd, s.acked c = true
  | _ => True

instance (s : Traced) : ∀ m : Move, Decidable (m.SparesUnverified s)
  | .accepts _ =>
      inferInstanceAs (Decidable (_ ∧ ∀ t < s.host.accepts, ∀ th ∈ s.host.threads t, _))
  | .thread t .none =>
      inferInstanceAs (Decidable (∀ th ∈ s.host.threads t, ∀ name ∈ th.stage.claims?,
        ∀ n ∈ s.host.registry.nodeByName name, ∀ c ∈ s.host.conns n.fd, s.acked c = true))
  | .thread _ (.malloc _) | .thread _ (.sent _) | .thread _ (.recv _) | .thread _ (.poll _)
  | .acceptFails _ | .acceptLoop _ _ | .sigint => inferInstanceAs (Decidable True)

/-! ## Where a peer's descriptor comes from -/

/-- A peer's descriptor is read from the own link, or is that of the client that is claimed. -/
theorem Point.peer_read {p : Point} {fd g : Int} {r : Registry} (hp : p.peer? = none)
    (hg : (p.next fd r).peer? = some g) : g = r.getConnFdByFd fd ∨
      ∃ name ∈ p.claims?, g = r.getClientFdByName name ∧ g ≠ invalidFd := by
  cases p with
  | setName msg =>
      simp only [next] at hg
      split at hg
      · cases hg
      · split at hg <;> cases hg
  | connect name =>
      simp only [next] at hg
      split at hg
      · cases hg
      split at hg
      · cases hg
      split at hg <;> cases hg
  | claim name myName =>
      simp only [next] at hg
      split at hg
      · cases hg
      · next hfound =>
          cases hg
          exact Or.inr ⟨name, rfl, rfl, hfound⟩
  | accept =>
      simp only [next] at hg
      split at hg
      · cases hg
      split at hg
      · cases hg
      split at hg
      · cases hg
      split at hg
      · cases hg
      · exact Or.inl (Option.some.inj hg).symm
  | decline =>
      simp only [next] at hg
      split at hg
      · cases hg
      · exact Or.inl (Option.some.inj hg).symm
  | tx msg =>
      simp only [next] at hg
      split at hg
      · cases hg
      · split at hg
        · exact Or.inl (Option.some.inj hg).symm
        · exact Or.inl (Option.some.inj hg).symm
  | refuse | copyRefused | undoRequest | done | reply => cases hg
  | _ => cases hp

theorem Point.peer_of_links {p : Point} {g : Int} (h : p.links? = some g) : p.peer? = some g := by
  cases p with
  | link | pair => exact h
  | _ => cases h

namespace Traced

variable {s s' : Traced} {m : Move} {acts : List Act} {h' : Host}

/-! ## The invariant -/

/-- No unverified connection is behind the descriptor. -/
def Meets (s : Traced) (g : Int) : Prop := ∀ c, s.host.conns g = some c → s.acked c = true

structure Verified (s : Traced) : Prop where
  past : ∀ c th, s.host.threads c = some th → th.stage.Past → s.acked c = true
  links : ∀ n ∈ s.host.registry.clientList, s.Meets n.data.toFd
  peers : ∀ t th, s.host.threads t = some th → ∀ g, th.stage.peer? = some g → s.Meets g
  written : ∀ c, s.acked c = false → ∀ msg ∈ s.host.written c, msg.Handshake
  first : ∀ c msg, (s.host.written c).head? = some msg → msg.Handshake
  greeted : ∀ c, (s.acked c = true ∨ ∃ th, s.host.threads c = some th ∧ th.stage = .awaitingAck) →
    s.host.written c ≠ []

theorem verified_boot : boot.Verified where
  past := fun _ _ ht => nomatch ht
  links := fun _ hn => absurd hn List.not_mem_nil
  peers := fun _ _ ht => nomatch ht
  written := fun _ _ _ hm => nomatch hm
  first := fun _ _ hm => nomatch hm
  greeted := fun _ hc => by
    rcases hc with hc | ⟨th, ht, -⟩
    · cases hc
    · cases ht

theorem Verified.handshakeFirst (hv : s.Verified) : s.HandshakeFirst where
  written := hv.written
  heard := fun c th hc ht hp => by
    rw [hv.past c th ht hp] at hc
    cases hc
  first := hv.first

/-- A connection that is verified stays so. -/
theorem acked_note {c : Nat} (hc : s.acked c = true) : (s.note h' m).acked c = true := by
  unfold note
  split
  · exact hc
  · show (if _ then _ else _ : Nat → Bool) c = true
    split
    · rw [Function.update_apply]
      split
      · rfl
      · exact hc
    · exact hc
  · exact hc

/-- A connection gets verified by the MSG_CONN_ESTABLISH_ACK its thread receives. -/
theorem acked_of_note {c : Nat} (hc : (s.note h' m).acked c = true) :
    s.acked c = true ∨ ∃ r, m = .thread c (.recv r) ∧ r.Acks := by
  unfold note at hc
  split at hc
  · exact Or.inl hc
  · replace hc : (if _ then _ else _ : Nat → Bool) c = true := hc
    split at hc
    · next hacks =>
        rw [Function.update_apply] at hc
        split at hc
        · next he => exact Or.inr ⟨_, by rw [he], hacks⟩
        · exact Or.inl hc
    · exact Or.inl hc
  · exact Or.inl hc

theorem meets_invalidFd (hs : s.host.Sound) : s.Meets invalidFd := by
  intro c hc
  exact absurd (hs.opened _ _ hc).2.1 (by decide)

theorem meets_note (hstep : Stepped s.host m h' acts) {g : Int} (hg : s.Meets g)
    (hm : m ≠ .accepts g) : (s.note h' m).Meets g := by
  intro c hc
  rw [host_note] at hc
  rcases Host.conns_step hstep hc with hc | ⟨he, -⟩
  · exact acked_note (hg c hc)
  · exact absurd he hm

theorem Verified.meets_connFd (hv : s.Verified) (hs : s.host.Sound) (fd : Int) :
    s.Meets (s.host.registry.getConnFdByFd fd) := by
  rw [hs.wf.connFd_eq]
  cases hn : s.host.registry.node fd with
  | none => exact meets_invalidFd hs
  | some n => exact hv.links n (look_mem hn)

/-- The client of a thread past the handshake is verified. -/
theorem Verified.meets_own (hv : s.Verified) (hs : s.host.Sound) {t : Nat} {th : Thread}
    (ht : s.host.threads t = some th) (hp : th.stage.Past) : s.Meets th.fd := by
  intro c hc
  have hex : th.stage ≠ .exited := by
    intro he
    rw [he] at hp
    exact hp
  rw [hs.holds t th ht hex] at hc
  cases hc
  exact hv.past t th ht hp

/-- What is sent is of the handshake, or goes to no unverified connection. -/
theorem Verified.sent (hv : s.Verified) (hs : s.host.Sound) (hstep : Stepped s.host m h' acts)
    {g : Int} {msg : Msg} (hmem : .sent g msg ∈ acts) : msg.Handshake ∨ s.Meets g := by
  cases hstep with
  | loops | accepts | spawns | frees | terminates | quiet => cases hmem
  | turnsAway =>
      obtain ⟨-, rfl⟩ := by simpa using hmem
      exact Or.inl (Or.inr rfl)
  | registers =>
      rw [registerActs] at hmem
      split at hmem
      · simp at hmem
      · obtain ⟨-, rfl⟩ := by simpa using hmem
        exact Or.inl (Or.inr rfl)
  | greets =>
      obtain ⟨-, rfl⟩ := by simpa using hmem
      exact Or.inl (Or.inl rfl)
  | serves ht hst =>
      right
      rcases Point.mem_sent hmem with rfl | hpeer
      · exact hv.meets_own hs ht (by rw [hst]; trivial)
      · exact hv.peers _ _ ht g (by rw [hst]; exact hpeer)
  | closes ht hst =>
      rw [closedActs] at hmem
      rcases List.mem_append.mp hmem with hmem | hmem
      · split at hmem
        · obtain ⟨rfl, -⟩ := by simpa using hmem
          exact Or.inr (hv.meets_connFd hs _)
        · cases hmem
      · simp at hmem

/-! ## The steps keep it -/

theorem past_note (hv : s.Verified) (hstep : Stepped s.host m h' acts) :
    ∀ c th, h'.threads c = some th → th.stage.Past → (s.note h' m).acked c = true := by
  refine Host.forall_threads hstep (fun _ _ _ hp => hp.elim) ?_ fun c th _ ht hp =>
    acked_note (hv.past c th ht hp)
  rintro c answer th th' rfl ht ht' hp
  cases Host.goes_of_step hstep ht ht' with
  | registers hst => rcases hst with rfl | rfl <;> exact hp.elim
  | greets | closes => exact hp.elim
  | serves => exact acked_note (hv.past c _ ht trivial)
  | quiet hq =>
      have hbefore := hv.past c _ ht
      cases hq with
      | notGreeted | notAcked | stops => exact hp.elim
      | acked hacks =>
          show (if _ then _ else _ : Nat → Bool) c = true
          rw [if_pos hacks]
          exact Function.update_self _ _ _
      | polls | hears | hangsUp | again | lists | visits => exact acked_note (hbefore trivial)

theorem links_note (hv : s.Verified) (hs : s.host.Sound) (hs' : h'.Sound)
    (hstep : Stepped s.host m h' acts) (hm : m.SparesUnverified s) :
    ∀ n ∈ h'.registry.clientList, (s.note h' m).Meets n.data.toFd := by
  have hcut : (s.note h' m).Meets invalidFd := meets_invalidFd (by rw [host_note]; exact hs')
  refine Host.links_step (Q := fun _ f => (s.note h' m).Meets f) hs hstep (fun n hn => ?_)
    (fun _ _ => hcut) ?_
  · refine meets_note hstep (hv.links n hn) ?_
    rintro rfl
    exact hm.1 n hn rfl
  · rintro t th p g rfl ht hst hg
    have hpeer : th.stage.peer? = some g := by
      rw [hst]
      exact Point.peer_of_links hg
    exact ⟨meets_note hstep (hv.peers t th ht g hpeer) (by simp),
      meets_note hstep (hv.meets_own hs ht (by rw [hst]; trivial)) (by simp)⟩

theorem peers_note (hv : s.Verified) (hs : s.host.Sound) (hstep : Stepped s.host m h' acts)
    (hm : m.SparesUnverified s) :
    ∀ t th, h'.threads t = some th → ∀ g, th.stage.peer? = some g → (s.note h' m).Meets g := by
  refine Host.forall_threads hstep (fun _ _ _ _ hg => nomatch hg) ?_ fun t th hmt ht g hg => ?_
  · rintro t answer th th' rfl ht ht' g hg
    cases Host.goes_of_step hstep ht ht' with
    | registers hst => rcases hst with rfl | rfl <;> cases hg
    | greets | closes => cases hg
    | @serves fd p =>
        replace hg : (p.next fd s.host.registry).peer? = some g := hg
        refine meets_note hstep ?_ (by simp)
        rcases Option.eq_none_or_eq_some p.peer? with hnone | ⟨g₀, hg₀⟩
        · rcases Point.peer_read hnone hg with rfl | ⟨name, hname, rfl, hfound⟩
          · exact hv.meets_connFd hs fd
          · -- the client that is claimed is verified
            intro c hc
            rw [getClientFdByName_eq] at hfound hc
            cases hn : s.host.registry.nodeByName name with
            | none =>
                rw [hn] at hfound
                exact absurd rfl hfound
            | some n =>
                rw [hn] at hc
                exact hm _ ht name hname n hn c hc
        · rcases Point.peer_next fd s.host.registry hg₀ with hnone | hsome
          · rw [hnone] at hg
            cases hg
          · rw [hsome] at hg
            cases hg
            exact hv.peers t _ ht g hg₀
    | quiet hq =>
        rw [show Stage.peer? _ = none from peer_quiets hq] at hg
        cases hg
  · refine meets_note hstep (hv.peers t th ht g hg) ?_
    rintro rfl
    exact hm.2 t (hs.numbered t th ht) th ht hg

theorem written_note (hv : s.Verified) (hs : s.host.Sound) (hstep : Stepped s.host m h' acts)
    {c : Nat} (hc : s.acked c = false) : ∀ msg ∈ h'.written c, msg.Handshake := by
  rw [Host.written_step hstep c]
  refine List.forall_mem_append.mpr ⟨hv.written c hc, fun msg hmsg => ?_⟩
  obtain ⟨g, hmem, hg⟩ := Host.mem_msgsOn.mp hmsg
  rcases hv.sent hs hstep hmem with hh | hmeets
  · exact hh
  · rw [hmeets c hg] at hc
    cases hc

theorem awaitingAck_of_quiets {r : Registry} {terminate : Bool} {stage stage' : Stage}
    {answer : Answer} (hq : Quiets r terminate stage answer stage') : stage' ≠ .awaitingAck := by
  refine after_quiets (P := (· ≠ .awaitingAck)) hq ?_ ?_ ?_ ?_ ?_ ?_ ?_ ?_ <;> simp

theorem first_note (hv : s.Verified) (hs : s.host.Sound) (hstep : Stepped s.host m h' acts)
    (c : Nat) {msg : Msg} (hmsg : (h'.written c).head? = some msg) : msg.Handshake := by
  rw [Host.written_step hstep c] at hmsg
  cases hw : s.host.written c with
  | cons msg₀ rest =>
      rw [hw] at hmsg
      cases hmsg
      exact hv.first c _ (by rw [hw]; rfl)
  | nil =>
      -- nothing is written yet, so the connection is not verified
      rw [hw, List.nil_append] at hmsg
      obtain ⟨g, hmem, hg⟩ := Host.mem_msgsOn.mp (List.mem_of_mem_head? hmsg)
      rcases hv.sent hs hstep hmem with hh | hmeets
      · exact hh
      · exact absurd hw (hv.greeted c (Or.inl (hmeets c hg)))

theorem greeted_note (hv : s.Verified) (hs : s.host.Sound) (hstep : Stepped s.host m h' acts)
    {c : Nat} (hc : (s.note h' m).acked c = true ∨
      ∃ th, h'.threads c = some th ∧ th.stage = .awaitingAck) : h'.written c ≠ [] := by
  rw [Host.written_step hstep c]
  have hbefore : (s.acked c = true ∨ ∃ th, s.host.threads c = some th ∧ th.stage = .awaitingAck) →
      s.host.written c ++ Host.msgsOn s.host.conns c acts ≠ [] :=
    fun hb => List.append_ne_nil_of_left_ne_nil (hv.greeted c hb) _
  rcases hc with hc | ⟨th, ht, hst⟩
  · rcases acked_of_note hc with hc | ⟨r, rfl, -⟩
    · exact hbefore (Or.inl hc)
    · cases hstep with
      | loops hl => cases hl
      | @quiet _ th _ _ hth hq =>
          refine hbefore (Or.inr ⟨th, hth, ?_⟩)
          obtain ⟨fd, stage⟩ := th
          cases hq <;> rfl
  · revert ht hst
    refine Host.forall_threads hstep
      (P := fun c th => th.stage = .awaitingAck →
        s.host.written c ++ Host.msgsOn s.host.conns c acts ≠ [])
      (fun _ _ _ hst => nomatch hst) ?_ (fun t th _ ht hst => ?_) c th
    · rintro t answer th th' rfl ht ht' hst
      cases Host.goes_of_step hstep ht ht' with
      | registers hst' => rcases hst' with rfl | rfl <;> cases hst
      | greets =>
          have hc := hs.holds _ _ ht (by simp)
          cases hstep with
          | loops hl => cases hl
          | greets hth =>
              rw [ht] at hth
              cases hth
              have hmem : connEstablishReq ∈
                  Host.msgsOn s.host.conns t [.sent _ connEstablishReq] :=
                Host.mem_msgsOn.mpr ⟨_, List.mem_singleton_self _, hc⟩
              exact List.append_ne_nil_of_right_ne_nil _ (List.ne_nil_of_mem hmem)
          | quiet hth hq =>
              rw [ht] at hth
              cases hth
              cases hq
      | serves | closes => cases hst
      | quiet hq => exact absurd hst (awaitingAck_of_quiets hq)
    · exact List.append_ne_nil_of_left_ne_nil (hv.greeted t (Or.inr ⟨th, ht, hst⟩)) _

theorem Verified.step (hv : s.Verified) (hs : s.host.Sound)
    (hstep : tracedStep s m = some (s', acts)) (hm : m.SparesUnverified s) : s'.Verified := by
  have hs' := sound_step s m s' acts hs hstep
  obtain ⟨h', hh, rfl⟩ := tracedStep_eq_some hstep
  have hstep := stepped_of_hostStep hh
  rw [host_note] at hs'
  refine ⟨?_, ?_, ?_, ?_, ?_, ?_⟩ <;> rw [host_note]
  · exact past_note hv hstep
  · exact links_note hv hs hs' hstep hm
  · exact peers_note hv hs hstep hm
  · intro c hc
    refine written_note hv hs hstep ?_
    rw [← Bool.not_eq_true]
    intro hc'
    rw [acked_note hc'] at hc
    cases hc
  · exact fun c msg => first_note hv hs hstep c
  · exact fun c hc => greeted_note hv hs hstep hc

end Traced

/-- In every run whose steps spare unverified connections, the handshake is first. -/
theorem handshake_first_everywhere (ms : List Move)
    (hms : EveryStep tracedStep (fun s m => m.SparesUnverified s) .boot ms) :
    Everywhere tracedStep Traced.HandshakeFirst .boot ms :=
  Everywhere.mono (fun _ hv => hv.handshakeFirst)
    (everywhere_of_everyStep Traced.sound_step
      (fun _ _ _ _ hs hv hstep hm => Traced.Verified.step hv hs hstep hm) ms
      Host.sound_boot Traced.verified_boot hms)

/-- Two clients meet after their handshakes, and talk. -/
theorem handshake_first_in_conversation :
    Everywhere tracedStep Traced.HandshakeFirst .boot
      (arrives 0 4 ++ arrives 1 5 ++ [tells 0 (asksFor 5)] ++ List.replicate 7 (go 0) ++
        [tells 1 (.ofType .clientAcceptConnection)] ++ List.replicate 9 (go 1) ++
        [tells 0 (.withText .clientTxType (ascii "hello")), go 0, go 0]) :=
  handshake_first_everywhere _ (by decide +kernel)

/-- A client is asked for a chat before the server has greeted it. -/
theorem asked_before_handshake :
    ¬ ∀ ms, Everywhere tracedStep Traced.HandshakeFirst .boot ms := by
  intro h
  have hlast := (h (arrives 0 4 ++ calls 5 ++ [.thread 1 (.malloc true), tells 0 (asksFor 5)] ++
    List.replicate 5 (go 0))).at_play (play_final (by decide +kernel))
  have hfirst := hlast.first 1 (.withText .connectionReqRx (Registry.tempClientName 4).str)
    (by decide +kernel)
  revert hfirst
  rintro (hfirst | hfirst) <;> cases hfirst

end ChatSocket
