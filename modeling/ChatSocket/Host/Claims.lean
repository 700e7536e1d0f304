/-
# `Host.Claims` — a client is claimed only while it is free

`handle_chat_connection_request` has three sections: one finds the client of a
name and reads its status, one sets the client of that name to
CHAT_STATUS_REQ_PENDING, and one links it to the requester.  Nothing holds the
client in between.

`requests_hold_everywhere`: whoever is found free is free when it is claimed, and
has been claimed by nobody else when it is linked, as long as every step spares
the requests that are under way.  That is the weakest condition under which these
requests can go on at any time.
-/
import ChatSocket.Host.Traced

namespace ChatSocket

open Kit Registry

/-- The client that the next step links to the thread's own. -/
def Point.relinks? : Point → Option Int
  | link _ _ connFd => some connFd
  | _ => none

def Stage.relinks? : Stage → Option Int
  | serving p => p.relinks?
  | _ => none

/-- The node under a descriptor, if there is one, was last claimed by the thread. -/
def Traced.ClaimedBy (s : Traced) (t : Nat) (g : Int) : Prop :=
  ∀ n ∈ s.host.registry.node g, s.claimant n.addr = some t

instance (s : Traced) (t : Nat) (g : Int) : Decidable (s.ClaimedBy t g) :=
  inferInstanceAs (Decidable (∀ n ∈ s.host.registry.node g, _))

/-- A client that is claimed is free, and one that is linked has been claimed by nobody else. -/
def Move.ClaimsFree (s : Traced) : Move → Prop
  | .thread t _ => ∀ th ∈ s.host.threads t,
      (∀ name ∈ th.stage.claims?, s.host.registry.FreeUnder name) ∧
        ∀ g ∈ th.stage.relinks?, s.ClaimedBy t g
  | _ => True

instance (s : Traced) : ∀ m : Move, Decidable (m.ClaimsFree s)
  | .thread t _ => inferInstanceAs (Decidable (∀ th ∈ s.host.threads t, _ ∧ _))
  | .acceptLoop _ _ | .accepts _ | .acceptFails _ | .sigint => inferInstanceAs (Decidable True)

/-- So it is for every request that is under way. -/
structure Traced.RequestsHold (s : Traced) : Prop where
  free : ∀ t th, s.host.threads t = some th → ∀ name ∈ th.stage.claims?,
    s.host.registry.FreeUnder name
  claimed : ∀ t th, s.host.threads t = some th → ∀ g ∈ th.stage.relinks?, s.ClaimedBy t g

/-! ## The steps that spare requests -/

/-- After the step whoever is called by the name is free, if it was: it is not claimed and not
made BUSY, and if names change, the one who is called by it then is free. -/
def Point.KeepsFree (r : Registry) (fd : Int) (name : List UInt8) : Point → Prop
  | claim name' _ => ∀ g ∈ r.called name, r.called name' ≠ some g
  | pair connFd => ∀ g ∈ r.called name, g ≠ fd ∧ g ≠ connFd
  | setName msg => (replay r ((setName msg).acts fd r)).FreeUnder name
  | _ => True

instance (r : Registry) (fd : Int) (name : List UInt8) : DecidablePred (Point.KeepsFree r fd name)
  | .claim name' _ =>
      inferInstanceAs (Decidable (∀ g ∈ r.called name, r.called name' ≠ some g))
  | .pair connFd => inferInstanceAs (Decidable (∀ g ∈ r.called name, g ≠ fd ∧ g ≠ connFd))
  | .setName msg =>
      inferInstanceAs (Decidable ((replay r ((Point.setName msg).acts fd r)).FreeUnder name))
  | .done | .connect _ | .link _ _ _ | .copyAsker _ _ _ | .ask _ _ _ | .accept | .refuse _
  | .copyRefused _ | .checkConn _ _ _ | .checkMine _ _ _ | .copyMine _ _ _ | .copyConn _ _ _
  | .ready _ _ _ | .decline | .copyDecliner _ _ | .tellDeclined _ _ | .undoRequest | .tx _
  | .disconnect _ | .tell _ _ | .reply _ => inferInstanceAs (Decidable True)

def Stage.KeepsFree (r : Registry) (fd : Int) (name : List UInt8) : Stage → Prop
  | serving p => p.KeepsFree r fd name
  | closing => (replay r (closedActs r fd)).FreeUnder name
  | _ => True

instance (r : Registry) (fd : Int) (name : List UInt8) : DecidablePred (Stage.KeepsFree r fd name)
  | .serving p => inferInstanceAs (Decidable (p.KeepsFree r fd name))
  | .closing => inferInstanceAs (Decidable ((replay r (closedActs r fd)).FreeUnder name))
  | .starting | .greeting | .awaitingAck | .polling | .listHead | .listing _ _ _ | .exited =>
      inferInstanceAs (Decidable True)

def Move.KeepsFree (h : Host) (name : List UInt8) : Move → Prop
  | .thread t _ => ∀ th ∈ h.threads t, th.stage.KeepsFree h.registry th.fd name
  | .acceptLoop _ _ => h.loop = .freeing →
      Registry.FreeUnder { h.registry with clientList := h.registry.clientList.tail } name
  | _ => True

instance (h : Host) (name : List UInt8) : ∀ m : Move, Decidable (m.KeepsFree h name)
  | .thread t _ => inferInstanceAs (Decidable (∀ th ∈ h.threads t, _))
  | .acceptLoop _ _ => inferInstanceAs (Decidable (h.loop = .freeing → Registry.FreeUnder _ name))
  | .accepts _ | .acceptFails _ | .sigint => inferInstanceAs (Decidable True)

/-- The step neither claims the client nor registers a new one under its descriptor. -/
def Move.KeepsClaim (h : Host) (g : Int) : Move → Prop
  | .thread t answer => ∀ th ∈ h.threads t,
      (∀ name ∈ th.stage.claims?, h.registry.called name ≠ some g) ∧
        (th.stage = .starting → ∀ ok, answer = .malloc ok → h.registry.Accepts ok → th.fd ≠ g)
  | _ => True

instance (h : Host) (g : Int) : ∀ m : Move, Decidable (m.KeepsClaim h g)
  | .thread t _ => inferInstanceAs (Decidable (∀ th ∈ h.threads t, _ ∧ _))
  | .acceptLoop _ _ | .accepts _ | .acceptFails _ | .sigint => inferInstanceAs (Decidable True)

/-- The thread that moves. -/
def Move.thread? : Move → Option Nat
  | .thread t _ => some t
  | _ => none

/-- The steps that spare the requests of other threads: who was found free stays so until it is
claimed, and its claim stands until it is linked. -/
def Move.SparesRequests (h : Host) (m : Move) : Prop :=
  ∀ t < h.accepts, m.thread? ≠ some t → ∀ th ∈ h.threads t,
    (∀ name ∈ th.stage.claims?, m.KeepsFree h name) ∧
      ∀ g ∈ th.stage.relinks?, m.KeepsClaim h g

instance (h : Host) (m : Move) : Decidable (m.SparesRequests h) :=
  inferInstanceAs (Decidable (∀ t < h.accepts, m.thread? ≠ some t → ∀ th ∈ h.threads t, _))

/-! ## Who is free under a name after a step -/

namespace Point

variable {r : Registry} {fd : Int} {p : Point} {name : List UInt8}

/-- The names are those before, unless one is set. -/
theorem called_after (hp : ∀ msg, p ≠ .setName msg) :
    (replay r (p.acts fd r)).called name = r.called name :=
  (sameNames_replay _ r (nameless_acts hp fd r)).called name

theorem freeUnder_after_iff (hr : r.Wf) (hfree : r.FreeUnder name) :
    (replay r (p.acts fd r)).FreeUnder name ↔ p.KeepsFree r fd name := by
  rcases em (∃ msg, p = .setName msg) with ⟨msg, rfl⟩ | hset
  · exact Iff.rfl
  have hcalled : (replay r (p.acts fd r)).called name = r.called name :=
    called_after fun msg he => hset ⟨msg, he⟩
  have hafter : (replay r (p.acts fd r)).FreeUnder name ↔ ∀ g ∈ r.called name,
      (replay r (p.acts fd r)).getClientChattingStatusByFd g = .free := by
    rw [FreeUnder, hcalled]
  rw [hafter]
  have hkept : ¬ p.Pairs → (∀ name myName, p ≠ .claim name myName) →
      ∀ g ∈ r.called name, (replay r (p.acts fd r)).getClientChattingStatusByFd g = .free :=
    fun hpairs hclaim g hg => free_kept hr hpairs hclaim (hfree g hg)
  cases p with
  | setName msg => exact absurd ⟨msg, rfl⟩ hset
  | claim name' myName =>
      refine forall₂_congr fun g hg => ?_
      rw [status_claim hr name' myName fd (hr.isSome_called hg)]
      split
      · next hc => simp [hc]
      · next hc => simp [hc, hfree g hg]
  | pair connFd =>
      refine forall₂_congr fun g hg => ?_
      have hbusy : (replay r (acts fd r (.pair connFd))).getClientChattingStatusByFd g = .busy
          ↔ _ := busy_links_iff hr rfl
      constructor
      · intro hst
        rw [hst] at hbusy
        have hnot : ¬ (g = fd ∨ g = connFd) := fun he =>
          absurd (hbusy.mpr (Or.inr ⟨trivial, he, hr.isSome_called hg⟩)) (by simp)
        exact not_or.mp hnot
      · rintro ⟨hown, hconn⟩
        have htarget : target? r (.pair connFd) ≠ some g :=
          fun he => hconn (Option.some.inj he).symm
        rw [(sameAt_other hr hown htarget).1]
        exact hfree g hg
  | _ => exact iff_of_true (hkept id (by simp)) trivial

end Point

namespace Host

variable {h h' : Host} {m : Move} {acts : List Act} {name : List UInt8}

/-- Whoever is called by the name stays free exactly by the steps that keep it free. -/
theorem freeUnder_step_iff (hs : h.Sound) (hstep : Stepped h m h' acts)
    (hfree : h.registry.FreeUnder name) :
    h'.registry.FreeUnder name ↔ m.KeepsFree h name := by
  -- the threads that change no name and no status
  have hsame : ∀ {t th answer}, h.threads t = some th → h'.registry.FreeUnder name →
      (∀ p, th.stage ≠ .serving p) → th.stage ≠ .closing →
      (h'.registry.FreeUnder name ↔ (Move.thread t answer).KeepsFree h name) := by
    intro t th answer ht hfree' hserving hclosing
    refine iff_of_true hfree' fun th' ht' => ?_
    rw [ht] at ht'
    cases ht'
    cases hst : th.stage with
    | serving p => exact absurd hst (hserving p)
    | closing => exact absurd hst hclosing
    | _ => trivial
  cases hstep with
  | accepts | terminates => exact iff_of_true hfree trivial
  | spawns hl | turnsAway hl =>
      refine iff_of_true hfree fun hf => ?_
      rw [hl] at hf
      cases hf
  | loops hl =>
      refine iff_of_true hfree ?_
      cases hl with
      | fails => trivial
      | allFreed _ hlist =>
          intro _
          show Registry.FreeUnder { h.registry with clientList := h.registry.clientList.tail } name
          have htail : h.registry.clientList.tail = h.registry.clientList := by rw [hlist]; rfl
          rw [htail]
          exact hfree
      | tests hl | counts hl | noMemory hl | noThread hl | allJoined hl | joinsGone hl | joins hl
      | joined hl =>
          intro hf
          rw [hl] at hf
          cases hf
  | @frees n rest _ _ hl hlist =>
      have htail : h.registry.clientList.tail = rest := by rw [hlist]; rfl
      show _ ↔ (h.loop = .freeing → Registry.FreeUnder _ name)
      rw [htail]
      exact ⟨fun hf _ => hf, fun hf => hf hl⟩
  | @registers t th ok ht hst =>
      refine hsame ht ?_ (by simp [hst]) (by simp [hst])
      show (replay h.registry (registerActs h.registry th.fd ok)).FreeUnder name
      rw [replay_registerActs]
      exact freeUnder_registered hs.wf (hs.fd_ne_invalidFd ht (by simp [hst]))
        (hs.node_starting ht hst) ok hfree
  | greets ht hst => exact hsame ht hfree (by simp [hst]) (by simp [hst])
  | @serves t th p ht hst =>
      show (replay h.registry (p.acts th.fd h.registry)).FreeUnder name ↔
        ∀ th ∈ h.threads t, th.stage.KeepsFree h.registry th.fd name
      rw [Point.freeUnder_after_iff hs.wf hfree, ht]
      simp [hst, Stage.KeepsFree]
  | @closes t th ht hst =>
      show (replay h.registry (closedActs h.registry th.fd)).FreeUnder name ↔
        ∀ th ∈ h.threads t, th.stage.KeepsFree h.registry th.fd name
      rw [ht]
      simp [hst, Stage.KeepsFree]
  | @quiet t th answer stage ht hq =>
      refine iff_of_true hfree fun th' ht' => ?_
      rw [ht] at ht'
      cases ht'
      obtain ⟨fd, stage₀⟩ := th
      cases hq <;> trivial

end Host

/-! ## Who claims -/

/-- A section leads to a claim where it has found the client free. -/
theorem Point.claims_next {p : Point} {fd : Int} {r : Registry} {name : List UInt8}
    (h : (p.next fd r).claims? = some name) :
    p = .connect name ∧ r.getClientChattingStatusByName name = .free := by
  cases p with
  | connect name' =>
      simp only [next] at h
      split at h
      · cases h
      split at h
      · cases h
      split at h
      · next hfree =>
          cases h
          exact ⟨rfl, hfree⟩
      all_goals cases h
  | setName | claim | accept | checkConn | checkMine | decline | tx =>
      revert h
      simp only [next]
      repeat' split
      all_goals
        intro h
        cases h
  | _ => cases h

/-- A client is linked by the request that has claimed it. -/
theorem Point.relinks_next {p : Point} {fd : Int} {r : Registry} {g : Int}
    (h : (p.next fd r).relinks? = some g) :
    ∃ name myName, p = .claim name myName ∧ r.getClientFdByName name = g := by
  cases p with
  | claim name myName =>
      simp only [next] at h
      split at h
      · cases h
      · exact ⟨name, myName, rfl, Option.some.inj h⟩
  | setName | connect | accept | checkConn | checkMine | decline | tx =>
      revert h
      simp only [next]
      repeat' split
      all_goals
        intro h
        cases h
  | _ => cases h

/-- Neither is next after a quiet step. -/
theorem no_request_of_quiets {r : Registry} {terminate : Bool} {stage stage' : Stage}
    {answer : Answer} (hq : Quiets r terminate stage answer stage') :
    stage'.claims? = none ∧ stage'.relinks? = none := by
  have hstart : ∀ msg, (Point.start msg).claims? = none ∧ (Point.start msg).relinks? = none := by
    intro msg
    unfold Point.start
    split <;> exact ⟨rfl, rfl⟩
  exact after_quiets (P := fun s => s.claims? = none ∧ s.relinks? = none) hq ⟨rfl, rfl⟩ ⟨rfl, rfl⟩
    ⟨rfl, rfl⟩ ⟨rfl, rfl⟩ (fun _ _ _ => ⟨rfl, rfl⟩) ⟨rfl, rfl⟩ (fun _ => ⟨rfl, rfl⟩) hstart

theorem stage_of_claims {stage : Stage} {name : List UInt8} (h : stage.claims? = some name) :
    ∃ myName, stage = .serving (.claim name myName) := by
  cases stage with
  | serving p =>
      cases p with
      | claim name' myName =>
          cases h
          exact ⟨myName, rfl⟩
      | _ => cases h
  | _ => cases h

namespace Traced

variable {s s' : Traced} {m : Move} {acts : List Act} {h' : Host} {t : Nat} {g : Int}

/-- Nobody has claimed a node that is still to come. -/
def Unclaimed (s : Traced) : Prop := ∀ k ≥ s.host.registry.mallocs, s.claimant k = none

/-- A claim is written down under the node it is made for. -/
theorem claimant_note_claim {fd : Int} {name : List UInt8} {myName : CharPtr} {n : ClientNode}
    (ht : s.host.threads t = some ⟨fd, .serving (.claim name myName)⟩)
    (hn : s.host.registry.nodeByName name = some n) :
    (s.note h' (.thread t .none)).claimant = Function.update s.claimant n.addr (some t) := by
  show s.noteClaimant t = _
  simp only [noteClaimant, ht, hn]

/-- Nothing else is written down of claims. -/
theorem claimant_note (s : Traced) (h' : Host) (m : Move) :
    (s.note h' m).claimant = s.claimant ∨ ∃ t fd name myName n, m = .thread t .none ∧
      s.host.threads t = some ⟨fd, .serving (.claim name myName)⟩ ∧
      s.host.registry.nodeByName name = some n := by
  unfold note
  split
  · next t =>
      show s.noteClaimant t = s.claimant ∨ _
      unfold noteClaimant
      split
      · next fd name myName ht =>
          split
          · next n hn => exact Or.inr ⟨t, fd, name, myName, n, rfl, ht, hn⟩
          · exact Or.inl rfl
      · exact Or.inl rfl
  · exact Or.inl rfl
  · exact Or.inl rfl

theorem unclaimed_note (hs : s.host.Sound) (hu : s.Unclaimed) (hstep : Stepped s.host m h' acts) :
    (s.note h' m).Unclaimed := by
  intro k hk
  rw [host_note] at hk
  have hle : s.host.registry.mallocs ≤ k := Nat.le_trans (Host.mallocs_step hstep) hk
  rcases claimant_note s h' m with he | ⟨t, fd, name, myName, n, rfl, ht, hn⟩
  · rw [he]
    exact hu k hle
  · rw [claimant_note_claim ht hn, Function.update_of_ne]
    · exact hu k hle
    · have hfresh := hs.wf.fresh n (nodeByName_mem hn)
      omega

/-- A claim stands exactly by the steps that keep it. -/
theorem claimedBy_step_iff (hs : s.host.Sound) (hu : s.Unclaimed) (hc : s.ClaimedBy t g)
    (hstep : Stepped s.host m h' acts) (hm : m.thread? ≠ some t) :
    (s.note h' m).ClaimedBy t g ↔ m.KeepsClaim s.host g := by
  have hr := hs.wf
  constructor
  · intro hc'
    rw [ClaimedBy, host_note] at hc'
    cases m with
    | thread t' answer =>
        have htt : t' ≠ t := fun he => hm (congrArg some he)
        intro th ht
        refine ⟨fun name hname hcalled => ?_, fun hst ok he hacc hfd => ?_⟩
        · -- the node that is called by the name gets another claimant
          obtain ⟨n, hn, rfl⟩ := Option.map_eq_some_iff.mp hcalled
          obtain ⟨fd, stage⟩ := th
          obtain ⟨myName, rfl⟩ := stage_of_claims hname
          obtain ⟨rfl, -, rfl⟩ := Host.serving_step hstep ht (by simp)
          have hnodes : s.host.registry.SameNodes (replay s.host.registry _) :=
            sameNodes_replay _ _ (Point.inner_acts fd s.host.registry (.claim name myName))
          obtain ⟨n', hn', ha, hfd⟩ := hnodes.exists_mem_after (nodeByName_mem hn)
          have hnode : Registry.node (replay s.host.registry _) n.fd = some n' :=
            hfd ▸ (Point.wf_after hr (.claim name myName) fd).node_of_mem hn'
          have hlast := hc' n' hnode
          rw [claimant_note_claim ht hn, ha, Function.update_self] at hlast
          exact htt (Option.some.inj hlast)
        · subst he
          cases hstep with
          | loops hl => cases hl
          | quiet hth hq =>
              rw [ht] at hth
              cases hth
              rw [hst] at hq
              cases hq
          | registers hth =>
              rw [ht] at hth
              cases hth
              have hnode : Registry.node (replay s.host.registry
                  (registerActs s.host.registry th.fd ok)) g
                  = some (s.host.registry.newNode th.fd) := by
                rw [replay_registerActs, node_add (hs.node_starting ht hst)]
                exact if_pos ⟨hfd.symm, hacc⟩
              have hlast : s.claimant s.host.registry.mallocs = some t := hc' _ hnode
              rw [hu _ (Nat.le_refl _)] at hlast
              cases hlast
    | _ => trivial
  · intro hk n hn
    rw [host_note] at hn
    obtain rfl : n.fd = g := look_key hn
    rcases Host.node_step hs hstep (look_mem hn) with ⟨n₀, hn₀, ha, hfd⟩ | ⟨hreg, -⟩
    · have hlast := hc n₀ (hfd ▸ hr.node_of_mem hn₀)
      rcases claimant_note s h' m with he | ⟨t', fd, name, myName, n₁, rfl, ht', hn₁⟩
      · rw [he, ← ha]
        exact hlast
      · rw [claimant_note_claim ht' hn₁, Function.update_of_ne, ← ha]
        · exact hlast
        · intro he
          have hnn : n₀ = n₁ :=
            List.inj_on_of_nodup_map hr.addrs hn₀ (nodeByName_mem hn₁) (ha.trans he)
          refine (hk _ ht').1 name rfl ?_
          rw [called, hn₁, ← hfd, hnn]
          rfl
    · obtain ⟨t', th, ok, rfl, ht', hst, hfd, hacc⟩ := hreg
      exact absurd hfd ((hk th ht').2 hst ok rfl hacc)

/-- The request of the thread that moves. -/
theorem requestsHold_self (hs : s.host.Sound) {answer : Answer}
    (hstep : Stepped s.host (.thread t answer) h' acts) {th th' : Thread}
    (ht : s.host.threads t = some th) (ht' : h'.threads t = some th') :
    (∀ name ∈ th'.stage.claims?, h'.registry.FreeUnder name) ∧
      ∀ g ∈ th'.stage.relinks?, (s.note h' (.thread t answer)).ClaimedBy t g := by
  cases Host.goes_of_step hstep ht ht' with
  | registers hst =>
      rcases hst with rfl | rfl <;> exact ⟨fun _ h => (nomatch h), fun _ h => (nomatch h)⟩
  | greets | closes => exact ⟨fun _ h => (nomatch h), fun _ h => (nomatch h)⟩
  | quiet hq =>
      obtain ⟨hclaims, hrelinks⟩ := no_request_of_quiets hq
      rw [hclaims, hrelinks]
      exact ⟨fun _ h => (nomatch h), fun _ h => (nomatch h)⟩
  | @serves fd p hdone =>
      obtain ⟨-, -, rfl⟩ := Host.serving_step hstep ht hdone
      constructor
      · intro name hname
        obtain ⟨rfl, hfree⟩ := Point.claims_next hname
        -- the section that finds the client free writes nothing
        intro g hg
        show s.host.registry.getClientChattingStatusByFd g = .free
        rw [← hs.wf.statusByName_eq hg]
        exact hfree
      · intro g hg n' hn'
        obtain ⟨name, myName, rfl, rfl⟩ := Point.relinks_next hg
        rw [host_note] at hn'
        have hnodes : s.host.registry.SameNodes (replay s.host.registry _) :=
          sameNodes_replay _ _ (Point.inner_acts fd s.host.registry (.claim name myName))
        obtain ⟨n, hn, ha⟩ := hs.wf.addr_node hnodes hn'
        have hcalled : s.host.registry.called name
            = some (s.host.registry.getClientFdByName name) :=
          (hs.wf.called_iff (by rw [hn]; rfl)).mpr rfl
        obtain ⟨n₀, hn₀, hfd⟩ := Option.map_eq_some_iff.mp hcalled
        have hnn : n₀ = n := by
          have hnode := hs.wf.node_of_mem (nodeByName_mem hn₀)
          rw [hfd, hn] at hnode
          exact (Option.some.inj hnode).symm
        rw [claimant_note_claim ht hn₀, hnn, ha, Function.update_self]

/-- Every request holds on exactly by the steps that spare it. -/
theorem requestsHold_step_iff (hs : s.host.Sound) (hu : s.Unclaimed) (hr : s.RequestsHold)
    (hstep : tracedStep s m = some (s', acts)) : s'.RequestsHold ↔ m.SparesRequests s.host := by
  obtain ⟨h', hh, rfl⟩ := tracedStep_eq_some hstep
  have hstep := stepped_of_hostStep hh
  have hother : ∀ {t}, (∀ answer, m ≠ .thread t answer) ↔ m.thread? ≠ some t := by
    intro t
    cases m <;> simp [Move.thread?]
  constructor
  · intro hr' t _ hm th ht
    have ht' : (s.note h' m).host.threads t = some th := by
      rw [host_note]
      exact Host.threads_kept hs hstep ht (hother.mpr hm)
    constructor
    · intro name hname
      have hfree := hr'.free t th ht' name hname
      rw [host_note] at hfree
      exact (Host.freeUnder_step_iff hs hstep (hr.free t th ht name hname)).mp hfree
    · intro g hg
      exact (claimedBy_step_iff hs hu (hr.claimed t th ht g hg) hstep hm).mp
        (hr'.claimed t th ht' g hg)
  · intro hm
    have hall : ∀ t th, h'.threads t = some th →
        (∀ name ∈ th.stage.claims?, h'.registry.FreeUnder name) ∧
          ∀ g ∈ th.stage.relinks?, (s.note h' m).ClaimedBy t g := by
      refine Host.forall_threads hstep
        (fun _ _ _ => ⟨fun _ h => (nomatch h), fun _ h => (nomatch h)⟩) ?_ fun t th hmt ht => ?_
      · rintro t answer th th' rfl ht ht'
        exact requestsHold_self hs hstep ht ht'
      · obtain ⟨hfree, hclaim⟩ := hm t (hs.numbered t th ht) (hother.mp hmt) th ht
        exact ⟨fun name hname =>
            (Host.freeUnder_step_iff hs hstep (hr.free t th ht name hname)).mpr (hfree name hname),
          fun g hg => (claimedBy_step_iff hs hu (hr.claimed t th ht g hg) hstep
            (hother.mp hmt)).mpr (hclaim g hg)⟩
    constructor
    · intro t th ht name hname
      rw [host_note] at ht ⊢
      exact (hall t th ht).1 name hname
    · intro t th ht
      rw [host_note] at ht
      exact (hall t th ht).2

theorem RequestsHold.claimsFree (hr : s.RequestsHold) (m : Move) : m.ClaimsFree s := by
  cases m with
  | thread t answer => exact fun th ht => ⟨hr.free t th ht, hr.claimed t th ht⟩
  | _ => trivial

theorem unclaimed_boot : boot.Unclaimed := fun _ _ => rfl

theorem requestsHold_boot : boot.RequestsHold :=
  ⟨fun _ _ ht => (nomatch ht), fun _ _ ht => (nomatch ht)⟩

end Traced

/-- Over whole runs, every request that is under way holds exactly as long as every step spares
it; and then no client is claimed but a free one, and none is linked that somebody else has
claimed since. -/
theorem requests_hold_everywhere (ms : List Move) :
    (Everywhere tracedStep Traced.RequestsHold .boot ms ↔
      EveryStep tracedStep (fun s m => m.SparesRequests s.host) .boot ms) ∧
    (EveryStep tracedStep (fun s m => m.SparesRequests s.host) .boot ms →
      EveryStep tracedStep (fun s m => m.ClaimsFree s) .boot ms) := by
  have hiff := everywhere_iff (I := fun s : Traced => s.host.Sound ∧ s.Unclaimed)
    (fun s m s' acts hI hstep => ⟨Traced.sound_step s m s' acts hI.1 hstep, by
      obtain ⟨h', hh, rfl⟩ := Traced.tracedStep_eq_some hstep
      exact Traced.unclaimed_note hI.1 hI.2 (stepped_of_hostStep hh)⟩)
    (fun _ _ _ _ hI hr hstep => Traced.requestsHold_step_iff hI.1 hI.2 hr hstep) ms
    ⟨Host.sound_boot, Traced.unclaimed_boot⟩ Traced.requestsHold_boot
  exact ⟨hiff, fun hm => (hiff.mpr hm).everyStep fun _ m hr => hr.claimsFree m⟩

end ChatSocket
