/-
# `Host.Disconnects` — a disconnect that comes late

`handle_tx_msg` reads the partner of a BUSY client in one section and frees both
sides in the next.  In between, or before the first section runs, the partner can
have ended the chat and begun another.  The second section frees it all the same.

`late_disconnects`: from a chat on, the disconnect of one side leaves the chats
of others alone as long as nobody brings the partner into a chat with a third
client while it is still to be freed.  The invariant is that this partner, if it
is BUSY at all, is linked to the client that disconnects; the condition is the
weakest one under which it holds throughout.
-/
import ChatSocket.Host.Effects

namespace ChatSocket

open Kit Registry

/-- The partner whom the thread frees, or will free if it finds its client BUSY: with the
descriptor of the thread, that of the partner. -/
def Host.frees? (h : Host) (t : Nat) : Option (Int × Int) :=
  match h.threads t with
  | some ⟨fd, .serving (.tx _)⟩ =>
      if h.registry.getClientChattingStatusByFd fd = .busy then
        some (fd, h.registry.getConnFdByFd fd)
      else none
  | some ⟨fd, .serving (.disconnect connFd)⟩ => some (fd, connFd)
  | _ => none

/-- The partner that is to be freed is in no chat with a third client. -/
def Host.FreesOwnChat (t : Nat) (h : Host) : Prop :=
  ∀ a x, h.frees? t = some (a, x) → x ≠ a → h.registry.getClientChattingStatusByFd x = .busy →
    h.registry.getConnFdByFd x = a

/-- The step of the handler of `fd` joins `x` with another client than `a`. -/
def Point.Joins (r : Registry) (fd a x : Int) (p : Point) : Prop :=
  ∃ c ∈ p.links?, c ≠ a ∧ (x = fd ∨ x = c) ∧
    (r.getClientChattingStatusByFd x = .busy ∨ (p.Pairs ∧ (r.node x).isSome))

instance (r : Registry) (fd a x : Int) (p : Point) : Decidable (p.Joins r fd a x) :=
  inferInstanceAs (Decidable (∃ c ∈ p.links?, _))

/-- The steps that leave the partner to the disconnect: no other thread links it to a third
client while it is BUSY, or makes it BUSY with one. -/
def Move.SparesPartner (t : Nat) (h : Host) : Move → Prop
  | .thread t' _ => t' ≠ t → ∀ th ∈ h.threads t', ∀ p ∈ th.stage.handler? .none,
      ∀ q ∈ h.frees? t, q.2 ≠ q.1 → ¬ p.Joins h.registry th.fd q.1 q.2
  | _ => True

instance (t : Nat) (h : Host) : ∀ m : Move, Decidable (m.SparesPartner t h)
  | .thread t' _ => inferInstanceAs (Decidable (t' ≠ t → ∀ th ∈ h.threads t', _))
  | .acceptLoop _ _ | .accepts _ | .acceptFails _ | .sigint => inferInstanceAs (Decidable True)

/-- The section that frees both sides changes nothing for a client in a chat with another than
the one that disconnects. -/
def Move.LeavesChats (t : Nat) (h : Host) (m : Move) : Prop :=
  m = .thread t .none → ∀ a g, h.threads t = some ⟨a, .serving (.disconnect g)⟩ →
    ∀ x, x ≠ a → h.registry.getClientChattingStatusByFd x = .busy →
      h.registry.getConnFdByFd x ≠ a →
      h.registry.SameAt (replay h.registry ((Point.disconnect g).acts a h.registry)) x

namespace Host

variable {h h' : Host} {m : Move} {acts : List Act} {t : Nat}

/-! ## Who comes into a chat -/

/-- A step that links nobody leaves a client alone, or not BUSY. -/
theorem room_step (hs : h.Sound) (hstep : Stepped h m h' acts)
    (hm : ∀ t fd p, m = .thread t .none → h.threads t = some ⟨fd, .serving p⟩ → p.links? = none)
    (g : Int) : h'.registry.room g = h.registry.room g ∨
      h'.registry.room.moodOf g ≠ some .busy := by
  cases hstep with
  | loops | accepts | spawns | terminates | quiet | turnsAway | greets => exact Or.inl rfl
  | frees _ hlist =>
      rcases node_tail hs.wf hlist g with he | he
      · left
        exact congrArg (Option.map ClientNode.party) he
      · right
        rw [moodOf_room]
        show ((Registry.node { h.registry with clientList := _ } g).map _) ≠ _
        rw [he]
        simp
  | registers ht hst _ =>
      show (replay h.registry _).room g = _ ∨ (replay h.registry _).room.moodOf g ≠ _
      rw [replay_registerActs]
      exact room_registered (hs.node_starting ht hst) _ g
  | @serves _ th p ht hst _ _ =>
      obtain ⟨fd, stage⟩ := th
      obtain rfl : stage = .serving p := hst
      exact Point.room_unlinked hs.wf (hm _ _ p rfl ht) fd g
  | @closes _ th _ _ _ => exact room_closed hs.wf th.fd g

theorem chat_before (hs : h.Sound) (hs' : h'.Sound) (hstep : Stepped h m h' acts)
    (hm : ∀ t fd p, m = .thread t .none → h.threads t = some ⟨fd, .serving p⟩ → p.links? = none)
    {g : Int} (hb : h'.registry.getClientChattingStatusByFd g = .busy) :
    h.registry.SameAt h'.registry g := by
  rcases room_step hs hstep hm g with hroom | hmood
  · exact hs.wf.sameAt_of_room hs'.wf hroom
  · exact absurd ((hs'.wf.busy_iff g).mp hb) hmood

theorem frees?_eq_some_iff {a x : Int} :
    h.frees? t = some (a, x) ↔
      (∃ msg, h.threads t = some ⟨a, .serving (.tx msg)⟩ ∧
        h.registry.getClientChattingStatusByFd a = .busy ∧ h.registry.getConnFdByFd a = x) ∨
      h.threads t = some ⟨a, .serving (.disconnect x)⟩ := by
  constructor
  · intro hf
    unfold frees? at hf
    split at hf
    · next fd msg ht =>
        split at hf
        · next hb =>
            cases hf
            exact Or.inl ⟨msg, ht, hb, rfl⟩
        · cases hf
    · next ht =>
        cases hf
        exact Or.inr ht
    · cases hf
  · rintro (⟨msg, ht, hb, rfl⟩ | ht)
    · simp only [frees?, ht]
      exact if_pos hb
    · simp only [frees?, ht]

/-- A thread that does not move was there, or starts. -/
theorem threads_before (hstep : Stepped h m h' acts) {th : Thread} (ht : h'.threads t = some th)
    (hm : ∀ answer, m ≠ .thread t answer) : h.threads t = some th ∨ th.stage = .starting := by
  exact forall_threads hstep
    (P := fun t th => (∀ answer, m ≠ .thread t answer) →
      h.threads t = some th ∨ th.stage = .starting)
    (fun _ _ _ _ => Or.inr rfl) (fun _ answer _ _ hm _ _ hm' => absurd hm (hm' answer))
    (fun _ _ _ ht _ => Or.inl ht) t th ht hm

/-! ## The steps of the thread itself -/

theorem tx_next (fd : Int) (r : Registry) (p : Point) (msg : Msg) : p.next fd r ≠ .tx msg := by
  cases p with
  | setName | connect | claim | accept | checkConn | checkMine | decline | tx =>
      simp only [Point.next]
      repeat' split
      all_goals simp
  | _ => simp [Point.next]

theorem disconnect_next {fd g : Int} {r : Registry} {p : Point}
    (hp : p.next fd r = .disconnect g) :
    ∃ msg, p = .tx msg ∧ r.getClientChattingStatusByFd fd = .busy ∧ r.getConnFdByFd fd = g := by
  cases p with
  | tx msg =>
      simp only [Point.next] at hp
      split at hp
      · cases hp
      next hlive =>
      split at hp
      · cases hp
        exact ⟨msg, rfl, not_not.mp (not_or.mp hlive).1, rfl⟩
      · cases hp
  | setName | connect | claim | accept | checkConn | checkMine | decline =>
      revert hp
      simp only [Point.next]
      repeat' split
      all_goals
        intro hp
        cases hp
  | _ => cases hp

/-- The thread is not in `handle_tx_msg` before the section that frees. -/
def Frees : Stage → Prop
  | .serving (.tx _) | .serving (.disconnect _) => True
  | _ => False

/-- A quiet step leads there only by a message that comes. -/
theorem not_frees_of_quiets {r : Registry} {terminate : Bool} {stage stage' : Stage}
    {answer : Answer} (hq : Quiets r terminate stage answer stage')
    (hm : ∀ q, answer ≠ .poll q) : ¬ Frees stage' := by
  cases hq with
  | hears | hangsUp | again => exact absurd rfl (hm _)
  | lists => exact listOn_cases (P := fun s => ¬ Frees s) _ _ (fun _ => id) fun _ _ => id
  | visits =>
      exact visit_cases (P := fun s => ¬ Frees s) _ _ _ _ (fun _ => id) fun _ _ _ _ => id
  | _ => exact id

theorem frees_of_frees? {a x : Int} (hf : h.frees? t = some (a, x)) :
    ∃ th, h.threads t = some th ∧ th.fd = a ∧ Frees th.stage := by
  rcases frees?_eq_some_iff.mp hf with ⟨msg, ht, -⟩ | ht
  · exact ⟨_, ht, rfl, trivial⟩
  · exact ⟨_, ht, rfl, trivial⟩

theorem freesOwnChat_self (hf : h.FreesOwnChat t) (hstep : Stepped h m h' acts) {answer : Answer}
    (hm : m = .thread t answer) (hpoll : ∀ p, m ≠ .thread t (.poll p)) : h'.FreesOwnChat t := by
  intro a x hf' hxa hb
  subst hm
  obtain ⟨th', ht', -, hst'⟩ := frees_of_frees? hf'
  obtain ⟨th, ht⟩ := thread_of_step hstep
  cases goes_of_step hstep ht ht' with
  | registers hst => rcases hst with rfl | rfl <;> exact hst'.elim
  | greets | closes => exact hst'.elim
  | quiet hq => exact absurd hst' (not_frees_of_quiets hq fun q hq' => hpoll q (by rw [hq']))
  | @serves fd p hdone =>
      obtain ⟨-, -, rfl⟩ := serving_step hstep ht hdone
      rcases frees?_eq_some_iff.mp hf' with ⟨msg, hth, -⟩ | hth
      · rw [threads_goto_self, Option.some.injEq, Thread.mk.injEq, Stage.serving.injEq] at hth
        exact absurd hth.2 (tx_next _ _ _ _)
      · rw [threads_goto_self, Option.some.injEq, Thread.mk.injEq, Stage.serving.injEq] at hth
        obtain ⟨rfl, hnext⟩ := hth
        -- the partner was read in this very section, which writes nothing
        obtain ⟨msg, rfl, hbusy, hconn⟩ := disconnect_next hnext
        exact hf fd x (frees?_eq_some_iff.mpr (Or.inl ⟨msg, ht, hbusy, hconn⟩)) hxa hb

/-! ## The steps of others -/

/-- Steps that link nobody. -/
theorem freesOwnChat_unlinked (hs : h.Sound) (hs' : h'.Sound) (hf : h.FreesOwnChat t)
    (hstep : Stepped h m h' acts) (hm : ∀ answer, m ≠ .thread t answer)
    (hlinks : ∀ t fd p, m = .thread t .none → h.threads t = some ⟨fd, .serving p⟩ →
      p.links? = none) : h'.FreesOwnChat t := by
  intro a x hf' hxa hb
  have hbefore : h.frees? t = some (a, x) := by
    rw [frees?_eq_some_iff] at hf' ⊢
    rcases hf' with ⟨msg, ht, hbusy, hconn⟩ | ht
    · obtain ⟨hst, hto⟩ := chat_before hs hs' hstep hlinks hbusy
      rcases threads_before hstep ht hm with ht | ht
      · exact Or.inl ⟨msg, ht, by rw [← hst, hbusy], by rw [← hto, hconn]⟩
      · cases ht
    · rcases threads_before hstep ht hm with ht | ht
      · exact Or.inr ht
      · cases ht
  obtain ⟨hst, hto⟩ := chat_before hs hs' hstep hlinks hb
  rw [hto]
  exact hf a x hbefore hxa (by rw [← hst, hb])

/-- A section that makes links. -/
theorem freesOwnChat_linked_iff (hs : h.Sound) (hf : h.FreesOwnChat t) {t' : Nat} {fd c : Int}
    {p : Point} (hne : t' ≠ t) (ht' : h.threads t' = some ⟨fd, .serving p⟩) (hp : p.links? = some c)
    (hreg : h'.registry = replay h.registry (p.acts fd h.registry))
    (hthreads : h'.threads t = h.threads t) :
    h'.FreesOwnChat t ↔ ∀ q ∈ h.frees? t, q.2 ≠ q.1 → ¬ p.Joins h.registry fd q.1 q.2 := by
  have hr := hs.wf
  have hown : ∀ {a x}, h'.frees? t = some (a, x) ∨ h.frees? t = some (a, x) → a ≠ fd := by
    rintro a x hq rfl
    have hth : ∃ th, h.threads t = some th ∧ th.fd = a ∧ Frees th.stage := by
      rcases hq with hq | hq
      · rw [← hthreads]
        exact frees_of_frees? hq
      · exact frees_of_frees? hq
    obtain ⟨th, ht, hfd, hst⟩ := hth
    have hex : th.stage ≠ .exited := by
      intro hex
      rw [hex] at hst
      exact hst
    exact hne (hs.fd_inj ht' ht (by simp) hex hfd.symm)
  -- the section changes nothing for the client of the thread unless it links that client
  have hsame : ∀ {a x}, a ≠ fd → c ≠ a →
      (h'.frees? t = some (a, x) ↔ h.frees? t = some (a, x)) := by
    intro a x hafd hca
    have htarget : p.target? h.registry ≠ some a := by
      rw [Point.target_of_links _ hp]
      simpa using hca
    have hat : h.registry.SameAt (replay h.registry (p.acts fd h.registry)) a :=
      Point.sameAt_other hr hafd htarget
    obtain ⟨hst, hto⟩ := hat
    rw [frees?_eq_some_iff, frees?_eq_some_iff, hthreads, hreg, hst, hto]
  constructor
  · rintro hf' ⟨a, x⟩ hq hxa ⟨c', hc', hca, hx, hb⟩
    obtain rfl : c = c' := Option.some.inj (hp.symm.trans hc')
    have hafd := hown (Or.inr hq)
    have hnode : (h.registry.node x).isSome := by
      rcases hb with hb | hb
      · exact hr.isSome_of_busy hb
      · exact hb.2
    have hbusy : h'.registry.getClientChattingStatusByFd x = .busy := by
      rw [hreg, Point.busy_links_iff hr hp]
      exact hb.imp_right fun hb => ⟨hb.1, hx, hb.2⟩
    have hlink := hf' a x ((hsame hafd hca).mpr hq) hxa hbusy
    rw [hreg, Point.connFd_links hr hp hnode] at hlink
    split at hlink
    · exact hafd hlink.symm
    · next hxc =>
        rw [if_pos (hx.resolve_right hxc)] at hlink
        exact hca hlink
  · intro hg a x hf' hxa hb
    have hafd := hown (Or.inl hf')
    rw [hreg, Point.busy_links_iff hr hp] at hb
    have hnode : (h.registry.node x).isSome := by
      rcases hb with hb | hb
      · exact hr.isSome_of_busy hb
      · exact hb.2.2
    rw [hreg, Point.connFd_links hr hp hnode]
    rcases eq_or_ne c a with rfl | hca
    · rw [if_neg hxa]
      split
      · rfl
      · next hxfd =>
          have hb := hb.resolve_right fun hb => (hb.2.1.elim hxfd hxa)
          refine hf c x ?_ hxa hb
          rw [frees?_eq_some_iff] at hf' ⊢
          rw [hthreads] at hf'
          rcases hf' with ⟨msg, ht, hbusy, hconn⟩ | ht
          · -- the client of the thread is linked to that of the section by now
            rw [hreg, Point.busy_links_iff hr hp] at hbusy
            have hnodec : (h.registry.node c).isSome := by
              rcases hbusy with hb | hb
              · exact hr.isSome_of_busy hb
              · exact hb.2.2
            rw [hreg, Point.connFd_links hr hp hnodec, if_pos rfl] at hconn
            exact absurd hconn.symm hxfd
          · exact Or.inr ht
    · have hbefore := (hsame hafd hca).mp hf'
      have hnot : ¬ (x = fd ∨ x = c) := by
        intro hx
        exact hg (a, x) hbefore hxa ⟨c, hp, hca, hx, hb.imp_right fun hb => ⟨hb.1, hb.2.2⟩⟩
      obtain ⟨hxfd, hxc⟩ := not_or.mp hnot
      rw [if_neg hxc, if_neg hxfd]
      exact hf a x hbefore hxa (hb.resolve_right fun hb => hnot hb.2.1)

/-- The partner stays in no chat with a third client exactly by the steps that spare it. -/
theorem freesOwnChat_step_iff (hs : h.Sound) (hf : h.FreesOwnChat t)
    (hpoll : ∀ p, m ≠ .thread t (.poll p)) (hstep : hostStep h m = some (h', acts)) :
    h'.FreesOwnChat t ↔ m.SparesPartner t h := by
  have hs' := hs.step hstep
  have hstep := stepped_of_hostStep hstep
  rcases em (∃ answer, m = .thread t answer) with ⟨answer, rfl⟩ | hm
  · exact ⟨fun _ hne => absurd rfl hne, fun _ => freesOwnChat_self hf hstep rfl hpoll⟩
  have hm : ∀ answer, m ≠ .thread t answer := fun answer he => hm ⟨answer, he⟩
  rcases em (∃ t' fd p c, m = .thread t' .none ∧ h.threads t' = some ⟨fd, .serving p⟩ ∧
      p.links? = some c) with ⟨t', fd, p, c, rfl, ht', hp⟩ | hlinks
  · have hne : t' ≠ t := by
      rintro rfl
      exact hm _ rfl
    have hdone : p ≠ .done := by
      rintro rfl
      cases hp
    obtain ⟨-, -, he⟩ := serving_step hstep ht' hdone
    have hreg : h'.registry = replay h.registry (p.acts fd h.registry) := by
      rw [he]
      rfl
    have hthreads : h'.threads t = h.threads t := by
      rw [he, threads_goto, if_neg hne.symm]
      rfl
    rw [freesOwnChat_linked_iff hs hf hne ht' hp hreg hthreads]
    constructor
    · rintro hg - th hth p' hp' q
      obtain rfl : _ = th := Option.some.inj (ht'.symm.trans hth)
      obtain ⟨hst, -, -⟩ := handler?_eq_some_iff.mp hp'
      cases hst
      exact hg q
    · exact fun hg => hg hne _ ht' p (handler?_eq_some_iff.mpr ⟨rfl, hdone, rfl⟩)
  · refine iff_of_true (freesOwnChat_unlinked hs hs' hf hstep hm fun t' fd p he ht' => ?_) ?_
    · rw [Option.eq_none_iff_forall_ne_some]
      exact fun c hp => hlinks ⟨t', fd, p, c, he, ht', hp⟩
    · cases m with
      | thread t' answer =>
          rintro - ⟨fd, stage⟩ ht' p hp q - - ⟨c, hc, -⟩
          obtain ⟨rfl, hdone, -⟩ := handler?_eq_some_iff.mp hp
          obtain ⟨rfl, -⟩ := serving_step hstep ht' hdone
          exact hlinks ⟨t', fd, p, c, rfl, ht', hc⟩
      | _ => trivial

theorem freesOwnChat_of_chat {a b : Int} {msg : Msg}
    (ht : h.threads t = some ⟨a, .serving (.tx msg)⟩) (hc : h.registry.Chat a b) :
    h.FreesOwnChat t := by
  intro a' x hf _ _
  rcases frees?_eq_some_iff.mp hf with ⟨msg', ht', -, rfl⟩ | ht'
  · rw [ht] at ht'
    cases ht'
    rw [hc.2.2.1, hc.2.2.2]
  · rw [ht] at ht'
    cases ht'

theorem FreesOwnChat.leavesChats (hf : h.FreesOwnChat t) (hs : h.Sound) (m : Move) :
    m.LeavesChats t h := by
  intro _ a g ht x hxa hb hto
  refine Point.sameAt_other hs.wf hxa fun hx => hto ?_
  obtain rfl := Option.some.inj hx
  exact hf a g (frees?_eq_some_iff.mpr (Or.inr ht)) hxa hb

end Host

/-- From a chat on, in every run in which the thread of one side gets no other message: the
partner that its disconnect frees stays in no chat with a third client exactly as long as every
step spares the partner, and then the disconnect leaves the chats of others alone. -/
theorem late_disconnects {h : Host} (hs : h.Sound) {t : Nat} {a b : Int} {msg : Msg}
    (ht : h.threads t = some ⟨a, .serving (.tx msg)⟩) (hc : h.registry.Chat a b)
    {ms : List Move} (hms : ∀ p, .thread t (.poll p) ∉ ms) :
    (Everywhere hostStep (Host.FreesOwnChat t) h ms ↔
      EveryStep hostStep (fun h m => m.SparesPartner t h) h ms) ∧
    (EveryStep hostStep (fun h m => m.SparesPartner t h) h ms →
      EveryStep hostStep (fun h m => m.LeavesChats t h) h ms) := by
  have hf := Host.freesOwnChat_of_chat ht hc
  have hsound : ∀ h m h' acts, Host.Sound h → hostStep h m = some (h', acts) → h'.Sound :=
    fun _ _ _ _ hs hstep => hs.step hstep
  have hiff := everywhere_iff_of (E := fun m => ∀ p, m ≠ .thread t (.poll p)) hsound
    (fun h m h' acts hm hs hf hstep => Host.freesOwnChat_step_iff hs hf hm hstep) ms
    (fun m hmem p he => hms p (he ▸ hmem)) hs hf
  refine ⟨hiff, fun hg => ?_⟩
  have hboth := (hiff.mpr hg).and (everywhere_of_inv hsound ms hs)
  exact hboth.everyStep fun h m hI => hI.1.leavesChats hI.2 m

/-- The clients of threads 0 and 1, on 4 and 5, chat; a third one has come, and 4 quits. -/
@[irreducible] def chatEnds : List Move :=
  arrives 0 4 ++ arrives 1 5 ++ arrives 2 6 ++ [tells 0 (asksFor 5)] ++ List.replicate 7 (go 0) ++
    [tells 1 (.ofType .clientAcceptConnection)] ++ List.replicate 9 (go 1) ++ [tells 0 quits]

theorem reachable_chatEnds : Reachable hostStep .boot (afterMoves chatEnds) :=
  ⟨chatEnds, play_final (by decide +kernel)⟩

theorem chat_chatEnds : (afterMoves chatEnds).registry.Chat 4 5 :=
  ⟨by decide +kernel, by decide +kernel, by decide +kernel, by decide +kernel⟩

theorem tx_chatEnds : (afterMoves chatEnds).threads 0 =
    some ⟨4, .serving (.tx (recvInto (.zero _) quits.chunk.bytes).msg)⟩ := by decide +kernel

/-- Both sides of a chat quit at once. -/
theorem disconnects_at_once :
    EveryStep hostStep (fun h m => m.LeavesChats 0 h) (afterMoves chatEnds)
      [go 0, tells 1 quits, go 1, go 0, go 1, go 0, go 1, go 0] :=
  (late_disconnects (Host.sound_of_reachable reachable_chatEnds) tx_chatEnds chat_chatEnds
    (by simp [go, tells])).2 (by decide +kernel)

/-- The partner quits first, is asked by the third client and accepts; then it is freed. -/
theorem new_chat_freed :
    ¬ ∀ (h : Host) (t : Nat) (a b : Int) (msg : Msg) (ms : List Move),
      Reachable hostStep .boot h → h.registry.MutualPairs → h.registry.Chat a b →
      h.threads t = some ⟨a, .serving (.tx msg)⟩ → strcmp msg.buffer.bytes disconnectCmd = 0 →
      (∀ p, .thread t (.poll p) ∉ ms) → EveryStep hostStep (fun h m => m.LeavesChats t h) h ms := by
  intro hall
  have hrun := hall (afterMoves chatEnds) 0 4 5 _
    ([go 0, tells 1 quits] ++ List.replicate 4 (go 1) ++ [tells 2 (asksFor 5)] ++
      List.replicate 7 (go 2) ++ [tells 1 (.ofType .clientAcceptConnection)] ++
      List.replicate 9 (go 1) ++ [go 0])
    reachable_chatEnds (by decide +kernel) chat_chatEnds tx_chatEnds (by decide +kernel)
    (by simp [go, tells])
  have hlast := hrun.last (play_final (by decide +kernel)) (by decide +kernel)
  have hsame := hlast rfl 4 5 (by decide +kernel) 5 (by decide) (by decide +kernel)
    (by decide +kernel)
  have hstatus := hsame.1
  revert hstatus
  decide +kernel

end ChatSocket
