/-
# `Host.Together` — handlers beside one another, and nobody else

Some handlers are under way at once, those of the threads `ts`, and nothing else
happens: a schedule says which of them makes its next step.  `together` is the
rule for such runs.  What every step of one of the handlers keeps holds when all
of them have returned; a thread that has returned may not go on, or it would be
waiting for its next message in the end.

A step of a handler leaves the status and the link of every client alone but its
own and its target's (`Server.Sections`), and is heard by nobody but its own
client and its peer (`written_serve`).
-/
import ChatSocket.Host.Traced

namespace ChatSocket

open Kit Registry

namespace Host

variable {h h' : Host} {t : Nat} {fd : Int} {p : Point}

/-- The process after the next step of the handler of `t`, which is at `p`. -/
def serve (h : Host) (t : Nat) (fd : Int) (p : Point) : Host :=
  (h.perform (p.acts fd h.registry)
    (if p.locks then p.leavesHeld fd h.registry else h.server.mutexHeld)).goto t
      ⟨fd, .serving p⟩ (.serving (p.next fd h.registry))

/-- The handler of the thread has returned. -/
def Returned (h : Host) (t : Nat) : Prop := (h.threads t).map Thread.stage = some (.serving .done)

instance (h : Host) (t : Nat) : Decidable (h.Returned t) := inferInstanceAs (Decidable (_ = _))

theorem Returned.point (hret : h.Returned t) (ht : h.threads t = some ⟨fd, .serving p⟩) :
    p = .done := by
  rw [Returned, ht] at hret
  cases hret
  rfl

theorem registry_serve : (h.serve t fd p).registry = replay h.registry (p.acts fd h.registry) := rfl

theorem conns_serve : (h.serve t fd p).conns = h.conns := by
  rw [serve, conns_goto]
  exact conns_perform_of_inner (Point.inner_acts fd h.registry p) _

theorem threads_serve_self :
    (h.serve t fd p).threads t = some ⟨fd, .serving (p.next fd h.registry)⟩ :=
  threads_goto.trans (if_pos rfl)

theorem threads_serve_other {t' : Nat} (ht : t' ≠ t) : (h.serve t fd p).threads t' = h.threads t' :=
  threads_goto.trans (if_neg ht)

theorem written_serve (h : Host) (t : Nat) (fd : Int) (p : Point) (c : Nat) :
    (h.serve t fd p).written c = h.written c ++ msgsOn h.conns c (p.acts fd h.registry) := rfl

/-- Others hear nothing. -/
theorem written_serve_other {c : Nat} (hown : h.conns fd ≠ some c)
    (hpeer : ∀ g, p.peer? = some g → h.conns g ≠ some c) :
    (h.serve t fd p).written c = h.written c := by
  rw [written_serve, List.append_right_eq_self, List.eq_nil_iff_forall_not_mem]
  intro msg hmsg
  obtain ⟨g, hg, hc⟩ := mem_msgsOn.mp hmsg
  rcases Point.mem_sent hg with rfl | hp
  · exact hown hc
  · exact hpeer g hp hc

/-- A thread whose handler has returned goes on to wait for a message, or ends. -/
theorem returned_step {acts : List Act} (hstep : hostStep h (go t) = some (h', acts))
    (ht : h.threads t = some ⟨fd, .serving .done⟩) :
    ∃ stage, (stage = .polling ∨ stage = .exited) ∧ h'.threads t = some ⟨fd, stage⟩ := by
  cases stepped_of_hostStep hstep with
  | loops hl => cases hl
  | serves hth hst hdone =>
      rw [ht] at hth
      cases hth
      cases hst
      exact absurd rfl hdone
  | closes hth hst =>
      rw [ht] at hth
      cases hth
      cases hst
  | quiet hth hq =>
      rw [ht] at hth
      cases hth
      cases hq with
      | stops => exact ⟨_, Or.inr rfl, threads_goto.trans (if_pos rfl)⟩
      | polls => exact ⟨_, Or.inl rfl, threads_goto.trans (if_pos rfl)⟩

/-- It never comes back to its handler by itself. -/
theorem not_returned_of_play {stage : Stage} (hst : stage = .polling ∨ stage = .exited) :
    ∀ (sched : List Nat) {h : Host}, h.Sound → h.threads t = some ⟨fd, stage⟩ →
      play hostStep h (sched.map go) = some h' → ¬ h'.Returned t
  | [], h, _, ht, hplay => by
      cases hplay
      rw [Returned, ht]
      rcases hst with rfl | rfl <;> simp
  | t' :: sched, h, hs, ht, hplay => by
      obtain ⟨⟨h₁, acts⟩, hstep, hplay⟩ := Option.bind_eq_some_iff.mp hplay
      have htt : t' ≠ t := by
        rintro rfl
        cases stepped_of_hostStep hstep with
        | loops hl => cases hl
        | serves hth hq | closes hth hq | quiet hth hq =>
            rw [ht] at hth
            cases hth
            rcases hst with rfl | rfl <;> cases hq
      have hkept : h₁.threads t = some ⟨fd, stage⟩ := by
        refine threads_kept hs (stepped_of_hostStep hstep) ht fun answer he => htt ?_
        cases he
        rfl
      exact not_returned_of_play hst sched (hs.step hstep) hkept hplay

/-- The first step of a schedule. -/
theorem play_serve {sched : List Nat} (ht : h.threads t = some ⟨fd, .serving p⟩) (hp : p ≠ .done)
    (hs : h.Sound) (hplay : play hostStep h ((t :: sched).map go) = some h') :
    (h.serve t fd p).Sound ∧ play hostStep (h.serve t fd p) (sched.map go) = some h' := by
  obtain ⟨⟨h₁, acts⟩, hgo, hplay⟩ := Option.bind_eq_some_iff.mp hplay
  have hs₁ := hs.step hgo
  obtain ⟨-, -, rfl⟩ := serving_step (stepped_of_hostStep hgo) ht hp
  exact ⟨hs₁, hplay⟩

/-- What the steps of the handlers of `ts` keep holds when all of them have returned. -/
theorem together {ts : List Nat} {I : Host → Prop}
    (hat : ∀ h, I h → ∀ t ∈ ts, ∃ fd p, h.threads t = some ⟨fd, .serving p⟩)
    (hstep : ∀ h t fd p, h.Sound → I h → t ∈ ts → h.threads t = some ⟨fd, .serving p⟩ →
      p ≠ .done → I (h.serve t fd p)) :
    ∀ (sched : List Nat) {h : Host}, h.Sound → I h → (∀ t ∈ sched, t ∈ ts) →
      play hostStep h (sched.map go) = some h' → (∀ t ∈ ts, h'.Returned t) → h'.Sound ∧ I h'
  | [], h, hs, hI, _, hplay, _ => by
      cases hplay
      exact ⟨hs, hI⟩
  | t :: sched, h, hs, hI, hsched, hplay, hret => by
      obtain ⟨hts, hsched⟩ := List.forall_mem_cons.mp hsched
      obtain ⟨fd, p, ht⟩ := hat h hI t hts
      rcases eq_or_ne p .done with rfl | hp
      · obtain ⟨⟨h₁, acts⟩, hgo, hplay⟩ := Option.bind_eq_some_iff.mp hplay
        obtain ⟨stage, hst, ht₁⟩ := returned_step hgo ht
        exact absurd (hret t hts) (not_returned_of_play hst sched (hs.step hgo) ht₁ hplay)
      · obtain ⟨hs₁, hplay⟩ := play_serve ht hp hs hplay
        exact together hat hstep sched hs₁ (hstep h t fd p hs hI hts ht hp) hsched hplay hret

/-- Before handlers of two steps or more have all returned, two steps are made at least. -/
theorem two_steps {ts : List Nat} (hs : h.Sound) (hne : ts ≠ [])
    (hfirst : ∀ t ∈ ts, ∃ fd p p', h.threads t = some ⟨fd, .serving p⟩ ∧ p ≠ .done ∧
      (h.serve t fd p).threads t = some ⟨fd, .serving p'⟩ ∧ p' ≠ .done) {sched : List Nat}
    (hsched : ∀ t ∈ sched, t ∈ ts) (hplay : play hostStep h (sched.map go) = some h')
    (hret : ∀ t ∈ ts, h'.Returned t) : ∃ b b' rest, sched = b :: b' :: rest := by
  match sched with
  | [] =>
      obtain ⟨t, ht⟩ := List.exists_mem_of_ne_nil _ hne
      obtain ⟨fd, p, p', hth, hp, -⟩ := hfirst t ht
      cases hplay
      exact absurd ((hret t ht).point hth) hp
  | [b] =>
      have hb := hsched b List.mem_cons_self
      obtain ⟨fd, p, p', hth, hp, hth', hp'⟩ := hfirst b hb
      obtain ⟨-, hplay⟩ := play_serve hth hp hs hplay
      cases hplay
      exact absurd ((hret b hb).point hth') hp'
  | b :: b' :: rest => exact ⟨b, b', rest, rfl⟩

end Host

end ChatSocket
