/-
# `Host.Enacts` — every run of the atomic server is one of the process

The other half of what connects the two: for each event of the atomic server there is
a run of the process, with nobody interrupting a handler, that does what the event
does.  A connection is accepted and shown the key; a message comes whole, and its
thread goes on until the handler returns; an end of file is seen, and the node removed.

This is so as long as each connection that comes gets its node, and no handler leaves
the mutex held (`Practicable`): a process that has turned a connection away has its
descriptor still open, and one whose mutex is held does not go on.  The atomic server
knows neither.  Up to this its runs are runs of the process, and what goes wrong in one
goes wrong in the other: `atomic_runs_are_enacted`.
-/
import ChatSocket.Host.Serial

namespace ChatSocket

open Kit Registry

/-- The process can do what the atomic server does. -/
def Event.Practicable (r : Registry) : Event → Prop
  | accepted fd ok => fd < 2 ^ 31 ∧ r.Accepts ok
  | rxMsg fd msg => (rxMsg fd msg).leavesHeld r = false
  | closed _ => True

instance (r : Registry) : DecidablePred (Event.Practicable r)
  | .accepted _ _ => inferInstanceAs (Decidable (_ ∧ _))
  | .rxMsg fd msg => inferInstanceAs (Decidable ((Event.rxMsg fd msg).leavesHeld r = false))
  | .closed _ => inferInstanceAs (Decidable True)

namespace Host

variable {h h' : Host} {m : Move} {acts noted : List Act} {t : Nat} {answer : Answer} {r : Registry}
  {fd : Int}

/-- A run in turn, and what it does. -/
abbrev Does (h : Host) (noted : List Act) (h' : Host) : Prop :=
  Leads hostStep handlerActs InTurn h noted h'

theorem does_step (hd : h.Does noted h') {h'' : Host} (hturn : h'.InTurn m)
    (hs : hostStep h' m = some (h'', acts)) :
    h.Does (noted ++ acts.filter Act.Handled) h'' :=
  hd.step hturn hs

/-- All threads but `t` wait for a message or have exited, and what is open has its thread. -/
structure RestsBut (h : Host) (t : Nat) : Prop where
  sound : h.Sound
  loop : h.loop = .waiting
  running : h.terminate = false
  polls : ∀ t' th, t' ≠ t → h.threads t' = some th → th.stage = .polling ∨ th.stage = .exited
  opened : ∀ g t', t' ≠ t → h.conns g = some t' → h.threads t' = some ⟨g, .polling⟩
  own : ∀ g, h.conns g = some t → ∃ stage, h.threads t = some ⟨g, stage⟩

/-- The process between two events. -/
structure Rests (h : Host) : Prop where
  sound : h.Sound
  loop : h.loop = .waiting
  running : h.terminate = false
  free : h.server.mutexHeld = false
  polls : ∀ t th, h.threads t = some th → th.stage = .polling ∨ th.stage = .exited
  opened : ∀ g t, h.conns g = some t → h.threads t = some ⟨g, .polling⟩

theorem rests_boot : boot.Rests where
  sound := sound_boot
  loop := rfl
  running := rfl
  free := rfl
  polls := fun _ _ ht => by cases ht
  opened := fun _ _ hc => by cases hc

theorem Rests.but (hr : h.Rests) (t : Nat) : h.RestsBut t where
  sound := hr.sound
  loop := hr.loop
  running := hr.running
  polls := fun t' th _ ht => hr.polls t' th ht
  opened := fun g t' _ hc => hr.opened g t' hc
  own := fun g hc => ⟨_, hr.opened g t hc⟩

theorem RestsBut.up (hb : h.RestsBut t) : ¬ h.loop.Shut := by
  rw [hb.loop]
  exact id

theorem RestsBut.othersOut (hb : h.RestsBut t) : h.OthersOut t := by
  intro t' th hne ht
  rcases hb.polls t' th hne ht with hst | hst
  · rw [hst]
    exact id
  · rw [hst]
    exact id

theorem RestsBut.inTurn (hb : h.RestsBut t) (answer : Answer) : h.InTurn (.thread t answer) :=
  ⟨hb.up, fun t' _ hne th ht => hb.othersOut t' th hne ht⟩

/-- The thread goes on, and everybody else stays. -/
theorem RestsBut.step (hb : h.RestsBut t) (hs : hostStep h (.thread t answer) = some (h', acts)) :
    h'.RestsBut t := by
  have hstep := stepped_of_hostStep hs
  have hkept : ∀ {t' : Nat} {th : Thread}, t' ≠ t → h.threads t' = some th →
      h'.threads t' = some th := by
    intro t' th hne ht
    refine threads_kept hb.sound hstep ht fun answer' he => hne ?_
    cases he
    rfl
  have hopen : ∀ {g : Int} {t' : Nat}, h'.conns g = some t' → h.conns g = some t' := by
    intro g t' hc
    rcases conns_step hstep hc with hc | ⟨he, -⟩
    · exact hc
    · cases he
  have hloop : h'.loop = h.loop ∧ h'.terminate = h.terminate := by
    cases hstep with
    | loops hl => cases hl
    | registers | greets | serves | closes | quiet => exact ⟨rfl, rfl⟩
  refine ⟨hb.sound.step hs, hloop.1.trans hb.loop, hloop.2.trans hb.running, ?_, ?_, ?_⟩
  · intro t' th hne ht
    refine forall_threads hstep (P := fun t' th => t' ≠ t → th.stage = .polling ∨ th.stage = .exited)
      ?_ ?_ (fun t' th _ ht hne => hb.polls t' th hne ht) t' th ht hne
    · intro t' fd hl
      rw [hb.loop] at hl
      cases hl
    · intro t' answer' _ _ he _ _ hne
      cases he
      exact absurd rfl hne
  · intro g t' hne hc
    exact hkept hne (hb.opened g t' hne (hopen hc))
  · intro g hc
    obtain ⟨stage, ht⟩ := hb.own g (hopen hc)
    cases hstep with
    | loops hl => cases hl
    | registers hth | greets hth | serves hth | closes hth | quiet hth =>
        cases ht.symm.trans hth
        exact ⟨_, threads_goto_self⟩

theorem RestsBut.polling (hb : h.RestsBut t) (hfree : h.server.mutexHeld = false)
    (ht : h.threads t = some ⟨fd, .polling⟩) : h.Rests := by
  refine ⟨hb.sound, hb.loop, hb.running, hfree, fun t' th ht' => ?_, fun g t' hc => ?_⟩
  · rcases eq_or_ne t' t with rfl | hne
    · cases ht.symm.trans ht'
      exact Or.inl rfl
    · exact hb.polls t' th hne ht'
  · rcases eq_or_ne t' t with rfl | hne
    · obtain ⟨stage, hg⟩ := hb.own g hc
      cases ht.symm.trans hg
      exact ht
    · exact hb.opened g t' hne hc

theorem RestsBut.exited (hb : h.RestsBut t) (hfree : h.server.mutexHeld = false)
    (ht : h.threads t = some ⟨fd, .exited⟩) (hclosed : h.conns fd = none) : h.Rests := by
  refine ⟨hb.sound, hb.loop, hb.running, hfree, fun t' th ht' => ?_, fun g t' hc => ?_⟩
  · rcases eq_or_ne t' t with rfl | hne
    · cases ht.symm.trans ht'
      exact Or.inr rfl
    · exact hb.polls t' th hne ht'
  · rcases eq_or_ne t' t with rfl | hne
    · obtain ⟨stage, hg⟩ := hb.own g hc
      cases ht.symm.trans hg
      rw [hclosed] at hc
      cases hc
    · exact hb.opened g t' hne hc

theorem Rests.up (hr : h.Rests) : ¬ h.loop.Shut := (hr.but 0).up

theorem Rests.allOut (hr : h.Rests) : h.AllOut := by
  intro t th ht
  rcases hr.polls t th ht with hst | hst
  · rw [hst]
    exact id
  · rw [hst]
    exact id

/-- The thread of a client. -/
theorem Rests.thread (hr : h.Rests) (hreg : (h.registry.node fd).isSome) :
    ∃ t, h.conns fd = some t ∧ h.threads t = some ⟨fd, .polling⟩ := by
  obtain ⟨n, hn⟩ := Option.isSome_iff_exists.mp hreg
  obtain ⟨t, th, hc, -⟩ := hr.sound.owner n (look_mem hn)
  obtain rfl : n.fd = fd := look_key hn
  exact ⟨t, hc, hr.opened _ _ hc⟩

/-- A descriptor that no client has is not open. -/
theorem Rests.not_open (hr : h.Rests) (hnone : h.registry.node fd = none) : h.conns fd = none := by
  cases hc : h.conns fd with
  | none => rfl
  | some t =>
      have hreg := hr.sound.registered t _ (hr.opened fd t hc) trivial hr.up
      rw [hnone] at hreg
      cases hreg

/-! ## A connection closes -/

theorem Rests.closes (hr : h.Rests) (hreg : (h.registry.node fd).isSome) :
    ∃ h', h.Does ((closedActs h.registry fd).filter Act.Handled) h' ∧ h'.Rests ∧
      h'.registry = replay h.registry (closedActs h.registry fd) := by
  obtain ⟨t, hc, ht⟩ := hr.thread hreg
  have hs₁ : hostStep h (hangs t) = some (h.goto t ⟨fd, .polling⟩ .closing, []) := by
    simp only [hostStep, hangs, ht, Option.bind_some]
    rfl
  have hb₁ := (hr.but t).step hs₁
  have ht₁ : (h.goto t ⟨fd, .polling⟩ .closing).threads t = some ⟨fd, .closing⟩ := threads_goto_self
  have hs₂ : hostStep (h.goto t ⟨fd, .polling⟩ .closing) (go t)
      = some (((h.goto t ⟨fd, .polling⟩ .closing).perform (closedActs h.registry fd) false).goto t
          ⟨fd, .closing⟩ .exited, closedActs h.registry fd) := by
    simp only [hostStep, go, ht₁, Option.bind_some]
    exact if_neg (by simp [goto, hr.free])
  refine ⟨_, ?_, (hb₁.step hs₂).exited rfl threads_goto_self ?_, rfl⟩
  · exact does_step (does_step .refl ((hr.but t).inTurn _) hs₁) (hb₁.inTurn _) hs₂
  · exact conns_of_closes (stepped_of_hostStep hs₂) ⟨t, _, rfl, ht₁, rfl, rfl⟩ hreg

/-! ## A message comes -/

theorem RestsBut.again (hb : h.RestsBut t) (hfree : h.server.mutexHeld = false)
    (ht : h.threads t = some ⟨fd, .serving .done⟩) :
    ∃ h', hostStep h (go t) = some (h', []) ∧ h'.Rests ∧ h'.registry = h.registry := by
  have hs : hostStep h (go t) = some (h.goto t ⟨fd, .serving .done⟩ .polling, []) := by
    simp only [hostStep, go, ht, Option.bind_some]
    simp [threadStep, Stage.handler?, Stage.quiet, hb.running]
  exact ⟨_, hs, (hb.step hs).polling hfree threads_goto_self, rfl⟩

/-- The handler of `t` goes on until it returns. -/
theorem Handles.returns {h₀ : Host} {e : Event} (k : Nat) :
    ∀ {h : Host} {past : List Act}, h.Handles t fd r e past → h.RestsBut t →
      h₀.Does (past.filter Act.Handled) h →
      play hostStep h (List.replicate k (go t)) = some h' → h'.Returned t →
      h₀.Does ((e.acts r).filter Act.Handled) h' ∧ h'.RestsBut t := by
  induction k with
  | zero =>
      intro h past hd _ _ hplay hret
      cases hplay
      obtain ⟨stage, ht, hin, -⟩ := hd.stage
      rw [Returned, ht] at hret
      cases hret
      exact absurd rfl hin
  | succ k ih =>
      intro h past hd hb hdoes hplay hret
      rw [List.replicate_succ] at hplay
      obtain ⟨⟨h₁, acts⟩, hs, hplay⟩ := Option.bind_eq_some_iff.mp hplay
      have hb₁ := hb.step hs
      have hdoes₁ := does_step hdoes (hb.inTurn _) hs
      rw [← List.filter_append] at hdoes₁
      rcases hd.step (stepped_of_hostStep hs) hb₁.sound with hd₁ | ⟨hall, hbetween, ht₁⟩
      · exact ih hd₁ hb₁ hdoes₁ hplay hret
      · rw [hall] at hdoes₁
        cases k with
        | zero =>
            cases hplay
            exact ⟨hdoes₁, hb₁⟩
        | succ k =>
            -- it would go back to `poll`, and not return once more
            rw [List.replicate_succ] at hplay
            obtain ⟨⟨h₂, acts₂⟩, hs₂, hplay⟩ := Option.bind_eq_some_iff.mp hplay
            obtain ⟨stage, hst, ht₂⟩ := returned_step hs₂ ht₁
            rw [← List.map_replicate] at hplay
            exact absurd hret
              (not_returned_of_play hst _ (hb₁.step hs₂).sound ht₂ hplay)

theorem Rests.hears (hr : h.Rests) {msg : Msg} (hreg : (h.registry.node fd).isSome)
    (hfree : (Event.rxMsg fd msg).leavesHeld h.registry = false) :
    ∃ h', h.Does (((Event.rxMsg fd msg).acts h.registry).filter Act.Handled) h' ∧ h'.Rests ∧
      h'.registry = replay h.registry ((Event.rxMsg fd msg).acts h.registry) := by
  obtain ⟨t, hc, ht⟩ := hr.thread hreg
  have hs₁ : hostStep h (tells t msg) = some (h.goto t ⟨fd, .polling⟩ (.rx msg), []) := by
    simp only [hostStep, tells, ht, Option.bind_some]
    have hrx : Stage.polled (.input (.bytes msg.chunk)) = .rx msg :=
      congrArg Stage.rx (msg_recvInto_image (.zero _) msg (.zero 3))
    show some (h.goto t ⟨fd, .polling⟩ (Stage.polled (.input (.bytes msg.chunk))), []) = _
    rw [hrx]
  have hb₁ := (hr.but t).step hs₁
  have ht₁ : (h.goto t ⟨fd, .polling⟩ (.rx msg)).threads t = some ⟨fd, .rx msg⟩ := threads_goto_self
  have hdoes₁ : h.Does [] (h.goto t ⟨fd, .polling⟩ (.rx msg)) :=
    does_step .refl ((hr.but t).inTurn _) hs₁
  have hfd : fd ≠ invalidFd := hr.sound.fd_ne_invalidFd ht (by simp)
  have hends := ends_rx hfd h.registry msg
  obtain ⟨h₂, hdoes₂, hb₂, ht₂, hserver⟩ : ∃ h₂,
      h.Does (((Event.rxMsg fd msg).acts h.registry).filter Act.Handled) h₂ ∧ h₂.RestsBut t ∧
      h₂.threads t = some ⟨fd, .serving .done⟩ ∧
      h₂.server = ⟨replay h.registry ((Event.rxMsg fd msg).acts h.registry), false⟩ := by
    rcases em (Stage.rx msg).Handling with hin | hout
    · obtain ⟨k, h₂, hplay, hserver, hthreads, -⟩ := play_rx hb₁.sound ht₁ hr.free
      have ht₂ : h₂.threads t = some ⟨fd, .serving .done⟩ := by
        rw [hthreads, Function.update_self]
      have hd : (h.goto t ⟨fd, .polling⟩ (.rx msg)).Handles t fd h.registry (.rxMsg fd msg) [] :=
        ⟨hb₁.sound, hreg, rfl, hb₁.othersOut, _, ht₁, hin, hends⟩
      have hret : h₂.Returned t := by
        rw [Returned, ht₂]
        rfl
      obtain ⟨hdoes, hb₂⟩ := hd.returns k hb₁ hdoes₁ hplay hret
      refine ⟨h₂, hdoes, hb₂, ht₂, ?_⟩
      rw [hserver, ← hfree]
      rfl
    · -- a message that no handler is for
      have hdone : Stage.rx msg = .serving .done := by
        revert hout
        refine rx_cases (P := fun stage => ¬ stage.Handling → stage = .serving .done) msg ?_ ?_
        · exact fun hout => absurd trivial hout
        · exact fun hout => congrArg Stage.serving (not_not.mp hout)
      rw [hdone] at hdoes₁ hb₁ ht₁ hends
      rw [ends_done hends]
      exact ⟨_, hdoes₁, hb₁, ht₁, by rw [← hr.free]; rfl⟩
  obtain ⟨h₃, hs₃, hr₃, hsame⟩ := hb₂.again (by rw [hserver]) ht₂
  refine ⟨h₃, ?_, hr₃, by rw [hsame, registry, hserver]⟩
  have hdoes₃ := does_step hdoes₂ (hb₂.inTurn _) hs₃
  rwa [List.filter_nil, List.append_nil] at hdoes₃

/-! ## A connection is accepted -/

/-- The connection that `calls` brings: its thread is the only new thing. -/
theorem Rests.calls (hr : h.Rests) (h0 : 0 ≤ fd) (hfd : fd < 2 ^ 31)
    (hnone : h.registry.node fd = none)
    (hlt : h.registry.totalAvailableClients.toNat < maxClient) :
    ∃ h', h.Does [] h' ∧ h'.RestsBut h.accepts ∧ h'.server = h.server ∧
      h'.threads h.accepts = some ⟨fd, .starting⟩ := by
  have hfree := hr.not_open hnone
  have hs₁ : hostStep h loopGo = some (h.loopAt .accepting, []) := by
    simp [hostStep, loopGo, loopStep, hr.loop, hr.running]
  have hs₂ : hostStep (h.loopAt .accepting) (.accepts fd)
      = some ({ h.loopAt (.accepted fd) with
          conns := Function.update h.conns fd (some h.accepts)
          accepts := h.accepts + 1 }, []) :=
    if_pos ⟨rfl, h0, hfd, hfree⟩
  generalize hh₂ : { h.loopAt (.accepted fd) with
    conns := Function.update h.conns fd (some h.accepts)
    accepts := h.accepts + 1 } = h₂ at hs₂
  have hs₃ : hostStep h₂ loopGo
      = some (h₂.loopAt (.counted fd h.registry.totalAvailableClients.toNat), []) := by
    subst hh₂
    exact if_neg (by simp [loopAt, hr.free])
  have hs₄ : hostStep (h₂.loopAt (.counted fd h.registry.totalAvailableClients.toNat)) loopGo
      = some ({ h₂.loopAt .waiting with
          threads := Function.update h₂.threads h.accepts (some ⟨fd, .starting⟩) }, []) := by
    subst hh₂
    simp [hostStep, loopGo, loopStep, loopAt, hlt]
  have hsound := ((hr.sound.step hs₁).step hs₂).step hs₃
  refine ⟨_, ?_, ⟨hsound.step hs₄, rfl, ?_, ?_, ?_, ?_⟩, ?_, Function.update_self ..⟩
  · have hd₁ := does_step .refl (h := h) (m := loopGo) hr.up hs₁
    have hd₂ := does_step hd₁ (m := .accepts fd) (by exact id) hs₂
    have hd₃ := does_step hd₂ (m := loopGo) (by subst hh₂; exact id) hs₃
    exact does_step hd₃ (m := loopGo) (by exact id) hs₄
  · subst hh₂
    exact hr.running
  · intro t th hne ht
    replace ht := (Function.update_of_ne hne _ _).symm.trans ht
    subst hh₂
    exact hr.polls t th ht
  · intro g t hne hc
    subst hh₂
    refine (Function.update_of_ne hne _ _).trans (hr.opened g t ?_)
    refine (Function.update_of_ne ?_ _ _).symm.trans hc
    rintro rfl
    exact hne (Option.some.inj (hc.symm.trans (Function.update_self ..)))
  · intro g hc
    subst hh₂
    rcases eq_or_ne g fd with rfl | hne
    · exact ⟨_, Function.update_self ..⟩
    · have hlt := (hr.sound.opened g _ ((Function.update_of_ne hne _ _).symm.trans hc)).1
      exact absurd hlt (Nat.lt_irrefl _)
  · subst hh₂
    rfl

/-- The thread registers its connection, and shows it the key. -/
theorem RestsBut.shakes (hb : h.RestsBut t) (hfree : h.server.mutexHeld = false)
    (ht : h.threads t = some ⟨fd, .starting⟩) {ok : Bool} (hok : h.registry.Accepts ok) :
    ∃ h', h.Does ((registerActs h.registry fd ok).filter Act.Handled) h' ∧ h'.Rests ∧
      h'.registry = replay h.registry (registerActs h.registry fd ok) := by
  have hsucc : (h.registry.addClientNodeToQueue fd ok).1 = .succ := by
    rw [h.registry.addClientNodeToQueue_eq fd hok]
  have hs₁ : hostStep h (.thread t (.malloc ok))
      = some ((h.perform (registerActs h.registry fd ok) false).goto t ⟨fd, .starting⟩ .greeting,
          registerActs h.registry fd ok) := by
    simp [hostStep, ht, threadStep, hfree, hsucc]
  generalize hh₁ : (h.perform (registerActs h.registry fd ok) false).goto t ⟨fd, .starting⟩ .greeting
    = h₁ at hs₁
  have ht₁ : h₁.threads t = some ⟨fd, .greeting⟩ := hh₁ ▸ threads_goto_self
  have hserver₁ : h₁.server = ⟨replay h.registry (registerActs h.registry fd ok), false⟩ := hh₁ ▸ rfl
  have hb₁ := hb.step hs₁
  have hs₂ : hostStep h₁ (.thread t (.sent true))
      = some ((h₁.perform [.sent fd connEstablishReq] h₁.server.mutexHeld).goto t ⟨fd, .greeting⟩
          .awaitingAck, [.sent fd connEstablishReq]) := by
    simp [hostStep, ht₁, threadStep]
  generalize hh₂ : (h₁.perform [.sent fd connEstablishReq] h₁.server.mutexHeld).goto t
    ⟨fd, .greeting⟩ .awaitingAck = h₂ at hs₂
  have ht₂ : h₂.threads t = some ⟨fd, .awaitingAck⟩ := hh₂ ▸ threads_goto_self
  have hserver₂ : h₂.server = h₁.server := hh₂ ▸ rfl
  have hb₂ := hb₁.step hs₂
  have hs₃ : hostStep h₂ (.thread t (.recv (.bytes (Msg.ofType .connEstablishAck).chunk)))
      = some (h₂.goto t ⟨fd, .awaitingAck⟩ (.serving .done), []) := by
    have hacks : Recv.Acks (.bytes (Msg.ofType .connEstablishAck).chunk) := by decide +kernel
    simp [hostStep, ht₂, threadStep, Stage.handler?, Stage.quiet, hacks]
  have hb₃ := hb₂.step hs₃
  have hheld₃ : h₂.server.mutexHeld = false := by rw [hserver₂, hserver₁]
  obtain ⟨h₄, hs₄, hr₄, hsame⟩ := hb₃.again hheld₃ threads_goto_self
  refine ⟨h₄, ?_, hr₄, ?_⟩
  · have hd₁ := does_step .refl (hb.inTurn _) hs₁
    have hd₂ := does_step hd₁ (hb₁.inTurn _) hs₂
    have hd₃ := does_step hd₂ (hb₂.inTurn _) hs₃
    have hd₄ := does_step hd₃ (hb₃.inTurn _) hs₄
    have hnone : [Act.sent fd connEstablishReq].filter Act.Handled = [] := by
      simp [Act.Handled, connEstablishReq]
    simpa [hnone] using hd₄
  · rw [hsame]
    show h₂.server.registry = _
    rw [hserver₂, hserver₁]

/-- Each event the process can do, it does. -/
theorem Rests.does (hr : h.Rests) {e : Event} {r' : Registry}
    (hp : e.Practicable h.registry) (he : atomicStep h.registry e = some (r', acts)) :
    ∃ h', h.Does (acts.filter Act.Handled) h' ∧ h'.Rests ∧ h'.registry = r' := by
  obtain ⟨hpossible, rfl, rfl⟩ := atomicStep_eq_some_iff.mp he
  cases e with
  | accepted fd ok =>
      obtain ⟨h₁, hcalls, hb, hserver, ht⟩ := hr.calls hpossible.1 hp.1 hpossible.2 hp.2.1
      have hsame : h₁.registry = h.registry := by rw [registry, hserver]
      obtain ⟨h₂, hshakes, hr₂, hreg⟩ := hb.shakes (by rw [hserver, hr.free]) ht (hsame ▸ hp.2)
      rw [hsame] at hshakes hreg
      exact ⟨h₂, hcalls.trans hshakes, hr₂, hreg⟩
  | rxMsg fd msg => exact hr.hears hpossible hp
  | closed fd => exact hr.closes hpossible

end Host

/-- Every run of the atomic server whose events are practicable is one of the process, in which
nobody interrupts a handler, and which does the same and ends where nobody is in one. -/
theorem atomic_runs_are_enacted {es : List Event} {r : Registry}
    (hp : EveryStep atomicStep Event.Practicable .empty es)
    (hplay : play atomicStep .empty es = some r) :
    ∃ ms h, play hostStep .boot ms = some h ∧ EveryStep hostStep Host.InTurn .boot ms ∧
      h.registry = r ∧ h.AllOut ∧
      gather hostStep handlerActs .boot ms = gather atomicStep handlerActs .empty es := by
  have hevent : ∀ {h : Host} {r : Registry} {e : Event} {r' : Registry} {acts : List Act},
      h.Rests ∧ h.registry = r → e.Practicable r → atomicStep r e = some (r', acts) →
      ∃ h', Leads hostStep handlerActs Host.InTurn h (handlerActs r e acts) h' ∧
        h'.Rests ∧ h'.registry = r' := by
    rintro h _ e r' acts ⟨hr, rfl⟩ hp he
    exact hr.does hp he
  obtain ⟨h, hleads, hr, hreg⟩ := leads_of_events hevent es ⟨Host.rests_boot, rfl⟩ hp hplay
  obtain ⟨ms, hms, hturn, hsame⟩ := hleads.exists_play
  exact ⟨ms, h, hms, hturn, hreg, hr.allOut, hsame⟩

/-- 4 and 5 come, chat, and 5 goes. -/
@[irreducible] def aWholeChat : List Event :=
  [.accepted 4 true, .accepted 5 true, .rxMsg 4 (asksFor 5),
   .rxMsg 5 (.ofType .clientAcceptConnection), .rxMsg 4 (.withText .clientTxType (ascii "hi")),
   .closed 5]

theorem aWholeChat_is_enacted :
    ∃ ms h, play hostStep .boot ms = some h ∧ EveryStep hostStep Host.InTurn .boot ms ∧
      h.registry = final atomicStep .empty aWholeChat ∧ h.AllOut ∧
      gather hostStep handlerActs .boot ms = gather atomicStep handlerActs .empty aWholeChat :=
  atomic_runs_are_enacted (by decide +kernel) (play_final (by decide +kernel))

end ChatSocket
