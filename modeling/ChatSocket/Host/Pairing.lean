/-
# `Host.Pairing` — an acceptance is announced, or it is not

`handle_conn_accept` makes the two clients BUSY and links them in one section,
and looks at their names afterwards.  If one of the names is `UNDEF_NAME` it
returns, and nobody is told.  The peer's name is that if the peer had gone when
the two were made BUSY, or if somebody bears it.

A `Call` is what a handler does while anything else happens: the steps it makes,
each with the registry it finds.  They follow the points of the handler
(`HandlerPath`), and whatever others do in between, `accept_all_or_nothing` is a
matter of the names that are looked at.
-/
import ChatSocket.Host.Claims
import ChatSocket.Host.Together
import ChatSocket.Server.Conversation

namespace ChatSocket

open Kit Registry

/-! ## The steps of a call -/

/-- A step of a handler: the registry it finds, and the point it is made from. -/
abbrev HandlerStep := Registry × Point

/-- The steps of a handler from a point to its return, with any registry at each of them. -/
def HandlerPath (fd : Int) : Point → List HandlerStep → Prop
  | p, [] => p = .done
  | p, (r, q) :: steps => q = p ∧ p ≠ .done ∧ HandlerPath fd (p.next fd r) steps

/-- What the steps do. -/
def actsOf (fd : Int) (steps : List HandlerStep) : List Act :=
  steps.flatMap fun s => s.2.acts fd s.1

/-- The steps make a client BUSY that was not. -/
def MakesBusy (fd : Int) (steps : List HandlerStep) (x : Int) : Prop :=
  ∃ s ∈ steps, .wrote (.status x .busy) ∈ s.2.acts fd s.1 ∧ (s.1.node x).isSome ∧
    s.1.getClientChattingStatusByFd x ≠ .busy

instance (fd : Int) (steps : List HandlerStep) (x : Int) : Decidable (MakesBusy fd steps x) :=
  inferInstanceAs (Decidable (∃ s ∈ steps, _))

/-- Both sides are told, or nobody is left BUSY who was made so. -/
def AllOrNothing (fd : Int) (steps : List HandlerStep) (after : Registry) : Prop :=
  (∃ r my conn, (r, .accept) ∈ steps ∧
      .sent fd (.withText .clientChatReady conn) ∈ actsOf fd steps ∧
      .sent (r.getConnFdByFd fd) (.withText .clientAcceptConnectionAck my) ∈ actsOf fd steps) ∨
    ∀ x, MakesBusy fd steps x → after.getClientChattingStatusByFd x ≠ .busy

/-- Where the handler looks at a name, it is not `UNDEF_NAME`. -/
def Point.NamesMet (r : Registry) : Point → Prop
  | checkConn _ connName _ => strcmp (r.strAt connName) undefName ≠ 0
  | checkMine _ _ myName => strcmp (r.strAt myName) undefName ≠ 0
  | _ => True

/-- Both are made BUSY, and nobody is told. -/
def PairedSilently (fd : Int) (steps : List HandlerStep) : Prop :=
  (∃ peer, .wrote (.status fd .busy) ∈ actsOf fd steps ∧
      .wrote (.status peer .busy) ∈ actsOf fd steps) ∧
    ∀ g msg, .sent g msg ∉ actsOf fd steps

section
variable {fd : Int} {p : Point} {steps : List HandlerStep}

theorem HandlerPath.done (h : HandlerPath fd .done steps) : steps = [] := by
  cases steps with
  | nil => rfl
  | cons s steps => exact absurd rfl h.2.1

/-- The first step of a handler that has not returned. -/
theorem HandlerPath.first (h : HandlerPath fd p steps) (hp : p ≠ .done) :
    ∃ r rest, steps = (r, p) :: rest ∧ HandlerPath fd (p.next fd r) rest := by
  cases steps with
  | nil => exact absurd h hp
  | cons s steps =>
      obtain ⟨r, q⟩ := s
      obtain ⟨rfl, -, hrest⟩ := h
      exact ⟨r, steps, rfl, hrest⟩

theorem HandlerPath.reply {msg : Msg} (h : HandlerPath fd (.reply msg) steps) :
    ∃ r, steps = [(r, .reply msg)] := by
  obtain ⟨r, rest, rfl, hrest⟩ := h.first (by simp)
  exact ⟨r, by rw [hrest.done]⟩

theorem HandlerPath.refuse {connName : CharPtr} (h : HandlerPath fd (.refuse connName) steps) :
    ∃ r₁ r₂ r₃ msg,
      steps = [(r₁, .refuse connName), (r₂, .copyRefused connName), (r₃, .reply msg)] := by
  obtain ⟨r₁, _, rfl, h₁⟩ := h.first (by simp)
  obtain ⟨r₂, _, rfl, h₂⟩ := h₁.first (by simp [Point.next])
  obtain ⟨r₃, rfl⟩ := h₂.reply
  exact ⟨r₁, r₂, r₃, _, rfl⟩

/-- The two are told, once the names have been looked at. -/
theorem HandlerPath.copyMine {peer : Int} {connName myName : CharPtr}
    (h : HandlerPath fd (.copyMine peer connName myName) steps) :
    (∃ my conn, .sent fd (.withText .clientChatReady conn) ∈ actsOf fd steps ∧
      .sent peer (.withText .clientAcceptConnectionAck my) ∈ actsOf fd steps) ∧
      ∀ s ∈ steps, s.2.NamesMet s.1 := by
  obtain ⟨r₁, _, rfl, h₁⟩ := h.first (by simp)
  obtain ⟨r₂, _, rfl, h₂⟩ := h₁.first (by simp [Point.next])
  obtain ⟨r₃, _, rfl, h₃⟩ := h₂.first (by simp [Point.next])
  obtain ⟨r₄, _, rfl, h₄⟩ := h₃.first (by simp [Point.next])
  obtain rfl := h₄.done
  exact ⟨⟨r₁.strAt myName, r₂.strAt connName, by simp [actsOf, Point.acts, Point.next],
    by simp [actsOf, Point.acts, Point.next]⟩, by simp [Point.NamesMet, Point.next]⟩

/-- After the names have been looked at, both are told or nobody is. -/
theorem HandlerPath.checkConn {peer : Int} {connName myName : CharPtr}
    (h : HandlerPath fd (.checkConn peer connName myName) steps) :
    ((∀ s ∈ steps, s.2.NamesMet s.1) ∧
      ∃ my conn, .sent fd (.withText .clientChatReady conn) ∈ actsOf fd steps ∧
        .sent peer (.withText .clientAcceptConnectionAck my) ∈ actsOf fd steps) ∨
    (¬ (∀ s ∈ steps, s.2.NamesMet s.1) ∧ actsOf fd steps = []) := by
  obtain ⟨r₁, rest₁, rfl, h₁⟩ := h.first (by simp)
  by_cases hconn : strcmp (r₁.strAt connName) undefName = 0
  · have hnext : Point.next fd r₁ (.checkConn peer connName myName) = .done := if_pos hconn
    rw [hnext] at h₁
    obtain rfl := h₁.done
    exact Or.inr ⟨fun hmet => hmet _ List.mem_cons_self hconn, rfl⟩
  have hnext : Point.next fd r₁ (.checkConn peer connName myName)
      = .checkMine peer connName myName := if_neg hconn
  rw [hnext] at h₁
  obtain ⟨r₂, rest₂, rfl, h₂⟩ := h₁.first (by simp)
  by_cases hmine : strcmp (r₂.strAt myName) undefName = 0
  · have hnext : Point.next fd r₂ (.checkMine peer connName myName) = .done := if_pos hmine
    rw [hnext] at h₂
    obtain rfl := h₂.done
    exact Or.inr ⟨fun hmet => hmet _ (List.mem_cons_of_mem _ List.mem_cons_self) hmine, rfl⟩
  have hnext : Point.next fd r₂ (.checkMine peer connName myName)
      = .copyMine peer connName myName := if_neg hmine
  rw [hnext] at h₂
  obtain ⟨htold, hmet⟩ := h₂.copyMine
  refine Or.inl ⟨?_, htold⟩
  exact List.forall_mem_cons.mpr ⟨hconn, List.forall_mem_cons.mpr ⟨hmine, hmet⟩⟩

/-- Steps that make nobody BUSY. -/
theorem allOrNothing_of_quiet {after : Registry}
    (h : ∀ x, .wrote (.status x .busy) ∉ actsOf fd steps) : AllOrNothing fd steps after := by
  refine Or.inr fun x hx => ?_
  obtain ⟨s, hs, hw, -⟩ := hx
  exact absurd (List.mem_flatMap.mpr ⟨s, hs, hw⟩) (h x)

/-- Where an acceptance goes on: it is over after an answer, or the two are paired. -/
theorem Point.next_accept_cases (fd : Int) (r : Registry) :
    Point.next fd r .accept = .done ∨ (∃ msg, Point.next fd r .accept = .reply msg) ∨
      (∃ connName, Point.next fd r .accept = .refuse connName) ∨
      Point.next fd r .accept = .pair (r.getConnFdByFd fd) := by
  simp only [Point.next]
  split
  · exact Or.inl rfl
  split
  · exact Or.inr (Or.inl ⟨_, rfl⟩)
  split
  · exact Or.inr (Or.inr (Or.inl ⟨_, rfl⟩))
  split
  · exact Or.inr (Or.inl ⟨_, rfl⟩)
  · exact Or.inr (Or.inr (Or.inr rfl))

theorem Point.not_busy_accept (r : Registry) (x : Int) :
    .wrote (.status x .busy) ∉ Point.acts fd r .accept := by
  simp only [Point.acts]
  split <;> simp

theorem Point.not_sent_accept (r : Registry) (g : Int) (msg : Msg) :
    .sent g msg ∉ Point.acts fd r .accept := by
  simp only [Point.acts]
  split <;> simp

/-- A whole acceptance. -/
theorem HandlerPath.accept (h : HandlerPath fd .accept steps) (after : Registry) :
    ((∀ s ∈ steps, s.2.NamesMet s.1) ∧ AllOrNothing fd steps after) ∨
      (¬ (∀ s ∈ steps, s.2.NamesMet s.1) ∧ PairedSilently fd steps) := by
  obtain ⟨r, rest, rfl, hrest⟩ := h.first (by simp)
  have hquiet : (∀ s ∈ rest, s.2.NamesMet s.1) →
      (∀ x, .wrote (.status x .busy) ∉ actsOf fd rest) →
      (∀ s ∈ (r, Point.accept) :: rest, s.2.NamesMet s.1) ∧
        AllOrNothing fd ((r, .accept) :: rest) after := by
    intro hmet hbusy
    refine ⟨List.forall_mem_cons.mpr ⟨trivial, hmet⟩, allOrNothing_of_quiet fun x hx => ?_⟩
    rcases List.mem_append.mp hx with hx | hx
    · exact Point.not_busy_accept r x hx
    · exact hbusy x hx
  rcases Point.next_accept_cases fd r with hn | ⟨msg, hn⟩ | ⟨connName, hn⟩ | hn
  · rw [hn] at hrest
    obtain rfl := hrest.done
    exact Or.inl (hquiet (List.forall_mem_nil _) fun _ => List.not_mem_nil)
  · rw [hn] at hrest
    obtain ⟨r₁, rfl⟩ := hrest.reply
    exact Or.inl (hquiet (by simp [Point.NamesMet]) (by simp [actsOf, Point.acts]))
  · rw [hn] at hrest
    obtain ⟨r₁, r₂, r₃, msg, rfl⟩ := hrest.refuse
    exact Or.inl (hquiet (by simp [Point.NamesMet]) (by simp [actsOf, Point.acts]))
  · rw [hn] at hrest
    obtain ⟨r₁, rest₁, rfl, h₁⟩ := hrest.first (by simp)
    rcases HandlerPath.checkConn h₁ with ⟨hmet, my, conn, hready, hack⟩ | ⟨hunmet, hsilent⟩
    · refine Or.inl ⟨?_, Or.inl ⟨r, my, conn, List.mem_cons_self, ?_, ?_⟩⟩
      · exact List.forall_mem_cons.mpr ⟨trivial, List.forall_mem_cons.mpr ⟨trivial, hmet⟩⟩
      · exact List.mem_append_right _ (List.mem_append_right _ hready)
      · exact List.mem_append_right _ (List.mem_append_right _ hack)
    · refine Or.inr ⟨fun hmet => hunmet ?_, ⟨r.getConnFdByFd fd, ?_, ?_⟩, ?_⟩
      · exact fun s hs => hmet s (List.mem_cons_of_mem _ (List.mem_cons_of_mem _ hs))
      · exact List.mem_append_right _ (List.mem_append_left _ (by simp [Point.acts]))
      · exact List.mem_append_right _ (List.mem_append_left _ (by simp [Point.acts]))
      · intro g msg hsent
        rcases List.mem_append.mp hsent with hsent | hsent
        · exact Point.not_sent_accept r g msg hsent
        rcases List.mem_append.mp hsent with hsent | hsent
        · simp [Point.acts] at hsent
        · have hnone : .sent g msg ∈ actsOf fd rest₁ := hsent
          rw [hsilent] at hnone
          cases hnone

end

/-! ## A call in a run -/

namespace Host

/-- The handler that a thread is in, if it is in one. -/
def point? (h : Host) (t : Nat) : Option Point :=
  (h.threads t).bind fun th =>
    match th.stage with
    | .serving p => some p
    | _ => none

/-- A run that ends as the handler of `t` returns, and the steps that this has made. -/
def call (t : Nat) : Host → List Move → Option (Host × List HandlerStep)
  | h, [] => if h.point? t = some .done then some (h, []) else none
  | h, m :: ms =>
      (h.point? t).bind fun p =>
        if p = .done then none
        else (hostStep h m).bind fun q => (call t q.1 ms).map fun c =>
          if m.thread? = some t then (c.1, (h.registry, p) :: c.2) else c

/-- Whatever others do, the steps follow the points of the handler. -/
theorem path_of_call {t : Nat} {fd : Int} {h' : Host} : ∀ (ms : List Move) {h : Host} {p : Point}
    {steps : List HandlerStep}, h.Sound → h.threads t = some ⟨fd, .serving p⟩ →
    call t h ms = some (h', steps) → HandlerPath fd p steps
  | [], h, p, steps, _, ht, hcall => by
      have hpoint : h.point? t = some p := by
        rw [point?, ht]
        rfl
      rw [call, hpoint] at hcall
      split at hcall
      · next hp =>
          cases hcall
          exact Option.some.inj hp
      · cases hcall
  | m :: ms, h, p, steps, hs, ht, hcall => by
      have hpoint : h.point? t = some p := by
        rw [point?, ht]
        rfl
      rw [call, hpoint, Option.bind_some] at hcall
      split at hcall
      · cases hcall
      next hp =>
      obtain ⟨⟨h₁, acts⟩, hstep, hrest⟩ := Option.bind_eq_some_iff.mp hcall
      obtain ⟨⟨h₂, rest⟩, hcall, he⟩ := Option.map_eq_some_iff.mp hrest
      have hs₁ := hs.step hstep
      have hstepped := stepped_of_hostStep hstep
      split at he
      · next hm =>
          -- its own step
          cases he
          obtain ⟨answer, rfl⟩ : ∃ answer, m = .thread t answer := by
            cases m with
            | thread t' answer =>
                cases hm
                exact ⟨answer, rfl⟩
            | _ => cases hm
          obtain ⟨-, -, rfl⟩ := serving_step hstepped ht hp
          exact ⟨rfl, hp, path_of_call ms hs₁ threads_serve_self hcall⟩
      · next hm =>
          -- a step of somebody else
          cases he
          have ht₁ := threads_kept hs hstepped ht fun answer hq => hm (hq ▸ rfl)
          exact path_of_call ms hs₁ ht₁ hcall

end Host

/-- In any run, whatever other threads do beside it, a call of `handle_conn_accept` tells both
sides or leaves nobody BUSY whom it made so, if it meets no `UNDEF_NAME` where it looks at the two
names; if it does meet one, it has made both BUSY and tells nobody. -/
theorem accept_all_or_nothing {h h' : Host} {t : Nat} {fd : Int} {ms : List Move}
    {steps : List HandlerStep} (hr : Reachable hostStep .boot h)
    (ht : h.threads t = some ⟨fd, .serving .accept⟩) (hcall : Host.call t h ms = some (h', steps)) :
    ((∀ s ∈ steps, s.2.NamesMet s.1) → AllOrNothing fd steps h'.registry) ∧
      (¬ (∀ s ∈ steps, s.2.NamesMet s.1) → PairedSilently fd steps) := by
  have hpath := Host.path_of_call ms (Host.sound_of_reachable hr) ht hcall
  rcases hpath.accept h'.registry with ⟨hmet, hall⟩ | ⟨hunmet, hsilent⟩
  · exact ⟨fun _ => hall, fun hunmet => absurd hmet hunmet⟩
  · exact ⟨fun hmet => absurd hmet hunmet, fun _ => hsilent⟩

/-- 4 has asked 5, and 5 has accepted: its handler starts. -/
@[irreducible] def acceptStarts : List Move :=
  arrives 0 4 ++ arrives 1 5 ++ [tells 0 (asksFor 5)] ++ List.replicate 7 (go 0) ++
    [tells 1 (.ofType .clientAcceptConnection)]

/-- What the handler of 5 does in a run, and the process then. -/
def acceptCall (ms : List Move) : Host × List HandlerStep :=
  (Host.call 1 (afterMoves acceptStarts) ms).getD (.boot, [])

theorem acceptCall_eq {ms : List Move} (h : (Host.call 1 (afterMoves acceptStarts) ms).isSome) :
    Host.call 1 (afterMoves acceptStarts) ms = some (acceptCall ms) := by
  obtain ⟨c, hc⟩ := Option.isSome_iff_exists.mp h
  rw [acceptCall, hc]
  rfl

/-- 5 is not interrupted. -/
theorem accept_alone :
    ((∀ s ∈ (acceptCall (List.replicate 8 (go 1))).2, s.2.NamesMet s.1) →
      AllOrNothing 5 (acceptCall (List.replicate 8 (go 1))).2
        (acceptCall (List.replicate 8 (go 1))).1.registry) ∧
    (¬ (∀ s ∈ (acceptCall (List.replicate 8 (go 1))).2, s.2.NamesMet s.1) →
      PairedSilently 5 (acceptCall (List.replicate 8 (go 1))).2) :=
  accept_all_or_nothing ⟨acceptStarts, play_final (by decide +kernel)⟩ (by decide +kernel)
    (acceptCall_eq (by decide +kernel))

/-- 4 hangs up after 5 has found it, and before 5 pairs the two. -/
def leavesBetween : List Move := [go 1, hangs 0, go 0, go 1, go 1]

theorem accept_after_leave_pairs_silently :
    Reachable hostStep .boot (afterMoves acceptStarts) ∧
      (afterMoves acceptStarts).threads 1 = some ⟨5, .serving .accept⟩ ∧
      Host.call 1 (afterMoves acceptStarts) leavesBetween = some (acceptCall leavesBetween) ∧
      ¬ AllOrNothing 5 (acceptCall leavesBetween).2 (acceptCall leavesBetween).1.registry := by
  refine ⟨⟨acceptStarts, play_final (by decide +kernel)⟩, by decide +kernel,
    acceptCall_eq (by decide +kernel), ?_⟩
  have hnone : sentTo 5 (actsOf 5 (acceptCall leavesBetween).2) = [] := by decide +kernel
  have hmade : MakesBusy 5 (acceptCall leavesBetween).2 5 := by decide +kernel
  have hbusy : (acceptCall leavesBetween).1.registry.getClientChattingStatusByFd 5 = .busy := by
    decide +kernel
  rintro (⟨r, my, conn, -, hready, -⟩ | hnothing)
  · have htold : Msg.withText .clientChatReady conn ∈
        sentTo 5 (actsOf 5 (acceptCall leavesBetween).2) :=
      List.mem_filterMap.mpr ⟨_, hready, if_pos rfl⟩
    rw [hnone] at htold
    cases htold
  · exact hnothing 5 hmade hbusy

end ChatSocket
