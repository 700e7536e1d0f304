/-
# `Network.Agreement` — do client and server agree?

`Agrees` is what is wanted: once no message is on its way, a client's two flags
say what the server's status for it says.  The invariant behind it is
`Followed`: of every connection whose client is still there, the client
`Tracks` its party, with the messages that are on their way taken into account.

What users type and what arrives never breaks the invariant.  Only the server
can, in handling an answer or a farewell: the client may have sent it before it
heard of a newer request or chat, the link may lead elsewhere by now, or the
server may forget to tell.  `ServesRight` is when it does not.
-/
import ChatSocket.Network.Basic

namespace ChatSocket

open Kit Registry

/-! ## The property -/

/-- No message is on its way. -/
def Network.Quiet (s : Network) : Prop := ∀ c ∈ s.conns, c.up = [] ∧ c.down = []

/-- Once no message is on its way, the flags of every connected client are its status. -/
def Network.Agrees (s : Network) : Prop :=
  s.Quiet → ∀ fd c, s.conn fd = some c → c.hungUp = false →
    (c.client.busyInChat = true ↔ s.registry.getClientChattingStatusByFd fd = .busy) ∧
    (c.client.connRequestRx = true ↔ s.registry.getClientChattingStatusByFd fd = .reqPending)

/-! ## The condition -/

/-- What the client believes when all messages for it have arrived. -/
def Conn.settled (c : Conn) : Flags := settle c.client.flags c.down

/-- A client that is still there will believe itself idle. -/
def Conn.WillBeIdle (c : Conn) : Prop := c.hungUp = false → c.settled = .idle

instance : DecidablePred Network.Quiet := fun s =>
  inferInstanceAs (Decidable (∀ c ∈ s.conns, c.up = [] ∧ c.down = []))

/-- An acceptance of a client with a link: whom it leads to is gone, and the client will believe
itself idle; or it is BUSY, and the client is told; or the two become BUSY, both are told, and the
client was not asked anew. -/
def AcceptsRight (r : Registry) (c : Conn) : Prop :=
  (r.Unnamed (r.getConnFdByFd c.fd) → c.WillBeIdle) ∧
  (¬ r.Unnamed (r.getConnFdByFd c.fd) →
    r.getClientChattingStatusByFd (r.getConnFdByFd c.fd) ≠ .busy →
    (r.getClientChattingStatusByFd c.fd = .reqPending → ¬ r.Unnamed c.fd) ∧
    (c.hungUp = false → r.getClientChattingStatusByFd c.fd = .busy ∨
      r.getClientChattingStatusByFd c.fd = .reqPending ∧ c.settled.asked = false))

/-- The server handles an answer or a farewell that is up to date. -/
def ServesRight (r : Registry) (c : Conn) (msg : Msg) : Prop :=
  (msg.msgType = .clientDeclineConnection →
    r.getClientChattingStatusByFd c.fd = .reqPending → c.WillBeIdle) ∧
  (msg.msgType = .clientTxType → strcmp msg.buffer.bytes disconnectCmd = 0 →
    r.getClientChattingStatusByFd c.fd = .busy → c.WillBeIdle) ∧
  (msg.msgType = .clientAcceptConnection →
    r.getConnFdByFd c.fd ≠ invalidFd → AcceptsRight r c)

instance (c : Conn) : Decidable c.WillBeIdle := inferInstanceAs (Decidable (_ → _))

instance (r : Registry) (c : Conn) : Decidable (AcceptsRight r c) :=
  inferInstanceAs (Decidable ((_ → _) ∧ (_ → _ → _)))

instance (r : Registry) (c : Conn) (msg : Msg) : Decidable (ServesRight r c msg) :=
  inferInstanceAs (Decidable ((_ → _ → _) ∧ (_ → _ → _ → _) ∧ (_ → _ → _)))

/-- The events that keep client and server in agreement. -/
def NetEvent.KeepsAgreement (s : Network) : NetEvent → Prop
  | serves fd => ∀ c ∈ s.conn fd, ∀ msg ∈ c.up.head?, ServesRight s.registry c msg
  | _ => True

instance (s : Network) : (e : NetEvent) → Decidable (e.KeepsAgreement s)
  | .serves fd =>
      inferInstanceAs
        (Decidable (∀ c ∈ s.conn fd, ∀ msg ∈ c.up.head?, ServesRight s.registry c msg))
  | .joins _ _ _ | .types _ _ | .delivers _ | .hangsUp _ | .seesEnd _ =>
      inferInstanceAs (Decidable True)

/-! ## One event of the server -/

section Server
variable {r : Registry} {T : Int → Flags → Flags} {d : Deed Int}

/-- The client of `x` follows, whatever was on its way. -/
def Carries (v w : Room Int) (T : Int → Flags → Flags) (x : Int) : Prop :=
  ∀ mood, v.moodOf x = some mood → ∃ mood', w.moodOf x = some mood' ∧
    ∀ up f, Tracks mood up f → Tracks mood' up (T x f)

theorem carries_of_eq {v w : Room Int} {x : Int} (hmood : w.moodOf x = v.moodOf x)
    (hT : ∀ f, T x f = f) : Carries v w T x := by
  intro mood hx
  refine ⟨mood, hmood.trans hx, fun up f h => ?_⟩
  rw [hT]
  exact h

/-- A client whose flags are set to those of the new mood follows. -/
theorem carries_of_flags {v w : Room Int} {x : Int} {mood' : Mood} (hw : w.moodOf x = some mood')
    (hT : ∀ f, T x f = mood'.flags) : Carries v w T x :=
  fun _ _ => ⟨mood', hw, fun _ f _ => Or.inl (hT f)⟩

/-- The message of one client carries every other along. -/
theorem carries_rx {c : Conn} {msg : Msg} (ho : Outcome r T (.rxMsg c.fd msg) d)
    (hen : d.Enabled r.room) (hright : ServesRight r c msg) {x : Int} (hx : x ≠ c.fd) :
    Carries r.room (d.apply r.room) T x := by
  cases ho with
  | silent _ hT => exact carries_of_eq rfl (hT x)
  | @asks _ _ t _ hT =>
      have hmood := mood_ask hen x
      by_cases hxt : x = t
      · subst hxt
        rw [if_pos rfl] at hmood
        intro mood hfree
        obtain rfl : .free = mood := Option.some.inj (hen.2.1.symm.trans hfree)
        refine ⟨.asked, hmood, fun up f h => Or.inl ?_⟩
        rw [hT, if_pos rfl, tracks_free_iff.mp h]
        rfl
      · rw [if_neg hxt] at hmood
        exact carries_of_eq hmood fun f => (hT x f).trans (if_neg hxt)
  | loses _ _ _ hT => exact carries_of_eq ((mood_lose hen x).trans (if_neg hx)) (hT x)
  | refused hT =>
      exact carries_of_eq ((mood_release hen x).trans (if_neg hx))
        fun f => (hT x f).trans (if_neg hx)
  | puzzled _ _ _ _ _ hT => exact carries_of_eq rfl fun f => (hT x f).trans (if_neg hx)
  | pairs _ _ _ _ _ hT =>
      have hmood := mood_pair hen x
      by_cases hxc : x = r.getConnFdByFd c.fd
      · rw [if_pos (Or.inr hxc)] at hmood
        refine carries_of_flags hmood fun f => ?_
        rw [hT, if_neg hx, if_pos hxc]
        rfl
      · rw [if_neg (not_or.mpr ⟨hx, hxc⟩)] at hmood
        refine carries_of_eq hmood fun f => ?_
        rw [hT, if_neg hx, if_neg hxc]
  | pairsSilently hmsg hc hun hbusy hst hme =>
      exact absurd hme (((hright.2.2 hmsg hc).2 hun hbusy).1 hst)
  | declines _ _ hT => exact carries_of_eq ((mood_release hen x).trans (if_neg hx)) (hT x)
  | quits _ _ _ hT =>
      have hmood := mood_quit hen x
      by_cases hxc : x = r.getConnFdByFd c.fd
      · rw [if_pos (Or.inr hxc)] at hmood
        intro mood hx
        rw [hx] at hmood
        exact ⟨.free, hmood, fun _ f _ => Or.inl ((hT x f).trans (if_pos hxc))⟩
      · rw [if_neg (not_or.mpr ⟨hx, hxc⟩)] at hmood
        exact carries_of_eq hmood fun f => (hT x f).trans (if_neg hxc)

/-- The end of a connection carries every other along. -/
theorem carries_closed {fd : Int} (ho : Outcome r T (.closed fd) d) {x : Int} (hx : x ≠ fd) :
    Carries r.room (d.apply r.room) T x := by
  cases ho with
  | leaves hT hother hpeer =>
      have hmood := mood_leave (v := r.room) (x := fd) x
      rw [if_neg hx] at hmood
      split at hmood
      · next hp =>
          intro mood hm
          rw [hm] at hmood
          refine ⟨.free, hmood, fun up f h => tracks_free_iff.mpr ?_⟩
          by_cases hfree : mood = .free
          · subst hfree
            rcases hT x f with he | he
            · exact he.trans (tracks_free_iff.mp h)
            · exact he
          · exact hpeer x f hp fun hf => hfree (Option.some.inj (hm.symm.trans hf))
      · next hp => exact carries_of_eq hmood fun f => hother x f hp

/-- A registration leaves every other as it was. -/
theorem carries_accepted {fd : Int} {ok : Bool} (ho : Outcome r T (.accepted fd ok) d) {x : Int}
    (hx : x ≠ fd) : Carries r.room (d.apply r.room) (fun _ f => f) x := by
  cases ho with
  | registers hd =>
      rcases hd with rfl | rfl
      · exact carries_of_eq ((mood_enter x).trans (if_neg hx)) fun _ => rfl
      · exact carries_of_eq rfl fun _ => rfl

/-- The client whose message was served right follows on. -/
theorem tracks_served {c : Conn} {msg : Msg} (ho : Outcome r T (.rxMsg c.fd msg) d)
    (h : r.Good) (hen : d.Enabled r.room) (hright : ServesRight r c msg) {mood : Mood}
    (hmood : r.room.moodOf c.fd = some mood) :
    ∃ mood', (d.apply r.room).moodOf c.fd = some mood' ∧
      (c.hungUp = false → ∀ up, Tracks mood (msg :: up) c.settled →
        Tracks mood' up (T c.fd c.settled)) := by
  obtain ⟨hdecline, hquit, haccept⟩ := hright
  cases ho with
  | silent hmsg hT =>
      refine ⟨mood, hmood, fun _ up ht => ?_⟩
      rw [hT]
      exact ht.tail (hmsg mood hmood)
  | asks hmsg hT =>
      have hne : c.fd ≠ _ := hen.2.2
      refine ⟨mood, (mood_ask hen _).trans ((if_neg hne).trans hmood), fun _ up ht => ?_⟩
      rw [hT, if_neg hne]
      exact ht.tail
        (not_leaves_of_msgType (by simp [hmsg]) (by simp [hmsg]) (by simp [hmsg]) mood)
  | loses hmsg hc hun hT =>
      refine ⟨.free, (mood_lose hen _).trans (if_pos rfl), fun hlive up _ => Or.inl ?_⟩
      exact (hT _ _).trans ((haccept hmsg hc).1 hun hlive)
  | refused hT =>
      refine ⟨.free, (mood_release hen _).trans (if_pos rfl), fun _ up _ => Or.inl ?_⟩
      exact (hT _ _).trans (if_pos rfl)
  | puzzled hmsg hc hun hbusy hst hT =>
      refine ⟨mood, hmood, fun hlive up _ => Or.inl ?_⟩
      obtain hstatus | ⟨hstatus, -⟩ := ((haccept hmsg hc).2 hun hbusy).2 hlive
      · obtain rfl : mood = .busy :=
          Option.some.inj (hmood.symm.trans ((h.wf.busy_iff c.fd).mp hstatus))
        exact (hT _ _).trans (if_pos rfl)
      · exact absurd hstatus hst
  | pairs hmsg hc hun hbusy hst hT =>
      refine ⟨.busy, (mood_pair hen _).trans (if_pos (Or.inl rfl)), fun hlive up _ => Or.inl ?_⟩
      obtain hstatus | ⟨-, hasked⟩ := ((haccept hmsg hc).2 hun hbusy).2 hlive
      · rw [hst] at hstatus
        cases hstatus
      · rw [hT, if_pos rfl, hasked]
        rfl
  | pairsSilently hmsg hc hun hbusy hst hme =>
      exact absurd hme (((haccept hmsg hc).2 hun hbusy).1 hst)
  | declines hmsg hst hT =>
      refine ⟨.free, (mood_release hen _).trans (if_pos rfl), fun hlive up _ => Or.inl ?_⟩
      exact (hT _ _).trans (hdecline hmsg hst hlive)
  | quits hmsg hdisc hst hT =>
      have hne : c.fd ≠ r.getConnFdByFd c.fd := fun he => h.noSelf c.fd (hen.2.trans (by rw [← he]))
      refine ⟨.free, ?_, fun hlive up _ => Or.inl ?_⟩
      · rw [mood_quit hen, if_pos (Or.inl rfl), hmood]
        rfl
      · exact (hT _ _).trans ((if_neg hne).trans (hquit hmsg hdisc hst hlive))

end Server

/-! ## Whole runs -/

/-- The connection's client, if it is still there, follows its party. -/
def Conn.Follows (r : Registry) (c : Conn) : Prop :=
  ∃ mood, r.room.moodOf c.fd = some mood ∧ (c.hungUp = false → Tracks mood c.up c.settled)

/-- The invariant. -/
structure Network.Followed (s : Network) : Prop where
  good : s.registry.Good
  follows : ∀ fd c, s.conn fd = some c → c.Follows s.registry

theorem Network.followed_boot : Network.boot.Followed :=
  ⟨good_empty, fun _ _ h => (nomatch h)⟩

theorem Network.Followed.agrees {s : Network} (h : s.Followed) : s.Agrees := by
  intro hquiet fd c hc hlive
  obtain ⟨mood, hmood, htracks⟩ := h.follows fd c hc
  obtain ⟨hup, hdown⟩ := hquiet c (look_mem hc)
  have hflags : c.client.flags = mood.flags := by
    rcases htracks hlive with ht | ⟨-, m, hm, -⟩
    · rw [Conn.settled, hdown] at ht
      exact ht
    · rw [hup] at hm
      exact absurd hm List.not_mem_nil
  have hbusy : c.client.busyInChat = mood.flags.busy := congrArg Flags.busy hflags
  have hasked : c.client.connRequestRx = mood.flags.asked := congrArg Flags.asked hflags
  obtain rfl : c.fd = fd := Network.conn_fd hc
  rw [h.good.wf.busy_iff, h.good.wf.reqPending_iff, hmood, hbusy, hasked]
  cases mood <;> simp [Mood.flags, Flags.idle]

/-- A message on its way changes what the client will believe. -/
theorem settled_send (acts : List Act) {c : Conn} (hlive : c.hungUp = false) :
    (c.send acts).settled = told acts c.fd c.settled := by
  rw [Conn.send, hlive]
  exact settle_append _ _ _

theorem Conn.Follows.send {r w : Registry} {c : Conn} (h : c.Follows r) {acts : List Act}
    (hcarries : Carries r.room w.room (told acts) c.fd) : (c.send acts).Follows w := by
  obtain ⟨mood, hmood, htracks⟩ := h
  obtain ⟨mood', hmood', hcarry⟩ := hcarries mood hmood
  refine ⟨mood', by rw [c.fd_send]; exact hmood', fun hlive => ?_⟩
  rw [c.hungUp_send] at hlive
  rw [c.up_send, settled_send acts hlive]
  exact hcarry c.up c.settled (htracks hlive)

namespace Network.Followed

variable {s : Network}

/-- A change at one connection that keeps its client following. -/
theorem change (h : s.Followed) {fd : Int} {f : Conn → Conn} (hf : ∀ c, (f c).fd = c.fd)
    (hfollows : ∀ c, s.conn fd = some c → c.Follows s.registry → (f c).Follows s.registry) :
    (s.change fd f).Followed := by
  refine ⟨h.good, fun g c hc => ?_⟩
  rw [conn_change hf] at hc
  split at hc
  · obtain ⟨c₀, hc₀, rfl⟩ := Option.map_eq_some_iff.mp hc
    exact hfollows c₀ hc₀ (h.follows fd c₀ hc₀)
  · exact h.follows g c hc

theorem types (h : s.Followed) (fd : Int) (line : List UInt8) :
    (s.change fd (.typed line)).Followed := by
  refine h.change (fun _ => rfl) ?_
  rintro c - ⟨mood, hmood, htracks⟩
  exact ⟨mood, hmood, fun hlive => tracks_line (htracks hlive) line⟩

theorem delivers (h : s.Followed) {fd : Int} {c : Conn} {msg : Msg} {down : List Msg}
    (hc : s.conn fd = some c) (hdown : c.down = msg :: down) :
    (s.change fd (.delivered msg down)).Followed := by
  refine h.change (fun _ => rfl) ?_
  rintro c' hc' ⟨mood, hmood, htracks⟩
  obtain rfl := Option.some.inj (hc.symm.trans hc')
  refine ⟨mood, hmood, fun hlive => ?_⟩
  have ht := htracks hlive
  rw [Conn.settled, hdown, settle_cons, ← flags_handleRxMsgLib] at ht
  exact ht

theorem hangsUp (h : s.Followed) (fd : Int) : (s.change fd .gone).Followed := by
  refine h.change (fun _ => rfl) ?_
  rintro c - ⟨mood, hmood, -⟩
  exact ⟨mood, hmood, fun hlive => (nomatch hlive)⟩

theorem joins (h : s.Followed) {fd : Int} {ok : Bool} (argv : Option (List UInt8))
    (he : (Event.accepted fd ok).Possible s.registry) :
    Followed ⟨replay s.registry ((Event.accepted fd ok).acts s.registry),
      if s.registry.Accepts ok then s.conns ++ [.new fd argv] else s.conns⟩ := by
  obtain ⟨-, hroom, -⟩ := refines h.good he
  have hold : ∀ g c, s.conn g = some c →
      c.Follows (replay s.registry ((Event.accepted fd ok).acts s.registry)) := by
    intro g c hc
    obtain ⟨mood, hmood, htracks⟩ := h.follows g c hc
    have hg : c.fd ≠ fd := by
      rintro rfl
      rw [moodOf_room, he.2] at hmood
      cases hmood
    obtain ⟨mood', hmood', hcarry⟩ := carries_accepted (outcome h.good he) hg mood hmood
    exact ⟨mood', by rw [hroom]; exact hmood', fun hlive => hcarry _ _ (htracks hlive)⟩
  refine ⟨h.good.step he, fun g c hc => ?_⟩
  by_cases ha : s.registry.Accepts ok
  · rw [if_pos ha, conn_join, Option.or_eq_some_iff] at hc
    rcases hc with hc | ⟨-, hc⟩
    · exact hold g c hc
    · split at hc
      · obtain rfl := Option.some.inj hc
        refine ⟨.free, ?_, fun _ => Or.inl rfl⟩
        rw [hroom, Event.deed, if_pos ha]
        exact (mood_enter _).trans (if_pos rfl)
      · cases hc
  · rw [if_neg ha] at hc
    exact hold g c hc

theorem serves (h : s.Followed) {fd : Int} {c : Conn} {msg : Msg} {up : List Msg}
    (hc : s.conn fd = some c) (hup : c.up = msg :: up)
    (he : (Event.rxMsg fd msg).Possible s.registry) (hright : ServesRight s.registry c msg) :
    ((s.change fd (.served up)).after (replay s.registry ((Event.rxMsg fd msg).acts s.registry),
      (Event.rxMsg fd msg).acts s.registry)).Followed := by
  obtain rfl : c.fd = fd := conn_fd hc
  obtain ⟨-, hroom, hen⟩ := refines h.good he
  have ho := outcome h.good he
  refine ⟨h.good.step he, fun g d hd => ?_⟩
  have hfd : ∀ c, (Conn.served up c).fd = c.fd := fun _ => rfl
  rw [conn_after, conn_change hfd] at hd
  obtain ⟨d₀, hd₀, rfl⟩ := Option.map_eq_some_iff.mp hd
  split at hd₀
  · rw [hc] at hd₀
    obtain rfl := Option.some.inj hd₀
    obtain ⟨mood, hmood, htracks⟩ := h.follows _ c hc
    obtain ⟨mood', hmood', hserved⟩ := tracks_served ho h.good hen hright hmood
    refine ⟨mood', ?_, fun hlive => ?_⟩
    · rw [Conn.fd_send]
      exact hroom ▸ hmood'
    · rw [Conn.hungUp_send] at hlive
      rw [Conn.up_send, settled_send _ hlive]
      exact hserved hlive up (hup ▸ htracks hlive)
  · next hg =>
      have hdg : d₀.fd = g := conn_fd hd₀
      refine (h.follows g d₀ hd₀).send ?_
      show Carries _ (replay s.registry _).room _ _
      rw [hroom, hdg]
      exact carries_rx ho hen hright hg

theorem seesEnd (h : s.Followed) {fd : Int} (he : (Event.closed fd).Possible s.registry) :
    (Network.after { s with conns := s.conns.filter fun c => c.fd ≠ fd }
      (replay s.registry ((Event.closed fd).acts s.registry),
        (Event.closed fd).acts s.registry)).Followed := by
  obtain ⟨-, hroom, -⟩ := refines h.good he
  refine ⟨h.good.step he, fun g d hd => ?_⟩
  rw [conn_after, conn_drop] at hd
  obtain ⟨d₀, hd₀, rfl⟩ := Option.map_eq_some_iff.mp hd
  split at hd₀
  · cases hd₀
  · next hg =>
      have hdg : d₀.fd = g := conn_fd hd₀
      refine (h.follows g d₀ hd₀).send ?_
      show Carries _ (replay s.registry _).room _ _
      rw [hroom, hdg]
      exact carries_closed (outcome h.good he) hg

/-- One event that is served right, if it is served. -/
theorem step (h : s.Followed) {e : NetEvent} {s' : Network} {acts : List Act}
    (hs : netStep s e = some (s', acts)) (hkeeps : e.KeepsAgreement s) : s'.Followed := by
  cases e with
  | joins fd ok argv =>
      obtain ⟨⟨r', acts'⟩, hq, hs⟩ := Option.map_eq_some_iff.mp hs
      obtain ⟨he, rfl, rfl⟩ := atomicStep_eq_some_iff.mp hq
      have hjoined := h.joins argv he
      split at hs
      · next ha =>
          cases hs
          rwa [if_pos ha] at hjoined
      · next ha =>
          cases hs
          rwa [if_neg ha] at hjoined
  | types fd line =>
      simp only [netStep] at hs
      split at hs
      · cases hs
        exact h.types fd line
      · cases hs
  | delivers fd =>
      simp only [netStep] at hs
      split at hs
      · next hc =>
          cases hs
          exact h.delivers hc rfl
      · cases hs
  | hangsUp fd =>
      simp only [netStep] at hs
      split at hs
      · cases hs
        exact h.hangsUp fd
      · cases hs
  | serves fd =>
      simp only [netStep] at hs
      split at hs
      · next hc =>
          obtain ⟨⟨r', acts'⟩, hq, hs⟩ := Option.map_eq_some_iff.mp hs
          obtain ⟨he, rfl, rfl⟩ := atomicStep_eq_some_iff.mp hq
          cases hs
          exact h.serves hc rfl he (hkeeps _ hc _ rfl)
      · cases hs
  | seesEnd fd =>
      simp only [netStep] at hs
      split at hs
      · obtain ⟨⟨r', acts'⟩, hq, hs⟩ := Option.map_eq_some_iff.mp hs
        obtain ⟨he, rfl, rfl⟩ := atomicStep_eq_some_iff.mp hq
        cases hs
        exact h.seesEnd he
      · cases hs

end Network.Followed

/-- Over whole runs, client and server agree whenever no message is on its way, if every answer
and every farewell is served right. -/
theorem agrees_everywhere (es : List NetEvent)
    (h : EveryStep netStep (fun s e => e.KeepsAgreement s) .boot es) :
    Everywhere netStep Network.Agrees .boot es := by
  have hfollowed : Everywhere netStep Network.Followed .boot es :=
    everywhere_of_everyStep (I := fun _ => True) (fun _ _ _ _ _ _ => trivial)
      (fun _ _ _ _ _ hs hstep hkeeps => hs.step hstep hkeeps) es trivial Network.followed_boot h
  exact hfollowed.mono fun _ hs => hs.agrees

/-- A line as it lies in memory. -/
def line (s : String) : List UInt8 := ascii s ++ [0]

/-- 4 asks for 5, 5 accepts, they talk, and 4 leaves the chat. -/
theorem agrees_in_conversation :
    Everywhere netStep Network.Agrees .boot
      [.joins 4 true none, .joins 5 true (some (line "bob")), .serves 5, .delivers 5,
       .types 4 (line "connect bob"), .serves 4, .delivers 4, .delivers 5,
       .types 5 (line "yes"), .serves 5, .delivers 5, .delivers 4,
       .types 4 (line "hello"), .serves 4, .delivers 5,
       .types 4 (line "disconnect"), .serves 4, .delivers 5] :=
  agrees_everywhere _ (by decide +kernel)

/-- 5 takes the name NAME_NOT_DEFINED, 4 asks for it, and 5 accepts. -/
def silentPairing : List NetEvent :=
  [.joins 4 true none, .joins 5 true (some (line "NAME_NOT_DEFINED")), .serves 5, .delivers 5,
   .types 4 (line "connect NAME_NOT_DEFINED"), .serves 4, .delivers 4, .delivers 5,
   .types 5 (line "yes"), .serves 5]

/-- Both are BUSY, and neither is told. -/
theorem paired_without_notice : ¬ Everywhere netStep Network.Agrees .boot silentPairing := by
  intro h
  have hagrees := h.at_play (play_final (by decide +kernel))
  have hquiet : (final netStep .boot silentPairing).Quiet := by decide +kernel
  have hclient : ((final netStep .boot silentPairing).conn 4).map
      (fun c => (c.hungUp, c.client.busyInChat)) = some (false, false) := by
    decide +kernel
  have hstatus : (final netStep .boot silentPairing).registry.getClientChattingStatusByFd 4
      = .busy := by
    decide +kernel
  obtain ⟨c, hc, hflags⟩ := Option.map_eq_some_iff.mp hclient
  obtain ⟨hlive, hidle⟩ := Prod.mk.inj hflags
  have hbusy := (hagrees hquiet 4 c hc hlive).1.mpr hstatus
  rw [hidle] at hbusy
  cases hbusy

end ChatSocket
