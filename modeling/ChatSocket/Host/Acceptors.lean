/-
# `Host.Acceptors` — who takes a requester that several could take

`handle_conn_accept` reads in one section whether the requester is BUSY, and
makes both sides BUSY in the next.  Several clients that were asked by the same
requester can accept at once, and whoever has read that the requester is not BUSY
takes it.

`one_acceptor_iff`: exactly one acceptor takes the requester, and all others are
refused, if and only if the one that comes first runs both of its sections before
anybody else runs one.
-/
import ChatSocket.Host.Together

namespace ChatSocket

open Kit Registry

/-- What `handle_conn_accept` answers to the one who takes the requester, and to the others. -/
def chatReady (r : Registry) (a : Int) : Msg := .withText .clientChatReady (r.nameOf a)
def noMoreFree (r : Registry) (a : Int) : Msg := .withText .clientNoMoreFree (r.nameOf a)

/-- `handle_conn_accept` of `fd` with the requester `a`: the point it is at, the status of its
client and what this has been sent. -/
inductive Accepts (r : Registry) (a fd : Int) : Point → ChatStatus → List Msg → Prop where
  | checks : Accepts r a fd .accept .reqPending []
  | refuses : Accepts r a fd (.refuse (r.getClientNameByFd a)) .reqPending []
  | copiesRefused : Accepts r a fd (.copyRefused (r.getClientNameByFd a)) .free []
  | replies : Accepts r a fd (.reply (noMoreFree r a)) .free []
  | refused : Accepts r a fd .done .free [noMoreFree r a]
  | pairs : Accepts r a fd (.pair a) .reqPending []
  | checksConn : Accepts r a fd (.checkConn a (r.getClientNameByFd a) (r.getClientNameByFd fd))
      .busy []
  | checksMine : Accepts r a fd (.checkMine a (r.getClientNameByFd a) (r.getClientNameByFd fd))
      .busy []
  | copiesMine : Accepts r a fd (.copyMine a (r.getClientNameByFd a) (r.getClientNameByFd fd))
      .busy []
  | copiesConn {my} : Accepts r a fd (.copyConn a (r.getClientNameByFd a) my) .busy []
  | readies {my} : Accepts r a fd (.ready a my (r.nameOf a)) .busy []
  | tells {msg} : Accepts r a fd (.tell a msg) .busy [chatReady r a]
  | taken : Accepts r a fd .done .busy [chatReady r a]

/-- A client that can be named is registered. -/
theorem isSome_of_named {r : Registry} {g : Int} (hg : ¬ r.Unnamed g) : (r.node g).isSome := by
  rw [Option.isSome_iff_ne_none]
  exact fun hnone => hg (unnamed_of_unregistered hnone)

section Step
variable {r r₁ : Registry} {a fd : Int} {p : Point} {s : ChatStatus} {w : List Msg}

/-- What the handler does next, to its own client and to where it goes on. -/
theorem Accepts.next (h : Accepts r a fd p s w) (hp : p ≠ .done) (hwf : r₁.Wf)
    (hnames : r.SameNames r₁) (ha : ¬ r₁.Unnamed a) (hfd : ¬ r₁.Unnamed fd)
    (hto : r₁.getConnFdByFd fd = a) (hst : r₁.getClientChattingStatusByFd fd = s) :
    ∃ w', Accepts r a fd (p.next fd r₁)
        ((replay r₁ (p.acts fd r₁)).getClientChattingStatusByFd fd) (w ++ w') ∧
      (replay r₁ (p.acts fd r₁)).getConnFdByFd fd = a ∧
      ∀ conns : Int → Option Nat, ∀ c, conns fd = some c → conns a ≠ some c →
        Host.msgsOn conns c (p.acts fd r₁) = w' := by
  have hreg := isSome_of_named hfd
  have hinv := hwf.ne_invalidFd (isSome_of_named ha)
  have hptr := hnames.pointer
  have hstr := hnames.strAt
  cases h with
  | checks =>
      have hacts : Point.acts fd r₁ .accept = [] := by
        rw [Point.acts, hto]
        exact if_neg fun hc => ha hc.2
      rw [hacts]
      refine ⟨[], ?_, hto, fun _ _ _ _ => rfl⟩
      simp only [Point.next, hto, if_neg hinv, if_neg ha, List.append_nil, replay, hst, ne_eq,
        not_true_eq_false, if_false, hptr]
      split
      · exact .refuses
      · exact .pairs
  | refuses =>
      obtain ⟨hfree, hlink⟩ := Point.free_own (p := .refuse (r.getClientNameByFd a)) hwf hreg rfl
      refine ⟨[], ?_, hlink.trans hto, fun _ _ _ _ => rfl⟩
      rw [hfree]
      exact .copiesRefused
  | copiesRefused =>
      refine ⟨[], ?_, hto, fun _ _ _ _ => rfl⟩
      show Accepts r a fd (.reply (.withText .clientNoMoreFree (r₁.strAt _)))
        (r₁.getClientChattingStatusByFd fd) _
      rw [hst, hstr]
      exact .replies
  | replies =>
      refine ⟨[noMoreFree r a], ?_, hto, fun conns c hc _ => ?_⟩
      · show Accepts r a fd .done (r₁.getClientChattingStatusByFd fd) _
        rw [hst]
        exact .refused
      · simp [Point.acts, Host.msgsOn, hc]
  | pairs =>
      have hbusy : (replay r₁ (Point.acts fd r₁ (.pair a))).getClientChattingStatusByFd fd
          = .busy :=
        (Point.busy_links_iff hwf rfl).mpr (Or.inr ⟨trivial, Or.inl rfl, hreg⟩)
      refine ⟨[], ?_, ?_, fun _ _ _ _ => rfl⟩
      · rw [hbusy, Point.next, hptr, hptr]
        exact .checksConn
      · rw [Point.connFd_links (p := .pair a) hwf rfl hreg]
        split
        · next he => exact he
        · exact if_pos rfl
  | checksConn =>
      refine ⟨[], ?_, hto, fun _ _ _ _ => rfl⟩
      have hname : ¬ strcmp (r₁.strAt (r.getClientNameByFd a)) undefName = 0 := by
        rw [← hptr]
        exact ha
      rw [Point.next, if_neg hname]
      show Accepts r a fd _ (r₁.getClientChattingStatusByFd fd) _
      rw [hst]
      exact .checksMine
  | checksMine =>
      refine ⟨[], ?_, hto, fun _ _ _ _ => rfl⟩
      have hname : ¬ strcmp (r₁.strAt (r.getClientNameByFd fd)) undefName = 0 := by
        rw [← hptr]
        exact hfd
      rw [Point.next, if_neg hname]
      show Accepts r a fd _ (r₁.getClientChattingStatusByFd fd) _
      rw [hst]
      exact .copiesMine
  | copiesMine =>
      refine ⟨[], ?_, hto, fun _ _ _ _ => rfl⟩
      show Accepts r a fd _ (r₁.getClientChattingStatusByFd fd) _
      rw [hst]
      exact .copiesConn
  | copiesConn =>
      refine ⟨[], ?_, hto, fun _ _ _ _ => rfl⟩
      show Accepts r a fd (.ready a _ (r₁.strAt _)) (r₁.getClientChattingStatusByFd fd) _
      rw [hst, hstr]
      exact .readies
  | readies =>
      refine ⟨[chatReady r a], ?_, hto, fun conns c hc _ => ?_⟩
      · show Accepts r a fd _ (r₁.getClientChattingStatusByFd fd) _
        rw [hst]
        exact .tells
      · simp [Point.acts, Host.msgsOn, hc, chatReady]
  | tells =>
      refine ⟨[], ?_, hto, fun conns c _ hc => ?_⟩
      · show Accepts r a fd .done (r₁.getClientChattingStatusByFd fd) _
        rw [hst]
        exact .taken
      · simp [Point.acts, Host.msgsOn, hc]
  | refused | taken => exact absurd rfl hp

/-- Once it has found the requester not to be BUSY, its client gets BUSY and stays so. -/
theorem Accepts.takes (h : Accepts r a fd p s w) (htakes : p = .pair a ∨ s = .busy) (hwf : r₁.Wf)
    (hfd : ¬ r₁.Unnamed fd) (hst : r₁.getClientChattingStatusByFd fd = s) :
    (replay r₁ (p.acts fd r₁)).getClientChattingStatusByFd fd = .busy := by
  cases h with
  | pairs =>
      exact (Point.busy_links_iff hwf rfl).mpr
        (Or.inr ⟨trivial, Or.inl rfl, isSome_of_named hfd⟩)
  | checksConn | checksMine | copiesMine | copiesConn | readies | tells | taken => exact hst
  | checks | refuses | copiesRefused | replies | refused => simp at htakes

/-- If the requester is BUSY, the others are on their way to be refused. -/
theorem Accepts.loses (h : Accepts r a fd p s w) (hpair : p ≠ .pair a) (hs : s ≠ .busy)
    (hwf : r₁.Wf) (ha : ¬ r₁.Unnamed a) (hfd : ¬ r₁.Unnamed fd) (hto : r₁.getConnFdByFd fd = a)
    (hst : r₁.getClientChattingStatusByFd fd = s)
    (hbusy : r₁.getClientChattingStatusByFd a = .busy) :
    p.next fd r₁ ≠ .pair a ∧
      (replay r₁ (p.acts fd r₁)).getClientChattingStatusByFd fd ≠ .busy := by
  cases h with
  | checks =>
      have hinv := hwf.ne_invalidFd (isSome_of_named ha)
      have hacts : Point.acts fd r₁ .accept = [] := by
        rw [Point.acts, hto]
        exact if_neg fun hc => ha hc.2
      refine ⟨?_, by rw [hacts, replay, hst]; exact hs⟩
      simp [Point.next, hto, if_neg hinv, if_neg ha, hbusy]
  | refuses =>
      obtain ⟨hfree, -⟩ := Point.free_own (p := .refuse (r.getClientNameByFd a)) hwf
        (isSome_of_named hfd) rfl
      exact ⟨by simp [Point.next], by rw [hfree]; simp⟩
  | copiesRefused | replies | refused => exact ⟨by simp [Point.next], by rw [← hst] at hs; exact hs⟩
  | pairs => exact absurd rfl hpair
  | checksConn | checksMine | copiesMine | copiesConn | readies | tells | taken =>
      exact absurd rfl hs

theorem Accepts.peer (h : Accepts r a fd p s w) {g : Int} (hg : p.peer? = some g) : g = a := by
  cases h <;> simp_all [Point.peer?]

theorem Accepts.target (h : Accepts r a fd p s w) {g : Int} (hg : p.target? r₁ = some g) :
    g = a := by
  cases h <;> simp_all [Point.target?]

theorem Accepts.status_accept (h : Accepts r a fd .accept s w) : s = .reqPending := by
  cases h
  rfl

theorem Accepts.done_busy (h : Accepts r a fd .done .busy w) : w = [chatReady r a] := by
  cases h
  rfl

theorem Accepts.done_ne_busy (h : Accepts r a fd .done s w) (hs : s ≠ .busy) :
    s = .free ∧ w = [noMoreFree r a] := by
  cases h with
  | refused => exact ⟨rfl, rfl⟩
  | taken => exact absurd rfl hs

/-- Nobody but its own client is touched, unless it pairs. -/
theorem Accepts.no_target (h : Accepts r a fd p s w) (hpair : p ≠ .pair a) :
    p.target? r₁ = none := by
  cases h with
  | pairs => exact absurd rfl hpair
  | _ => rfl

theorem Accepts.ne_setName (h : Accepts r a fd p s w) (msg : Msg) : p ≠ .setName msg := by
  cases h <;> simp

end Step

/-! ## All of them -/

/-- The clients of the threads `ts` have been asked by `a`, who is not BUSY, and all of them are
about to accept; everybody has a name. -/
structure Host.Acceptors (h : Host) (a : Int) (ts : List Nat) : Prop where
  sound : h.Sound
  notBusy : h.registry.getClientChattingStatusByFd a ≠ .busy
  named : ¬ h.registry.Unnamed a
  nonempty : ts ≠ []
  asked : ∀ t ∈ ts, ∃ fd, h.threads t = some ⟨fd, .serving .accept⟩ ∧ fd ≠ a ∧
    h.registry.getClientChattingStatusByFd fd = .reqPending ∧ h.registry.getConnFdByFd fd = a ∧
    ¬ h.registry.Unnamed fd

/-- `b` has taken the requester, and all others have been refused. -/
structure Host.Taken (h h' : Host) (a : Int) (ts : List Nat) (b : Nat) : Prop where
  busy : ∀ th, h.threads b = some th →
    h'.registry.getClientChattingStatusByFd th.fd = .busy ∧ h'.registry.getConnFdByFd a = th.fd
  ready : h'.written b = h.written b ++ [chatReady h.registry a]
  free : ∀ t ∈ ts, t ≠ b → ∀ th, h.threads t = some th →
    h'.registry.getClientChattingStatusByFd th.fd = .free
  refused : ∀ t ∈ ts, t ≠ b → h'.written t = h.written t ++ [noMoreFree h.registry a]

/-- Where the acceptors are on their way. -/
structure Host.Accepting (h : Host) (a : Int) (ts : List Nat) (h₁ : Host) : Prop where
  names : h.registry.SameNames h₁.registry
  conns : h₁.conns = h.conns
  threads : ∀ t ∈ ts, ∃ fd p w, h.threads t = some ⟨fd, .serving .accept⟩ ∧
    h₁.threads t = some ⟨fd, .serving p⟩ ∧
    Accepts h.registry a fd p (h₁.registry.getClientChattingStatusByFd fd) w ∧
    h₁.registry.getConnFdByFd fd = a ∧ h₁.written t = h.written t ++ w

namespace Host

variable {h h₁ h' : Host} {a : Int} {ts : List Nat} {b b' : Nat}

theorem Acceptors.accepting (hacc : h.Acceptors a ts) : h.Accepting a ts h where
  names := .refl _
  conns := rfl
  threads := fun t ht => by
    obtain ⟨fd, hth, -, hst, hto, -⟩ := hacc.asked t ht
    exact ⟨fd, .accept, [], hth, hth, by rw [hst]; exact .checks, hto, by simp⟩

/-- The connection of an acceptor is its own. -/
theorem Acceptors.conns (hacc : h.Acceptors a ts) {t : Nat} (ht : t ∈ ts) {fd : Int}
    {stage : Stage} (hth : h.threads t = some ⟨fd, stage⟩) :
    fd ≠ a ∧ h.conns fd = some t ∧ h.conns a ≠ some t := by
  obtain ⟨fd', hth', hne, -⟩ := hacc.asked t ht
  rw [hth] at hth'
  cases hth'
  refine ⟨hne, hacc.sound.holds t _ hth (by simp), fun hc => ?_⟩
  obtain ⟨n, hn⟩ := Option.isSome_iff_exists.mp (isSome_of_named hacc.named)
  obtain rfl : n.fd = a := look_key hn
  obtain ⟨th, ht', hfd, -⟩ := hacc.sound.owner_eq (look_mem hn) hc
  rw [hth] at ht'
  cases ht'
  exact hne hfd

theorem Accepting.unnamed_iff (hI : h.Accepting a ts h₁) (g : Int) :
    h₁.registry.Unnamed g ↔ h.registry.Unnamed g := by
  rw [Unnamed, hI.names.nameOf]

/-- What is known of an acceptor on its way. -/
theorem Accepting.of_thread (hacc : h.Acceptors a ts) (hI : h.Accepting a ts h₁) {t : Nat}
    (ht : t ∈ ts) {fd : Int} {p : Point} (hth : h₁.threads t = some ⟨fd, .serving p⟩) :
    h.threads t = some ⟨fd, .serving .accept⟩ ∧ ¬ h₁.registry.Unnamed fd ∧
      h₁.registry.getConnFdByFd fd = a ∧ ∃ w, h₁.written t = h.written t ++ w ∧
        Accepts h.registry a fd p (h₁.registry.getClientChattingStatusByFd fd) w := by
  obtain ⟨fd₀, p₀, w, hstart, hth₀, hat, hto, hw⟩ := hI.threads t ht
  rw [hth] at hth₀
  cases hth₀
  obtain ⟨fd', hth', -, -, -, hname⟩ := hacc.asked t ht
  rw [hstart] at hth'
  cases hth'
  exact ⟨hstart, by rwa [hI.unnamed_iff], hto, w, hw, hat⟩

/-- A step of one acceptor leaves the clients of the others alone. -/
theorem Accepting.sameAt_other (hacc : h.Acceptors a ts) (hs₁ : h₁.Sound)
    (hI : h.Accepting a ts h₁) {t t' : Nat} (ht : t ∈ ts) (ht' : t' ∈ ts) (htt : t' ≠ t)
    {fd fd' : Int} {p p' : Point} (hth : h₁.threads t = some ⟨fd, .serving p⟩)
    (hth' : h₁.threads t' = some ⟨fd', .serving p'⟩) :
    h₁.registry.SameAt (h₁.serve t fd p).registry fd' := by
  obtain ⟨-, -, -, w, -, hat⟩ := hI.of_thread hacc ht hth
  obtain ⟨hstart', -⟩ := hI.of_thread hacc ht' hth'
  have hfd : fd' ≠ fd := fun he => htt (hs₁.fd_inj hth' hth (by simp) (by simp) he)
  exact Point.sameAt_other hs₁.wf hfd fun htarget =>
    (hacc.conns ht' hstart').1 (hat.target htarget)

/-- A step of one acceptor. -/
theorem Accepting.serve (hacc : h.Acceptors a ts) (hs₁ : h₁.Sound) (hI : h.Accepting a ts h₁)
    {t : Nat} (ht : t ∈ ts) {fd : Int} {p : Point} (hth : h₁.threads t = some ⟨fd, .serving p⟩)
    (hp : p ≠ .done) : h.Accepting a ts (h₁.serve t fd p) := by
  obtain ⟨hstart, hname, hto, w, hw, hat⟩ := hI.of_thread hacc ht hth
  obtain ⟨hne, hown, hasker⟩ := hacc.conns ht hstart
  have hconns₁ := hI.conns
  have hnamed : ¬ h₁.registry.Unnamed a := by
    rw [hI.unnamed_iff]
    exact hacc.named
  refine ⟨?_, conns_serve.trans hconns₁, fun t' ht' => ?_⟩
  · exact hI.names.trans (sameNames_replay _ _ (Point.nameless_acts hat.ne_setName _ _))
  rcases eq_or_ne t' t with rfl | htt
  · obtain ⟨w', hnext, hto', hmsgs⟩ := hat.next hp hs₁.wf hI.names hnamed hname hto rfl
    refine ⟨fd, _, w ++ w', hstart, threads_serve_self, hnext, hto', ?_⟩
    rw [written_serve, hw, hconns₁, hmsgs h.conns t' hown hasker, List.append_assoc]
  · obtain ⟨fd', p', w', hstart', hth', hat', hto', hw'⟩ := hI.threads t' ht'
    obtain ⟨-, -, hasker'⟩ := hacc.conns ht' hstart'
    have hsame := hI.sameAt_other hacc hs₁ ht ht' htt hth hth'
    refine ⟨fd', p', w', hstart', (threads_serve_other htt).trans hth', ?_, ?_, ?_⟩
    · rw [hsame.1]
      exact hat'
    · rw [hsame.2]
      exact hto'
    · rw [written_serve_other, hw']
      · rw [hconns₁, hown]
        exact fun he => htt (Option.some.inj he).symm
      · intro g hg
        rw [hat.peer hg, hconns₁]
        exact hasker'

/-! ## One has taken the requester -/

/-- `b` has made the requester BUSY, and nobody else is about to. -/
structure Won (h : Host) (a : Int) (ts : List Nat) (b : Nat) (h₁ : Host) : Prop where
  accepting : h.Accepting a ts h₁
  busy : h₁.registry.getClientChattingStatusByFd a = .busy
  winner : ∀ fd p, h₁.threads b = some ⟨fd, .serving p⟩ →
    h₁.registry.getConnFdByFd a = fd ∧ h₁.registry.getClientChattingStatusByFd fd = .busy
  losers : ∀ t ∈ ts, t ≠ b → ∀ fd p, h₁.threads t = some ⟨fd, .serving p⟩ →
    p ≠ .pair a ∧ h₁.registry.getClientChattingStatusByFd fd ≠ .busy

theorem Won.serve (hacc : h.Acceptors a ts) (hs₁ : h₁.Sound) {b : Nat} (hb : b ∈ ts)
    (hI : h.Won a ts b h₁) {t : Nat} (ht : t ∈ ts) {fd : Int} {p : Point}
    (hth : h₁.threads t = some ⟨fd, .serving p⟩) (hp : p ≠ .done) :
    h.Won a ts b (h₁.serve t fd p) := by
  obtain ⟨hstart, hname, hto, w, hw, hat⟩ := hI.accepting.of_thread hacc ht hth
  have hpair : p ≠ .pair a := by
    rintro rfl
    rcases eq_or_ne t b with rfl | htb
    · rw [(hI.winner fd _ hth).2] at hat
      cases hat
    · exact (hI.losers t ht htb fd _ hth).1 rfl
  have hasker : h₁.registry.SameAt (h₁.serve t fd p).registry a :=
    Point.sameAt_other hs₁.wf (hacc.conns ht hstart).1.symm (by rw [hat.no_target hpair]; simp)
  have hnamed : ¬ h₁.registry.Unnamed a := by
    rw [hI.accepting.unnamed_iff]
    exact hacc.named
  refine ⟨hI.accepting.serve hacc hs₁ ht hth hp, hasker.1.trans hI.busy, fun fd' p' hb' => ?_,
    fun t' ht' htb fd' p' hth' => ?_⟩
  · rw [hasker.2]
    rcases eq_or_ne b t with rfl | hbt
    · rw [threads_serve_self] at hb'
      cases hb'
      obtain ⟨hlink, hbusy⟩ := hI.winner fd p hth
      exact ⟨hlink, hat.takes (Or.inr hbusy) hs₁.wf hname rfl⟩
    · rw [threads_serve_other hbt] at hb'
      obtain ⟨hlink, hbusy⟩ := hI.winner fd' p' hb'
      have hsame := hI.accepting.sameAt_other hacc hs₁ ht hb hbt hth hb'
      exact ⟨hlink, hsame.1.trans hbusy⟩
  · rcases eq_or_ne t' t with rfl | htt
    · rw [threads_serve_self] at hth'
      cases hth'
      exact hat.loses hpair (hI.losers t' ht htb fd p hth).2 hs₁.wf hnamed hname hto rfl hI.busy
    · rw [threads_serve_other htt] at hth'
      have hsame := hI.accepting.sameAt_other hacc hs₁ ht ht' htt hth hth'
      rw [hsame.1]
      exact hI.losers t' ht' htb fd' p' hth'

/-! ## Two are about to take it -/

/-- Both `b` and `b'` have found the requester not to be BUSY. -/
structure Doomed (h : Host) (a : Int) (ts : List Nat) (b b' : Nat) (h₁ : Host) : Prop where
  accepting : h.Accepting a ts h₁
  both : ∀ t, t = b ∨ t = b' → ∀ fd p, h₁.threads t = some ⟨fd, .serving p⟩ →
    p = .pair a ∨ h₁.registry.getClientChattingStatusByFd fd = .busy

theorem Doomed.serve (hacc : h.Acceptors a ts) (hs₁ : h₁.Sound) {b b' : Nat} (hb : b ∈ ts)
    (hb' : b' ∈ ts) (hI : h.Doomed a ts b b' h₁) {t : Nat} (ht : t ∈ ts) {fd : Int} {p : Point}
    (hth : h₁.threads t = some ⟨fd, .serving p⟩) (hp : p ≠ .done) :
    h.Doomed a ts b b' (h₁.serve t fd p) := by
  obtain ⟨-, hname, -, w, -, hat⟩ := hI.accepting.of_thread hacc ht hth
  refine ⟨hI.accepting.serve hacc hs₁ ht hth hp, fun t' hbb fd' p' hth' => ?_⟩
  have ht' : t' ∈ ts := by
    rcases hbb with rfl | rfl
    · exact hb
    · exact hb'
  rcases eq_or_ne t' t with rfl | htt
  · rw [threads_serve_self] at hth'
    cases hth'
    exact Or.inr (hat.takes (hI.both t' hbb fd p hth) hs₁.wf hname rfl)
  · rw [threads_serve_other htt] at hth'
    have hsame := hI.accepting.sameAt_other hacc hs₁ ht ht' htt hth hth'
    rw [hsame.1]
    exact hI.both t' hbb fd' p' hth'

/-! ## Who comes first -/

/-- An acceptor that finds the requester not to be BUSY. -/
theorem Accepting.checks (hacc : h.Acceptors a ts) (hs₁ : h₁.Sound) (hI : h.Accepting a ts h₁)
    {t : Nat} (ht : t ∈ ts) {fd : Int} (hth : h₁.threads t = some ⟨fd, .serving .accept⟩)
    (hfree : h₁.registry.getClientChattingStatusByFd a ≠ .busy) :
    (h₁.serve t fd .accept).threads t = some ⟨fd, .serving (.pair a)⟩ ∧
      (h₁.serve t fd .accept).registry = h₁.registry := by
  obtain ⟨-, -, hto, w, -, hat⟩ := hI.of_thread hacc ht hth
  have hnamed : ¬ h₁.registry.Unnamed a := by
    rw [hI.unnamed_iff]
    exact hacc.named
  have hinv := hs₁.wf.ne_invalidFd (isSome_of_named hnamed)
  constructor
  · rw [threads_serve_self]
    simp [Point.next, hto, if_neg hinv, if_neg hnamed, if_neg hfree, hat.status_accept]
  · rw [registry_serve, Point.acts, hto, if_neg fun hc => hnamed hc.2]
    rfl

/-- The first to check is about to pair. -/
theorem Acceptors.first (hacc : h.Acceptors a ts) {b : Nat} (hb : b ∈ ts) {fd : Int}
    (hth : h.threads b = some ⟨fd, .serving .accept⟩) :
    h.Accepting a ts (h.serve b fd .accept) ∧
      (h.serve b fd .accept).threads b = some ⟨fd, .serving (.pair a)⟩ ∧
      (h.serve b fd .accept).registry = h.registry :=
  ⟨hacc.accepting.serve hacc hacc.sound hb hth (by simp),
    hacc.accepting.checks hacc hacc.sound hb hth hacc.notBusy⟩

/-- Two steps are made at least. -/
theorem Acceptors.begins (hacc : h.Acceptors a ts) {sched : List Nat}
    (hsched : ∀ t ∈ sched, t ∈ ts) (hplay : play hostStep h (sched.map go) = some h')
    (hret : ∀ t ∈ ts, h'.Returned t) : ∃ b b' rest, sched = b :: b' :: rest := by
  refine two_steps hacc.sound hacc.nonempty (fun t ht => ?_) hsched hplay hret
  obtain ⟨fd, hth, -⟩ := hacc.asked t ht
  exact ⟨fd, .accept, .pair a, hth, by simp, (hacc.first ht hth).2.1, by simp⟩

/-- One acceptor runs both sections before anybody else runs one. -/
theorem Acceptors.won (hacc : h.Acceptors a ts) {b : Nat} (hb : b ∈ ts) {fd : Int}
    (hth : h.threads b = some ⟨fd, .serving .accept⟩) (hs₁ : (h.serve b fd .accept).Sound) :
    h.Won a ts b ((h.serve b fd .accept).serve b fd (.pair a)) := by
  obtain ⟨hI, hpair, hreg⟩ := hacc.first hb hth
  obtain ⟨-, hname, -⟩ := hI.of_thread hacc hb hpair
  have hnode : ((h.serve b fd .accept).registry.node a).isSome := by
    rw [hreg]
    exact isSome_of_named hacc.named
  refine ⟨hI.serve hacc hs₁ hb hpair (by simp), ?_, fun fd' p' hth' => ?_,
    fun t ht htb fd' p' hth' => ?_⟩
  · exact (Point.busy_links_iff hs₁.wf rfl).mpr (Or.inr ⟨trivial, Or.inr rfl, hnode⟩)
  · rw [threads_serve_self] at hth'
    cases hth'
    exact ⟨(Point.connFd_links hs₁.wf rfl hnode).trans (if_pos rfl),
      (Point.busy_links_iff hs₁.wf rfl).mpr (Or.inr ⟨trivial, Or.inl rfl, isSome_of_named hname⟩)⟩
  · rw [threads_serve_other htb] at hth'
    have hsame := hI.sameAt_other hacc hs₁ hb ht htb hpair hth'
    rw [threads_serve_other htb] at hth'
    obtain ⟨fd₀, hth₀, -, hst, -⟩ := hacc.asked t ht
    rw [hth'] at hth₀
    cases hth₀
    refine ⟨by simp, ?_⟩
    rw [hsame.1, hreg, hst]
    simp

theorem Won.taken (hI : h.Won a ts b h') (hb : b ∈ ts)
    (hret : ∀ t ∈ ts, h'.Returned t) : h.Taken h' a ts b := by
  have hend : ∀ t ∈ ts, ∃ fd w, h.threads t = some ⟨fd, .serving .accept⟩ ∧
      h'.threads t = some ⟨fd, .serving .done⟩ ∧ h'.written t = h.written t ++ w ∧
      Accepts h.registry a fd .done (h'.registry.getClientChattingStatusByFd fd) w := by
    intro t ht
    obtain ⟨fd, p, w, hth, hth', hat, -, hw⟩ := hI.accepting.threads t ht
    obtain rfl := (hret t ht).point hth'
    exact ⟨fd, w, hth, hth', hw, hat⟩
  refine ⟨fun th hth => ?_, ?_, fun t ht htb th hth => ?_, fun t ht htb => ?_⟩
  · obtain ⟨fd, w, hth₀, hth', -⟩ := hend b hb
    rw [hth] at hth₀
    cases hth₀
    exact (hI.winner fd _ hth').symm
  · obtain ⟨fd, w, -, hth', hw, hat⟩ := hend b hb
    rw [(hI.winner fd _ hth').2] at hat
    rw [hw, hat.done_busy]
  · obtain ⟨fd, w, hth₀, hth', -, hat⟩ := hend t ht
    rw [hth] at hth₀
    cases hth₀
    exact (hat.done_ne_busy (hI.losers t ht htb fd _ hth').2).1
  · obtain ⟨fd, w, -, hth', hw, hat⟩ := hend t ht
    rw [hw, (hat.done_ne_busy (hI.losers t ht htb fd _ hth').2).2]

/-- Two run their first section before either runs its second. -/
theorem Acceptors.doomed (hacc : h.Acceptors a ts) {b b' : Nat} (hb : b ∈ ts) (hb' : b' ∈ ts)
    (hbb : b' ≠ b) {fd fd' : Int} (hth : h.threads b = some ⟨fd, .serving .accept⟩)
    (hth' : h.threads b' = some ⟨fd', .serving .accept⟩) (hs₁ : (h.serve b fd .accept).Sound) :
    h.Doomed a ts b b' ((h.serve b fd .accept).serve b' fd' .accept) := by
  obtain ⟨hI, hpair, hreg⟩ := hacc.first hb hth
  have hstart : (h.serve b fd .accept).threads b' = some ⟨fd', .serving .accept⟩ :=
    (threads_serve_other hbb).trans hth'
  have hfree : (h.serve b fd .accept).registry.getClientChattingStatusByFd a ≠ .busy := by
    rw [hreg]
    exact hacc.notBusy
  obtain ⟨hpair', -⟩ := hI.checks hacc hs₁ hb' hstart hfree
  refine ⟨hI.serve hacc hs₁ hb' hstart (by simp), ?_⟩
  rintro t (rfl | rfl) fd₀ p₀ hth₀
  · rw [threads_serve_other hbb.symm, hpair] at hth₀
    cases hth₀
    exact Or.inl rfl
  · rw [hpair'] at hth₀
    cases hth₀
    exact Or.inl rfl

/-- Both get BUSY. -/
theorem Doomed.not_taken (hI : h.Doomed a ts b b' h') (hb : b ∈ ts) (hb' : b' ∈ ts)
    (hbb : b' ≠ b) (hret : ∀ t ∈ ts, h'.Returned t) {c : Nat} : ¬ h.Taken h' a ts c := by
  intro htaken
  have hbusy : ∀ t, t = b ∨ t = b' → t ∈ ts → t = c := by
    intro t ht hts
    obtain ⟨fd, p, w, hth, hth', -⟩ := hI.accepting.threads t hts
    obtain rfl := (hret t hts).point hth'
    by_contra htc
    have hfree := htaken.free t hts htc _ hth
    rcases hI.both t ht fd _ hth' with hp | hst
    · cases hp
    · rw [hst] at hfree
      cases hfree
  exact hbb ((hbusy b' (Or.inr rfl) hb').trans (hbusy b (Or.inl rfl) hb).symm)

end Host

/-- Exactly one acceptor takes the requester and all others are refused, if and only if the first
one runs both of its sections before anybody else runs one. -/
theorem one_acceptor_iff {h h' : Host} {a : Int} {ts : List Nat} (hacc : h.Acceptors a ts)
    {sched : List Nat} (hsched : ∀ t ∈ sched, t ∈ ts)
    (hplay : play hostStep h (sched.map go) = some h') (hret : ∀ t ∈ ts, h'.Returned t) :
    (∃ b ∈ ts, h.Taken h' a ts b) ↔ ∃ b rest, sched = b :: b :: rest := by
  obtain ⟨b, b', rest, rfl⟩ := hacc.begins hsched hplay hret
  obtain ⟨hb, hsched⟩ := List.forall_mem_cons.mp hsched
  obtain ⟨hb', hrest⟩ := List.forall_mem_cons.mp hsched
  obtain ⟨fd, hth, -⟩ := hacc.asked b hb
  obtain ⟨hs₁, hplay⟩ := Host.play_serve hth (by simp) hacc.sound hplay
  obtain ⟨hI, hpair, -⟩ := hacc.first hb hth
  have hat : ∀ {h₁ : Host}, h.Accepting a ts h₁ → ∀ t ∈ ts, ∃ fd p,
      h₁.threads t = some ⟨fd, .serving p⟩ := by
    intro h₁ hI t ht
    obtain ⟨fd, p, -, -, hth, -⟩ := hI.threads t ht
    exact ⟨fd, p, hth⟩
  rcases eq_or_ne b' b with rfl | hbb
  · obtain ⟨hs₂, hplay⟩ := Host.play_serve hpair (by simp) hs₁ hplay
    obtain ⟨-, hwon⟩ := Host.together (I := h.Won a ts b') (fun _ hI => hat hI.accepting)
      (fun _ _ _ _ hs hI ht hth hp => hI.serve hacc hs hb ht hth hp) rest hs₂
      (hacc.won hb hth hs₁) hrest hplay hret
    exact iff_of_true ⟨b', hb, hwon.taken hb hret⟩ ⟨b', rest, rfl⟩
  · obtain ⟨fd', hth', -⟩ := hacc.asked b' hb'
    have hstart : (h.serve b fd .accept).threads b' = some ⟨fd', .serving .accept⟩ :=
      (Host.threads_serve_other hbb).trans hth'
    obtain ⟨hs₂, hplay⟩ := Host.play_serve hstart (by simp) hs₁ hplay
    obtain ⟨-, hdoomed⟩ := Host.together (I := h.Doomed a ts b b') (fun _ hI => hat hI.accepting)
      (fun _ _ _ _ hs hI ht hth hp => hI.serve hacc hs hb hb' ht hth hp) rest hs₂
      (hacc.doomed hb hb' hbb hth hth' hs₁) hrest hplay hret
    refine iff_of_false ?_ ?_
    · rintro ⟨c, -, htaken⟩
      exact hdoomed.not_taken hb hb' hbb hret htaken
    · rintro ⟨c, rest', hc⟩
      cases hc
      exact hbb rfl

/-- Client 4 has asked 5 and then 6; both have accepted, and their handlers start. -/
@[irreducible] def bothAccept : List Move :=
  arrives 0 4 ++ arrives 1 5 ++ arrives 2 6 ++
    [tells 0 (asksFor 5)] ++ List.replicate 7 (go 0) ++
    [tells 0 (asksFor 6)] ++ List.replicate 7 (go 0) ++
    [tells 1 (.ofType .clientAcceptConnection), tells 2 (.ofType .clientAcceptConnection)]

theorem acceptors_bothAccept : (afterMoves bothAccept).Acceptors 4 [1, 2] where
  sound := Host.sound_of_reachable ⟨bothAccept, play_final (by decide +kernel)⟩
  notBusy := by decide +kernel
  named := by decide +kernel
  nonempty := by simp
  asked := by
    intro t ht
    rcases List.mem_pair.mp ht with rfl | rfl
    · exact ⟨5, by decide +kernel, by decide, by decide +kernel, by decide +kernel,
        by decide +kernel⟩
    · exact ⟨6, by decide +kernel, by decide, by decide +kernel, by decide +kernel,
        by decide +kernel⟩

/-- 5 is first and runs both of its sections at once. -/
theorem first_takes :
    ∃ b ∈ [1, 2], (afterMoves bothAccept).Taken (final hostStep (afterMoves bothAccept)
      ([1, 1, 2, 1, 2, 1, 2, 1, 2, 1, 1, 1].map go)) 4 [1, 2] b :=
  (one_acceptor_iff acceptors_bothAccept (by decide) (play_final (by decide +kernel))
    (by decide +kernel)).mpr ⟨1, _, rfl⟩

/-- Both check before either pairs, and both get BUSY. -/
theorem both_take :
    ¬ ∀ (h h' : Host) (a : Int) (ts sched : List Nat), h.Acceptors a ts → (∀ t ∈ sched, t ∈ ts) →
      play hostStep h (sched.map go) = some h' → (∀ t ∈ ts, h'.Returned t) →
      ∃ b ∈ ts, h.Taken h' a ts b := by
  intro hall
  obtain ⟨b, hb, htaken⟩ := hall (afterMoves bothAccept) _ 4 [1, 2]
    ([1, 2] ++ List.replicate 7 1 ++ List.replicate 7 2) acceptors_bothAccept (by decide)
    (play_final (by decide +kernel)) (by decide +kernel)
  rcases List.mem_pair.mp hb with rfl | rfl
  · have hfree := htaken.free 2 (by decide) (by decide) ⟨6, .serving .accept⟩ (by decide +kernel)
    revert hfree
    decide +kernel
  · have hfree := htaken.free 1 (by decide) (by decide) ⟨5, .serving .accept⟩ (by decide +kernel)
    revert hfree
    decide +kernel

end ChatSocket
