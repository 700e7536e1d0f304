/-
# `Host.Requesters` — who is granted a client that several ask for

Several clients ask at once for one that is free, and nothing else happens.  Who
has read that it is free claims it, whoever else has read the same.

`one_answered_iff`: exactly one of them is answered MSG_CLIENT_FREE, and the
client is sent exactly one MSG_CONNECTION_REQ_RX, if and only if the one that
comes first runs its first two sections before anybody else runs one.

`requests_hold` joins this with `Host.Claims`: what holds of all runs, and what
comes of requests for the same client.
-/
import ChatSocket.Host.Claims
import ChatSocket.Host.Together

namespace ChatSocket

open Kit Registry

/-- `handle_chat_connection_request` of `fd` for the client `x`: whether it has found the client
free, the point it is at, and what its own client and `x` have been sent. -/
inductive Requests (r : Registry) (name : List UInt8) (x fd : Int) :
    Bool → Point → List Msg → List Msg → Prop where
  | checks : Requests r name x fd false (.connect name) [] []
  | refuses : Requests r name x fd false
      (.reply (Point.answer name .clientStatusReqPending)) [] []
  | refused : Requests r name x fd false .done [Point.answer name .clientStatusReqPending] []
  | claims : Requests r name x fd true (.claim name (r.getClientNameByFd fd)) [] []
  | links : Requests r name x fd true (.link name (r.getClientNameByFd fd) x) [] []
  | copies : Requests r name x fd true (.copyAsker name (r.getClientNameByFd fd) x) [] []
  | asks : Requests r name x fd true (.ask name x (r.nameOf fd)) [] []
  | answers : Requests r name x fd true (.reply (Point.answer name .clientFree)) []
      [.withText .connectionReqRx (r.nameOf fd)]
  | answered : Requests r name x fd true .done [Point.answer name .clientFree]
      [.withText .connectionReqRx (r.nameOf fd)]

section Step
variable {r r₁ : Registry} {name : List UInt8} {x fd : Int} {granted : Bool} {p : Point}
  {w v : List Msg} {myName : CharPtr}

/-- What the first section does with a name that is another client's. -/
theorem connect_next (hwf : r₁.Wf) (hcalled : r₁.called name = some x)
    (hself : strcmp (r₁.nameOf fd) name ≠ 0)
    (hst : r₁.getClientChattingStatusByFd x = .free ∨
      r₁.getClientChattingStatusByFd x = .reqPending) :
    (Point.connect name).next fd r₁
      = if r₁.getClientChattingStatusByFd x = .free then .claim name (r₁.getClientNameByFd fd)
        else .reply (Point.answer name .clientStatusReqPending) := by
  obtain ⟨n, hn, -⟩ := Option.map_eq_some_iff.mp hcalled
  have hexists : r₁.checkClientWithSameNameExistOrNot name = .nameExists := by
    rw [check_eq_nameExists_iff, hn]
    rfl
  simp only [Point.next, hexists, ne_eq, not_true_eq_false, if_false, if_neg hself,
    hwf.statusByName_eq hcalled]
  rcases hst with hst | hst <;> simp [hst]

/-- What the handler does next, to its own client and to the one asked. -/
theorem Requests.next (h : Requests r name x fd granted p w v) (hp : p ≠ .done) (hwf : r₁.Wf)
    (hnames : r.SameNames r₁) (hcalled : r₁.called name = some x)
    (hself : strcmp (r₁.nameOf fd) name ≠ 0)
    (hst : r₁.getClientChattingStatusByFd x = .free ∨
      r₁.getClientChattingStatusByFd x = .reqPending) :
    ∃ granted' w' v', Requests r name x fd granted' (p.next fd r₁) (w ++ w') (v ++ v') ∧
      (granted = true ∨ r₁.getClientChattingStatusByFd x = .reqPending → granted' = granted) ∧
      ∀ conns : Int → Option Nat, ∀ t c, conns fd = some t → conns x = some c → t ≠ c →
        Host.msgsOn conns t (p.acts fd r₁) = w' ∧ Host.msgsOn conns c (p.acts fd r₁) = v' := by
  have hquiet : p.acts fd r₁ = [] → ∀ conns : Int → Option Nat, ∀ t c, conns fd = some t →
      conns x = some c → t ≠ c →
        Host.msgsOn conns t (p.acts fd r₁) = [] ∧ Host.msgsOn conns c (p.acts fd r₁) = [] := by
    intro hacts _ _ _ _ _ _
    rw [hacts]
    exact ⟨rfl, rfl⟩
  cases h with
  | checks =>
      rw [connect_next hwf hcalled hself hst, hnames.pointer]
      split
      · next hfree => exact ⟨true, [], [], .claims, by simp [hfree], hquiet rfl⟩
      · exact ⟨false, [], [], .refuses, fun _ => rfl, hquiet rfl⟩
  | refuses =>
      refine ⟨false, [Point.answer name .clientStatusReqPending], [], .refused, fun _ => rfl,
        fun conns t c ht _ htc => ?_⟩
      simp [Point.acts, Host.msgsOn, ht, htc]
  | claims =>
      have hfound := getClientFdByName_of_called hcalled
      have hx : x ≠ invalidFd := hwf.ne_invalidFd (hwf.isSome_called hcalled)
      refine ⟨true, [], [], ?_, fun _ => rfl, fun _ _ _ _ _ _ => ⟨rfl, rfl⟩⟩
      rw [Point.next, hfound, if_neg hx]
      exact .links
  | links => exact ⟨true, [], [], .copies, fun _ => rfl, fun _ _ _ _ _ _ => ⟨rfl, rfl⟩⟩
  | copies =>
      refine ⟨true, [], [], ?_, fun _ => rfl, hquiet rfl⟩
      rw [Point.next, hnames.strAt]
      exact .asks
  | asks =>
      refine ⟨true, [], [.withText .connectionReqRx (r.nameOf fd)], .answers, fun _ => rfl,
        fun conns t c _ hc htc => ?_⟩
      simp [Point.acts, Host.msgsOn, hc, Ne.symm htc]
  | answers =>
      refine ⟨true, [Point.answer name .clientFree], [], .answered, fun _ => rfl,
        fun conns t c ht _ htc => ?_⟩
      simp [Point.acts, Host.msgsOn, ht, htc]
  | refused | answered => exact absurd rfl hp

/-- The status of the client changes when it is claimed. -/
theorem Requests.status (h : Requests r name x fd granted p w v) (hwf : r₁.Wf)
    (hcalled : r₁.called name = some x) :
    (replay r₁ (p.acts fd r₁)).getClientChattingStatusByFd x
      = if p.claims? = none then r₁.getClientChattingStatusByFd x else .reqPending := by
  cases h with
  | claims =>
      rw [Point.status_claim hwf name _ fd (hwf.isSome_called hcalled), if_pos hcalled]
      rfl
  | links => exact Point.status_link hwf name _ fd x x
  | _ => rfl

theorem Requests.peer (h : Requests r name x fd granted p w v) {g : Int}
    (hg : p.peer? = some g) : g = x := by
  cases h <;> simp_all [Point.peer?]

/-- Who has not found the client free has nothing to do with it. -/
theorem Requests.no_peer (h : Requests r name x fd false p w v) : p.peer? = none := by
  cases h <;> rfl

theorem Requests.found (h : Requests r name x fd granted (.claim name myName) w v) :
    granted = true := by
  cases h
  rfl

theorem Requests.done_true (h : Requests r name x fd true .done w v) :
    w = [Point.answer name .clientFree] ∧ v = [.withText .connectionReqRx (r.nameOf fd)] := by
  cases h
  exact ⟨rfl, rfl⟩

theorem Requests.done_false (h : Requests r name x fd false .done w v) :
    w = [Point.answer name .clientStatusReqPending] := by
  cases h
  rfl

theorem Requests.ne_setName (h : Requests r name x fd granted p w v) (msg : Msg) :
    p ≠ .setName msg := by
  cases h <;> simp

end Step

/-! ## All of them -/

/-- The clients of the threads `ts` are about to ask for `x`, who is free, by its name, which is
the name of none of them. -/
structure Host.Requesters (h : Host) (name : List UInt8) (x : Int) (ts : List Nat) : Prop where
  sound : h.Sound
  called : h.registry.called name = some x
  free : h.registry.getClientChattingStatusByFd x = .free
  nonempty : ts ≠ []
  asking : ∀ t ∈ ts, ∃ fd, h.threads t = some ⟨fd, .serving (.connect name)⟩ ∧
    strcmp (h.registry.nameOf fd) name ≠ 0

/-- Exactly one of them is answered MSG_CLIENT_FREE, `x` is sent exactly one
MSG_CONNECTION_REQ_RX, and nobody else is sent one. -/
structure Host.OneAnswered (h h' : Host) (name : List UInt8) (x : Int) (ts : List Nat) : Prop where
  free : ∃! t, t ∈ ts ∧ h'.written t = h.written t ++ [Point.answer name .clientFree]
  asked : ∀ c, h.conns x = some c →
    ∃ asker, h'.written c = h.written c ++ [.withText .connectionReqRx asker]
  elsewhere : ∀ c, h.conns x ≠ some c →
    ∃ w, h'.written c = h.written c ++ w ∧ ∀ msg ∈ w, msg.msgType ≠ .connectionReqRx

/-- Where the requesters are on their way, and which of them have found the client free. -/
structure Host.Requesting (h : Host) (name : List UInt8) (x : Int) (ts : List Nat)
    (granted : Nat → Bool) (h₁ : Host) : Prop where
  names : h.registry.SameNames h₁.registry
  conns : h₁.conns = h.conns
  target : h₁.registry.getClientChattingStatusByFd x = .free ∨
    h₁.registry.getClientChattingStatusByFd x = .reqPending
  threads : ∀ t ∈ ts, ∃ fd p w v, h.threads t = some ⟨fd, .serving (.connect name)⟩ ∧
    h₁.threads t = some ⟨fd, .serving p⟩ ∧ Requests h.registry name x fd (granted t) p w v ∧
    h₁.written t = h.written t ++ w

namespace Host

variable {h h₁ h' : Host} {name : List UInt8} {x : Int} {ts : List Nat} {granted : Nat → Bool}
  {b b' t : Nat} {fd : Int} {p : Point}

theorem Requesters.requesting (hreq : h.Requesters name x ts) :
    h.Requesting name x ts (fun _ => false) h where
  names := .refl _
  conns := rfl
  target := Or.inl hreq.free
  threads := fun t ht => by
    obtain ⟨fd, hth, -⟩ := hreq.asking t ht
    exact ⟨fd, .connect name, [], [], hth, hth, .checks, by simp⟩

/-- The client that is asked has a connection. -/
theorem Requesters.target (hreq : h.Requesters name x ts) : ∃ c, h.conns x = some c := by
  obtain ⟨n, hn, rfl⟩ := Option.map_eq_some_iff.mp hreq.called
  obtain ⟨c, -, hc, -⟩ := hreq.sound.owner n (nodeByName_mem hn)
  exact ⟨c, hc⟩

/-- The connection of a requester is its own. -/
theorem Requesters.conns (hreq : h.Requesters name x ts) (ht : t ∈ ts) {stage : Stage}
    (hth : h.threads t = some ⟨fd, stage⟩) :
    h.conns fd = some t ∧ h.conns x ≠ some t ∧ strcmp (h.registry.nameOf fd) name ≠ 0 := by
  obtain ⟨fd', hth', hself⟩ := hreq.asking t ht
  rw [hth] at hth'
  cases hth'
  refine ⟨hreq.sound.holds t _ hth (by simp), fun hc => ?_, hself⟩
  obtain ⟨n, hn, rfl⟩ := Option.map_eq_some_iff.mp hreq.called
  obtain ⟨th, ht', hfd, -⟩ := hreq.sound.owner_eq (nodeByName_mem hn) hc
  rw [hth] at ht'
  cases ht'
  exact hreq.sound.wf.ne_of_name hn hself hfd

/-- What is known of a requester on its way. -/
theorem Requesting.of_thread (hI : h.Requesting name x ts granted h₁) (ht : t ∈ ts)
    (hth : h₁.threads t = some ⟨fd, .serving p⟩) :
    h.threads t = some ⟨fd, .serving (.connect name)⟩ ∧
      ∃ w v, Requests h.registry name x fd (granted t) p w v ∧
        h₁.written t = h.written t ++ w := by
  obtain ⟨fd₀, p₀, w, v, hstart, hth₀, hat, hw⟩ := hI.threads t ht
  rw [hth] at hth₀
  cases hth₀
  exact ⟨hstart, w, v, hat, hw⟩

theorem Requesting.called (hreq : h.Requesters name x ts) (hI : h.Requesting name x ts granted h₁) :
    h₁.registry.called name = some x := by
  rw [hI.names.called]
  exact hreq.called

/-- A step of one requester. -/
theorem Requesting.serve (hreq : h.Requesters name x ts) (hs₁ : h₁.Sound)
    (hI : h.Requesting name x ts granted h₁) (ht : t ∈ ts)
    (hth : h₁.threads t = some ⟨fd, .serving p⟩) (hp : p ≠ .done) :
    ∃ found, h.Requesting name x ts (Function.update granted t found) (h₁.serve t fd p) ∧
      (granted t = true ∨ h₁.registry.getClientChattingStatusByFd x = .reqPending →
        found = granted t) := by
  obtain ⟨hstart, w, v, hat, hw⟩ := hI.of_thread ht hth
  obtain ⟨hown, htarget, hself⟩ := hreq.conns ht hstart
  have hcalled := hI.called hreq
  have hconns₁ := hI.conns
  rw [← hI.names.nameOf] at hself
  obtain ⟨c, hc⟩ := hreq.target
  obtain ⟨found, w', v', hnext, hfound, hmsgs⟩ :=
    hat.next hp hs₁.wf hI.names hcalled hself hI.target
  refine ⟨found, ⟨?_, conns_serve.trans hconns₁, ?_, fun t' ht' => ?_⟩, hfound⟩
  · exact hI.names.trans (sameNames_replay _ _ (Point.nameless_acts hat.ne_setName _ _))
  · rw [registry_serve, hat.status hs₁.wf hcalled]
    split
    · exact hI.target
    · exact Or.inr rfl
  · rcases eq_or_ne t' t with rfl | htt
    · refine ⟨fd, _, w ++ w', v ++ v', hstart, threads_serve_self, ?_, ?_⟩
      · rw [Function.update_self]
        exact hnext
      · have htc : t' ≠ c := by
          rintro rfl
          exact htarget hc
        rw [written_serve, hw, hconns₁, (hmsgs h.conns t' c hown hc htc).1, List.append_assoc]
    · obtain ⟨fd', p', w₁, v₁, hstart', hth', hat', hw'⟩ := hI.threads t' ht'
      obtain ⟨-, htarget', -⟩ := hreq.conns ht' hstart'
      refine ⟨fd', p', w₁, v₁, hstart', (threads_serve_other htt).trans hth', ?_, ?_⟩
      · rw [Function.update_of_ne htt]
        exact hat'
      · rw [written_serve_other, hw']
        · rw [hconns₁, hown]
          exact fun he => htt (Option.some.inj he).symm
        · intro g hg
          rw [hat.peer hg, hconns₁]
          exact htarget'

/-! ## One has claimed the client -/

/-- `b` has claimed the client, and nobody else has found it free. -/
structure Granted (h : Host) (name : List UInt8) (x : Int) (ts : List Nat) (b : Nat)
    (h₁ : Host) : Prop where
  requesting : h.Requesting name x ts (Function.update (fun _ => false) b true) h₁
  pending : h₁.registry.getClientChattingStatusByFd x = .reqPending
  asked : ∀ fd p, h₁.threads b = some ⟨fd, .serving p⟩ → ∃ w v,
    Requests h.registry name x fd true p w v ∧
      ∀ c, h.conns x = some c → h₁.written c = h.written c ++ v
  elsewhere : ∀ c ∉ ts, h.conns x ≠ some c → h₁.written c = h.written c

theorem Granted.serve (hreq : h.Requesters name x ts) (hs₁ : h₁.Sound)
    (hI : h.Granted name x ts b h₁) (ht : t ∈ ts) (hth : h₁.threads t = some ⟨fd, .serving p⟩)
    (hp : p ≠ .done) : h.Granted name x ts b (h₁.serve t fd p) := by
  obtain ⟨hstart, w, v, hat, -⟩ := hI.requesting.of_thread ht hth
  obtain ⟨hown, htarget, hself⟩ := hreq.conns ht hstart
  have hcalled := hI.requesting.called hreq
  have hconns₁ := hI.requesting.conns
  have hne : ∀ c, h.conns x = some c → t ≠ c := by
    rintro c hc rfl
    exact htarget hc
  refine ⟨?_, ?_, fun fd' p' hb => ?_, fun c hc hx => ?_⟩
  · obtain ⟨found, hI', hfound⟩ := hI.requesting.serve hreq hs₁ ht hth hp
    rw [hfound (Or.inr hI.pending), Function.update_eq_self] at hI'
    exact hI'
  · rw [registry_serve, hat.status hs₁.wf hcalled]
    split
    · exact hI.pending
    · rfl
  · rcases eq_or_ne b t with rfl | hbt
    · rw [threads_serve_self] at hb
      cases hb
      obtain ⟨w, v, hat, hv⟩ := hI.asked fd p hth
      rw [← hI.requesting.names.nameOf] at hself
      obtain ⟨found, w', v', hnext, hfound, hmsgs⟩ :=
        hat.next hp hs₁.wf hI.requesting.names hcalled hself hI.requesting.target
      obtain rfl := hfound (Or.inl rfl)
      refine ⟨w ++ w', v ++ v', hnext, fun c hc => ?_⟩
      rw [written_serve, hv c hc, hconns₁, (hmsgs h.conns b c hown hc (hne c hc)).2,
        List.append_assoc]
    · rw [threads_serve_other hbt] at hb
      obtain ⟨w', v', hat', hv'⟩ := hI.asked fd' p' hb
      refine ⟨w', v', hat', fun c hc => ?_⟩
      rw [Function.update_of_ne hbt.symm] at hat
      rw [written_serve_other, hv' c hc]
      · rw [hconns₁, hown]
        exact fun he => hne c hc (Option.some.inj he)
      · rw [hat.no_peer]
        exact fun _ hg => nomatch hg
  · rw [written_serve_other, hI.elsewhere c hc hx]
    · rw [hconns₁, hown]
      exact fun he => hc (Option.some.inj he ▸ ht)
    · intro g hg
      rw [hat.peer hg, hconns₁]
      exact hx

/-- In the end it is the one that is answered. -/
theorem Granted.oneAnswered (hI : h.Granted name x ts b h') (hb : b ∈ ts)
    (hret : ∀ t ∈ ts, h'.Returned t) :
    h.OneAnswered h' name x ts := by
  have hend : ∀ t ∈ ts, h'.written t = h.written t ++
      [Point.answer name (if t = b then .clientFree else .clientStatusReqPending)] := by
    intro t ht
    obtain ⟨fd, p, w, v, -, hth, hat, hw⟩ := hI.requesting.threads t ht
    obtain rfl := (hret t ht).point hth
    rw [hw, Function.update_apply] at *
    split at hat
    · next htb => rw [if_pos htb, hat.done_true.1]
    · next htb => rw [if_neg htb, hat.done_false]
  refine ⟨⟨b, ⟨hb, ?_⟩, ?_⟩, fun c hc => ?_, fun c hc => ?_⟩
  · rw [hend b hb, if_pos rfl]
  · rintro t ⟨ht, hfree⟩
    by_contra htb
    rw [hend t ht, if_neg htb, List.append_cancel_left_eq] at hfree
    cases hfree
  · obtain ⟨fd, p, -, -, -, hth, -⟩ := hI.requesting.threads b hb
    obtain rfl := (hret b hb).point hth
    obtain ⟨w, v, hat, hv⟩ := hI.asked fd _ hth
    exact ⟨_, by rw [hv c hc, hat.done_true.2]⟩
  · rcases em (c ∈ ts) with ht | ht
    · refine ⟨_, hend c ht, ?_⟩
      split <;> simp [Point.answer]
    · exact ⟨[], by rw [hI.elsewhere c ht hc, List.append_nil], by simp⟩

/-! ## Two have found it free -/

def BothGranted (h : Host) (name : List UInt8) (x : Int) (ts : List Nat) (b b' : Nat)
    (h₁ : Host) : Prop :=
  ∃ granted, h.Requesting name x ts granted h₁ ∧ granted b = true ∧ granted b' = true

theorem BothGranted.serve (hreq : h.Requesters name x ts) (hs₁ : h₁.Sound)
    (hI : h.BothGranted name x ts b b' h₁) (ht : t ∈ ts)
    (hth : h₁.threads t = some ⟨fd, .serving p⟩) (hp : p ≠ .done) :
    h.BothGranted name x ts b b' (h₁.serve t fd p) := by
  obtain ⟨granted, hI, hb, hb'⟩ := hI
  obtain ⟨found, hI', hfound⟩ := hI.serve hreq hs₁ ht hth hp
  have hkept : ∀ t', granted t' = true → Function.update granted t found t' = true := by
    intro t' hg
    rw [Function.update_apply]
    split
    · next htt =>
        rw [← hg, htt]
        exact hfound (Or.inl (htt ▸ hg))
    · exact hg
  exact ⟨_, hI', hkept b hb, hkept b' hb'⟩

/-- Both are answered. -/
theorem BothGranted.not_oneAnswered (hI : h.BothGranted name x ts b b' h') (hb : b ∈ ts)
    (hb' : b' ∈ ts) (hbb : b' ≠ b) (hret : ∀ t ∈ ts, h'.Returned t) :
    ¬ h.OneAnswered h' name x ts := by
  obtain ⟨granted, hI, hg, hg'⟩ := hI
  have hanswered : ∀ t ∈ ts, granted t = true →
      t ∈ ts ∧ h'.written t = h.written t ++ [Point.answer name .clientFree] := by
    intro t ht hgt
    obtain ⟨fd, p, w, v, -, hth, hat, hw⟩ := hI.threads t ht
    obtain rfl := (hret t ht).point hth
    rw [hgt] at hat
    rw [hw, hat.done_true.1]
    exact ⟨ht, rfl⟩
  intro hone
  exact hbb (hone.free.unique (hanswered b' hb' hg') (hanswered b hb hg))

/-! ## Who comes first -/

/-- A requester that finds the client free. -/
theorem Requesting.checks (hreq : h.Requesters name x ts) (hs₁ : h₁.Sound)
    (hI : h.Requesting name x ts granted h₁) (ht : t ∈ ts)
    (hth : h₁.threads t = some ⟨fd, .serving (.connect name)⟩)
    (hfree : h₁.registry.getClientChattingStatusByFd x = .free) :
    h.Requesting name x ts (Function.update granted t true) (h₁.serve t fd (.connect name)) ∧
      (h₁.serve t fd (.connect name)).threads t
        = some ⟨fd, .serving (.claim name (h₁.registry.getClientNameByFd fd))⟩ := by
  obtain ⟨hstart, -⟩ := hI.of_thread ht hth
  obtain ⟨-, -, hself⟩ := hreq.conns ht hstart
  rw [← hI.names.nameOf] at hself
  have hclaim : (h₁.serve t fd (.connect name)).threads t
      = some ⟨fd, .serving (.claim name (h₁.registry.getClientNameByFd fd))⟩ := by
    rw [threads_serve_self, connect_next hs₁.wf (hI.called hreq) hself (Or.inl hfree), if_pos hfree]
  obtain ⟨found, hI', -⟩ := hI.serve hreq hs₁ ht hth (by simp)
  obtain ⟨-, w, v, hat, -⟩ := hI'.of_thread ht hclaim
  rw [Function.update_self] at hat
  obtain rfl := hat.found
  exact ⟨hI', hclaim⟩

/-- Two steps are made at least. -/
theorem Requesters.begins (hreq : h.Requesters name x ts) {sched : List Nat}
    (hsched : ∀ t ∈ sched, t ∈ ts) (hplay : play hostStep h (sched.map go) = some h')
    (hret : ∀ t ∈ ts, h'.Returned t) : ∃ b b' rest, sched = b :: b' :: rest := by
  refine two_steps hreq.sound hreq.nonempty (fun t ht => ?_) hsched hplay hret
  obtain ⟨fd, hth, -⟩ := hreq.asking t ht
  obtain ⟨-, hclaim⟩ := hreq.requesting.checks hreq hreq.sound ht hth hreq.free
  exact ⟨fd, .connect name, _, hth, by simp, hclaim, by simp⟩

/-- One requester runs both sections before anybody else runs one. -/
theorem Requesters.claims (hreq : h.Requesters name x ts) (hb : b ∈ ts)
    (hth : h.threads b = some ⟨fd, .serving (.connect name)⟩)
    (hs₁ : (h.serve b fd (.connect name)).Sound) :
    h.Granted name x ts b ((h.serve b fd (.connect name)).serve b fd
      (.claim name (h.registry.getClientNameByFd fd))) := by
  obtain ⟨hI, hclaim⟩ := hreq.requesting.checks hreq hreq.sound hb hth hreq.free
  obtain ⟨-, w, v, hat, -⟩ := hI.of_thread hb hclaim
  have hcalled := hI.called hreq
  have hwritten : ∀ c, ((h.serve b fd (.connect name)).serve b fd
      (.claim name (h.registry.getClientNameByFd fd))).written c = h.written c := by
    intro c
    simp [written_serve, Point.acts, msgsOn]
  refine ⟨?_, ?_, fun fd' p' hb' => ?_, fun c _ _ => hwritten c⟩
  · obtain ⟨found, hI', hfound⟩ := hI.serve hreq hs₁ hb hclaim (by simp)
    rw [Function.update_idem] at hI'
    obtain rfl : found = true := by
      rw [hfound (Or.inl (Function.update_self _ _ _)), Function.update_self]
    exact hI'
  · rw [registry_serve, hat.status hs₁.wf hcalled]
    rfl
  · rw [threads_serve_self] at hb'
    cases hb'
    have hx : x ≠ invalidFd := hs₁.wf.ne_invalidFd (hs₁.wf.isSome_called hcalled)
    refine ⟨[], [], ?_, fun c _ => by rw [hwritten c, List.append_nil]⟩
    rw [Point.next, getClientFdByName_of_called hcalled, if_neg hx]
    exact .links

/-- Two run their first section before either runs its second. -/
theorem Requesters.bothGranted (hreq : h.Requesters name x ts) (hb : b ∈ ts) (hb' : b' ∈ ts)
    (hbb : b' ≠ b) {fd' : Int} (hth : h.threads b = some ⟨fd, .serving (.connect name)⟩)
    (hth' : h.threads b' = some ⟨fd', .serving (.connect name)⟩)
    (hs₁ : (h.serve b fd (.connect name)).Sound) :
    h.BothGranted name x ts b b'
      ((h.serve b fd (.connect name)).serve b' fd' (.connect name)) := by
  obtain ⟨hI, -⟩ := hreq.requesting.checks hreq hreq.sound hb hth hreq.free
  obtain ⟨hI', -⟩ := hI.checks hreq hs₁ hb' ((threads_serve_other hbb).trans hth') hreq.free
  refine ⟨_, hI', ?_, Function.update_self _ _ _⟩
  rw [Function.update_of_ne hbb.symm, Function.update_self]

end Host

/-- Exactly one requester is answered MSG_CLIENT_FREE and exactly one MSG_CONNECTION_REQ_RX is
sent, if and only if the first one runs its first two sections before anybody else runs one. -/
theorem one_answered_iff {h h' : Host} {name : List UInt8} {x : Int} {ts : List Nat}
    (hreq : h.Requesters name x ts) {sched : List Nat} (hsched : ∀ t ∈ sched, t ∈ ts)
    (hplay : play hostStep h (sched.map go) = some h') (hret : ∀ t ∈ ts, h'.Returned t) :
    h.OneAnswered h' name x ts ↔ ∃ b rest, sched = b :: b :: rest := by
  obtain ⟨b, b', rest, rfl⟩ := hreq.begins hsched hplay hret
  obtain ⟨hb, hsched⟩ := List.forall_mem_cons.mp hsched
  obtain ⟨hb', hrest⟩ := List.forall_mem_cons.mp hsched
  obtain ⟨fd, hth, -⟩ := hreq.asking b hb
  obtain ⟨hs₁, hplay⟩ := Host.play_serve hth (by simp) hreq.sound hplay
  obtain ⟨hI, hclaim⟩ := hreq.requesting.checks hreq hreq.sound hb hth hreq.free
  have hat : ∀ {granted : Nat → Bool} {h₁ : Host}, h.Requesting name x ts granted h₁ →
      ∀ t ∈ ts, ∃ fd p, h₁.threads t = some ⟨fd, .serving p⟩ := by
    intro granted h₁ hI t ht
    obtain ⟨fd, p, -, -, -, hth, -⟩ := hI.threads t ht
    exact ⟨fd, p, hth⟩
  rcases eq_or_ne b' b with rfl | hbb
  · obtain ⟨hs₂, hplay⟩ := Host.play_serve hclaim (by simp) hs₁ hplay
    obtain ⟨-, hgranted⟩ := Host.together (I := h.Granted name x ts b')
      (fun _ hI => hat hI.requesting)
      (fun _ _ _ _ hs hI ht hth hp => hI.serve hreq hs ht hth hp) rest hs₂
      (hreq.claims hb hth hs₁) hrest hplay hret
    exact iff_of_true (hgranted.oneAnswered hb hret) ⟨b', rest, rfl⟩
  · obtain ⟨fd', hth', -⟩ := hreq.asking b' hb'
    have hstart : (h.serve b fd (.connect name)).threads b'
        = some ⟨fd', .serving (.connect name)⟩ := (Host.threads_serve_other hbb).trans hth'
    obtain ⟨hs₂, hplay⟩ := Host.play_serve hstart (by simp) hs₁ hplay
    obtain ⟨-, hboth⟩ := Host.together (I := h.BothGranted name x ts b b')
      (fun _ hI => hat hI.choose_spec.1)
      (fun _ _ _ _ hs hI ht hth hp => hI.serve hreq hs ht hth hp) rest hs₂
      (hreq.bothGranted hb hb' hbb hth hth' hs₁) hrest hplay hret
    refine iff_of_false (hboth.not_oneAnswered hb hb' hbb hret) ?_
    rintro ⟨c, rest', hc⟩
    cases hc
    exact hbb rfl

/-- In every run whose steps spare the requests that are under way, no client is claimed but a
free one, and none is linked that somebody else has claimed since; and that is the weakest such
condition.  When requests for one free client are all that happens, exactly one of them is
granted if and only if the first to check also claims before anybody else checks. -/
theorem requests_hold (ms : List Move) :
    ((Everywhere tracedStep Traced.RequestsHold .boot ms ↔
        EveryStep tracedStep (fun s m => m.SparesRequests s.host) .boot ms) ∧
      (EveryStep tracedStep (fun s m => m.SparesRequests s.host) .boot ms →
        EveryStep tracedStep (fun s m => m.ClaimsFree s) .boot ms)) ∧
    ∀ (h h' : Host) (name : List UInt8) (x : Int) (ts sched : List Nat),
      h.Requesters name x ts → (∀ t ∈ sched, t ∈ ts) →
      play hostStep h (sched.map go) = some h' → (∀ t ∈ ts, h'.Returned t) →
      (h.OneAnswered h' name x ts ↔ ∃ b rest, sched = b :: b :: rest) :=
  ⟨requests_hold_everywhere ms, fun _ _ _ _ _ _ hreq hsched hplay hret =>
    one_answered_iff hreq hsched hplay hret⟩

/-- The clients on 4 and 5 have both asked for the one on 6, and their handlers start. -/
@[irreducible] def bothAsk : List Move :=
  arrives 0 4 ++ arrives 1 5 ++ arrives 2 6 ++ [tells 0 (asksFor 6), tells 1 (asksFor 6)]

theorem requesters_bothAsk :
    (afterMoves bothAsk).Requesters (asksFor 6).buffer.bytes 6 [0, 1] where
  sound := Host.sound_of_reachable ⟨bothAsk, play_final (by decide +kernel)⟩
  called := by decide +kernel
  free := by decide +kernel
  nonempty := by simp
  asking := by
    intro t ht
    rcases List.mem_pair.mp ht with rfl | rfl
    · exact ⟨4, by decide +kernel, by decide +kernel⟩
    · exact ⟨5, by decide +kernel, by decide +kernel⟩

/-- 4 is first and runs its first two sections at once. -/
theorem first_granted :
    EveryStep tracedStep (fun s m => m.ClaimsFree s) .boot
        (bothAsk ++ [0, 0, 1, 0, 1, 0, 0, 0].map go) ∧
      (afterMoves bothAsk).OneAnswered
        (final hostStep (afterMoves bothAsk) ([0, 0, 1, 0, 1, 0, 0, 0].map go))
        (asksFor 6).buffer.bytes 6 [0, 1] :=
  ⟨(requests_hold _).1.2 (by decide +kernel),
    ((requests_hold []).2 _ _ _ _ _ _ requesters_bothAsk (by decide)
      (play_final (by decide +kernel)) (by decide +kernel)).mpr ⟨0, _, rfl⟩⟩

/-- Both check before either claims; 5 claims a client that is not free any more, and both are
answered that it is. -/
theorem both_granted :
    (¬ ∀ ms : List Move, EveryStep tracedStep (fun s m => m.ClaimsFree s) .boot ms) ∧
    ¬ ∀ (h h' : Host) (name : List UInt8) (x : Int) (ts sched : List Nat),
      h.Requesters name x ts → (∀ t ∈ sched, t ∈ ts) →
      play hostStep h (sched.map go) = some h' → (∀ t ∈ ts, h'.Returned t) →
      h.OneAnswered h' name x ts := by
  constructor
  · intro hall
    have hrun := hall (bothAsk ++ [0, 1, 0, 1].map go)
    revert hrun
    decide +kernel
  · intro hall
    have hone := hall (afterMoves bothAsk) _ (asksFor 6).buffer.bytes 6 [0, 1]
      ([0, 1] ++ List.replicate 5 0 ++ List.replicate 5 1) requesters_bothAsk (by decide)
      (play_final (by decide +kernel)) (by decide +kernel)
    exact absurd (hone.free.unique ⟨by decide, by decide +kernel⟩ ⟨by decide, by decide +kernel⟩)
      (by decide : (0 : Nat) ≠ 1)

end ChatSocket
