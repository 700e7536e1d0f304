/-
# `Server.Links` — does a link outlive its peer?

A link is a `to_fd`.  `Tracked` runs the server beside a record of which
connection every link was set to: at each `set_to_fd_by_fd` the address of the
node then registered under the target.  `LinksLive` says that a link still leads
to that connection, so that no link leads to a descriptor that the next
connection may get.

Every write but one keeps this.  `remove_client_node_from_queue_by_fd` keeps it
exactly if nobody else is linked to the client that is removed.
-/
import ChatSocket.Server.Refines

namespace ChatSocket

open Kit Registry

variable {r : Registry}

/-! ## The record -/

/-- The record after a write: what is registered under the target now. -/
def Write.track (r : Registry) (link : Nat → Option Nat) : Write → Nat → Option Nat
  | toFd x f =>
      match r.node x with
      | some n => Function.update link n.addr ((r.node f).map ClientNode.addr)
      | none => link
  | _ => link

/-- The record after what was written. -/
def trackAll : Registry → (Nat → Option Nat) → List Act → Nat → Option Nat
  | _, link, [] => link
  | r, link, .wrote w :: acts => trackAll (w.apply r) (w.track r link) acts
  | r, link, .sent _ _ :: acts => trackAll r link acts

/-- The server and the record of what its links were set to. -/
structure Tracked where
  registry : Registry
  link : Nat → Option Nat

def Tracked.boot : Tracked := ⟨.empty, fun _ => none⟩

def trackStep (s : Tracked) (e : Event) : Option (Tracked × List Act) :=
  (atomicStep s.registry e).map fun q => (⟨q.1, trackAll s.registry s.link q.2⟩, q.2)

/-- Every link is INVALID_FD or leads to the connection it was set to; so no link waits for a
connection that joins next. -/
structure Tracked.LinksLive (s : Tracked) : Prop where
  live : ∀ n ∈ s.registry.clientList, n.data.toFd = invalidFd ∨
    ∃ d ∈ s.registry.clientList, d.fd = n.data.toFd ∧ s.link n.addr = some d.addr
  fresh : ∀ fd ok, (Event.accepted fd ok).Possible s.registry →
    ∀ n ∈ s.registry.clientList, n.data.toFd ≠ fd

/-- The events that keep links live: nobody else is linked to a client that closes. -/
def Event.KeepsLinks (r : Registry) : Event → Prop
  | closed fd => ∀ n ∈ r.clientList, n.fd ≠ fd → n.data.toFd ≠ fd
  | _ => True

/-! ## One write -/

/-- `LinksLive`, in the room. -/
def Live (v : Room Int) (link : Nat → Option Nat) : Prop :=
  ∀ b g, v.peerOf b = some g →
    ∃ i j, v.badgeOf b = some i ∧ v.badgeOf g = some j ∧ link i = some j

/-- The target of the link that a write sets is registered. -/
def Write.Safe (r : Registry) : Write → Prop
  | toFd _ f => f = invalidFd ∨ (r.node f).isSome
  | remove _ | add _ _ => False
  | _ => True

theorem live_of_eq {v w : Room Int} {link : Nat → Option Nat} (hl : Live v link)
    (hp : ∀ g, w.peerOf g = v.peerOf g) (hb : ∀ g, w.badgeOf g = v.badgeOf g) : Live w link := by
  intro b g hbg
  rw [hb, hb]
  exact hl b g (hp b ▸ hbg)

/-- A safe write registers nobody and removes nobody. -/
theorem badgeOf_onRoom {w : Write} (hw : w.Safe r) (v : Room Int) (g : Int) :
    (w.onRoom v).badgeOf g = v.badgeOf g := by
  cases w with
  | status fd s => exact Room.badgeOf_set v _ (fun _ => by rfl) fd g
  | toFd fd f => exact Room.badgeOf_set v _ (fun _ => by rfl) fd g
  | name fd s => rfl
  | remove fd => exact absurd hw id
  | add fd ok => exact absurd hw id

theorem live_safe (h : r.Wf) {link : Nat → Option Nat} (hl : Live r.room link) {w : Write}
    (hw : w.Safe r) (hp : w.Plain) : Live (w.apply r).room (w.track r link) := by
  rw [h.room_apply hp]
  cases w with
  | remove fd => exact absurd hw id
  | add fd ok => exact absurd hw id
  | name fd s => exact hl
  | status fd s =>
      refine live_of_eq hl (fun g => ?_) (badgeOf_onRoom hw r.room)
      simp only [Write.onRoom, Room.peerOf_set]
      split
      · next hg => subst hg; rfl
      · rfl
  | toFd x f =>
      have hbadge := badgeOf_onRoom hw r.room
      intro b g hbg
      rw [hbadge, hbadge]
      simp only [Write.onRoom, Room.peerOf_set] at hbg
      split at hbg
      · -- the link that is set leads to what is registered there now
        next hbx =>
        obtain ⟨p, hpx, hpf⟩ := Option.bind_eq_some_iff.mp hbg
        obtain ⟨n, hn, -⟩ := Option.map_eq_some_iff.mp hpx
        have hpf : peerOfFd f = some g := hpf
        unfold peerOfFd at hpf
        split at hpf
        · cases hpf
        next hf =>
        obtain rfl := Option.some.inj hpf
        obtain ⟨d, hd⟩ := Option.isSome_iff_exists.mp (hw.resolve_left hf)
        refine ⟨n.addr, d.addr, ?_, ?_, ?_⟩
        · rw [badgeOf_room, hbx, hn]
          rfl
        · rw [badgeOf_room, hd]
          rfl
        · rw [Write.track, hn, hd]
          exact Function.update_self _ _ _
      · next hbx =>
        obtain ⟨i, j, hi, hj, hij⟩ := hl b g hbg
        refine ⟨i, j, hi, hj, ?_⟩
        rw [Write.track]
        cases hn : r.node x with
        | none => exact hij
        | some n =>
            have hne : i ≠ n.addr := by
              rintro rfl
              exact hbx (badged_room h hi (by rw [badgeOf_room, hn]; rfl))
            exact (Function.update_of_ne hne _ _).trans hij

/-! ## One event -/

theorem node_isSome_of_badge {r' : Registry} (hb : ∀ g, r'.room.badgeOf g = r.room.badgeOf g)
    (g : Int) : (r'.node g).isSome = (r.node g).isSome := by
  have := congrArg Option.isSome (hb g)
  rwa [badgeOf_room, badgeOf_room, Option.isSome_map, Option.isSome_map] at this

/-- Safe writes keep links live: none of them changes who is registered. -/
theorem live_replay : ∀ (acts : List Act) {r : Registry} {link : Nat → Option Nat}, r.Wf →
    Live r.room link → (∀ a ∈ acts, a.Plain) → (∀ w, .wrote w ∈ acts → w.Safe r) →
    Live (replay r acts).room (trackAll r link acts)
  | [], _, _, _, hl, _, _ => hl
  | .sent _ _ :: acts, _, _, h, hl, hplain, hsafe =>
      live_replay acts h hl (List.forall_mem_cons.mp hplain).2
        fun w hw => hsafe w (List.mem_cons_of_mem _ hw)
  | .wrote w :: acts, r, link, h, hl, hplain, hsafe => by
      obtain ⟨hp, hplain⟩ := List.forall_mem_cons.mp hplain
      have hw := hsafe w List.mem_cons_self
      have hreg : ∀ g, ((w.apply r).node g).isSome = (r.node g).isSome :=
        node_isSome_of_badge fun g => by rw [h.room_apply hp, badgeOf_onRoom hw]
      refine live_replay acts (h.apply (Write.Plain.ok hp r)) (live_safe h hl hw hp)
        hplain fun w' hw' => ?_
      have hs := hsafe w' (List.mem_cons_of_mem _ hw')
      cases w' with
      | toFd x f =>
          show f = invalidFd ∨ ((w.apply r).node f).isSome
          rw [hreg]
          exact hs
      | status | name => trivial
      | remove => exact hs
      | add => exact hs

theorem safe_rx (h : r.Wf) {fd : Int} {msg : Msg} (he : (Event.rxMsg fd msg).Possible r)
    {w : Write} (hw : .wrote w ∈ (Event.rxMsg fd msg).acts r) : w.Safe r := by
  have hfd : (r.node fd).isSome := he
  cases does_of_mem h he hw with
  | renames => trivial
  | refused => trivial
  | asks _ ht hmem =>
      obtain ⟨-, -, -, htreg, -⟩ := h.connectTarget_spec ht
      simp only [List.mem_cons, Act.wrote.injEq, reduceCtorEq, List.not_mem_nil, or_false] at hmem
      rcases hmem with rfl | rfl | rfl
      · trivial
      · exact Or.inr htreg
      · exact Or.inr hfd
  | loses _ _ _ hmem =>
      simp only [List.mem_cons, Act.wrote.injEq, List.not_mem_nil, or_false] at hmem
      rcases hmem with rfl | rfl
      · trivial
      · exact Or.inl rfl
  | pairs _ _ _ hun hmem =>
      have hc : (r.node (r.getConnFdByFd fd)).isSome := by
        rw [Option.isSome_iff_ne_none]
        exact fun hnone => hun (unnamed_of_unregistered hnone)
      simp only [List.mem_cons, Act.wrote.injEq, reduceCtorEq, List.not_mem_nil, or_false] at hmem
      rcases hmem with rfl | rfl | rfl | rfl
      · trivial
      · trivial
      · exact Or.inr hc
      · exact Or.inr hfd
  | quits _ _ _ hmem =>
      simp only [List.mem_cons, Act.wrote.injEq, reduceCtorEq, List.not_mem_nil, or_false] at hmem
      rcases hmem with rfl | rfl | rfl | rfl
      · trivial
      · trivial
      · exact Or.inl rfl
      · exact Or.inl rfl
  | declines _ _ _ hmem =>
      simp only [List.mem_cons, Act.wrote.injEq, reduceCtorEq, List.not_mem_nil, or_false,
        false_or] at hmem
      rw [hmem]
      trivial

/-- A newcomer has no link, and nobody is linked to its descriptor. -/
theorem live_accepted {fd : Int} {ok : Bool} {link : Nat → Option Nat} (hl : Live r.room link)
    (he : (Event.accepted fd ok).Possible r) :
    Live (replay r ((Event.accepted fd ok).acts r)).room
      (trackAll r link ((Event.accepted fd ok).acts r)) := by
  have htrack : trackAll r link (registerActs r fd ok) = link := by
    unfold registerActs
    split <;> rfl
  simp only [Event.acts, replay_registerActs, htrack]
  by_cases ha : r.Accepts ok
  · rw [room_add he.2 ha]
    intro b g hbg
    rw [Room.peerOf_update] at hbg
    split at hbg
    · cases hbg
    · next hb =>
        obtain ⟨i, j, hi, hj, hij⟩ := hl b g hbg
        have hg : g ≠ fd := by
          rintro rfl
          rw [badgeOf_room, he.2] at hj
          cases hj
        refine ⟨i, j, ?_, ?_, hij⟩
        · rw [Room.badgeOf_update, if_neg hb, hi]
        · rw [Room.badgeOf_update, if_neg hg, hj]
  · rw [Write.apply, (r.addClientNodeToQueue_full fd ha).2]
    exact hl

/-- A close changes the record at the leaving client only. -/
theorem trackAll_closed (h : r.Wf) {fd : Int} {n : ClientNode} (hn : r.node fd = some n)
    (link : Nat → Option Nat) {i : Nat} (hi : i ≠ n.addr) :
    trackAll r link (closedActs r fd) i = link i := by
  unfold closedActs
  simp only
  split
  · have haddr : (((Write.status (r.getConnFdByFd fd) .free).apply r).node fd).map ClientNode.addr
        = some n.addr := by
      rw [← badgeOf_room, h.room_status _ (Or.inl rfl), Room.badgeOf_set _ _ fun _ => by rfl,
        badgeOf_room, hn]
      rfl
    obtain ⟨m, hm, hma⟩ := Option.map_eq_some_iff.mp haddr
    simp only [List.cons_append, List.nil_append, trackAll, Write.track, hm, hma]
    exact Function.update_of_ne hi _ _
  · rfl

/-- A close keeps links live exactly if nobody else is linked to the client that leaves. -/
theorem live_closed_iff (h : r.Good) {fd : Int} {link : Nat → Option Nat}
    (hl : Live r.room link) (he : (Event.closed fd).Possible r) :
    Live (replay r ((Event.closed fd).acts r)).room (trackAll r link ((Event.closed fd).acts r)) ↔
      ∀ b, b ≠ fd → r.room.peerOf b ≠ some fd := by
  obtain ⟨n, hn⟩ := Option.isSome_iff_exists.mp he
  obtain ⟨-, hroom, -⟩ := refines h he
  have hpeer : ∀ g, ((Deed.leave fd).apply r.room).peerOf g = _ := peer_leave
  have hbadge : ∀ g, ((Deed.leave fd).apply r.room).badgeOf g
      = if g = fd then none else r.room.badgeOf g := badge_apply (.leave fd)
  rw [hroom]
  show Live ((Deed.leave fd).apply r.room) (trackAll r link (closedActs r fd)) ↔ _
  constructor
  · intro hl' b hb hbfd
    obtain ⟨i, j, -, hj, -⟩ := hl' b fd (by rw [hpeer, if_neg hb, hbfd])
    rw [hbadge, if_pos rfl] at hj
    cases hj
  · intro hk b g hbg
    rw [hpeer] at hbg
    split at hbg
    · cases hbg
    next hb =>
    obtain ⟨i, j, hi, hj, hij⟩ := hl b g hbg
    have hg : g ≠ fd := fun hg => hk b hb (hg ▸ hbg)
    have hne : i ≠ n.addr := by
      rintro rfl
      exact hb (badged_room h.wf hi (by rw [badgeOf_room, hn]; rfl))
    refine ⟨i, j, ?_, ?_, (trackAll_closed h.wf hn link hne).trans hij⟩
    · rw [hbadge, if_neg hb, hi]
    · rw [hbadge, if_neg hg, hj]

/-! ## Whole runs -/

theorem linksLive_iff {s : Tracked} (h : s.registry.Wf) :
    s.LinksLive ↔ Live s.registry.room s.link := by
  constructor
  · intro hl b g hbg
    obtain ⟨n, hn, rfl⟩ := mem_of_peer hbg
    obtain ⟨rfl, hne⟩ := (h.peerOf_mem_iff hn).mp hbg
    obtain ⟨d, hd, hdf, hlink⟩ := (hl.live n hn).resolve_left hne
    refine ⟨n.addr, d.addr, by rw [badgeOf_room, h.node_of_mem hn]; rfl, ?_, hlink⟩
    rw [badgeOf_room]
    show (s.registry.node n.data.toFd).map _ = _
    rw [← hdf, h.node_of_mem hd]
    rfl
  · intro hl
    have hlive : ∀ n ∈ s.registry.clientList, n.data.toFd = invalidFd ∨
        ∃ d ∈ s.registry.clientList, d.fd = n.data.toFd ∧ s.link n.addr = some d.addr := by
      intro n hn
      by_cases hto : n.data.toFd = invalidFd
      · exact Or.inl hto
      obtain ⟨i, j, hi, hj, hij⟩ := hl n.fd n.data.toFd ((h.peerOf_mem_iff hn).mpr ⟨rfl, hto⟩)
      rw [badgeOf_room, h.node_of_mem hn] at hi
      obtain rfl := Option.some.inj hi
      rw [badgeOf_room] at hj
      obtain ⟨d, hd, rfl⟩ := Option.map_eq_some_iff.mp hj
      exact Or.inr ⟨d, look_mem hd, look_key hd, hij⟩
    refine ⟨hlive, ?_⟩
    rintro fd ok ⟨hpos, hnone⟩ n hn rfl
    rcases hlive n hn with hto | ⟨d, hd, hdf, -⟩
    · rw [hto] at hpos
      exact absurd hpos (by decide)
    · rw [← hdf, h.node_of_mem hd] at hnone
      cases hnone

theorem trackStep_eq_some_iff {s s' : Tracked} {e : Event} {acts : List Act} :
    trackStep s e = some (s', acts) ↔
      e.Possible s.registry ∧ acts = e.acts s.registry ∧
        s' = ⟨replay s.registry (e.acts s.registry),
          trackAll s.registry s.link (e.acts s.registry)⟩ :=
  atomicStep_map_eq_some_iff

/-- Over whole runs, no link outlives its peer exactly as long as nobody closes to whom
somebody else is linked. -/
theorem linksLive_everywhere_iff (es : List Event) :
    Everywhere trackStep Tracked.LinksLive .boot es ↔
      EveryStep trackStep (fun s e => e.KeepsLinks s.registry) .boot es := by
  refine everywhere_iff (I := fun s => s.registry.Good) ?_ ?_ es good_empty ?_
  · intro s e s' acts h hs
    obtain ⟨he, -, rfl⟩ := trackStep_eq_some_iff.mp hs
    exact h.step he
  · intro s e s' acts h hl hs
    obtain ⟨he, -, rfl⟩ := trackStep_eq_some_iff.mp hs
    rw [linksLive_iff (h.step he).wf]
    have hl := (linksLive_iff h.wf).mp hl
    cases e with
    | accepted fd ok => exact ⟨fun _ => trivial, fun _ => live_accepted hl he⟩
    | rxMsg fd msg =>
        exact ⟨fun _ => trivial, fun _ => live_replay _ h.wf hl
          (plain_acts h.wf he fun _ _ => Event.noConfusion) fun w hw => safe_rx h.wf he hw⟩
    | closed fd =>
        refine (live_closed_iff h hl he).trans ?_
        constructor
        · intro hk n hn hne hto
          exact hk n.fd hne ((h.wf.peerOf_mem_iff hn).mpr ⟨hto, h.wf.ne_invalidFd he⟩)
        · intro hk b hb hbfd
          obtain ⟨n, hn, rfl⟩ := mem_of_peer hbfd
          exact hk n hn hb ((h.wf.peerOf_mem_iff hn).mp hbfd).1
  · exact (linksLive_iff wf_empty).mpr fun b g h => (nomatch h)

/-- 4 asks 5 and 5 closes: 4 stays linked to the descriptor of 5. -/
theorem link_outlives_peer :
    ¬ Everywhere trackStep Tracked.LinksLive .boot [joins 4, joins 5, asks 4 5, .closed 5] := by
  intro h
  have hl := h.at_play (play_final (by decide +kernel))
  have hstale : ∃ n ∈ (final trackStep .boot
      [joins 4, joins 5, asks 4 5, .closed 5]).registry.clientList, n.data.toFd = 5 := by
    decide +kernel
  obtain ⟨n, hn, hto⟩ := hstale
  exact hl.fresh 5 true (by decide +kernel) n hn hto

end ChatSocket
