/-
# `Server.Refines` — the registry as a room

`Registry.room` forgets names, addresses become badges, and `INVALID_FD` becomes
no peer.  `Event.deed` reads off the registry which deed an event is, and
`refines` is the simulation: what the code writes for an event takes the room to
where the deed takes it, and the deed was enabled.  Together with
`Registry.Wf`, which every event keeps, it carries the results of `Room.Pairs`
and `Room.Bindings` over to the code.
-/
import ChatSocket.Server.Acts
import ChatSocket.Room.Basic

namespace ChatSocket

open Kit

/-- The mood a status stands for. -/
def ChatStatus.mood : ChatStatus → Mood
  | free | clientNotFound | max => .free
  | busy => .busy
  | reqPending => .asked

/-- The peer a descriptor stands for. -/
def peerOfFd (fd : Int) : Option Int := if fd = invalidFd then none else some fd

def ClientNode.party (n : ClientNode) : Party Int :=
  ⟨n.data.chatStatus.mood, peerOfFd n.data.toFd, n.addr⟩

def Registry.room (r : Registry) : Room Int := fun fd => (r.node fd).map ClientNode.party

namespace Registry

/-! ## Reading the registry in the room -/

variable {r : Registry}

theorem room_isSome (r : Registry) (fd : Int) : (r.room fd).isSome = (r.node fd).isSome := by
  simp [room]

theorem moodOf_room (r : Registry) (fd : Int) :
    r.room.moodOf fd = (r.node fd).map fun n => n.data.chatStatus.mood := by
  simp [Room.moodOf, room, Function.comp_def, ClientNode.party]

theorem peerOf_room (r : Registry) (fd : Int) :
    r.room.peerOf fd = (r.node fd).bind fun n => peerOfFd n.data.toFd := by
  simp [Room.peerOf, room, Option.bind_map, Function.comp_def, ClientNode.party]

theorem badgeOf_room (r : Registry) (fd : Int) :
    r.room.badgeOf fd = (r.node fd).map ClientNode.addr := by
  simp [Room.badgeOf, room, Function.comp_def, ClientNode.party]

theorem Wf.busy_iff (h : r.Wf) (fd : Int) :
    r.getClientChattingStatusByFd fd = .busy ↔ r.room.moodOf fd = some .busy := by
  rw [h.status_eq, moodOf_room]
  cases r.node fd with
  | none => simp
  | some n => cases hs : n.data.chatStatus <;> simp [hs, ChatStatus.mood]

theorem Wf.reqPending_iff (h : r.Wf) (fd : Int) :
    r.getClientChattingStatusByFd fd = .reqPending ↔ r.room.moodOf fd = some .asked := by
  rw [h.status_eq, moodOf_room]
  cases r.node fd with
  | none => simp
  | some n => cases hs : n.data.chatStatus <;> simp [hs, ChatStatus.mood]

theorem Wf.free_iff (h : r.Wf) (fd : Int) :
    r.getClientChattingStatusByFd fd = .free ↔ r.room.moodOf fd = some .free := by
  rw [h.status_eq, moodOf_room]
  cases hn : r.node fd with
  | none => simp
  | some n =>
      rcases h.stored n (look_mem hn) with hs | hs | hs <;> simp [hs, ChatStatus.mood]

theorem Wf.peerOf_eq_some_iff (h : r.Wf) {fd c : Int} :
    r.room.peerOf fd = some c ↔ r.getConnFdByFd fd = c ∧ c ≠ invalidFd := by
  rw [peerOf_room, h.connFd_eq]
  cases r.node fd with
  | none =>
      constructor
      · intro hc; cases hc
      · rintro ⟨hc, hne⟩; exact absurd hc.symm hne
  | some n =>
      simp only [Option.bind_some, Option.map_some, Option.getD_some, peerOfFd]
      split
      · next hn =>
          constructor
          · intro hc; cases hc
          · rintro ⟨hc, hne⟩; exact absurd (hc.symm.trans hn) hne
      · next hn =>
          constructor
          · intro hc
            obtain rfl := Option.some.inj hc
            exact ⟨rfl, hn⟩
          · rintro ⟨hc, -⟩
            exact congrArg some hc

theorem Wf.peerOf_of_connFd (h : r.Wf) {fd : Int} (hc : r.getConnFdByFd fd ≠ invalidFd) :
    r.room.peerOf fd = some (r.getConnFdByFd fd) :=
  h.peerOf_eq_some_iff.mpr ⟨rfl, hc⟩

theorem Wf.peerOf_eq (h : r.Wf) (fd : Int) :
    r.room.peerOf fd = peerOfFd (r.getConnFdByFd fd) := by
  unfold peerOfFd
  split
  · next hc =>
      rw [Option.eq_none_iff_forall_ne_some]
      intro c hp
      obtain ⟨hcc, hne⟩ := h.peerOf_eq_some_iff.mp hp
      exact hne (hcc.symm.trans hc)
  · next hc => exact h.peerOf_of_connFd hc

theorem Wf.connFd_eq_getD (h : r.Wf) (fd : Int) :
    r.getConnFdByFd fd = (r.room.peerOf fd).getD invalidFd := by
  rw [h.peerOf_eq, peerOfFd]
  split
  · next hc => exact hc
  · rfl

theorem Wf.mood_of_mem (h : r.Wf) {n : ClientNode} (hn : n ∈ r.clientList) :
    r.room.moodOf n.fd = some n.data.chatStatus.mood := by
  rw [moodOf_room, h.node_of_mem hn]
  rfl

theorem mood_eq_busy_iff (s : ChatStatus) : s.mood = .busy ↔ s = .busy := by
  cases s <;> simp [ChatStatus.mood]

theorem mood_eq_asked_iff (s : ChatStatus) : s.mood = .asked ↔ s = .reqPending := by
  cases s <;> simp [ChatStatus.mood]

/-- A registered client's peer is where its link leads. -/
theorem Wf.peerOf_mem_iff (h : r.Wf) {n : ClientNode} (hn : n ∈ r.clientList) {c : Int} :
    r.room.peerOf n.fd = some c ↔ n.data.toFd = c ∧ c ≠ invalidFd := by
  rw [h.peerOf_eq_some_iff, h.connFd_eq, h.node_of_mem hn]
  rfl

/-- Only registered clients have peers. -/
theorem mem_of_peer {fd c : Int} (hp : r.room.peerOf fd = some c) :
    ∃ n ∈ r.clientList, n.fd = fd := by
  obtain ⟨p, hroom, -⟩ := Room.isSome_of_peerOf hp
  obtain ⟨n, hn, -⟩ := Option.map_eq_some_iff.mp hroom
  exact ⟨n, look_mem hn, look_key hn⟩

/-- A link to a registered client is its peer. -/
theorem Wf.peerOf_iff_toFd (h : r.Wf) {a b : ClientNode} (ha : a ∈ r.clientList)
    (hb : b ∈ r.clientList) : r.room.peerOf a.fd = some b.fd ↔ a.data.toFd = b.fd := by
  have hvalid := h.valid b hb
  rw [h.peerOf_mem_iff ha]
  exact ⟨fun hc => hc.1, fun hc => ⟨hc, hvalid⟩⟩

theorem mem_of_mood {fd : Int} {m : Mood} (hm : r.room.moodOf fd = some m) :
    ∃ n ∈ r.clientList, n.fd = fd ∧ n.data.chatStatus.mood = m := by
  rw [moodOf_room] at hm
  obtain ⟨n, hn, hmood⟩ := Option.map_eq_some_iff.mp hm
  exact ⟨n, look_mem hn, look_key hn, hmood⟩

/-! ## Writes in the room -/

theorem room_modify {f : ClientData → ClientData} {g : Party Int → Party Int} {fd : Int}
    (hf : ∀ d, (f d).fd = d.fd)
    (hg : ∀ n : ClientNode, ClientNode.party { n with data := f n.data } = g n.party) :
    (r.modify fd f).room = r.room.set fd g := by
  funext x
  rw [Room.set_apply, room, r.node_modify hf]
  split
  · simp [room, Function.comp_def, hg]
  · rfl

theorem Wf.room_status (h : r.Wf) (fd : Int) {s : ChatStatus} (hs : s.Stored) :
    ((Write.status fd s).apply r).room = r.room.set fd fun p => { p with mood := s.mood } := by
  by_cases hfd : fd = invalidFd
  · have hnone : ∀ p, r.room fd = some p → { p with mood := s.mood } = p := by
      intro p hp
      rw [hfd, room, h.node_invalidFd] at hp
      cases hp
    rw [Room.set_eq_self _ hnone]
    rcases Write.apply_status_cases r fd s with he | he
    · rw [he]
    · rw [he, r.modify_of_node_eq_none (hfd ▸ h.node_invalidFd)]
  · have hmax : s ≠ .max := by rcases hs with rfl | rfl | rfl <;> simp
    rw [Write.apply_status r hfd hmax]
    exact room_modify (fun _ => rfl) fun _ => rfl

theorem Wf.room_toFd (h : r.Wf) (fd f : Int) :
    ((Write.toFd fd f).apply r).room = r.room.set fd fun p => { p with peer := peerOfFd f } := by
  by_cases hfd : fd = invalidFd
  · have hnone : ∀ p, r.room fd = some p → { p with peer := peerOfFd f } = p := by
      intro p hp
      rw [hfd, room, h.node_invalidFd] at hp
      cases hp
    rw [Room.set_eq_self _ hnone]
    rcases Write.apply_toFd_cases r fd f with he | he
    · rw [he]
    · rw [he, r.modify_of_node_eq_none (hfd ▸ h.node_invalidFd)]
  · rw [Write.apply_toFd r hfd]
    exact room_modify (fun _ => rfl) fun _ => rfl

theorem room_name (r : Registry) (fd : Int) (s : List UInt8) :
    ((Write.name fd s).apply r).room = r.room :=
  Write.apply_of_modifies (P := fun r' => r'.room = r.room) rfl (w := .name fd s) trivial fun _ =>
    (room_modify (g := id) (Write.change_fd _) fun _ => rfl).trans
      (Room.set_eq_self _ fun _ _ => rfl)

theorem Wf.room_remove (h : r.Wf) (fd : Int) :
    ((Write.remove fd).apply r).room = Function.update r.room fd none := by
  funext g
  rw [room, h.node_remove]
  by_cases hg : g = fd
  · simp [hg]
  · simp [hg, room]

theorem room_add {fd : Int} {mallocOk : Bool} (hfd : r.node fd = none)
    (ha : r.Accepts mallocOk) :
    ((Write.add fd mallocOk).apply r).room
      = Function.update r.room fd (some ⟨.free, none, r.mallocs⟩) := by
  funext g
  rw [room, node_add hfd]
  by_cases hg : g = fd
  · simp [hg, ha, newNode, ClientNode.party, ChatStatus.mood, peerOfFd]
  · simp [hg, room]

end Registry

/-! ## The deed of an event -/

open Registry

def acceptDeed (r : Registry) (fd : Int) : Deed Int :=
  let connFd := r.getConnFdByFd fd
  if connFd = invalidFd then .idle
  else if r.Unnamed connFd then .lose fd
  else if r.getClientChattingStatusByFd connFd = .busy then .release fd
  else if r.getClientChattingStatusByFd fd ≠ .reqPending then .idle
  else .pair fd connFd

def txDeed (r : Registry) (fd : Int) (msg : Msg) : Deed Int :=
  let connFd := r.getConnFdByFd fd
  if r.getClientChattingStatusByFd fd ≠ .busy ∨ connFd = invalidFd then .idle
  else if strcmp msg.buffer.bytes disconnectCmd = 0 then .quit fd connFd
  else .idle

def declineDeed (r : Registry) (fd : Int) : Deed Int :=
  if r.getClientChattingStatusByFd fd ≠ .reqPending ∨ r.getConnFdByFd fd = invalidFd then .idle
  else .release fd

def rxDeed (r : Registry) (fd : Int) (msg : Msg) : Deed Int :=
  match msg.msgType with
  | .connectToClient =>
      match r.connectTarget fd msg.buffer.bytes with
      | some t => .ask fd t
      | none => .idle
  | .clientAcceptConnection => acceptDeed r fd
  | .clientTxType => txDeed r fd msg
  | .clientDeclineConnection => declineDeed r fd
  | _ => .idle

def Event.deed (r : Registry) : Event → Deed Int
  | .accepted fd mallocOk => if r.Accepts mallocOk then .enter fd r.mallocs else .idle
  | .rxMsg fd msg => rxDeed r fd msg
  | .closed fd => .leave fd

/-! ## Plain writes

Everything an event writes, save a registration. -/

/-- A write that registers nobody and sets only statuses a client can have. -/
def Write.Plain : Write → Prop
  | add _ _ => False
  | status _ s => s.Stored
  | _ => True

/-- What a plain write does to the room. -/
def Write.onRoom (v : Room Int) : Write → Room Int
  | status fd s => v.set fd fun p => { p with mood := s.mood }
  | toFd fd f => v.set fd fun p => { p with peer := peerOfFd f }
  | remove fd => Function.update v fd none
  | add _ _ | name _ _ => v

def replayRoom (v : Room Int) : List Act → Room Int
  | [] => v
  | .wrote w :: acts => replayRoom (w.onRoom v) acts
  | .sent _ _ :: acts => replayRoom v acts

theorem Registry.Wf.room_apply {r : Registry} (h : r.Wf) :
    ∀ {w : Write}, w.Plain → (w.apply r).room = w.onRoom r.room
  | .status fd _, hw => h.room_status fd hw
  | .toFd fd f, _ => h.room_toFd fd f
  | .remove fd, _ => h.room_remove fd
  | .name fd s, _ => room_name r fd s

theorem Write.Plain.ok {w : Write} (hw : w.Plain) (r : Registry) : w.Ok r := by
  cases w with
  | add fd mallocOk => exact absurd hw id
  | status fd s => exact hw
  | toFd fd f | name fd s | remove fd => trivial

/-- A message, or a plain write. -/
def Act.Plain : Act → Prop
  | wrote w => w.Plain
  | sent _ _ => True

/-- Plain acts keep the registry well-formed and do to its room what they do to a room. -/
theorem Registry.Wf.replay_plain :
    ∀ (acts : List Act) {r : Registry}, r.Wf → (∀ a ∈ acts, a.Plain) →
      (replay r acts).Wf ∧ (replay r acts).room = replayRoom r.room acts
  | [], _, h, _ => ⟨h, rfl⟩
  | .wrote w :: acts, r, h, hacts => by
      obtain ⟨hw, hacts⟩ := List.forall_mem_cons.mp hacts
      obtain ⟨hwf, hroom⟩ := Registry.Wf.replay_plain acts (h.apply (Write.Plain.ok hw r)) hacts
      exact ⟨hwf, by rw [replay, hroom, h.room_apply hw]; rfl⟩
  | .sent _ _ :: acts, r, h, hacts =>
      Registry.Wf.replay_plain acts (r := r) h (List.forall_mem_cons.mp hacts).2

theorem plain_acts {r : Registry} (h : r.Wf) {e : Event} (he : e.Possible r)
    (hnew : ∀ fd ok, e ≠ .accepted fd ok) : ∀ a ∈ e.acts r, a.Plain := by
  intro a ha
  cases does_of_mem h he ha with
  | registers | turnsAway => exact absurd rfl (hnew _ _)
  | renames | answers | relays => trivial
  | refused => exact Or.inl rfl
  | asks _ _ hmem | loses _ _ _ hmem | pairs _ _ _ _ hmem | quits _ _ _ hmem
  | declines _ _ _ hmem | leaves hmem =>
      clear ha
      revert a
      simp [Act.Plain, Write.Plain, ChatStatus.Stored]

/-! ## The simulation -/

section Simulation
variable {r : Registry}

/-- The acts do to the room what the deed does, and the deed is enabled. -/
def Simulates (r : Registry) (acts : List Act) (d : Deed Int) : Prop :=
  replayRoom r.room acts = d.apply r.room ∧ d.Enabled r.room

theorem simulates_decline (h : r.Wf) {fd : Int} (hfd : fd ≠ invalidFd) :
    Simulates r (declineActs r fd) (declineDeed r fd) := by
  unfold declineActs declineDeed
  by_cases hidle : r.getClientChattingStatusByFd fd ≠ .reqPending ∨ r.getConnFdByFd fd = invalidFd
  · rw [if_pos (Or.inr hidle), if_pos hidle]
    exact ⟨rfl, trivial⟩
  · rw [if_neg (not_or.mpr ⟨hfd, hidle⟩), if_neg hidle]
    obtain ⟨hst, -⟩ := not_or.mp hidle
    have hasked := (h.reqPending_iff fd).mp (not_not.mp hst)
    obtain ⟨p, hp, -⟩ := Room.isSome_of_moodOf hasked
    exact ⟨rfl, by rw [hp]; rfl, Or.inl hasked⟩

theorem simulates_tx (h : r.Wf) (hn : r.room.NoSelf) (fd : Int) (msg : Msg) :
    Simulates r (txActs r fd msg) (txDeed r fd msg) := by
  unfold txActs txDeed
  simp only
  by_cases hidle : r.getClientChattingStatusByFd fd ≠ .busy ∨ r.getConnFdByFd fd = invalidFd
  · rw [if_pos hidle, if_pos hidle]
    exact ⟨rfl, trivial⟩
  rw [if_neg hidle, if_neg hidle]
  obtain ⟨hst, hc⟩ := not_or.mp hidle
  have hbusy := (h.busy_iff fd).mp (not_not.mp hst)
  have hpeer := h.peerOf_of_connFd hc
  have hne : fd ≠ r.getConnFdByFd fd := fun he => hn fd (by rw [hpeer, ← he])
  split
  · refine ⟨?_, hbusy, hpeer⟩
    have hnone : peerOfFd invalidFd = none := rfl
    simp only [replayRoom, Write.onRoom, Deed.apply, ChatStatus.mood, hnone]
    rw [Room.set_comm _ (Ne.symm hne), Room.set_set, Room.set_set]
  · exact ⟨rfl, trivial⟩

/-- Messages change no room. -/
theorem replayRoom_sent :
    ∀ (acts : List Act) (v : Room Int), (∀ w, Act.wrote w ∉ acts) → replayRoom v acts = v
  | [], _, _ => rfl
  | .wrote w :: _, _, h => absurd List.mem_cons_self (h w)
  | .sent _ _ :: acts, v, h =>
      replayRoom_sent acts v fun w hw => h w (List.mem_cons_of_mem _ hw)

theorem simulates_accept (h : r.Wf) (hn : r.room.NoSelf) {fd : Int}
    (hreg : (r.node fd).isSome) : Simulates r (acceptActs r fd) (acceptDeed r fd) := by
  unfold acceptActs acceptDeed
  simp only
  by_cases hc : r.getConnFdByFd fd = invalidFd
  · rw [if_pos hc, if_pos hc]
    exact ⟨rfl, trivial⟩
  rw [if_neg hc, if_neg hc]
  have hpeer := h.peerOf_of_connFd hc
  have hne : fd ≠ r.getConnFdByFd fd := fun he => hn fd (by rw [hpeer, ← he])
  by_cases hnamed : r.Unnamed (r.getConnFdByFd fd)
  · rw [if_pos hnamed, if_pos hnamed]
    refine ⟨?_, Option.isSome_iff_exists.mpr ⟨_, hpeer⟩⟩
    have hnone : peerOfFd invalidFd = none := rfl
    simp only [replayRoom, Write.onRoom, Deed.apply, ChatStatus.mood, hnone]
    exact Room.set_set _ _ _ _
  rw [if_neg hnamed, if_neg hnamed]
  by_cases hbusy : r.getClientChattingStatusByFd (r.getConnFdByFd fd) = .busy
  · rw [if_pos hbusy, if_pos hbusy]
    exact ⟨rfl, (room_isSome r fd).trans hreg, Or.inr ⟨_, hpeer, (h.busy_iff _).mp hbusy⟩⟩
  rw [if_neg hbusy, if_neg hbusy]
  by_cases hst : r.getClientChattingStatusByFd fd ≠ .reqPending
  · rw [if_pos hst, if_pos hst]
    exact ⟨rfl, trivial⟩
  rw [if_neg hst, if_neg hst]
  -- a client that can be named is registered
  have hsome : (r.room (r.getConnFdByFd fd)).isSome := by
    rw [room_isSome, Option.isSome_iff_ne_none]
    exact fun hnone => hnamed (unnamed_of_unregistered hnone)
  refine ⟨?_, (h.reqPending_iff fd).mp (not_not.mp hst), hpeer, hsome,
    fun hb => hbusy ((h.busy_iff _).mpr hb)⟩
  have hpc : peerOfFd (r.getConnFdByFd fd) = some (r.getConnFdByFd fd) := if_neg hc
  have hpf : peerOfFd fd = some fd := if_neg (h.ne_invalidFd hreg)
  simp only [List.cons_append, List.nil_append, replayRoom, Write.onRoom, Deed.apply,
    ChatStatus.mood, hpc, hpf]
  rw [replayRoom_sent _ _ (by split <;> simp), Room.set_comm _ (Ne.symm hne), Room.set_set,
    Room.set_set]

theorem simulates_connect (h : r.Wf) {fd : Int} (hreg : (r.node fd).isSome)
    (name : List UInt8) :
    Simulates r (connectActs r fd name)
      (match r.connectTarget fd name with
        | some t => .ask fd t
        | none => .idle) := by
  have hfd := h.ne_invalidFd hreg
  rw [h.distinct.connectActs_eq hfd]
  cases ht : r.connectTarget fd name with
  | none => exact ⟨rfl, trivial⟩
  | some t =>
      obtain ⟨-, hne, hvalid, -, hfree⟩ := h.connectTarget_spec ht
      refine ⟨?_, (room_isSome r fd).trans hreg, (h.free_iff t).mp hfree, hne.symm⟩
      have hpt : peerOfFd t = some t := if_neg hvalid
      have hpf : peerOfFd fd = some fd := if_neg hfd
      simp only [replayRoom, Write.onRoom, Deed.apply, ChatStatus.mood, hpt, hpf]
      rw [Room.set_comm _ hne, Room.set_set]

theorem simulates_rx (h : r.Wf) (hn : r.room.NoSelf) {fd : Int} (hreg : (r.node fd).isSome)
    (msg : Msg) : Simulates r (rxActs r fd msg) (rxDeed r fd msg) := by
  have hsent : ∀ {acts : List Act}, (∀ w, Act.wrote w ∉ acts) → Simulates r acts .idle :=
    fun hacts => ⟨replayRoom_sent _ _ hacts, trivial⟩
  unfold rxActs rxDeed
  cases msg.msgType with
  | connectToClient => exact simulates_connect h hreg msg.buffer.bytes
  | clientAcceptConnection => exact simulates_accept h hn hreg
  | clientTxType => exact simulates_tx h hn fd msg
  | clientDeclineConnection => exact simulates_decline h (h.ne_invalidFd hreg)
  | getClientListType =>
      show Simulates r (clientListActs r fd) .idle
      unfold clientListActs
      split
      · exact hsent (by simp)
      · exact hsent (by simp)
  | setNameReqType =>
      show Simulates r (setNameActs r fd msg.buffer.bytes) .idle
      unfold setNameActs
      split
      · exact hsent (by simp)
      · refine ⟨?_, trivial⟩
        rw [replayRoom]
        exact replayRoom_sent _ _ (by split <;> simp)
  | _ => exact hsent (by simp)

theorem simulates_closed (h : r.Wf) {fd : Int} (hreg : (r.node fd).isSome) :
    Simulates r (closedActs r fd) (.leave fd) := by
  refine ⟨?_, (room_isSome r fd).trans hreg⟩
  unfold closedActs
  simp only
  by_cases hc : r.getConnFdByFd fd = invalidFd
  · have hpeer : r.room.peerOf fd = none := (h.peerOf_eq fd).trans (if_pos hc)
    rw [if_neg fun hh => hh.1 hc]
    simp only [Deed.apply, hpeer]
    rfl
  have hpeer := h.peerOf_of_connFd hc
  simp only [Deed.apply, hpeer]
  split
  · funext g
    simp only [List.cons_append, List.nil_append, replayRoom, Write.onRoom, ChatStatus.mood]
    by_cases hg : g = fd
    · simp [hg]
    · simp [hg, Room.set_apply]
  · next hfree =>
      have hfree : r.getClientChattingStatusByFd (r.getConnFdByFd fd) = .free := by
        by_contra hne
        exact hfree ⟨hc, hne⟩
      -- freeing a free peer changes nothing
      rw [Room.set_eq_self]
      · rfl
      · intro p hp
        have hmood := (h.free_iff _).mp hfree
        rw [Room.moodOf, hp] at hmood
        cases p
        cases hmood
        rfl

/-- Addresses are badges nobody shares. -/
theorem badged_room (h : r.Wf) {g g' : Int} {k : Nat} (hg : r.room.badgeOf g = some k)
    (hg' : r.room.badgeOf g' = some k) : g = g' := by
  rw [badgeOf_room] at hg hg'
  obtain ⟨n, hn, rfl⟩ := Option.map_eq_some_iff.mp hg
  obtain ⟨m, hm, he⟩ := Option.map_eq_some_iff.mp hg'
  exact h.eq_of_addr hn hm he.symm

/-- What every reachable registry satisfies. -/
structure Registry.Good (r : Registry) : Prop where
  wf : r.Wf
  noSelf : r.room.NoSelf
  peered : r.room.Peered

theorem Registry.good_empty : Registry.empty.Good :=
  ⟨wf_empty, fun _ h => (nomatch h), fun _ _ h => (nomatch h)⟩

/-- Whoever is not free has a link, and it is its peer. -/
theorem Registry.Good.linked (h : r.Good) {fd : Int} {mood : Mood}
    (hmood : r.room.moodOf fd = some mood) (hne : mood ≠ .free) :
    r.getConnFdByFd fd ≠ invalidFd ∧ r.room.peerOf fd = some (r.getConnFdByFd fd) := by
  obtain ⟨c, hp⟩ := h.peered fd mood hmood hne
  obtain ⟨rfl, hvalid⟩ := h.wf.peerOf_eq_some_iff.mp hp
  exact ⟨hvalid, hp⟩

/-- An event is a deed: the code does to the registry what the deed does to its room. -/
theorem refines (h : r.Good) {e : Event} (he : e.Possible r) :
    (replay r (e.acts r)).Wf ∧ (replay r (e.acts r)).room = (e.deed r).apply r.room ∧
      (e.deed r).Enabled r.room := by
  cases e with
  | accepted fd mallocOk =>
      obtain ⟨hpos, hnone⟩ := he
      have hfd : fd ≠ invalidFd := by
        rintro rfl
        exact absurd hpos (by decide)
      simp only [Event.acts, Event.deed, replay_registerActs]
      refine ⟨h.wf.apply ⟨hfd, hnone⟩, ?_⟩
      by_cases ha : r.Accepts mallocOk
      · rw [if_pos ha]
        exact ⟨room_add hnone ha, by simp [Deed.Enabled, room, hnone]⟩
      · rw [if_neg ha, Write.apply, (r.addClientNodeToQueue_full fd ha).2]
        exact ⟨rfl, trivial⟩
  | rxMsg fd msg =>
      obtain ⟨hwf, hroom⟩ := h.wf.replay_plain _ (plain_acts h.wf he fun _ _ => Event.noConfusion)
      obtain ⟨hsim, hen⟩ := simulates_rx h.wf h.noSelf he msg
      exact ⟨hwf, hroom.trans hsim, hen⟩
  | closed fd =>
      obtain ⟨hwf, hroom⟩ := h.wf.replay_plain _ (plain_acts h.wf he fun _ _ => Event.noConfusion)
      obtain ⟨hsim, hen⟩ := simulates_closed h.wf he
      exact ⟨hwf, hroom.trans hsim, hen⟩

theorem Registry.Good.step (h : r.Good) {e : Event} (he : e.Possible r) :
    (replay r (e.acts r)).Good := by
  obtain ⟨hwf, hroom, hen⟩ := refines h he
  exact ⟨hwf, hroom ▸ noSelf_apply h.noSelf hen, hroom ▸ peered_apply h.noSelf h.peered hen⟩

end Simulation

/-- Reachable registries are good. -/
theorem good_atomicStep (r : Registry) (e : Event) (r' : Registry) (acts : List Act)
    (h : r.Good) (hs : atomicStep r e = some (r', acts)) : r'.Good := by
  obtain ⟨he, rfl, -⟩ := atomicStep_eq_some_iff.mp hs
  exact h.step he

end ChatSocket
