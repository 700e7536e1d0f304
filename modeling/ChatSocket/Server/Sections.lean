/-
# `Server.Sections` — statuses and links, one section after another

Between its critical sections a handler leaves the registry to the others.  What
one of its steps can do to the status and the link of a client is little: it
writes to its own client and to one target.  A client that is BUSY after a step
was BUSY before, with the same link, unless the step makes links; the two that
do are those of `link` and of `pair`.  Names change in `set_name_handler` only, so
who is called by a name stays the same client in all other steps.
-/
import ChatSocket.Server.Nodes
import ChatSocket.Server.Chats
import ChatSocket.Server.Names

namespace ChatSocket

open Kit Registry

variable {r r' : Registry} {fd c g : Int} {p : Point}

/-! ## Reading statuses and links off the room -/

/-- The status a mood stands for. -/
def Mood.status : Option Mood → ChatStatus
  | none => .clientNotFound
  | some .free => .free
  | some .asked => .reqPending
  | some .busy => .busy

theorem Registry.Wf.status_eq_mood (hr : r.Wf) (g : Int) :
    r.getClientChattingStatusByFd g = Mood.status (r.room.moodOf g) := by
  rw [hr.status_eq, moodOf_room]
  cases hn : r.node g with
  | none => rfl
  | some n =>
      rcases hr.stored n (look_mem hn) with hs | hs | hs <;> simp [hs, ChatStatus.mood, Mood.status]

/-- Who has the same place in the room has the same status and link. -/
theorem Registry.Wf.sameAt_of_room (hr : r.Wf) (hr' : r'.Wf) (h : r'.room g = r.room g) :
    r.SameAt r' g := by
  have hmood : r'.room.moodOf g = r.room.moodOf g := congrArg (Option.map Party.mood) h
  have hpeer : r'.room.peerOf g = r.room.peerOf g := congrArg (Option.bind · Party.peer) h
  exact ⟨by rw [hr'.status_eq_mood, hr.status_eq_mood, hmood],
    by rw [hr'.connFd_eq_getD, hr.connFd_eq_getD, hpeer]⟩

theorem getD_peerOfFd (f : Int) : (peerOfFd f).getD invalidFd = f := by
  rw [peerOfFd]
  split
  · next hf => exact hf.symm
  · rfl

theorem Registry.Wf.isSome_of_busy (hr : r.Wf) (hb : r.getClientChattingStatusByFd g = .busy) :
    (r.node g).isSome := by
  obtain ⟨n, hn, rfl, -⟩ := mem_of_mood ((hr.busy_iff g).mp hb)
  rw [hr.node_of_mem hn]
  rfl

/-! ## One step -/

namespace Point

theorem wf_after (hr : r.Wf) (p : Point) (fd : Int) : (replay r (p.acts fd r)).Wf :=
  hr.replay_inner (inner_acts fd r p)

theorem room_after (hr : r.Wf) (p : Point) (fd : Int) :
    (replay r (p.acts fd r)).room = replayRoom r.room (p.acts fd r) :=
  (hr.replay_plain _ fun a ha => (inner_acts fd r p a ha).plain).2

/-- The client besides its own whose status or link the step writes. -/
def target? (r : Registry) : Point → Option Int
  | claim name _ => some (r.getClientFdByName name)
  | link _ _ connFd | pair connFd | disconnect connFd => some connFd
  | _ => none

theorem target_of_links (r : Registry) (hp : p.links? = some c) : p.target? r = some c := by
  cases p with
  | link | pair => exact hp
  | _ => cases hp

/-- Nobody else is touched. -/
theorem room_other (hr : r.Wf) (hown : g ≠ fd) (htarget : p.target? r ≠ some g) :
    (replay r (p.acts fd r)).room g = r.room g := by
  rw [room_after hr]
  cases p with
  | setName msg =>
      rw [acts]
      split <;> rfl
  | accept =>
      rw [acts]
      split
      · simp [replayRoom, Write.onRoom, Room.set_apply, hown]
      · rfl
  | claim name myName =>
      have hne : g ≠ r.getClientFdByName name := fun he => htarget (congrArg some he.symm)
      simp [acts, replayRoom, Write.onRoom, Room.set_apply, hne]
  | link _ _ connFd | pair connFd | disconnect connFd =>
      have hne : g ≠ connFd := fun he => htarget (congrArg some he.symm)
      simp [acts, replayRoom, Write.onRoom, Room.set_apply, hown, hne]
  | _ => simp [acts, replayRoom, Write.onRoom, Room.set_apply, hown]

theorem sameAt_other (hr : r.Wf) (hown : g ≠ fd) (htarget : p.target? r ≠ some g) :
    r.SameAt (replay r (p.acts fd r)) g :=
  hr.sameAt_of_room (wf_after hr p fd) (room_other hr hown htarget)

/-- A registered client whose own handler takes it out of a request is free. -/
theorem free_own (hr : r.Wf) (hreg : (r.node fd).isSome)
    (hp : p.acts fd r = [.wrote (.status fd .free)]) :
    (replay r (p.acts fd r)).getClientChattingStatusByFd fd = .free ∧
      (replay r (p.acts fd r)).getConnFdByFd fd = r.getConnFdByFd fd := by
  have hr' := wf_after hr p fd
  obtain ⟨q, hq⟩ := Option.isSome_iff_exists.mp ((room_isSome r fd).trans hreg)
  have hmood : r.room.moodOf fd = some q.mood := by rw [Room.moodOf, hq, Option.map_some]
  rw [hr'.free_iff, hr'.connFd_eq_getD, hr.connFd_eq_getD, room_after hr, hp]
  simp [replayRoom, Write.onRoom, ChatStatus.mood, hmood]

/-! ## Who is in a chat after a step -/

/-- `handle_conn_accept` makes both sides BUSY. -/
def Pairs : Point → Prop
  | pair _ => True
  | _ => False

instance : DecidablePred Pairs
  | pair _ => inferInstanceAs (Decidable True)
  | done | setName _ | connect _ | claim _ _ | link _ _ _ | copyAsker _ _ _ | ask _ _ _ | accept
  | refuse _ | copyRefused _ | checkConn _ _ _ | checkMine _ _ _ | copyMine _ _ _ | copyConn _ _ _
  | ready _ _ _ | decline | copyDecliner _ _ | tellDeclined _ _ | undoRequest | tx _
  | disconnect _ | tell _ _ | reply _ => inferInstanceAs (Decidable False)

/-- A step that links nobody leaves a client alone, or not BUSY. -/
theorem room_unlinked (hr : r.Wf) (hp : p.links? = none) (fd g : Int) :
    (replay r (p.acts fd r)).room g = r.room g ∨
      (replay r (p.acts fd r)).room.moodOf g ≠ some .busy := by
  rw [room_after hr]
  cases p with
  | link | pair => cases hp
  | setName msg =>
      rw [acts]
      split <;> exact Or.inl rfl
  | accept =>
      rw [acts]
      split
      · rcases eq_or_ne g fd with rfl | hg
        · right
          simp [replayRoom, Write.onRoom, ChatStatus.mood]
        · left
          simp [replayRoom, Write.onRoom, Room.set_apply, hg]
      · exact Or.inl rfl
  | claim name myName =>
      rcases eq_or_ne g (r.getClientFdByName name) with rfl | hg
      · right
        simp [acts, replayRoom, Write.onRoom, ChatStatus.mood]
      · left
        simp [acts, replayRoom, Write.onRoom, Room.set_apply, hg]
  | refuse | undoRequest =>
      rcases eq_or_ne g fd with rfl | hg
      · right
        simp [acts, replayRoom, Write.onRoom, ChatStatus.mood]
      · left
        simp [acts, replayRoom, Write.onRoom, Room.set_apply, hg]
  | disconnect connFd =>
      rcases em (g = fd ∨ g = connFd) with hg | hg
      · right
        simp only [acts, replayRoom, Write.onRoom, ChatStatus.mood, Room.moodOf_set_peer,
          Room.moodOf_set_mood]
        rcases hg with rfl | rfl
        · rw [if_pos rfl]
          split <;> exact map_free_ne_busy _
        · rw [if_pos rfl]
          exact map_free_ne_busy _
      · left
        obtain ⟨hown, hconn⟩ := not_or.mp hg
        simp [acts, replayRoom, Write.onRoom, Room.set_apply, hown, hconn]
  | _ => exact Or.inl rfl

/-- It brings nobody into a chat. -/
theorem chat_before (hr : r.Wf) (hp : p.links? = none)
    (hb : (replay r (p.acts fd r)).getClientChattingStatusByFd g = .busy) :
    r.SameAt (replay r (p.acts fd r)) g := by
  have hr' := wf_after hr p fd
  rcases room_unlinked hr hp fd g with hroom | hmood
  · exact hr.sameAt_of_room hr' hroom
  · exact absurd ((hr'.busy_iff g).mp hb) hmood

/-- Where the links lead after a step that makes some. -/
theorem connFd_links (hr : r.Wf) (hp : p.links? = some c) (hg : (r.node g).isSome) :
    (replay r (p.acts fd r)).getConnFdByFd g
      = if g = c then fd else if g = fd then c else r.getConnFdByFd g := by
  rw [← room_isSome] at hg
  rw [(wf_after hr p fd).connFd_eq_getD, hr.connFd_eq_getD, room_after hr]
  cases p with
  | link | pair =>
      obtain rfl := Option.some.inj hp
      simp only [acts, replayRoom, Write.onRoom, Room.peerOf_set_peer, Room.isSome_set, hg,
        if_true, Room.peerOf_set_mood, apply_ite (Option.getD · invalidFd), getD_peerOfFd]
  | _ => cases hp

/-- Who is BUSY after a step that makes links: who was, and a pair. -/
theorem busy_links_iff (hr : r.Wf) (hp : p.links? = some c) :
    (replay r (p.acts fd r)).getClientChattingStatusByFd g = .busy ↔
      r.getClientChattingStatusByFd g = .busy ∨
        (p.Pairs ∧ (g = fd ∨ g = c) ∧ (r.node g).isSome) := by
  rw [(wf_after hr p fd).busy_iff, hr.busy_iff, room_after hr, ← room_isSome]
  have hmood : (r.room.moodOf g).isSome = (r.room g).isSome := Option.isSome_map
  cases p with
  | link =>
      simp [acts, replayRoom, Write.onRoom, Pairs]
  | pair connFd =>
      obtain rfl := Option.some.inj hp
      simp only [acts, replayRoom, Write.onRoom, Room.moodOf_set_peer, Room.moodOf_set_mood, Pairs,
        true_and, ChatStatus.mood]
      rw [← hmood]
      cases r.room.moodOf g with
      | none => simp
      | some m =>
          rcases eq_or_ne g connFd with rfl | hc
          · rcases eq_or_ne g fd with rfl | hown
            · simp
            · simp [hown]
          · rcases eq_or_ne g fd with rfl | hown
            · simp [hc]
            · simp [hown, hc]
  | _ => cases hp

end Point

/-! ## Names -/

/-- Every client has the name it had, at the same place. -/
structure Registry.SameNames (r r' : Registry) : Prop where
  strAt : ∀ p, r'.strAt p = r.strAt p
  pointer : ∀ g, r'.getClientNameByFd g = r.getClientNameByFd g
  found : ∀ name, (r'.nodeByName name).map ClientNode.fd = (r.nodeByName name).map ClientNode.fd

theorem Registry.SameNames.refl (r : Registry) : r.SameNames r :=
  ⟨fun _ => rfl, fun _ => rfl, fun _ => rfl⟩

theorem Registry.SameNames.trans {r'' : Registry} (h : r.SameNames r') (h' : r'.SameNames r'') :
    r.SameNames r'' :=
  ⟨fun p => (h'.strAt p).trans (h.strAt p), fun g => (h'.pointer g).trans (h.pointer g),
    fun name => (h'.found name).trans (h.found name)⟩

theorem Registry.SameNames.nameOf (h : r.SameNames r') (g : Int) : r'.nameOf g = r.nameOf g := by
  rw [Registry.nameOf, h.pointer, h.strAt]
  rfl

theorem sameNames_modify (r : Registry) {f : ClientData → ClientData} (hfd : ∀ d, (f d).fd = d.fd)
    (hname : ∀ d, (f d).name = d.name) (fd : Int) : r.SameNames (r.modify fd f) where
  strAt := r.strAt_modify hname fd
  pointer := r.getClientNameByFd_modify hfd fd
  found := fun name => by
    rw [nodeByName_eq, nodeByName_eq]
    exact map_look_alter (fun n => congrArg Buf.str (hname n.data)) fun n => hfd n.data

theorem sameNames_apply {w : Write} (hw : w.Nameless) (r : Registry) : r.SameNames (w.apply r) :=
  Write.apply_of_modifies (.refl r) hw.modifies (sameNames_modify r w.change_fd hw.change_name)

theorem sameNames_replay : ∀ (acts : List Act) (r : Registry),
    (∀ w, .wrote w ∈ acts → w.Nameless) → r.SameNames (replay r acts)
  | [], r, _ => .refl r
  | .sent _ _ :: acts, r, h => sameNames_replay acts r fun w hw => h w (List.mem_cons_of_mem _ hw)
  | .wrote w :: acts, r, h =>
      (sameNames_apply (h w List.mem_cons_self) r).trans
        (sameNames_replay acts (w.apply r) fun w' hw => h w' (List.mem_cons_of_mem _ hw))

/-- A step names somebody in `set_name_handler` only. -/
theorem Point.nameless_acts (hp : ∀ msg, p ≠ .setName msg) (fd : Int) (r : Registry) :
    ∀ w, .wrote w ∈ p.acts fd r → w.Nameless := by
  cases p with
  | setName msg => exact absurd rfl (hp msg)
  | accept =>
      rw [acts]
      split <;> simp [Write.Nameless]
  | _ => simp [acts, Write.Nameless]

/-! ## Who is called by a name -/

/-- The first client that goes by a name. -/
def Registry.called (r : Registry) (name : List UInt8) : Option Int :=
  (r.nodeByName name).map ClientNode.fd

/-- Whoever is called by the name is free. -/
def Registry.FreeUnder (r : Registry) (name : List UInt8) : Prop :=
  ∀ g ∈ r.called name, r.getClientChattingStatusByFd g = .free

instance (r : Registry) (name : List UInt8) : Decidable (r.FreeUnder name) :=
  inferInstanceAs (Decidable (∀ g ∈ r.called name, _))

theorem Registry.Wf.isSome_called (hr : r.Wf) {name : List UInt8} (hg : r.called name = some g) :
    (r.node g).isSome := by
  obtain ⟨n, hn, rfl⟩ := Option.map_eq_some_iff.mp hg
  rw [hr.node_of_mem (nodeByName_mem hn)]
  rfl

theorem getClientFdByName_of_called {name : List UInt8} (hg : r.called name = some g) :
    r.getClientFdByName name = g := by
  rw [getClientFdByName_eq]
  exact congrArg (Option.getD · invalidFd) hg

theorem Registry.Wf.called_iff (hr : r.Wf) {name : List UInt8} (hg : (r.node g).isSome) :
    r.called name = some g ↔ g = r.getClientFdByName name := by
  refine ⟨fun h => (getClientFdByName_of_called h).symm, ?_⟩
  rintro rfl
  rw [getClientFdByName_eq] at hg ⊢
  cases hn : r.nodeByName name with
  | none =>
      rw [hn] at hg
      exact absurd rfl (hr.ne_invalidFd hg)
  | some n => exact congrArg (Option.map ClientNode.fd) hn

/-- The status that is read by name. -/
theorem Registry.Wf.statusByName_eq (hr : r.Wf) {name : List UInt8} (hg : r.called name = some g) :
    r.getClientChattingStatusByName name = r.getClientChattingStatusByFd g := by
  obtain ⟨n, hn, rfl⟩ := Option.map_eq_some_iff.mp hg
  rw [getClientChattingStatusByName, hn, hr.status_eq, hr.node_of_mem (nodeByName_mem hn)]
  rfl

theorem Registry.SameNames.called (h : r.SameNames r') (name : List UInt8) :
    r'.called name = r.called name := h.found name

namespace Point

/-- The status of a client after a section that claims one. -/
theorem status_claim (hr : r.Wf) (name : List UInt8) (myName : CharPtr) (fd : Int)
    (hg : (r.node g).isSome) :
    (replay r ((claim name myName).acts fd r)).getClientChattingStatusByFd g
      = if r.called name = some g then .reqPending else r.getClientChattingStatusByFd g := by
  rw [(wf_after hr _ fd).status_eq_mood, hr.status_eq_mood, room_after hr]
  simp only [hr.called_iff hg, acts, replayRoom, Write.onRoom, Room.moodOf_set_mood]
  split
  · obtain ⟨q, hq⟩ := Option.isSome_iff_exists.mp ((room_isSome r g).trans hg)
    rw [Room.moodOf, hq]
    rfl
  · rfl

/-- Linking changes no status. -/
theorem status_link (hr : r.Wf) (name : List UInt8) (myName : CharPtr) (fd connFd g : Int) :
    (replay r ((link name myName connFd).acts fd r)).getClientChattingStatusByFd g
      = r.getClientChattingStatusByFd g := by
  rw [(wf_after hr _ fd).status_eq_mood, hr.status_eq_mood, room_after hr]
  simp [acts, replayRoom, Write.onRoom]

/-- The other sections claim nobody, and all but one make nobody BUSY. -/
theorem free_kept (hr : r.Wf) (hpairs : ¬ p.Pairs) (hclaim : ∀ name myName, p ≠ .claim name myName)
    (hg : r.getClientChattingStatusByFd g = .free) :
    (replay r (p.acts fd r)).getClientChattingStatusByFd g = .free := by
  rw [(wf_after hr p fd).free_iff, room_after hr]
  rw [hr.free_iff] at hg
  cases p with
  | pair => exact absurd trivial hpairs
  | claim => exact absurd rfl (hclaim _ _)
  | setName msg =>
      rw [acts]
      split <;> exact hg
  | accept =>
      rw [acts]
      split <;> simp [replayRoom, Write.onRoom, ChatStatus.mood, hg]
  | link | refuse | undoRequest | disconnect =>
      simp [acts, replayRoom, Write.onRoom, ChatStatus.mood, hg]
  | _ => exact hg

end Point

/-! ## The other steps -/

/-- A client that closes frees its peer and goes; nobody else is touched. -/
theorem room_closed (hr : r.Wf) (fd g : Int) :
    (replay r (closedActs r fd)).room g = r.room g ∨
      (replay r (closedActs r fd)).room.moodOf g ≠ some .busy := by
  have hplain : ∀ a ∈ closedActs r fd, a.Plain := by
    rw [closedActs]
    exact List.forall_mem_append.mpr ⟨fun a ha => (inner_closedActs r fd a ha).plain, by
      simp [Act.Plain, Write.Plain]⟩
  rw [(hr.replay_plain _ hplain).2, closedActs]
  split
  · simp only [List.cons_append, List.nil_append, replayRoom, Write.onRoom, ChatStatus.mood]
    rcases eq_or_ne g fd with rfl | hg
    · right
      simp [Room.moodOf]
    · rcases eq_or_ne g (r.getConnFdByFd fd) with rfl | hc
      · right
        rw [Room.moodOf_update, if_neg hg, Room.moodOf_set_peer, Room.moodOf_set_mood, if_pos rfl]
        exact map_free_ne_busy _
      · left
        simp [Room.set_apply, hg, hc]
  · rcases eq_or_ne g fd with rfl | hg
    · right
      simp [replayRoom, Write.onRoom, Room.moodOf]
    · left
      simp [replayRoom, Write.onRoom, hg]

/-- A client that registers is free. -/
theorem room_registered (hfd : r.node fd = none) (ok : Bool) (g : Int) :
    ((Write.add fd ok).apply r).room g = r.room g ∨
      ((Write.add fd ok).apply r).room.moodOf g ≠ some .busy := by
  rcases em (r.Accepts ok) with ha | ha
  · rw [room_add hfd ha, Room.moodOf_update]
    rcases eq_or_ne g fd with rfl | hg
    · right
      simp
    · left
      simp [hg]
  · left
    rw [Write.apply, (r.addClientNodeToQueue_full fd ha).2]

/-- Who registers comes last in the list. -/
theorem called_registered {name : List UInt8} {ok : Bool}
    (hg : ((Write.add fd ok).apply r).called name = some g) : g = fd ∨ r.called name = some g := by
  rcases em (r.Accepts ok) with ha | ha
  · rw [Write.apply, r.addClientNodeToQueue_eq fd ha, called, nodeByName_eq, look_append] at hg
    rw [called, nodeByName_eq]
    cases hn : look (fun n : ClientNode => n.data.name.str) (cstr name) r.clientList with
    | some n =>
        rw [hn] at hg
        exact Or.inr hg
    | none =>
        rw [hn, Option.none_or] at hg
        split at hg
        · exact Or.inl (Option.some.inj hg).symm
        · cases hg
  · rw [Write.apply, (r.addClientNodeToQueue_full fd ha).2] at hg
    exact Or.inr hg

theorem freeUnder_registered {name : List UInt8} (hr : r.Wf) (hfd : fd ≠ invalidFd)
    (hnode : r.node fd = none) (ok : Bool) (hfree : r.FreeUnder name) :
    ((Write.add fd ok).apply r).FreeUnder name := by
  intro g hg
  have hr' : ((Write.add fd ok).apply r).Wf := hr.apply ⟨hfd, hnode⟩
  rw [hr'.free_iff]
  rcases em (r.Accepts ok) with ha | ha
  · rw [room_add hnode ha, Room.moodOf_update]
    split
    · rfl
    · next hne =>
        rw [← hr.free_iff]
        exact hfree g ((called_registered hg).resolve_left hne)
  · rw [Write.apply, (r.addClientNodeToQueue_full fd ha).2] at hg ⊢
    rw [← hr.free_iff]
    exact hfree g hg

end ChatSocket
