/-
# `Room.Pairs` — when busy parties come in pairs

`Mutual` says that every busy party has a busy peer whose peer it is.  It is
not an invariant of deeds.  `mutual_apply_iff` names the deeds that keep it,
and every other deed breaks it on the spot: a busy party that asks or answers,
and a party that leaves while its peer talks to somebody else.

`untouched_iff` is the view of one busy party: of all deeds of others, only
quitting it and leaving it changes its mood or its peer, and neither asks
whether it had that peer too.
-/
import ChatSocket.Room.Basic

namespace ChatSocket

variable {ι : Type} [DecidableEq ι]

/-! ## Busy parties come in pairs -/

/-- Every busy party has a busy peer whose peer it is. -/
def Room.Mutual (v : Room ι) : Prop :=
  ∀ a, v.moodOf a = some .busy →
    ∃ b, v.peerOf a = some b ∧ b ≠ a ∧ v.moodOf b = some .busy ∧ v.peerOf b = some a

/-- The deeds that keep pairs: nobody busy asks, answers, or is the peer of somebody else
who leaves. -/
def Deed.KeepsMutual (v : Room ι) : Deed ι → Prop
  | ask a _ => v.moodOf a ≠ some .busy
  | lose b | release b => v.moodOf b ≠ some .busy
  | leave x => v.moodOf x ≠ some .busy → ∀ c, v.peerOf x = some c → v.moodOf c ≠ some .busy
  | _ => True

omit [DecidableEq ι] in
/-- If the busy parties of `w` were busy in `v` with the peers they have in `w`, and their
peers are still busy, pairs stay pairs. -/
theorem Room.Mutual.frame {v w : Room ι} (hm : v.Mutual)
    (hself : ∀ g, w.moodOf g = some .busy → v.moodOf g = some .busy ∧ w.peerOf g = v.peerOf g)
    (hpeer : ∀ g b, w.moodOf g = some .busy → v.peerOf g = some b → w.moodOf b = some .busy) :
    w.Mutual := by
  intro g hg
  obtain ⟨hv, hp⟩ := hself g hg
  obtain ⟨b, hgb, hne, -, hbg⟩ := hm g hv
  have hb := hpeer g b hg hgb
  exact ⟨b, hp.trans hgb, hne, hb, (hself b hb).2.trans hbg⟩

omit [DecidableEq ι] in
/-- Freeing one side of a pair, and only its mood or its own peer, breaks the pair. -/
theorem Room.Mutual.broken {v w : Room ι} (hm : v.Mutual) {b : ι} (hb : v.moodOf b = some .busy)
    (hw : w.moodOf b ≠ some .busy) (hmood : ∀ g, g ≠ b → w.moodOf g = v.moodOf g)
    (hpeer : ∀ g, g ≠ b → w.peerOf g = v.peerOf g) : ¬ w.Mutual := by
  intro h
  obtain ⟨c, -, hcb, hc, hcp⟩ := hm b hb
  obtain ⟨e, he, -, hbusy, -⟩ := h c ((hmood c hcb).trans hc)
  rw [hpeer c hcb, hcp] at he
  exact hw (Option.some.inj he ▸ hbusy)

theorem map_free_ne_busy (m : Option Mood) : m.map (fun _ => Mood.free) ≠ some .busy := by
  cases m <;> simp

/-- Freeing a party that is not busy, whatever happens to its peer, keeps all pairs. -/
theorem Room.Mutual.free {v w : Room ι} (hm : v.Mutual) {b : ι} (hb : v.moodOf b ≠ some .busy)
    (hmood : ∀ g, w.moodOf g = if g = b then some .free else v.moodOf g)
    (hpeer : ∀ g, g ≠ b → w.peerOf g = v.peerOf g) : w.Mutual := by
  have hself : ∀ g, w.moodOf g = some .busy → g ≠ b ∧ v.moodOf g = some .busy := by
    intro g hg
    rw [hmood] at hg
    split at hg
    · cases hg
    · next hgb => exact ⟨hgb, hg⟩
  refine hm.frame ?_ ?_
  · intro g hg
    obtain ⟨hgb, hv⟩ := hself g hg
    exact ⟨hv, hpeer g hgb⟩
  · intro g c hg hgc
    obtain ⟨e, he, -, hbusy, -⟩ := hm g (hself g hg).2
    obtain rfl := Option.some.inj (hgc.symm.trans he)
    have hcb : c ≠ b := fun h => hb (h ▸ hbusy)
    rw [hmood, if_neg hcb, hbusy]

theorem mutual_apply_iff {v : Room ι} (hs : v.NoSelf) (hm : v.Mutual) {d : Deed ι}
    (hd : d.Enabled v) : (d.apply v).Mutual ↔ d.KeepsMutual v := by
  cases d with
  | idle => exact ⟨fun _ => trivial, fun _ => hm⟩
  | enter a k =>
      refine ⟨fun _ => trivial, fun _ => hm.frame ?_ ?_⟩
      · intro g hg
        rw [mood_enter] at hg
        split at hg
        · cases hg
        · next hga => exact ⟨hg, by rw [peer_enter, if_neg hga]⟩
      · intro g b hg hgb
        rw [mood_enter] at hg ⊢
        split at hg
        · cases hg
        · obtain ⟨c, hc, -, hcb, -⟩ := hm g hg
          obtain rfl := Option.some.inj (hgb.symm.trans hc)
          obtain ⟨p, hp, -⟩ := Room.isSome_of_moodOf hcb
          have hba : b ≠ a := by
            rintro rfl
            exact absurd (hd.symm.trans hp) (by simp)
          rw [if_neg hba, hcb]
  | ask a b =>
      have hmood := mood_ask hd
      have hpeer := peer_ask hd
      obtain ⟨-, hfree, hab⟩ := hd
      constructor
      · -- a busy `a` keeps its mood and takes an asked peer
        intro h hbusy
        obtain ⟨c, hc, -, hcb, -⟩ := h a (by rw [hmood, if_neg hab, hbusy])
        rw [hpeer, if_pos rfl] at hc
        rw [hmood, if_pos (Option.some.inj hc).symm] at hcb
        cases hcb
      · intro hk
        have hk : v.moodOf a ≠ some .busy := hk
        have hself : ∀ g, ((Deed.ask a b).apply v).moodOf g = some .busy →
            g ≠ a ∧ g ≠ b ∧ v.moodOf g = some .busy := by
          intro g hg
          rw [hmood] at hg
          split at hg
          · cases hg
          · next hgb => exact ⟨fun h => hk (h ▸ hg), hgb, hg⟩
        refine hm.frame ?_ ?_
        · intro g hg
          obtain ⟨hga, hgb, hv⟩ := hself g hg
          exact ⟨hv, by rw [hpeer, if_neg hga, if_neg hgb]⟩
        · intro g c hg hgc
          obtain ⟨e, he, -, hbusy, -⟩ := hm g (hself g hg).2.2
          obtain rfl := Option.some.inj (hgc.symm.trans he)
          have hcb : c ≠ b := by
            rintro rfl
            exact absurd (hfree.symm.trans hbusy) (by simp)
          rw [hmood, if_neg hcb, hbusy]
  | lose b =>
      have hmood := mood_lose hd
      have hpeer := fun g => peer_lose (v := v) (b := b) g
      constructor
      · intro h hbusy
        exact hm.broken hbusy (by simp [hmood]) (fun g hg => by simp [hmood, hg])
          (fun g hg => by simp [hpeer, hg]) h
      · intro hk
        exact hm.free hk hmood (fun g hg => by simp [hpeer, hg])
  | release b =>
      have hmood := mood_release hd
      have hpeer := fun g => peer_release (v := v) (b := b) g
      constructor
      · intro h hbusy
        exact hm.broken hbusy (by simp [hmood]) (fun g hg => by simp [hmood, hg])
          (fun g _ => hpeer g) h
      · intro hk
        exact hm.free hk hmood (fun g _ => hpeer g)
  | pair b c =>
      have hbc : b ≠ c := fun h => hs b (h ▸ hd.2.1)
      have hmood := mood_pair hd
      have hpeer := peer_pair hbc hd
      obtain ⟨hb, hbp, -, hc⟩ := hd
      refine ⟨fun _ => trivial, fun _ g hg => ?_⟩
      by_cases hgb : g = b
      · subst hgb
        exact ⟨c, by simp [hpeer], fun h => hbc h.symm, by simp [hmood], by simp [hpeer]⟩
      by_cases hgc : g = c
      · subst hgc
        exact ⟨b, by simp [hpeer, hgb], hbc, by simp [hmood], by simp [hpeer]⟩
      -- an old pair: neither side is `b`, who was asked, nor `c`, who was not busy
      rw [hmood, if_neg (not_or.mpr ⟨hgb, hgc⟩)] at hg
      obtain ⟨e, he, hne, hbusy, hback⟩ := hm g hg
      have heb : e ≠ b := by
        rintro rfl
        exact absurd (hb.symm.trans hbusy) (by simp)
      have hec : e ≠ c := fun h => hc (h ▸ hbusy)
      exact ⟨e, by simp [hpeer, hgb, hgc, he], hne, by simp [hmood, heb, hec, hbusy],
        by simp [hpeer, heb, hec, hback]⟩
  | quit a c =>
      have hmood := mood_quit hd
      have hpeer := fun g => peer_quit (v := v) (a := a) (c := c) g
      obtain ⟨ha, hac⟩ := hd
      -- `a` is busy, so it is the peer of its own peer
      obtain ⟨c', hc', -, -, hca⟩ := hm a ha
      obtain rfl := Option.some.inj (hac.symm.trans hc')
      refine ⟨fun _ => trivial, fun _ => ?_⟩
      have hself : ∀ g, ((Deed.quit a c).apply v).moodOf g = some .busy →
          ¬ (g = a ∨ g = c) ∧ v.moodOf g = some .busy := by
        intro g hg
        rw [hmood] at hg
        split at hg
        · exact absurd hg (map_free_ne_busy _)
        · next hgac => exact ⟨hgac, hg⟩
      refine hm.frame ?_ ?_
      · intro g hg
        obtain ⟨hgac, hv⟩ := hself g hg
        exact ⟨hv, by rw [hpeer, if_neg hgac]⟩
      · intro g e hg hge
        obtain ⟨hgac, hv⟩ := hself g hg
        obtain ⟨e', he', -, hbusy, hback⟩ := hm g hv
        obtain rfl := Option.some.inj (hge.symm.trans he')
        have he : ¬ (e = a ∨ e = c) := by
          rintro (rfl | rfl)
          · exact hgac (Or.inr (Option.some.inj (hback.symm.trans hac)))
          · exact hgac (Or.inl (Option.some.inj (hback.symm.trans hca)))
        rw [hmood, if_neg he, hbusy]
  | leave x =>
      have hmood := fun g => mood_leave (v := v) (x := x) g
      have hpeer := fun g => peer_leave (v := v) (x := x) g
      constructor
      · -- a busy peer `c` of an idle `x` is freed, and `c`'s own peer stays busy
        intro h hx c hxc hc
        obtain ⟨e, hce, hec, he, hback⟩ := hm c hc
        have hex : e ≠ x := fun hh => hx (hh ▸ he)
        have hxe : v.peerOf x ≠ some e := fun hh => hec (Option.some.inj (hh.symm.trans hxc))
        obtain ⟨c', hc', -, hbusy, -⟩ := h e (by rw [hmood, if_neg hex, if_neg hxe, he])
        rw [hpeer, if_neg hex, hback] at hc'
        rw [hmood, ← Option.some.inj hc', if_pos hxc] at hbusy
        split at hbusy
        · cases hbusy
        · exact map_free_ne_busy _ hbusy
      · intro hk
        have hself : ∀ g, ((Deed.leave x).apply v).moodOf g = some .busy →
            g ≠ x ∧ v.peerOf x ≠ some g ∧ v.moodOf g = some .busy := by
          intro g hg
          rw [hmood] at hg
          split at hg
          · cases hg
          · next hgx =>
              split at hg
              · exact absurd hg (map_free_ne_busy _)
              · next hxg => exact ⟨hgx, hxg, hg⟩
        refine hm.frame ?_ ?_
        · intro g hg
          obtain ⟨hgx, -, hv⟩ := hself g hg
          exact ⟨hv, by rw [hpeer, if_neg hgx]⟩
        · intro g e hg hge
          obtain ⟨hgx, hxg, hv⟩ := hself g hg
          obtain ⟨e', he', -, hbusy, hback⟩ := hm g hv
          obtain rfl := Option.some.inj (hge.symm.trans he')
          have hex : e ≠ x := fun hh => hxg (hh ▸ hback)
          have hxe : v.peerOf x ≠ some e := by
            intro hxe
            by_cases hx : v.moodOf x = some .busy
            · obtain ⟨y, hxy, -, -, hyx⟩ := hm x hx
              rw [hxe] at hxy
              obtain rfl := Option.some.inj hxy
              exact hgx (Option.some.inj (hback.symm.trans hyx))
            · exact hk hx e hxe hbusy
          rw [hmood, if_neg hex, if_neg hxe, hbusy]

/-! ## One busy party and the deeds of others -/

/-- Whose deed it is. -/
def Deed.actor : Deed ι → Option ι
  | idle | enter _ _ => none
  | ask a _ | quit a _ => some a
  | lose b | release b | pair b _ => some b
  | leave x => some x

/-- The mood and the peer at a place are the same in both rooms. -/
def Room.Untouched (v w : Room ι) (g : ι) : Prop :=
  w.moodOf g = v.moodOf g ∧ w.peerOf g = v.peerOf g

/-- The deed frees `g` from outside. -/
def Deed.Frees (v : Room ι) (g : ι) : Deed ι → Prop
  | quit _ c => c = g
  | leave x => v.peerOf x = some g
  | _ => False

theorem untouched_iff {v : Room ι} {g : ι} (hg : v.moodOf g = some .busy) {d : Deed ι}
    (hd : d.Enabled v) (hact : d.actor ≠ some g) :
    Room.Untouched v (d.apply v) g ↔ ¬ d.Frees v g := by
  cases d with
  | idle => exact ⟨fun _ h => h, fun _ => ⟨rfl, rfl⟩⟩
  | enter a k =>
      have hga : g ≠ a := by
        rintro rfl
        obtain ⟨p, hp, -⟩ := Room.isSome_of_moodOf hg
        exact absurd (hp.symm.trans hd) (by simp)
      refine ⟨fun _ h => h, fun _ => ⟨?_, ?_⟩⟩
      · rw [mood_enter, if_neg hga]
      · rw [peer_enter, if_neg hga]
  | ask a b =>
      have hga : g ≠ a := fun h => hact (congrArg some h.symm)
      have hgb : g ≠ b := by
        rintro rfl
        exact absurd (hg.symm.trans hd.2.1) (by simp)
      refine ⟨fun _ h => h, fun _ => ⟨?_, ?_⟩⟩
      · rw [mood_ask hd, if_neg hgb]
      · rw [peer_ask hd, if_neg hga, if_neg hgb]
  | lose b =>
      have hgb : g ≠ b := fun h => hact (congrArg some h.symm)
      refine ⟨fun _ h => h, fun _ => ⟨?_, ?_⟩⟩
      · rw [mood_lose hd, if_neg hgb]
      · rw [peer_lose, if_neg hgb]
  | release b =>
      have hgb : g ≠ b := fun h => hact (congrArg some h.symm)
      refine ⟨fun _ h => h, fun _ => ⟨?_, ?_⟩⟩
      · rw [mood_release hd, if_neg hgb]
      · exact peer_release g
  | pair b c =>
      have hgb : g ≠ b := fun h => hact (congrArg some h.symm)
      have hgc : g ≠ c := fun h => hd.2.2.2 (h ▸ hg)
      refine ⟨fun _ h => h, fun _ => ⟨?_, ?_⟩⟩
      · rw [mood_pair hd, if_neg (not_or.mpr ⟨hgb, hgc⟩)]
      · simp [Deed.apply, Room.peerOf_set, hgb, hgc]
  | quit a c =>
      have hga : g ≠ a := fun h => hact (congrArg some h.symm)
      constructor
      · rintro ⟨hm, -⟩ rfl
        rw [mood_quit hd, if_pos (Or.inr rfl), hg] at hm
        cases hm
      · intro hc
        have hgac : ¬ (g = a ∨ g = c) := not_or.mpr ⟨hga, fun h => hc h.symm⟩
        exact ⟨by rw [mood_quit hd, if_neg hgac], by rw [peer_quit, if_neg hgac]⟩
  | leave x =>
      have hgx : g ≠ x := fun h => hact (congrArg some h.symm)
      constructor
      · rintro ⟨hm, -⟩ hx
        have hx : v.peerOf x = some g := hx
        rw [mood_leave, if_neg hgx, if_pos hx, hg] at hm
        cases hm
      · intro hx
        have hx : v.peerOf x ≠ some g := hx
        exact ⟨by rw [mood_leave, if_neg hgx, if_neg hx], by rw [peer_leave, if_neg hgx]⟩

end ChatSocket
