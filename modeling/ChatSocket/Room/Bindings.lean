/-
# `Room.Bindings` — who asked whom

Two readings of "the one who asked".

`Bound` is the reading of the links: whoever is asked has a peer, and that
party's peer is the asked one.  It is what lets a leaving asker release the
party it asked.

`Answers` is the reading of the history.  `asker k` is the badge of the party
whose `ask` made the party with badge `k` asked.  `Answers v asker` says that
the peer of an asked party is the place of its asker, if that place is taken at
all, and that the asker sits nowhere else: an answer sent to the peer reaches
the asker or nobody.

`bound_apply_iff` and `answers_apply_iff` name the deeds that keep them.
-/
import ChatSocket.Room.Basic

namespace ChatSocket

variable {ι : Type} [DecidableEq ι]

/-! ## The asker is bound to the asked -/

/-- Whoever is asked is the peer of its peer. -/
def Room.Bound (v : Room ι) : Prop :=
  ∀ b, v.moodOf b = some .asked → ∃ a, v.peerOf b = some a ∧ a ≠ b ∧ v.peerOf a = some b

/-- The deeds that keep every asker bound: nobody takes a new peer, or drops the one it has,
while an asked party depends on it. -/
def Deed.KeepsBound (v : Room ι) : Deed ι → Prop
  | ask a t => ∀ b, b ≠ a → v.moodOf b = some .asked → v.peerOf b ≠ some a ∧ v.peerOf b ≠ some t
  | lose b => ∀ c, v.moodOf c = some .asked → v.peerOf c ≠ some b
  | quit _ c => ∀ x, x ≠ c → v.moodOf x = some .asked → v.peerOf x ≠ some c
  | _ => True

omit [DecidableEq ι] in
/-- If the asked parties of `w` were asked in `v`, and neither they nor their peers changed
their peers, they are still bound. -/
theorem Room.Bound.frame {v w : Room ι} (hv : v.Bound)
    (hself : ∀ b, w.moodOf b = some .asked → v.moodOf b = some .asked ∧ w.peerOf b = v.peerOf b)
    (hpeer : ∀ b a, w.moodOf b = some .asked → v.peerOf b = some a → w.peerOf a = v.peerOf a) :
    w.Bound := by
  intro b hb
  obtain ⟨hvb, hp⟩ := hself b hb
  obtain ⟨a, hba, hne, hab⟩ := hv b hvb
  exact ⟨a, hp.trans hba, hne, (hpeer b a hb hba).trans hab⟩

theorem map_free_ne_asked (m : Option Mood) : m.map (fun _ => Mood.free) ≠ some .asked := by
  cases m <;> simp

theorem bound_apply_iff {v : Room ι} (hs : v.NoSelf) (hv : v.Bound) {d : Deed ι}
    (hd : d.Enabled v) : (d.apply v).Bound ↔ d.KeepsBound v := by
  cases d with
  | idle => exact ⟨fun _ => trivial, fun _ => hv⟩
  | enter a k =>
      refine ⟨fun _ => trivial, fun _ => hv.frame ?_ ?_⟩
      · intro b hb
        rw [mood_enter] at hb
        split at hb
        · cases hb
        · next hba => exact ⟨hb, by rw [peer_enter, if_neg hba]⟩
      · intro b c hb hbc
        rw [mood_enter] at hb
        split at hb
        · cases hb
        · obtain ⟨c', hc', -, hcb⟩ := hv b hb
          obtain rfl := Option.some.inj (hbc.symm.trans hc')
          obtain ⟨p, hp, -⟩ := Room.isSome_of_peerOf hcb
          have hca : c ≠ a := by
            rintro rfl
            exact absurd (hd.symm.trans hp) (by simp)
          rw [peer_enter, if_neg hca]
  | ask a t =>
      have hmood := mood_ask hd
      have hpeer := peer_ask hd
      obtain ⟨-, hfree, hat⟩ := hd
      have hta : t ≠ a := fun h => hat h.symm
      constructor
      · -- an asked `b` whose peer turned elsewhere is bound to nobody
        intro h b hba hb
        have hbt : b ≠ t := by
          rintro rfl
          exact absurd (hb.symm.trans hfree) (by simp)
        obtain ⟨c, hc, -, hcb⟩ := h b (by rw [hmood, if_neg hbt, hb])
        rw [hpeer, if_neg hba, if_neg hbt] at hc
        constructor
        · intro hb'
          rw [← Option.some.inj (hb'.symm.trans hc), hpeer, if_pos rfl] at hcb
          exact hbt (Option.some.inj hcb).symm
        · intro hb'
          rw [← Option.some.inj (hb'.symm.trans hc), hpeer, if_neg hta, if_pos rfl] at hcb
          exact hba (Option.some.inj hcb).symm
      · intro hk b hb
        by_cases hbt : b = t
        · subst hbt
          exact ⟨a, by rw [hpeer, if_neg hta, if_pos rfl], hat, by rw [hpeer, if_pos rfl]⟩
        rw [hmood, if_neg hbt] at hb
        by_cases hba : b = a
        · subst hba
          exact ⟨t, by rw [hpeer, if_pos rfl], hta, by rw [hpeer, if_neg hta, if_pos rfl]⟩
        obtain ⟨hka, hkt⟩ := hk b hba hb
        obtain ⟨c, hc, hcb, hback⟩ := hv b hb
        have hca : c ≠ a := fun h => hka (h ▸ hc)
        have hct : c ≠ t := fun h => hkt (h ▸ hc)
        exact ⟨c, by rw [hpeer, if_neg hba, if_neg hbt, hc], hcb,
          by rw [hpeer, if_neg hca, if_neg hct, hback]⟩
  | lose b =>
      have hmood := mood_lose hd
      have hpeer := fun g => peer_lose (v := v) (b := b) g
      constructor
      · intro h c hc hcb
        have hcb' : c ≠ b := fun hh => hs b (hh ▸ hcb)
        obtain ⟨e, he, -, hec⟩ := h c (by rw [hmood, if_neg hcb', hc])
        rw [hpeer, if_neg hcb', hcb] at he
        rw [← Option.some.inj he, hpeer, if_pos rfl] at hec
        cases hec
      · intro hk
        have hself : ∀ g, ((Deed.lose b).apply v).moodOf g = some .asked →
            g ≠ b ∧ v.moodOf g = some .asked := by
          intro g hg
          rw [hmood] at hg
          split at hg
          · cases hg
          · next hgb => exact ⟨hgb, hg⟩
        refine hv.frame ?_ ?_
        · intro g hg
          obtain ⟨hgb, hvg⟩ := hself g hg
          exact ⟨hvg, by rw [hpeer, if_neg hgb]⟩
        · intro g e hg hge
          have heb : e ≠ b := fun h => hk g (hself g hg).2 (h ▸ hge)
          rw [hpeer, if_neg heb]
  | release b =>
      have hmood := mood_release hd
      refine ⟨fun _ => trivial, fun _ => hv.frame ?_ (fun _ e _ _ => peer_release e)⟩
      intro g hg
      rw [hmood] at hg
      split at hg
      · cases hg
      · exact ⟨hg, peer_release g⟩
  | pair b c =>
      have hbc : b ≠ c := fun h => hs b (h ▸ hd.2.1)
      have hmood := mood_pair hd
      have hpeer := peer_pair hbc hd
      obtain ⟨hb, hbp, -, -⟩ := hd
      -- `b` is bound to `c`, so nobody else who is asked has `b` or `c` for a peer
      obtain ⟨c', hc', -, hcb⟩ := hv b hb
      obtain rfl := Option.some.inj (hbp.symm.trans hc')
      have hself : ∀ g, ((Deed.pair b c).apply v).moodOf g = some .asked →
          ¬ (g = b ∨ g = c) ∧ v.moodOf g = some .asked := by
        intro g hg
        rw [hmood] at hg
        split at hg
        · cases hg
        · next hgbc => exact ⟨hgbc, hg⟩
      refine ⟨fun _ => trivial, fun _ => hv.frame ?_ ?_⟩
      · intro g hg
        obtain ⟨hgbc, hvg⟩ := hself g hg
        rw [not_or] at hgbc
        exact ⟨hvg, by rw [hpeer, if_neg hgbc.1, if_neg hgbc.2]⟩
      · intro g e hg hge
        obtain ⟨hgbc, hvg⟩ := hself g hg
        obtain ⟨e', he', -, hback⟩ := hv g hvg
        obtain rfl := Option.some.inj (hge.symm.trans he')
        have heb : e ≠ b := by
          rintro rfl
          exact hgbc (Or.inr (Option.some.inj (hback.symm.trans hbp)))
        have hec : e ≠ c := by
          rintro rfl
          exact hgbc (Or.inl (Option.some.inj (hback.symm.trans hcb)))
        rw [hpeer, if_neg heb, if_neg hec]
  | quit a c =>
      have hmood := mood_quit hd
      have hpeer := fun g => peer_quit (v := v) (a := a) (c := c) g
      obtain ⟨ha, hac⟩ := hd
      have hself : ∀ g, ((Deed.quit a c).apply v).moodOf g = some .asked →
          ¬ (g = a ∨ g = c) ∧ v.moodOf g = some .asked := by
        intro g hg
        rw [hmood] at hg
        split at hg
        · exact absurd hg (map_free_ne_asked _)
        · next hgac => exact ⟨hgac, hg⟩
      constructor
      · intro h x hxc hx hxp
        have hxa : x ≠ a := by
          rintro rfl
          exact absurd (hx.symm.trans ha) (by simp)
        have hxac : ¬ (x = a ∨ x = c) := not_or.mpr ⟨hxa, hxc⟩
        obtain ⟨e, he, -, hex⟩ := h x (by rw [hmood, if_neg hxac, hx])
        rw [hpeer, if_neg hxac, hxp] at he
        rw [← Option.some.inj he, hpeer, if_pos (Or.inr rfl)] at hex
        cases hex
      · intro hk
        refine hv.frame ?_ ?_
        · intro g hg
          obtain ⟨hgac, hvg⟩ := hself g hg
          exact ⟨hvg, by rw [hpeer, if_neg hgac]⟩
        · intro g e hg hge
          obtain ⟨hgac, hvg⟩ := hself g hg
          obtain ⟨e', he', -, hback⟩ := hv g hvg
          obtain rfl := Option.some.inj (hge.symm.trans he')
          have hea : e ≠ a := by
            rintro rfl
            exact hgac (Or.inr (Option.some.inj (hback.symm.trans hac)))
          have hec : e ≠ c := by
            rintro rfl
            exact hk g (fun h => hgac (Or.inr h)) hvg hge
          rw [hpeer, if_neg (not_or.mpr ⟨hea, hec⟩)]
  | leave x =>
      have hmood := fun g => mood_leave (v := v) (x := x) g
      have hpeer := fun g => peer_leave (v := v) (x := x) g
      have hself : ∀ g, ((Deed.leave x).apply v).moodOf g = some .asked →
          g ≠ x ∧ v.peerOf x ≠ some g ∧ v.moodOf g = some .asked := by
        intro g hg
        rw [hmood] at hg
        split at hg
        · cases hg
        · next hgx =>
            split at hg
            · exact absurd hg (map_free_ne_asked _)
            · next hxg => exact ⟨hgx, hxg, hg⟩
      refine ⟨fun _ => trivial, fun _ => hv.frame ?_ ?_⟩
      · intro g hg
        obtain ⟨hgx, -, hvg⟩ := hself g hg
        exact ⟨hvg, by rw [hpeer, if_neg hgx]⟩
      · intro g e hg hge
        obtain ⟨hgx, hxg, hvg⟩ := hself g hg
        obtain ⟨e', he', -, hback⟩ := hv g hvg
        obtain rfl := Option.some.inj (hge.symm.trans he')
        have hex : e ≠ x := fun h => hxg (h ▸ hback)
        rw [hpeer, if_neg hex]

/-! ## The answer goes to the asker -/

/-- No two parties wear one badge. -/
def Room.Badged (v : Room ι) : Prop :=
  ∀ g h k, v.badgeOf g = some k → v.badgeOf h = some k → g = h

/-- The peer of an asked party is where its asker is, and only the asker is there. -/
def Room.Answers (v : Room ι) (asker : Nat → Option Nat) : Prop :=
  ∀ b, v.moodOf b = some .asked →
    ∃ i k, v.badgeOf b = some i ∧ asker i = some k ∧
      ∀ g j, v.badgeOf g = some j → (v.peerOf b = some g ↔ j = k)

/-- The askers after a deed. -/
def Deed.note (v : Room ι) (asker : Nat → Option Nat) : Deed ι → Nat → Option Nat
  | ask a t =>
      match v.badgeOf t with
      | some i => Function.update asker i (v.badgeOf a)
      | none => asker
  | _ => asker

/-- The deeds that keep answers right: an asked party asks nobody but its asker, and nobody
enters at a place that an asked party remembers. -/
def Deed.KeepsAnswers (v : Room ι) : Deed ι → Prop
  | enter a _ => ∀ b, v.moodOf b = some .asked → v.peerOf b ≠ some a
  | ask a t => v.moodOf a = some .asked → v.peerOf a = some t
  | _ => True

/-- No asked party has a peer among `out`. -/
def Room.Clear (v : Room ι) (out : List ι) : Prop :=
  ∀ b c, v.moodOf b = some .asked → v.peerOf b = some c → c ∉ out

omit [DecidableEq ι] in
theorem Room.badgeOf_of_moodOf {v : Room ι} {a : ι} {m : Mood} (h : v.moodOf a = some m) :
    ∃ k, v.badgeOf a = some k := by
  obtain ⟨p, hp, -⟩ := Room.isSome_of_moodOf h
  exact ⟨p.badge, by rw [Room.badgeOf, hp]; rfl⟩

omit [DecidableEq ι] in
/-- If the asked parties of `w` were asked in `v` by the same askers and have the same peers,
and the parties of `w` sit where they sat in `v`, answers stay right. -/
theorem Room.Answers.frame {v w : Room ι} {asker : Nat → Option Nat} (hv : v.Answers asker)
    (hself : ∀ b, w.moodOf b = some .asked → v.moodOf b = some .asked ∧ w.peerOf b = v.peerOf b)
    (hbadge : ∀ g j, w.badgeOf g = some j → v.badgeOf g = some j) : w.Answers asker := by
  intro b hb
  obtain ⟨hvb, hp⟩ := hself b hb
  obtain ⟨i, k, hi, hk, hg⟩ := hv b hvb
  obtain ⟨i', hi'⟩ := Room.badgeOf_of_moodOf hb
  obtain rfl := Option.some.inj ((hbadge b i' hi').symm.trans hi)
  exact ⟨i', k, hi', hk, fun g j hj => hp ▸ hg g j (hbadge g j hj)⟩

/-- Whoever is asked after a deed that asks nobody was asked before, and has the peer it had. -/
theorem asked_of_apply {v : Room ι} (hs : v.NoSelf) {d : Deed ι} (hd : d.Enabled v)
    (hask : ∀ a t, d ≠ .ask a t) {g : ι} (hg : (d.apply v).moodOf g = some .asked) :
    v.moodOf g = some .asked ∧ (d.apply v).peerOf g = v.peerOf g := by
  cases d with
  | idle => exact ⟨hg, rfl⟩
  | ask a t => exact absurd rfl (hask a t)
  | enter a k =>
      rw [mood_enter] at hg
      split at hg
      · cases hg
      · next hga => exact ⟨hg, by rw [peer_enter, if_neg hga]⟩
  | lose b =>
      rw [mood_lose hd] at hg
      split at hg
      · cases hg
      · next hgb => exact ⟨hg, by rw [peer_lose, if_neg hgb]⟩
  | release b =>
      rw [mood_release hd] at hg
      split at hg
      · cases hg
      · exact ⟨hg, peer_release g⟩
  | pair b c =>
      have hbc : b ≠ c := fun h => hs b (h ▸ hd.2.1)
      rw [mood_pair hd] at hg
      split at hg
      · cases hg
      · next hgbc =>
          rw [not_or] at hgbc
          exact ⟨hg, by rw [peer_pair hbc hd, if_neg hgbc.1, if_neg hgbc.2]⟩
  | quit a c =>
      rw [mood_quit hd] at hg
      split at hg
      · exact absurd hg (map_free_ne_asked _)
      · next hgac => exact ⟨hg, by rw [peer_quit, if_neg hgac]⟩
  | leave x =>
      rw [mood_leave] at hg
      split at hg
      · cases hg
      · next hgx =>
          split at hg
          · exact absurd hg (map_free_ne_asked _)
          · exact ⟨hg, by rw [peer_leave, if_neg hgx]⟩

omit [DecidableEq ι] in
theorem Room.isSome_badgeOf (v : Room ι) (g : ι) : (v.badgeOf g).isSome = (v g).isSome := by
  simp [Room.badgeOf]

/-- Who is there after a deed was there before, or has entered. -/
theorem isSome_apply {v : Room ι} {d : Deed ι} {g : ι} (hg : (d.apply v g).isSome) :
    (v g).isSome ∨ ∃ k, d = .enter g k := by
  rw [← Room.isSome_badgeOf, badge_apply] at hg
  rw [← Room.isSome_badgeOf]
  cases d with
  | enter a k =>
      dsimp only at hg
      split at hg
      · next hga => exact Or.inr ⟨k, by rw [hga]⟩
      · exact Or.inl hg
  | leave x =>
      dsimp only at hg
      split at hg
      · cases hg
      · exact Or.inl hg
  | _ => exact Or.inl hg

/-- The peer of an asked party was its peer already, or is a party. -/
theorem peer_of_asked_apply {v : Room ι} (hs : v.NoSelf) {d : Deed ι} (hd : d.Enabled v) {b c : ι}
    (hb : (d.apply v).moodOf b = some .asked) (hc : (d.apply v).peerOf b = some c) :
    (v.moodOf b = some .asked ∧ v.peerOf b = some c) ∨ (v c).isSome := by
  rcases em (∃ a t, d = .ask a t) with ⟨a, t, rfl⟩ | hask
  · rw [mood_ask hd] at hb
    rw [peer_ask hd] at hc
    split at hc
    · obtain rfl := Option.some.inj hc
      obtain ⟨p, hp, -⟩ := Room.isSome_of_moodOf hd.2.1
      exact Or.inr (by rw [hp]; rfl)
    · split at hc
      · obtain rfl := Option.some.inj hc
        exact Or.inr hd.1
      · next hbt => exact Or.inl ⟨by rwa [if_neg hbt] at hb, hc⟩
  · obtain ⟨hb', hp⟩ := asked_of_apply hs hd (fun a t he => hask ⟨a, t, he⟩) hb
    exact Or.inl ⟨hb', hp ▸ hc⟩

/-- A deed leads no asked party out of the room. -/
theorem Room.Clear.apply {v : Room ι} {out : List ι} (hv : v.Clear out) (hs : v.NoSelf)
    (hout : ∀ g ∈ out, v g = none) {d : Deed ι} (hd : d.Enabled v) : (d.apply v).Clear out := by
  intro b c hb hc hin
  rcases peer_of_asked_apply hs hd hb hc with ⟨hb', hc'⟩ | hsome
  · exact hv b c hb' hc' hin
  · rw [hout c hin] at hsome
    cases hsome

omit [DecidableEq ι] in
theorem Room.clear_nil (v : Room ι) : v.Clear [] := fun _ _ _ _ => List.not_mem_nil

omit [DecidableEq ι] in
theorem Room.clear_append {v : Room ι} {out out' : List ι} :
    v.Clear (out ++ out') ↔ v.Clear out ∧ v.Clear out' := by
  constructor
  · intro h
    exact ⟨fun b c hb hc hin => h b c hb hc (List.mem_append_left _ hin),
      fun b c hb hc hin => h b c hb hc (List.mem_append_right _ hin)⟩
  · rintro ⟨h, h'⟩ b c hb hc hin
    rcases List.mem_append.mp hin with hin | hin
    · exact h b c hb hc hin
    · exact h' b c hb hc hin

theorem answers_apply_iff {v : Room ι} {asker : Nat → Option Nat} (hs : v.NoSelf)
    (hbadged : v.Badged) (hv : v.Answers asker) {d : Deed ι} (hd : d.Enabled v)
    (hfresh : ∀ a k, d = .enter a k → ∀ i, asker i ≠ some k) :
    (d.apply v).Answers (d.note v asker) ↔ d.KeepsAnswers v := by
  have hbadge := badge_apply (v := v) d
  cases d with
  | idle => exact ⟨fun _ => trivial, fun _ => hv⟩
  | enter a k =>
      have hmood := mood_enter (v := v) (a := a) (k := k)
      have hpeer := peer_enter (v := v) (a := a) (k := k)
      have hab : ∀ b, v.moodOf b = some .asked → b ≠ a := by
        rintro b hb rfl
        obtain ⟨p, hp, -⟩ := Room.isSome_of_moodOf hb
        exact absurd (hd.symm.trans hp) (by simp)
      constructor
      · -- the newcomer's badge is nobody's asker
        intro h b hb hba
        obtain ⟨i, j, -, hj, hg⟩ := h b (by rw [hmood, if_neg (hab b hb), hb])
        have := (hg a k (by rw [hbadge]; simp)).mp (by rw [hpeer, if_neg (hab b hb), hba])
        exact hfresh a k rfl i (this ▸ hj)
      · intro hk b hb
        rw [hmood] at hb
        split at hb
        · cases hb
        · next hba =>
            obtain ⟨i, j, hi, hj, hg⟩ := hv b hb
            refine ⟨i, j, by rw [hbadge]; simp [hba, hi], hj, fun g l hl => ?_⟩
            rw [hbadge] at hl
            rw [hpeer, if_neg hba]
            by_cases hga : g = a
            · subst hga
              have hl : some k = some l := by simpa using hl
              have hlj : l ≠ j := by
                rintro rfl
                exact hfresh g k rfl i (hj.trans hl.symm)
              exact ⟨fun h => absurd h (hk b hb), fun h => absurd h hlj⟩
            · exact hg g l (by simpa [hga] using hl)
  | ask a t =>
      have hmood := mood_ask hd
      have hpeer := peer_ask hd
      obtain ⟨hsome, hfree, hat⟩ := hd
      obtain ⟨it, hit⟩ := Room.badgeOf_of_moodOf hfree
      obtain ⟨p, hp⟩ := Option.isSome_iff_exists.mp hsome
      have hia : v.badgeOf a = some p.badge := by rw [Room.badgeOf, hp]; rfl
      have hta : t ≠ a := fun h => hat h.symm
      have hnote : (Deed.ask a t).note v asker = Function.update asker it (some p.badge) := by
        simp only [Deed.note, hit, hia]
      -- nobody but `t` has the badge whose asker is noted
      have hother : ∀ b i, v.badgeOf b = some i → b ≠ t →
          Function.update asker it (some p.badge) i = asker i := by
        intro b i hi hbt
        have hne : i ≠ it := fun h => hbt (hbadged b t i hi (h ▸ hit))
        rw [Function.update_of_ne hne]
      rw [hnote]
      constructor
      · intro h hasked
        obtain ⟨i, k, hi, hk, hg⟩ := h a (by rw [hmood, if_neg hat, hasked])
        rw [hbadge] at hi
        obtain ⟨i', k', hi', hk', hg'⟩ := hv a hasked
        obtain rfl := Option.some.inj (hi'.symm.trans hi)
        rw [hother a i' hi' hat, hk'] at hk
        obtain rfl := Option.some.inj hk
        have := (hg t it ((hbadge t).trans hit)).mp (by rw [hpeer, if_pos rfl])
        exact (hg' t it hit).mpr this
      · intro hk b hb
        by_cases hbt : b = t
        · subst hbt
          refine ⟨it, p.badge, (hbadge b).trans hit, Function.update_self it _ _, fun g j hj => ?_⟩
          rw [hbadge] at hj
          rw [hpeer, if_neg hta, if_pos rfl]
          constructor
          · intro h
            rw [← Option.some.inj h, hia] at hj
            exact (Option.some.inj hj).symm
          · rintro rfl
            exact congrArg some (hbadged a g p.badge hia hj)
        · rw [hmood, if_neg hbt] at hb
          obtain ⟨i, k, hi, hik, hg⟩ := hv b hb
          refine ⟨i, k, (hbadge b).trans hi, (hother b i hi hbt).trans hik, fun g j hj => ?_⟩
          rw [← hg g j ((hbadge g).symm.trans hj), hpeer]
          by_cases hba : b = a
          · subst hba
            rw [if_pos rfl, hk hb]
          · rw [if_neg hba, if_neg hbt]
  | lose | release | pair | quit =>
      refine ⟨fun _ => trivial, fun _ => hv.frame ?_ fun g j hj => (hbadge g).symm.trans hj⟩
      intro g hg
      exact asked_of_apply hs hd (by simp) hg
  | leave x =>
      refine ⟨fun _ => trivial, fun _ => hv.frame ?_ ?_⟩
      · intro g hg
        exact asked_of_apply hs hd (by simp) hg
      · intro g j hj
        rw [hbadge] at hj
        have hj : (if g = x then none else v.badgeOf g) = some j := hj
        split at hj
        · cases hj
        · exact hj

end ChatSocket
