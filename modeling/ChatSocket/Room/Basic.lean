/-
# `Room.Basic` — parties that ask one another for a conversation

The abstract model: what the server's negotiation is for, without names,
messages, lists or locks.  A room maps each place that is taken to a party.  A
party is free, asked or busy; it remembers one other place, its peer, and wears
a badge that no two parties ever share.

A `Deed` is one thing that happens in a room:

    enter a k    a party with badge k takes the place a
    ask a b      a asks the free party b; each becomes the other's peer
    lose b       b answers, but nobody it can name is there: b is free, without a peer
    release b    b is free again and keeps its peer
    pair b c     b, asked, accepts c: both are busy, each the other's peer
    quit a c     a, busy, leaves its peer c: both are free, without peers
    leave x      x is gone; its peer, if there, is free

One peer serves as "who asked me", "whom I asked" and "whom I talk to", and a
deed looks at one side of a link only.  How far that goes is the subject of
`Room.Pairs` and `Room.Bindings`; this file says what each deed does to every
mood and every peer.
-/
import Mathlib.Logic.Function.Basic

namespace ChatSocket

/-- What a party is doing. -/
inductive Mood where
  | free
  | asked
  | busy
  deriving DecidableEq

structure Party (ι : Type) where
  mood : Mood
  peer : Option ι
  badge : Nat

/-- The parties by their places. -/
abbrev Room (ι : Type) := ι → Option (Party ι)

inductive Deed (ι : Type) where
  | idle
  | enter (a : ι) (badge : Nat)
  | ask (a b : ι)
  | lose (b : ι)
  | release (b : ι)
  | pair (b c : ι)
  | quit (a c : ι)
  | leave (x : ι)

variable {ι : Type} [DecidableEq ι]

namespace Room

/-- Change the party at a place; nothing happens at an empty one. -/
def set (v : Room ι) (a : ι) (f : Party ι → Party ι) : Room ι :=
  Function.update v a ((v a).map f)

theorem set_apply (v : Room ι) (a : ι) (f : Party ι → Party ι) (g : ι) :
    v.set a f g = if g = a then (v a).map f else v g := by
  by_cases h : g = a
  · subst h; simp [set]
  · simp [set, h]

theorem set_set (v : Room ι) (a : ι) (f f' : Party ι → Party ι) :
    (v.set a f).set a f' = v.set a fun p => f' (f p) := by
  funext g
  simp only [set_apply]
  split
  · simp [Function.comp_def]
  · rfl

theorem set_comm (v : Room ι) {a b : ι} (hab : a ≠ b) (f f' : Party ι → Party ι) :
    (v.set a f).set b f' = (v.set b f').set a f := by
  have hba : b ≠ a := fun h => hab h.symm
  funext g
  simp only [set_apply, if_neg hba, if_neg hab]
  split
  · next h => rw [if_neg (h ▸ hba)]
  · rfl

/-- A change that changes nothing at this party. -/
theorem set_eq_self (v : Room ι) {a : ι} {f : Party ι → Party ι}
    (h : ∀ p, v a = some p → f p = p) : v.set a f = v := by
  funext g
  rw [set_apply]
  split
  · next hg =>
      subst hg
      cases hv : v g with
      | none => rfl
      | some p => exact congrArg some (h p hv)
  · rfl

/-- The place a party remembers. -/
def peerOf (v : Room ι) (a : ι) : Option ι := (v a).bind Party.peer

/-- The mood at a place that is taken. -/
def moodOf (v : Room ι) (a : ι) : Option Mood := (v a).map Party.mood

/-- The badge at a place that is taken. -/
def badgeOf (v : Room ι) (a : ι) : Option Nat := (v a).map Party.badge

end Room

namespace Deed

/-- What a deed changes. -/
def apply (v : Room ι) : Deed ι → Room ι
  | idle => v
  | enter a k => Function.update v a (some ⟨.free, none, k⟩)
  | ask a b =>
      (v.set a fun p => { p with peer := some b }).set b
        fun p => { p with mood := .asked, peer := some a }
  | lose b => v.set b fun p => { p with mood := .free, peer := none }
  | release b => v.set b fun p => { p with mood := .free }
  | pair b c =>
      (v.set b fun p => { p with mood := .busy, peer := some c }).set c
        fun p => { p with mood := .busy, peer := some b }
  | quit a c =>
      (v.set a fun p => { p with mood := .free, peer := none }).set c
        fun p => { p with mood := .free, peer := none }
  | leave x =>
      Function.update
        (match v.peerOf x with
          | none => v
          | some c => v.set c fun p => { p with mood := .free })
        x none

/-- When a deed can happen. -/
def Enabled (v : Room ι) : Deed ι → Prop
  | idle => True
  | enter a _ => v a = none
  | ask a b => (v a).isSome ∧ v.moodOf b = some .free ∧ a ≠ b
  | lose b => (v.peerOf b).isSome
  | release b =>
      (v b).isSome ∧
        (v.moodOf b = some .asked ∨ ∃ c, v.peerOf b = some c ∧ v.moodOf c = some .busy)
  | pair b c =>
      v.moodOf b = some .asked ∧ v.peerOf b = some c ∧ (v c).isSome ∧ v.moodOf c ≠ some .busy
  | quit a c => v.moodOf a = some .busy ∧ v.peerOf a = some c
  | leave x => (v x).isSome

end Deed

/-! ## Moods and peers after a deed -/

namespace Room

variable (v : Room ι) (f : Party ι → Party ι)

theorem moodOf_set (a g : ι) :
    (v.set a f).moodOf g = if g = a then (v a).map (fun p => (f p).mood) else v.moodOf g := by
  rw [moodOf, set_apply]
  split <;> simp [moodOf, Function.comp_def]

theorem peerOf_set (a g : ι) :
    (v.set a f).peerOf g = if g = a then (v a).bind (fun p => (f p).peer) else v.peerOf g := by
  rw [peerOf, set_apply]
  split
  · exact Option.bind_map
  · rfl

@[simp] theorem isSome_set (a g : ι) : (v.set a f g).isSome = (v g).isSome := by
  rw [set_apply]
  split
  · next h => rw [h, Option.isSome_map]
  · rfl

@[simp] theorem moodOf_set_mood (a g : ι) (m : Mood) :
    (v.set a fun p => { p with mood := m }).moodOf g
      = if g = a then (v.moodOf g).map fun _ => m else v.moodOf g := by
  rw [moodOf_set]
  split
  · next h => rw [h, moodOf, Option.map_map]; rfl
  · rfl

@[simp] theorem moodOf_set_peer (a g : ι) (b : Option ι) :
    (v.set a fun p => { p with peer := b }).moodOf g = v.moodOf g := by
  rw [moodOf_set]
  split
  · next h => rw [h, moodOf]
  · rfl

@[simp] theorem peerOf_set_mood (a g : ι) (m : Mood) :
    (v.set a fun p => { p with mood := m }).peerOf g = v.peerOf g := by
  rw [peerOf_set]
  split
  · next h => rw [h, peerOf]
  · rfl

@[simp] theorem peerOf_set_peer (a g : ι) (b : Option ι) :
    (v.set a fun p => { p with peer := b }).peerOf g
      = if g = a then (if (v g).isSome then b else none) else v.peerOf g := by
  rw [peerOf_set]
  split
  · next h =>
      rw [h]
      cases v a <;> rfl
  · rfl

theorem moodOf_update (a g : ι) (p : Option (Party ι)) :
    moodOf (Function.update v a p) g = if g = a then p.map Party.mood else v.moodOf g := by
  by_cases h : g = a
  · subst h; simp [moodOf]
  · simp [moodOf, h]

theorem peerOf_update (a g : ι) (p : Option (Party ι)) :
    peerOf (Function.update v a p) g = if g = a then p.bind Party.peer else v.peerOf g := by
  by_cases h : g = a
  · subst h; simp [peerOf]
  · simp [peerOf, h]

/-- A change that leaves badges alone leaves them alone everywhere. -/
theorem badgeOf_set (hf : ∀ p, (f p).badge = p.badge) (a g : ι) :
    (v.set a f).badgeOf g = v.badgeOf g := by
  rw [badgeOf, set_apply]
  split
  · next h => simp [badgeOf, h, Function.comp_def, hf]
  · rfl

theorem badgeOf_update (a g : ι) (p : Option (Party ι)) :
    badgeOf (Function.update v a p) g = if g = a then p.map Party.badge else v.badgeOf g := by
  by_cases h : g = a
  · subst h; simp [badgeOf]
  · simp [badgeOf, h]

omit [DecidableEq ι] in
theorem isSome_of_moodOf {v : Room ι} {a : ι} {m : Mood} (h : v.moodOf a = some m) :
    ∃ p, v a = some p ∧ p.mood = m := Option.map_eq_some_iff.mp h

omit [DecidableEq ι] in
theorem isSome_of_peerOf {v : Room ι} {a b : ι} (h : v.peerOf a = some b) :
    ∃ p, v a = some p ∧ p.peer = some b := Option.bind_eq_some_iff.mp h

end Room

section After
variable {v : Room ι}

theorem mood_enter {a : ι} {k : Nat} (g : ι) :
    ((Deed.enter a k).apply v).moodOf g = if g = a then some .free else v.moodOf g := by
  simp [Deed.apply, Room.moodOf_update]

theorem peer_enter {a : ι} {k : Nat} (g : ι) :
    ((Deed.enter a k).apply v).peerOf g = if g = a then none else v.peerOf g := by
  simp [Deed.apply, Room.peerOf_update]

theorem mood_lose {b : ι} (h : (Deed.lose b).Enabled v) (g : ι) :
    ((Deed.lose b).apply v).moodOf g = if g = b then some .free else v.moodOf g := by
  obtain ⟨c, hc⟩ := Option.isSome_iff_exists.mp h
  obtain ⟨p, hp, -⟩ := Room.isSome_of_peerOf hc
  simp [Deed.apply, Room.moodOf_set, hp]

theorem peer_lose {b : ι} (g : ι) :
    ((Deed.lose b).apply v).peerOf g = if g = b then none else v.peerOf g := by
  simp [Deed.apply, Room.peerOf_set]

theorem mood_release {b : ι} (h : (Deed.release b).Enabled v) (g : ι) :
    ((Deed.release b).apply v).moodOf g = if g = b then some .free else v.moodOf g := by
  obtain ⟨p, hp⟩ := Option.isSome_iff_exists.mp h.1
  simp [Deed.apply, Room.moodOf_set, hp]

theorem peer_release {b : ι} (g : ι) : ((Deed.release b).apply v).peerOf g = v.peerOf g := by
  simp only [Deed.apply, Room.peerOf_set]
  by_cases hg : g = b
  · subst hg; simp [Room.peerOf]
  · simp [hg]

theorem mood_ask {a b : ι} (h : (Deed.ask a b).Enabled v) (g : ι) :
    ((Deed.ask a b).apply v).moodOf g = if g = b then some .asked else v.moodOf g := by
  obtain ⟨p, hp, -⟩ := Room.isSome_of_moodOf h.2.1
  have hba : b ≠ a := fun hb => h.2.2 hb.symm
  simp only [Deed.apply, Room.moodOf_set, Room.set_apply, if_neg hba, hp, Option.map_some]
  by_cases hg : g = b
  · simp [hg]
  · simp only [if_neg hg]
    by_cases hga : g = a
    · subst hga; simp [Room.moodOf]
    · simp [hga]

theorem peer_ask {a b : ι} (h : (Deed.ask a b).Enabled v) (g : ι) :
    ((Deed.ask a b).apply v).peerOf g
      = if g = a then some b else if g = b then some a else v.peerOf g := by
  obtain ⟨p, hp, -⟩ := Room.isSome_of_moodOf h.2.1
  obtain ⟨q, hq⟩ := Option.isSome_iff_exists.mp h.1
  have hba : b ≠ a := fun hb => h.2.2 hb.symm
  simp only [Deed.apply, Room.peerOf_set, Room.set_apply, if_neg hba, hp, hq, Option.bind_some]
  by_cases hg : g = b
  · subst hg; simp [hba]
  · simp [hg]

theorem mood_pair {b c : ι} (h : (Deed.pair b c).Enabled v) (g : ι) :
    ((Deed.pair b c).apply v).moodOf g
      = if g = b ∨ g = c then some .busy else v.moodOf g := by
  obtain ⟨p, hp, -⟩ := Room.isSome_of_moodOf h.1
  obtain ⟨q, hq⟩ := Option.isSome_iff_exists.mp h.2.2.1
  simp only [Deed.apply, Room.moodOf_set, Room.set_apply, hp, hq]
  by_cases hgc : g = c
  · by_cases hcb : c = b <;> simp [hgc, hcb]
  · by_cases hgb : g = b
    · subst hgb; simp [hgc]
    · simp [hgc, hgb]

theorem peer_pair {b c : ι} (hbc : b ≠ c) (h : (Deed.pair b c).Enabled v) (g : ι) :
    ((Deed.pair b c).apply v).peerOf g
      = if g = b then some c else if g = c then some b else v.peerOf g := by
  obtain ⟨p, hp, -⟩ := Room.isSome_of_moodOf h.1
  obtain ⟨q, hq⟩ := Option.isSome_iff_exists.mp h.2.2.1
  have hcb : c ≠ b := fun h => hbc h.symm
  simp only [Deed.apply, Room.peerOf_set, Room.set_apply, hp, hq, if_neg hcb, Option.bind_some]
  by_cases hgc : g = c
  · subst hgc; simp [hcb]
  · simp [hgc]

theorem mood_quit {a c : ι} (h : (Deed.quit a c).Enabled v) (g : ι) :
    ((Deed.quit a c).apply v).moodOf g
      = if g = a ∨ g = c then (v.moodOf g).map (fun _ => .free) else v.moodOf g := by
  obtain ⟨p, hp, -⟩ := Room.isSome_of_moodOf h.1
  simp only [Deed.apply, Room.moodOf_set, Room.set_apply, hp]
  by_cases hgc : g = c
  · subst hgc
    by_cases hca : g = a
    · subst hca; simp [Room.moodOf, hp]
    · cases hv : v g <;> simp [hca, Room.moodOf, hv]
  · by_cases hga : g = a
    · subst hga; simp [hgc, Room.moodOf, hp]
    · simp [hgc, hga]

theorem peer_quit {a c : ι} (g : ι) :
    ((Deed.quit a c).apply v).peerOf g = if g = a ∨ g = c then none else v.peerOf g := by
  simp only [Deed.apply, Room.peerOf_set]
  by_cases hgc : g = c
  · simp [hgc]
  · by_cases hga : g = a <;> simp [hgc, hga]

theorem mood_leave {x : ι} (g : ι) :
    ((Deed.leave x).apply v).moodOf g
      = if g = x then none
        else if v.peerOf x = some g then (v.moodOf g).map (fun _ => .free) else v.moodOf g := by
  simp only [Deed.apply, Room.moodOf_update]
  by_cases hgx : g = x
  · simp [hgx]
  · simp only [if_neg hgx]
    cases hx : v.peerOf x with
    | none => simp
    | some c =>
        simp only [Room.moodOf_set, Option.some.injEq]
        by_cases hgc : g = c
        · subst hgc
          cases hv : v g <;> simp [Room.moodOf, hv]
        · have hcg : c ≠ g := fun h => hgc h.symm
          simp [hgc, hcg]

theorem peer_leave {x : ι} (g : ι) :
    ((Deed.leave x).apply v).peerOf g = if g = x then none else v.peerOf g := by
  simp only [Deed.apply, Room.peerOf_update]
  by_cases hgx : g = x
  · simp [hgx]
  · simp only [if_neg hgx]
    cases hx : v.peerOf x with
    | none => rfl
    | some c =>
        simp only [Room.peerOf_set]
        by_cases hgc : g = c
        · subst hgc
          simp [Room.peerOf]
        · simp [hgc]

/-- Badges come with `enter` and go with `leave`. -/
theorem badge_apply (d : Deed ι) (g : ι) :
    (d.apply v).badgeOf g
      = match d with
        | .enter a k => if g = a then some k else v.badgeOf g
        | .leave x => if g = x then none else v.badgeOf g
        | _ => v.badgeOf g := by
  cases d with
  | idle => rfl
  | enter a k => simp [Deed.apply, Room.badgeOf_update]
  | leave x =>
      simp only [Deed.apply, Room.badgeOf_update, Option.map_none]
      split
      · rfl
      · cases v.peerOf x with
        | none => rfl
        | some c => simp [Room.badgeOf_set]
  | lose b | release b => simp [Deed.apply, Room.badgeOf_set]
  | ask a b | pair a b | quit a b => simp [Deed.apply, Room.badgeOf_set]

end After

/-! ## Nobody is its own peer -/

def Room.NoSelf (v : Room ι) : Prop := ∀ a, v.peerOf a ≠ some a

theorem noSelf_apply {v : Room ι} (hv : v.NoSelf) {d : Deed ι} (hd : d.Enabled v) :
    (d.apply v).NoSelf := by
  intro g hg
  cases d with
  | idle => exact hv g hg
  | enter a k =>
      rw [peer_enter] at hg
      split at hg
      · cases hg
      · exact hv g hg
  | ask a b =>
      rw [peer_ask hd] at hg
      split at hg
      · next h => exact hd.2.2 (h.symm.trans (Option.some.inj hg).symm)
      · split at hg
        · next h => exact hd.2.2 ((Option.some.inj hg).trans h)
        · exact hv g hg
  | lose b =>
      rw [peer_lose] at hg
      split at hg
      · cases hg
      · exact hv g hg
  | release b =>
      rw [peer_release] at hg
      exact hv g hg
  | pair b c =>
      have hbc : b ≠ c := fun h => hv b (h ▸ hd.2.1)
      rw [peer_pair hbc hd] at hg
      split at hg
      · next h => exact hbc (h.symm.trans (Option.some.inj hg).symm)
      · split at hg
        · next h => exact hbc ((Option.some.inj hg).trans h)
        · exact hv g hg
  | quit a c =>
      rw [peer_quit] at hg
      split at hg
      · cases hg
      · exact hv g hg
  | leave x =>
      rw [peer_leave] at hg
      split at hg
      · cases hg
      · exact hv g hg

/-! ## Only the free have no peer -/

def Room.Peered (v : Room ι) : Prop :=
  ∀ a m, v.moodOf a = some m → m ≠ .free → ∃ b, v.peerOf a = some b

theorem peered_apply {v : Room ι} (hs : v.NoSelf) (hv : v.Peered) {d : Deed ι}
    (hd : d.Enabled v) : (d.apply v).Peered := by
  intro g m hg hm
  have hfree : some m ≠ some .free := fun h => hm (Option.some.inj h)
  cases d with
  | idle => exact hv g m hg hm
  | enter a k =>
      rw [mood_enter] at hg
      rw [peer_enter]
      split at hg
      · exact absurd hg.symm hfree
      · next hga => rw [if_neg hga]; exact hv g m hg hm
  | ask a b =>
      rw [mood_ask hd] at hg
      rw [peer_ask hd]
      split
      · exact ⟨b, rfl⟩
      · split
        · exact ⟨a, rfl⟩
        · next hgb => rw [if_neg hgb] at hg; exact hv g m hg hm
  | lose b =>
      rw [mood_lose hd] at hg
      rw [peer_lose]
      split at hg
      · exact absurd hg.symm hfree
      · next hgb => rw [if_neg hgb]; exact hv g m hg hm
  | release b =>
      rw [mood_release hd] at hg
      rw [peer_release]
      split at hg
      · exact absurd hg.symm hfree
      · exact hv g m hg hm
  | pair b c =>
      have hbc : b ≠ c := fun h => hs b (h ▸ hd.2.1)
      rw [mood_pair hd] at hg
      rw [peer_pair hbc hd]
      split
      · exact ⟨c, rfl⟩
      · next hgb =>
          split
          · exact ⟨b, rfl⟩
          · next hgc => rw [if_neg (not_or.mpr ⟨hgb, hgc⟩)] at hg; exact hv g m hg hm
  | quit a c =>
      rw [mood_quit hd] at hg
      rw [peer_quit]
      split at hg
      · obtain ⟨_, -, rfl⟩ := Option.map_eq_some_iff.mp hg
        exact absurd rfl hm
      · next hgac => rw [if_neg hgac]; exact hv g m hg hm
  | leave x =>
      rw [mood_leave] at hg
      rw [peer_leave]
      split at hg
      · cases hg
      · next hgx =>
          rw [if_neg hgx]
          split at hg
          · obtain ⟨_, -, rfl⟩ := Option.map_eq_some_iff.mp hg
            exact absurd rfl hm
          · exact hv g m hg hm

end ChatSocket
