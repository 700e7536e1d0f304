/-
# `Kit.Scan` — reading a list in order while others change it

Somebody reads a list of keys one by one: from a key on to the one `after` it, in
the list as it is at that moment.  Others add keys and take keys away meanwhile.
If the keys are always in increasing order, the reader still comes by every key
that stays, and by none twice: `Scanned stays pos seen` says so of a reader that
has read `seen` and reads `pos` next.

What `stays` is, the user of the rules says.  It must be something that is in the
list whenever the reader is about to go on; it may only ever become less
(`Scanned.mono`).
-/
import Mathlib

namespace Kit

variable {κ : Type} [LinearOrder κ]

/-- The key behind `a` in the list. -/
def after (a : κ) : List κ → Option κ
  | [] => none
  | b :: rest => if b = a then rest.head? else after a rest

section
variable {l : List κ} {a b : κ}

theorem mem_of_after (h : after a l = some b) : b ∈ l := by
  induction l with
  | nil => cases h
  | cons c l ih =>
      rw [after] at h
      split at h
      · exact List.mem_cons_of_mem c (List.mem_of_mem_head? h)
      · exact List.mem_cons_of_mem c (ih h)

theorem mem_of_after_some (h : after a l = some b) : a ∈ l := by
  induction l with
  | nil => cases h
  | cons c l ih =>
      rw [after] at h
      split at h
      · next hca => exact List.mem_cons.mpr (Or.inl hca.symm)
      · exact List.mem_cons_of_mem c (ih h)

/-- The first key is the least. -/
theorem head_le (hl : l.Pairwise (· < ·)) (h : l.head? = some b) : ∀ x ∈ l, b ≤ x := by
  intro x hx
  cases l with
  | nil => cases hx
  | cons c l =>
      cases h
      rcases List.mem_cons.mp hx with rfl | hx
      · exact le_refl _
      · exact ((List.pairwise_cons.mp hl).1 x hx).le

/-- What is after a key is the next greater one. -/
theorem after_spec (hl : l.Pairwise (· < ·)) (h : after a l = some b) :
    a < b ∧ ∀ x ∈ l, a < x → b ≤ x := by
  induction l with
  | nil => cases h
  | cons c l ih =>
      obtain ⟨hc, hl⟩ := List.pairwise_cons.mp hl
      rw [after] at h
      split at h
      · next hca =>
          subst hca
          refine ⟨hc b (List.mem_of_mem_head? h), fun x hx hlt => ?_⟩
          rcases List.mem_cons.mp hx with rfl | hx
          · exact absurd hlt (lt_irrefl _)
          · exact head_le hl h x hx
      · obtain ⟨hab, hleast⟩ := ih hl h
        refine ⟨hab, fun x hx hlt => ?_⟩
        rcases List.mem_cons.mp hx with rfl | hx
        · exact absurd hlt (hc a (mem_of_after_some h)).asymm
        · exact hleast x hx hlt

/-- After the greatest key there is none. -/
theorem le_of_after_none (hl : l.Pairwise (· < ·)) (ha : a ∈ l) (h : after a l = none) :
    ∀ x ∈ l, x ≤ a := by
  induction l with
  | nil => cases ha
  | cons c l ih =>
      obtain ⟨hc, hl⟩ := List.pairwise_cons.mp hl
      rw [after] at h
      split at h
      · next hca =>
          subst hca
          rw [List.head?_eq_none_iff.mp h]
          intro x hx
          rw [List.mem_singleton.mp hx]
      · next hca =>
          have hmem : a ∈ l := (List.mem_cons.mp ha).resolve_left fun he => hca he.symm
          intro x hx
          rcases List.mem_cons.mp hx with rfl | hx
          · exact (hc a hmem).le
          · exact ih hl hmem h x hx

end

/-- A reader has read `seen` and reads `pos` next; it misses nothing that stays. -/
structure Scanned (stays : κ → Prop) (pos : Option κ) (seen : List κ) : Prop where
  increasing : seen.Pairwise (· < ·)
  ahead : ∀ b ∈ pos, ∀ x ∈ seen, x < b
  complete : ∀ x, stays x → x ∈ seen ∨ ∃ b ∈ pos, b ≤ x

namespace Scanned

variable {stays stays' : κ → Prop} {l seen : List κ} {pos : Option κ} {a : κ}

/-- The reader starts. -/
theorem start (hl : l.Pairwise (· < ·)) (hstays : ∀ x, stays x → x ∈ l) :
    Scanned stays l.head? [] where
  increasing := List.Pairwise.nil
  ahead := fun _ _ _ hx => absurd hx List.not_mem_nil
  complete := by
    intro x hx
    have hmem := hstays x hx
    obtain ⟨b, hb⟩ := Option.isSome_iff_exists.mp (List.isSome_head?.mpr (List.ne_nil_of_mem hmem))
    exact Or.inr ⟨b, hb, head_le hl hb x hmem⟩

/-- The reader reads a key that is there and goes on. -/
theorem visit (hs : Scanned stays (some a) seen) (hl : l.Pairwise (· < ·)) (ha : a ∈ l)
    (hstays : ∀ x, stays x → x ∈ l) : Scanned stays (after a l) (seen ++ [a]) where
  increasing := by
    refine List.pairwise_append.mpr ⟨hs.increasing, List.pairwise_singleton _ _, ?_⟩
    intro x hx y hy
    rw [List.mem_singleton.mp hy]
    exact hs.ahead a rfl x hx
  ahead := by
    intro b hb x hx
    obtain ⟨hab, -⟩ := after_spec hl hb
    rcases List.mem_append.mp hx with hx | hx
    · exact (hs.ahead a rfl x hx).trans hab
    · rwa [List.mem_singleton.mp hx]
  complete := by
    intro x hx
    rcases hs.complete x hx with hseen | ⟨c, hc, hle⟩
    · exact Or.inl (List.mem_append_left _ hseen)
    · cases hc
      rcases hle.eq_or_lt with rfl | hlt
      · exact Or.inl (List.mem_append_right _ (List.mem_singleton_self _))
      · cases hnext : after a l with
        | none => exact absurd (le_of_after_none hl ha hnext x (hstays x hx)) (not_le.mpr hlt)
        | some b => exact Or.inr ⟨b, rfl, (after_spec hl hnext).2 x (hstays x hx) hlt⟩

/-- The reader stops where nothing stays that it would miss. -/
theorem stop (hs : Scanned stays pos seen) (hnone : ∀ x, ¬ stays' x) :
    Scanned stays' none seen where
  increasing := hs.increasing
  ahead := fun _ hb => by cases hb
  complete := fun x hx => absurd hx (hnone x)

/-- Less may stay as time goes by. -/
theorem mono (hs : Scanned stays pos seen) (h : ∀ x, stays' x → stays x) :
    Scanned stays' pos seen where
  increasing := hs.increasing
  ahead := hs.ahead
  complete := fun x hx => hs.complete x (h x hx)

/-- When there is nothing left to read, all that has stayed has been read. -/
theorem all_seen (hs : Scanned stays none seen) : ∀ x, stays x → x ∈ seen := by
  intro x hx
  rcases hs.complete x hx with hseen | ⟨b, hb, -⟩
  · exact hseen
  · cases hb

end Scanned

end Kit
