/-
# `Kit.Since` — what a history says about the present

A history is a list, the latest last.  `Since P Q h`: something that is `P`
happened in `h`, and nothing that is `Q` after it.  A flag that `P` sets and `Q`
clears is up exactly then (`since_concat`).

`Guarded A h`: whatever happened in `h` had the history before it on its side.
A history grows at its end, so `Guarded` is checked there (`guarded_concat`).
-/
import Mathlib.Data.List.Induction

namespace Kit

variable {α : Type}

def Since (P Q : α → Prop) (h : List α) : Prop :=
  ∃ before a after, h = before ++ a :: after ∧ P a ∧ ∀ b ∈ after, ¬ Q b

def Guarded (A : List α → α → Prop) (h : List α) : Prop :=
  ∀ before a after, h = before ++ a :: after → A before a

section
variable {P Q : α → Prop} {A : List α → α → Prop} {h h' : List α} {a : α}

theorem not_since_nil : ¬ Since P Q [] := by
  rintro ⟨before, a, after, he, -⟩
  cases before <;> cases he

/-- What sets the flag is in the newer part of the history, or in the older part and not undone
by the newer one. -/
theorem since_append : Since P Q (h ++ h') ↔ Since P Q h' ∨ Since P Q h ∧ ∀ b ∈ h', ¬ Q b := by
  constructor
  · rintro ⟨before, a, after, he, ha, hafter⟩
    rcases List.append_eq_append_iff.mp he with ⟨mid, rfl, rfl⟩ | ⟨mid, rfl, hmid⟩
    · exact Or.inl ⟨mid, a, after, rfl, ha, hafter⟩
    · cases mid with
      | nil => exact Or.inl ⟨[], a, after, hmid.symm, ha, hafter⟩
      | cons b mid =>
          cases hmid
          exact Or.inr ⟨⟨before, a, mid, rfl, ha, fun b hb => hafter b (List.mem_append_left _ hb)⟩,
            fun b hb => hafter b (List.mem_append_right _ hb)⟩
  · rintro (⟨before, a, after, rfl, ha, hafter⟩ | ⟨⟨before, a, after, rfl, ha, hafter⟩, hnew⟩)
    · exact ⟨h ++ before, a, after, (List.append_assoc _ _ _).symm, ha, hafter⟩
    · refine ⟨before, a, after ++ h', List.append_assoc _ _ _, ha, fun b hb => ?_⟩
      exact (List.mem_append.mp hb).elim (hafter b) (hnew b)

theorem since_singleton : Since P Q [a] ↔ P a := by
  constructor
  · rintro ⟨before, b, after, he, hb, -⟩
    cases before with
    | nil =>
        cases he
        exact hb
    | cons _ before => exact absurd (List.cons.inj he).2 (by simp)
  · exact fun ha => ⟨[], a, [], rfl, ha, nofun⟩

/-- The flag after one more happening. -/
theorem since_concat : Since P Q (h ++ [a]) ↔ P a ∨ Since P Q h ∧ ¬ Q a := by
  rw [since_append, since_singleton, List.forall_mem_singleton]

/-- Where the flag was down, something after that has set it. -/
theorem Since.exists_mem (hs : Since P Q (h ++ a :: h')) (hQ : Q a) (hP : ¬ P a) :
    ∃ b ∈ h', P b := by
  rcases since_append.mp hs with ⟨before, b, after, he, hb, -⟩ | ⟨-, hnone⟩
  · cases before with
    | nil =>
        cases he
        exact absurd hb hP
    | cons _ before =>
        cases he
        exact ⟨b, List.mem_append_right _ List.mem_cons_self, hb⟩
  · exact absurd hQ (hnone a List.mem_cons_self)

theorem Since.imp {P' Q' : α → Prop} (hs : Since P Q h) (hP : ∀ a, P a → P' a)
    (hQ : ∀ a, Q' a → Q a) : Since P' Q' h := by
  obtain ⟨before, a, after, he, ha, hafter⟩ := hs
  exact ⟨before, a, after, he, hP a ha, fun b hb hb' => hafter b hb (hQ b hb')⟩

/-- Where every setting undoes the others, the latest one is the only one. -/
theorem Since.unique {ι : Type} {P : ι → α → Prop} {i j : ι} (hundoes : ∀ i a, P i a → Q a)
    (hone : ∀ a, P i a → P j a → i = j) :
    ∀ h : List α, Since (P i) Q h → Since (P j) Q h → i = j := by
  intro h
  induction h using List.reverseRecOn with
  | nil => exact fun hi => absurd hi not_since_nil
  | append_singleton h a ih =>
      intro hi hj
      rcases since_concat.mp hi with hi | ⟨hi, hnot⟩
      · rcases since_concat.mp hj with hj | ⟨-, hnot⟩
        · exact hone a hi hj
        · exact absurd (hundoes i a hi) hnot
      · rcases since_concat.mp hj with hj | ⟨hj, -⟩
        · exact absurd (hundoes j a hj) hnot
        · exact ih hi hj

theorem guarded_nil : Guarded A [] := by
  intro before a after he
  cases before <;> cases he

/-- What was allowed was allowed when it happened, whatever has happened since. -/
theorem Guarded.left (hg : Guarded A (h ++ h')) : Guarded A h := by
  intro before a after he
  refine hg before a (after ++ h') ?_
  rw [he, List.append_assoc, List.cons_append]

theorem guarded_concat : Guarded A (h ++ [a]) ↔ Guarded A h ∧ A h a := by
  constructor
  · exact fun hg => ⟨hg.left, hg h a [] rfl⟩
  · rintro ⟨hg, ha⟩ before b after he
    rcases List.eq_nil_or_concat after with rfl | ⟨after, c, rfl⟩
    · obtain ⟨rfl, hb⟩ := List.append_inj' he rfl
      cases hb
      exact ha
    · rw [List.concat_eq_append, ← List.cons_append, ← List.append_assoc] at he
      exact hg before b after (List.append_inj' he rfl).1

/-- What any history allows may be added to any. -/
theorem Guarded.append (hg : Guarded A h) (hfree : ∀ b ∈ h', ∀ before, A before b) :
    Guarded A (h ++ h') := by
  induction h' generalizing h with
  | nil => rwa [List.append_nil]
  | cons b h' ih =>
      obtain ⟨hb, hfree⟩ := List.forall_mem_cons.mp hfree
      rw [List.append_cons]
      exact ih (guarded_concat.mpr ⟨hg, hb h⟩) hfree

end

end Kit
