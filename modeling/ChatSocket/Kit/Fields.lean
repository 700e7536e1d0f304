/-
# `Kit.Fields` — a text of fields with a separator behind each

`terminated sep fs` writes the fields `fs` one after the other, each followed by
`sep`.  Splitting at the separator gives the fields back, and an empty rest,
exactly if no field contains it.  `fitting size len fs` is the part of the fields
that a writer gets down who has written `len` elements already and stops before
it reaches `size`.
-/
import Mathlib

namespace Kit

variable {α : Type} {sep : α} {fs gs : List (List α)}

/-- The fields, each with the separator behind it. -/
def terminated (sep : α) (fs : List (List α)) : List α := fs.flatMap fun f => f ++ [sep]

@[simp] theorem terminated_nil : terminated sep [] = [] := rfl

theorem terminated_cons (f : List α) :
    terminated sep (f :: fs) = f ++ [sep] ++ terminated sep fs := rfl

theorem length_terminated :
    (terminated sep fs).length = (fs.map fun f => f.length + 1).sum := by
  induction fs with
  | nil => rfl
  | cons f fs ih =>
      rw [terminated_cons, List.length_append, List.length_append, ih, List.map_cons,
        List.sum_cons, List.length_singleton]

/-- The last field is the empty rest. -/
theorem terminated_eq_intercalate : terminated sep fs = [sep].intercalate (fs ++ [[]]) := by
  induction fs with
  | nil => rfl
  | cons f fs ih =>
      rw [terminated_cons, ih]
      cases fs with
      | nil => simp [List.intercalate]
      | cons g gs => simp [List.intercalate]

/-! ## Splitting at the separator -/

section
variable [DecidableEq α]

theorem splitOn_terminated (h : ∀ f ∈ fs, sep ∉ f) :
    (terminated sep fs).splitOn sep = fs ++ [[]] := by
  induction fs with
  | nil => exact List.splitOn_nil sep
  | cons f fs ih =>
      rw [List.forall_mem_cons] at h
      rw [terminated_cons, List.append_assoc, List.singleton_append,
        List.splitOn_append_cons_self_of_not_mem h.1, ih h.2, List.cons_append]

/-- No piece contains the separator. -/
theorem notMem_of_mem_splitOn {text : List α} : ∀ f ∈ text.splitOn sep, sep ∉ f := by
  induction text with
  | nil =>
      intro f hf
      rw [List.splitOn_nil, List.mem_singleton] at hf
      rw [hf]
      exact List.not_mem_nil
  | cons a text ih =>
      intro f hf
      rw [List.splitOn_cons_eq_if_modifyHead] at hf
      split at hf
      · rcases List.mem_cons.mp hf with rfl | hf
        · exact List.not_mem_nil
        · exact ih f hf
      · next ha =>
          cases hpieces : text.splitOn sep with
          | nil => exact absurd hpieces (List.splitOn_ne_nil _ _)
          | cons g gs =>
              rw [hpieces] at ih
              rw [hpieces, List.modifyHead_cons] at hf
              rcases List.mem_cons.mp hf with rfl | hf
              · intro hmem
                rcases List.mem_cons.mp hmem with rfl | hmem
                · simp at ha
                · exact ih g List.mem_cons_self hmem
              · exact ih f (List.mem_cons_of_mem _ hf)

/-- The fields that splitting gives are those of the text, and free of the separator. -/
theorem terminated_splitOn {text : List α} (h : text.splitOn sep = fs ++ [[]]) :
    text = terminated sep fs ∧ ∀ f ∈ fs, sep ∉ f := by
  constructor
  · rw [terminated_eq_intercalate, ← h, List.intercalate_splitOn]
  · intro f hf
    have hmem : f ∈ text.splitOn sep := h ▸ List.mem_append_left _ hf
    exact notMem_of_mem_splitOn f hmem

end

/-! ## What fits -/

/-- The fields that are written by one who stops before the text has `size` elements. -/
def fitting (size : Nat) : Nat → List (List α) → List (List α)
  | _, [] => []
  | len, f :: fs =>
      if len + f.length + 1 ≥ size then [] else f :: fitting size (len + f.length + 1) fs

theorem fitting_initial (size : Nat) : ∀ len (fs : List (List α)), fitting size len fs <+: fs
  | _, [] => List.nil_prefix
  | len, f :: fs => by
      rw [fitting]
      split
      · exact List.nil_prefix
      · exact List.cons_prefix_cons.mpr ⟨rfl, fitting_initial size _ fs⟩

/-- Fields that come first, and with a text of the same length, are all of them. -/
theorem eq_of_prefix_of_length (h : fs <+: gs)
    (hlen : (terminated sep fs).length = (terminated sep gs).length) : fs = gs := by
  obtain ⟨rest, rfl⟩ := h
  rw [length_terminated, length_terminated, List.map_append, List.sum_append] at hlen
  cases rest with
  | nil => rw [List.append_nil]
  | cons f rest =>
      rw [List.map_cons, List.sum_cons] at hlen
      omega

/-- All fields are written exactly if their text is short enough. -/
theorem fitting_eq_self_iff {size len : Nat} (hlen : len < size) :
    fitting size len fs = fs ↔ len + (fs.map fun f => f.length + 1).sum < size := by
  induction fs generalizing len with
  | nil => exact iff_of_true rfl hlen
  | cons f fs ih =>
      rw [fitting, List.map_cons, List.sum_cons]
      split
      · next hfull => exact iff_of_false (by simp) (by omega)
      · next hfits =>
          rw [List.cons_inj_right, ih (Nat.not_le.mp hfits)]
          omega

/-- What is written is as much of the fields as has a text that is short enough. -/
theorem fitting_eq_take {size len : Nat} (hlen : len < size) :
    ∃ k, IsGreatest {k | k ≤ fs.length ∧ len + (terminated sep (fs.take k)).length < size} k ∧
      fitting size len fs = fs.take k := by
  induction fs generalizing len with
  | nil => exact ⟨0, ⟨⟨Nat.le_refl 0, hlen⟩, fun _ hk => hk.1⟩, rfl⟩
  | cons f fs ih =>
      have hcons : ∀ k, (terminated sep ((f :: fs).take (k + 1))).length
          = f.length + 1 + (terminated sep (fs.take k)).length := by
        intro k
        rw [List.take_succ_cons, terminated_cons, List.length_append, List.length_append]
        rfl
      rw [fitting]
      split
      · next hfull =>
          -- not even the first field
          refine ⟨0, ⟨⟨Nat.zero_le _, hlen⟩, fun k hk => ?_⟩, rfl⟩
          cases k with
          | zero => exact Nat.le_refl 0
          | succ k =>
              have hlt := hk.2
              rw [hcons] at hlt
              omega
      · next hfits =>
          obtain ⟨k, ⟨⟨hk, hshort⟩, hmax⟩, htake⟩ := ih (Nat.not_le.mp hfits)
          refine ⟨k + 1, ⟨⟨Nat.succ_le_succ hk, ?_⟩, fun j hj => ?_⟩, ?_⟩
          · rw [hcons]
            omega
          · cases j with
            | zero => exact Nat.zero_le _
            | succ j =>
                have hlt := hj.2
                rw [hcons] at hlt
                exact Nat.succ_le_succ (hmax ⟨Nat.le_of_succ_le_succ hj.1, by omega⟩)
          · rw [htake, List.take_succ_cons]

/-- What is written splits into all the fields exactly if they fit and are free of the
separator. -/
theorem splitOn_fitting_iff [DecidableEq α] {size : Nat} (hsize : 0 < size) :
    (terminated sep (fitting size 0 fs)).splitOn sep = fs ++ [[]] ↔
      (∀ f ∈ fs, sep ∉ f) ∧ (fs.map fun f => f.length + 1).sum < size := by
  have hfit : fitting size 0 fs = fs ↔ (fs.map fun f => f.length + 1).sum < size := by
    rw [fitting_eq_self_iff hsize, Nat.zero_add]
  constructor
  · intro h
    obtain ⟨htext, hfree⟩ := terminated_splitOn h
    exact ⟨hfree, hfit.mp (eq_of_prefix_of_length (fitting_initial size 0 fs)
      (congrArg List.length htext))⟩
  · rintro ⟨hfree, hsum⟩
    rw [hfit.mpr hsum]
    exact splitOn_terminated hfree

end Kit
