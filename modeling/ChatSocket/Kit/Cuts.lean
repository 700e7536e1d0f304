/-
# `Kit.Cuts` — a text of lines, read in pieces

The text is lines with a separator behind each (`terminated`), and it comes in
pieces, cut anywhere.  A reader that keeps nothing from one piece to the next
takes every piece for a line: it drops the separator at the end of a piece, and
the pieces that are nothing but a separator.

`Whole`: every piece is a line with its separator, or a line whose separator is
the next piece.  Then the reader has the lines that are not empty
(`Whole.lines_eq`).  Otherwise some separator is left inside what it takes for a
line, or it has too many of them (`whole_iff`).
-/
import ChatSocket.Kit.Fields

namespace Kit

variable {α : Type} [DecidableEq α] {sep : α}

/-- A piece without the separator at its end. -/
def chop (sep : α) (piece : List α) : List α :=
  if piece.getLast? = some sep then piece.dropLast else piece

def Whole (sep : α) : List (List α) → Prop
  | [] => True
  | piece :: pieces =>
      sep ∉ piece.dropLast ∧ (piece.getLast? = some sep ∨ pieces.head? = some [sep]) ∧
        Whole sep pieces

instance : ∀ pieces : List (List α), Decidable (Whole sep pieces)
  | [] => inferInstanceAs (Decidable True)
  | _ :: pieces =>
      have : Decidable (Whole sep pieces) := instDecidableWhole pieces
      inferInstanceAs (Decidable (_ ∧ _ ∧ _))

/-- The number of lines that a reader who keeps nothing takes the pieces for. -/
def taken (sep : α) (pieces : List (List α)) : Nat := (pieces.filter (· ≠ [sep])).length

section
variable {b piece rest : List α} {lines pieces : List (List α)}

theorem dropLast_subset_chop : piece.dropLast ⊆ chop sep piece := by
  rw [chop]
  split
  · exact List.Subset.refl _
  · exact List.dropLast_subset _

@[simp] theorem chop_concat (sep : α) (b : List α) : chop sep (b ++ [sep]) = b := by
  rw [chop, if_pos List.getLast?_concat, List.dropLast_concat]

theorem chop_subset : chop sep piece ⊆ piece := by
  rw [chop]
  split
  · exact List.dropLast_subset _
  · exact List.Subset.refl _

theorem length_chop_le : (chop sep piece).length ≤ piece.length := by
  rw [chop]
  split
  · exact (List.dropLast_sublist _).length_le
  · exact Nat.le_refl _

theorem chop_of_notMem (h : sep ∉ piece) : chop sep piece = piece :=
  if_neg fun hlast => h (List.mem_of_getLast? hlast)

/-- A piece with a separator at its end at most: the end of a line, or a part of one. -/
theorem piece_cases (hp : sep ∉ piece.dropLast) :
    (∃ b, sep ∉ b ∧ piece = b ++ [sep]) ∨ sep ∉ piece := by
  rcases List.eq_nil_or_concat piece with rfl | ⟨b, x, rfl⟩
  · exact Or.inr List.not_mem_nil
  · rw [List.concat_eq_append, List.dropLast_concat] at hp
    rw [List.concat_eq_append]
    by_cases hx : x = sep
    · exact Or.inl ⟨b, hp, hx ▸ rfl⟩
    · refine Or.inr fun hmem => ?_
      rcases List.mem_append.mp hmem with hb | hsep
      · exact hp hb
      · exact hx (List.mem_singleton.mp hsep).symm

/-- The first separator ends the first line. -/
theorem eq_cons_of_append (hb : sep ∉ b) (hlines : ∀ l ∈ lines, sep ∉ l)
    (h : b ++ sep :: rest = terminated sep lines) :
    ∃ lines', lines = b :: lines' ∧ rest = terminated sep lines' := by
  cases lines with
  | nil => exact absurd h (by simp)
  | cons l lines =>
      rw [terminated_cons, List.append_assoc, List.singleton_append] at h
      have hsplit := congrArg (List.splitOn sep) h
      rw [List.splitOn_append_cons_self_of_not_mem hb,
        List.splitOn_append_cons_self_of_not_mem (hlines l List.mem_cons_self)] at hsplit
      obtain ⟨rfl, -⟩ := List.cons.inj hsplit
      exact ⟨lines, rfl, (List.cons.inj (List.append_cancel_left h)).2⟩

theorem taken_cons (piece : List α) (pieces : List (List α)) :
    taken sep (piece :: pieces) = taken sep pieces + if piece = [sep] then 0 else 1 := by
  rw [taken, List.filter_cons]
  split
  · next h => rw [if_neg (by simpa using h), List.length_cons, taken]
  · next h => rw [if_pos (by simpa using h), taken, Nat.add_zero]

omit [DecidableEq α] in
theorem filter_ne_nil_cons (b : List α) (lines : List (List α)) :
    ((b :: lines).filter (· ≠ [])).length
      = (lines.filter (· ≠ [])).length + if b = [] then 0 else 1 := by
  rw [List.filter_cons]
  split
  · next h => rw [if_neg (by simpa using h), List.length_cons]
  · next h => rw [if_pos (by simpa using h), Nat.add_zero]

omit [DecidableEq α] in
/-- A text of lines does not end within a line. -/
theorem eq_nil_of_terminated (hb : sep ∉ b) (h : b = terminated sep lines) :
    b = [] ∧ lines = [] := by
  cases lines with
  | nil => exact ⟨h, rfl⟩
  | cons l lines =>
      refine absurd ?_ hb
      rw [h, terminated_cons]
      simp

/-- There are no fewer pieces than lines, and if there are no more then every piece is a line.
`b` is the part of a line that was read before. -/
theorem whole_of_taken (pieces : List (List α)) :
    ∀ (b : List α) (lines : List (List α)), sep ∉ b → (∀ l ∈ lines, sep ∉ l) →
      (∀ piece ∈ pieces, piece ≠ [] ∧ sep ∉ piece.dropLast) →
      b ++ pieces.flatten = terminated sep lines →
      (lines.filter (· ≠ [])).length ≤ taken sep pieces + (if b = [] then 0 else 1) ∧
        (taken sep pieces + (if b = [] then 0 else 1) = (lines.filter (· ≠ [])).length →
          Whole sep pieces ∧ (b ≠ [] → pieces.head? = some [sep])) := by
  induction pieces with
  | nil =>
      intro b lines hb hlines _ h
      rw [List.flatten_nil, List.append_nil] at h
      obtain ⟨rfl, rfl⟩ := eq_nil_of_terminated hb h
      exact ⟨Nat.zero_le _, fun _ => ⟨trivial, fun hne => absurd rfl hne⟩⟩
  | cons piece pieces ih =>
      intro b lines hb hlines hpieces h
      obtain ⟨⟨hne, hp⟩, htail⟩ := List.forall_mem_cons.mp hpieces
      rw [List.flatten_cons, ← List.append_assoc] at h
      rw [taken_cons]
      rcases piece_cases hp with ⟨b', hb', rfl⟩ | hpart
      · -- the piece ends the line
        rw [← List.append_assoc, List.append_assoc _ [sep], List.singleton_append] at h
        have hline : sep ∉ b ++ b' := by simp [hb, hb']
        obtain ⟨lines, rfl, hrest⟩ := eq_cons_of_append hline hlines h
        obtain ⟨hle, heq⟩ := ih [] lines List.not_mem_nil
          (List.forall_mem_cons.mp hlines).2 htail hrest
        have hwhole : Whole sep pieces → Whole sep ((b' ++ [sep]) :: pieces) := fun hw =>
          ⟨hp, Or.inl List.getLast?_concat, hw⟩
        have hlone : b' ++ [sep] = [sep] ↔ b' = [] := List.append_left_eq_self
        rw [if_pos rfl, Nat.add_zero] at hle heq
        simp only [filter_ne_nil_cons, hlone, List.append_eq_nil_iff]
        by_cases hempty : b' = []
        · subst hempty
          simp only [and_true, if_true, Nat.add_zero]
          refine ⟨Nat.add_le_add_right hle _, fun hcount => ?_⟩
          exact ⟨hwhole (heq (Nat.add_right_cancel hcount)).1, fun _ => rfl⟩
        · simp only [hempty, and_false, if_false]
          refine ⟨by omega, fun hcount => ?_⟩
          -- another part of the line would be a line too many
          have hb : b = [] := by
            by_contra hb
            rw [if_neg hb] at hcount
            omega
          rw [if_pos hb] at hcount
          exact ⟨hwhole (heq (by omega)).1, fun hne => absurd hb hne⟩
      · -- the line goes on
        obtain ⟨hle, heq⟩ := ih (b ++ piece) lines (by simp [hb, hpart]) hlines htail h
        rw [if_neg (by simp [hne])] at hle heq
        have hlone : piece ≠ [sep] := fun he => hpart (he ▸ List.mem_singleton_self sep)
        rw [if_neg hlone]
        constructor
        · omega
        · intro hcount
          split at hcount
          · next hempty =>
              obtain ⟨hwhole, hhead⟩ := heq (by omega)
              refine ⟨⟨hp, Or.inr (hhead (by simp [hne])), hwhole⟩, fun hb => absurd hempty hb⟩
          · omega

/-- The lines of a reader whose pieces are lines. -/
theorem lines_of_whole (pieces : List (List α)) :
    ∀ (b : List α) (lines : List (List α)), sep ∉ b → (∀ l ∈ lines, sep ∉ l) →
      (∀ piece ∈ pieces, piece ≠ []) → b ++ pieces.flatten = terminated sep lines →
      Whole sep pieces → (b ≠ [] → pieces.head? = some [sep]) →
      [b].filter (· ≠ []) ++ (pieces.filter (· ≠ [sep])).map (chop sep)
        = lines.filter (· ≠ []) := by
  induction pieces with
  | nil =>
      intro b lines hb _ _ h _ hhead
      rw [List.flatten_nil, List.append_nil] at h
      obtain ⟨rfl, rfl⟩ := eq_nil_of_terminated hb h
      rfl
  | cons piece pieces ih =>
      intro b lines hb hlines hpieces h hw hhead
      obtain ⟨hp, hnext, hwhole⟩ := hw
      obtain ⟨hne, htail⟩ := List.forall_mem_cons.mp hpieces
      have hfirst : b ≠ [] → piece = [sep] := fun hb => Option.some.inj (hhead hb)
      rw [List.flatten_cons, ← List.append_assoc] at h
      rcases piece_cases hp with ⟨b', hb', rfl⟩ | hpart
      · rw [← List.append_assoc, List.append_assoc _ [sep], List.singleton_append] at h
        have hline : sep ∉ b ++ b' := by simp [hb, hb']
        obtain ⟨lines, rfl, hrest⟩ := eq_cons_of_append hline hlines h
        have hrec : (pieces.filter (· ≠ [sep])).map (chop sep) = lines.filter (· ≠ []) :=
          ih [] lines List.not_mem_nil (List.forall_mem_cons.mp hlines).2 htail hrest hwhole
            fun hne => absurd rfl hne
        by_cases hempty : b = []
        · subst hempty
          by_cases hempty' : b' = []
          · subst hempty'
            simpa using hrec
          · simpa [hempty'] using hrec
        · obtain rfl : b' = [] := List.append_left_eq_self.mp (hfirst hempty)
          simpa [hempty] using hrec
      · have hempty : b = [] := by
          by_contra hb
          exact hpart (hfirst hb ▸ List.mem_singleton_self sep)
        subst hempty
        have hnext : pieces.head? = some [sep] := by
          refine hnext.resolve_left fun hlast => hpart ?_
          exact List.mem_of_getLast? hlast
        have hrec := ih piece lines hpart hlines htail h hwhole fun _ => hnext
        have hlone : piece ≠ [sep] := fun he => hpart (he ▸ List.mem_singleton_self sep)
        simpa [hlone, chop_of_notMem hpart, hne] using hrec

omit [DecidableEq α] in
theorem Whole.notMem_dropLast (hw : Whole sep pieces) :
    ∀ piece ∈ pieces, sep ∉ piece.dropLast := by
  induction pieces with
  | nil => exact nofun
  | cons piece pieces ih => exact List.forall_mem_cons.mpr ⟨hw.1, ih hw.2.2⟩

variable (hlines : ∀ l ∈ lines, sep ∉ l) (hpieces : ∀ piece ∈ pieces, piece ≠ [])
  (h : pieces.flatten = terminated sep lines)
include hlines hpieces h

/-- A reader that keeps nothing between the pieces has the lines, without the empty ones. -/
theorem Whole.lines_eq (hw : Whole sep pieces) :
    (pieces.filter (· ≠ [sep])).map (chop sep) = lines.filter (· ≠ []) :=
  lines_of_whole pieces [] lines List.not_mem_nil hlines hpieces h hw fun hne => absurd rfl hne

/-- Every piece is a line exactly if no separator is left in a piece and there are no more pieces
than lines. -/
theorem whole_iff :
    Whole sep pieces ↔ (∀ piece ∈ pieces, sep ∉ piece.dropLast) ∧
      taken sep pieces = (lines.filter (· ≠ [])).length := by
  constructor
  · intro hw
    refine ⟨hw.notMem_dropLast, ?_⟩
    rw [← hw.lines_eq hlines hpieces h, List.length_map, taken]
  · rintro ⟨hends, hcount⟩
    exact ((whole_of_taken pieces [] lines List.not_mem_nil hlines
      (fun piece hp => ⟨hpieces piece hp, hends piece hp⟩) h).2 hcount).1

end

end Kit
