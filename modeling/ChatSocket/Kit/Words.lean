/-
# `Kit.Words` — a text cut at its spaces

`tokens s` are the words of a text: what stands between spaces.  `strtok` finds
them one after the other (`strtok_append_zero`, `strtok_strtok`): it puts a NUL
over the space that ends a word and goes on behind it.

`strtok` never moves a byte, so a token is the rest of the text it was found in,
with all the memory behind that text.
-/
import ChatSocket.Kit.CString
import Mathlib.Data.List.Infix

namespace Kit

/-- The words of a text. -/
def tokens (s : List UInt8) : List (List UInt8) := (s.splitOn 0x20).filter (· ≠ [])

/-- What is behind the first word and the space that ends it. -/
def afterWord (s : List UInt8) : List UInt8 :=
  ((s.dropWhile (· = 0x20)).dropWhile (· ≠ 0x20)).tail

/-- The text from its first word on, with a NUL over the space that ends the word. -/
def cutWord (s : List UInt8) : List UInt8 :=
  firstWord s ++
    match (s.dropWhile (· = 0x20)).dropWhile (· ≠ 0x20) with
    | [] => []
    | _ :: t => 0 :: t

/-! ## The words of a text -/

@[simp] theorem tokens_nil : tokens [] = [] := rfl

theorem tokens_space (s : List UInt8) : tokens (0x20 :: s) = tokens s := by
  have hsplit : (0x20 :: s).splitOn (0x20 : UInt8) = [] :: s.splitOn 0x20 :=
    List.splitOn_append_cons_self_of_not_mem List.not_mem_nil s
  rw [tokens, hsplit, List.filter_cons_of_neg (by simp)]
  rfl

theorem tokens_word {w : List UInt8} (hne : w ≠ []) (hw : (0x20 : UInt8) ∉ w) :
    tokens w = [w] := by
  rw [tokens, List.splitOn_eq_singleton hw, List.filter_cons_of_pos (by simpa using hne)]
  rfl

theorem tokens_word_space {w : List UInt8} (hne : w ≠ []) (hw : (0x20 : UInt8) ∉ w)
    (s : List UInt8) : tokens (w ++ 0x20 :: s) = w :: tokens s := by
  rw [tokens, List.splitOn_append_cons_self_of_not_mem hw,
    List.filter_cons_of_pos (by simpa using hne)]
  rfl

theorem tokens_dropWhile_space (s : List UInt8) :
    tokens (s.dropWhile (· = 0x20)) = tokens s := by
  induction s with
  | nil => rfl
  | cons a s ih =>
      by_cases ha : a = 0x20
      · subst ha
        rw [tokens_space]
        exact ih
      · rw [List.dropWhile_cons_of_neg (by simpa using ha)]

/-! ## The first word -/

/-- The first word is the last, or a space ends it. -/
theorem firstWord_cases (s : List UInt8) :
    s.dropWhile (· = 0x20) = firstWord s ∧ afterWord s = [] ∧ cutWord s = firstWord s ∨
      s.dropWhile (· = 0x20) = firstWord s ++ 0x20 :: afterWord s ∧
        cutWord s = firstWord s ++ 0 :: afterWord s := by
  have hsplit := List.takeWhile_append_dropWhile (p := (· ≠ (0x20 : UInt8)))
    (l := s.dropWhile (· = 0x20))
  have hend := List.head?_dropWhile_not (· ≠ (0x20 : UInt8)) (s.dropWhile (· = 0x20))
  rw [← firstWord] at hsplit
  rw [cutWord, afterWord]
  generalize (s.dropWhile (· = 0x20)).dropWhile (· ≠ 0x20) = rest at hsplit hend ⊢
  cases rest with
  | nil =>
      rw [List.append_nil] at hsplit
      exact Or.inl ⟨hsplit.symm, rfl, List.append_nil _⟩
  | cons b t =>
      obtain rfl : b = 0x20 := by simpa using hend
      exact Or.inr ⟨hsplit.symm, rfl⟩

/-- A text without a first word is nothing but spaces. -/
theorem dropWhile_space_eq_nil {s : List UInt8} (h : firstWord s = []) :
    s.dropWhile (· = 0x20) = [] := by
  have hstart := List.head?_dropWhile_not (· = (0x20 : UInt8)) s
  rw [firstWord] at h
  cases hs : s.dropWhile (· = 0x20) with
  | nil => rfl
  | cons a u =>
      rw [hs] at h hstart
      have ha : a ≠ 0x20 := by simpa using hstart
      rw [List.takeWhile_cons_of_pos (by simpa using ha)] at h
      cases h

/-- A text has no word, or a first one and those behind it. -/
theorem tokens_eq (s : List UInt8) :
    tokens s = if firstWord s = [] then [] else firstWord s :: tokens (afterWord s) := by
  have hspace := space_notMem_firstWord s
  rw [← tokens_dropWhile_space]
  split
  · next hnone => rw [dropWhile_space_eq_nil hnone, tokens_nil]
  · next hne =>
      rcases firstWord_cases s with ⟨hs, hafter, -⟩ | ⟨hs, -⟩
      · rw [hs, tokens_word hne hspace, hafter, tokens_nil]
      · rw [hs, tokens_word_space hne hspace]

theorem afterWord_eq_nil {s : List UInt8} (h : firstWord s = []) : afterWord s = [] := by
  rw [afterWord, dropWhile_space_eq_nil h]
  rfl

theorem tokens_head (s : List UInt8) :
    (tokens s)[0]? = if firstWord s = [] then none else some (firstWord s) := by
  rw [tokens_eq]
  split <;> rfl

theorem tokens_second (s : List UInt8) :
    (tokens s)[1]?
      = if firstWord (afterWord s) = [] then none else some (firstWord (afterWord s)) := by
  rw [tokens_eq]
  split
  · next hnone =>
      rw [afterWord_eq_nil hnone]
      rfl
  · exact tokens_head (afterWord s)

theorem length_cutWord_le (s : List UInt8) : (cutWord s).length ≤ s.length := by
  have hlen := (List.dropWhile_sublist (· = (0x20 : UInt8)) (l := s)).length_le
  rcases firstWord_cases s with ⟨hs, -, hcut⟩ | ⟨hs, hcut⟩
  · rwa [hcut, ← hs]
  · rw [hs, List.length_append, List.length_cons] at hlen
    rwa [hcut, List.length_append, List.length_cons]

/-- What is behind the first word is shorter by the word and a space. -/
theorem length_afterWord {s : List UInt8} (h : afterWord s ≠ []) :
    (firstWord s).length + 1 + (afterWord s).length ≤ s.length := by
  have hlen := (List.dropWhile_sublist (· = (0x20 : UInt8)) (l := s)).length_le
  rcases firstWord_cases s with ⟨-, hafter, -⟩ | ⟨hs, -⟩
  · exact absurd hafter h
  · rw [hs, List.length_append, List.length_cons] at hlen
    omega

/-! ## What `strtok` finds -/

section
variable {s : List UInt8}

theorem zero_notMem_afterWord (h : (0 : UInt8) ∉ s) : (0 : UInt8) ∉ afterWord s := fun hmem =>
  h ((List.dropWhile_sublist _).subset ((List.dropWhile_sublist _).subset
    (List.mem_of_mem_tail hmem)))

theorem dropWhile_space_append_zero (s rest : List UInt8) :
    (s ++ 0 :: rest).dropWhile (· = 0x20) = s.dropWhile (· = 0x20) ++ 0 :: rest := by
  induction s with
  | nil => rfl
  | cons a s ih =>
      by_cases ha : a = 0x20
      · subst ha
        exact ih
      · rw [List.cons_append, List.dropWhile_cons_of_neg (by simpa using ha),
          List.dropWhile_cons_of_neg (by simpa using ha), List.cons_append]

/-- The token of a text, and what it leaves for the next call. -/
theorem strtok_append_zero (h : (0 : UInt8) ∉ s) (hne : firstWord s ≠ []) (rest : List UInt8) :
    strtok (s ++ 0 :: rest) = some (cutWord s ++ 0 :: rest, afterWord s ++ 0 :: rest) := by
  have hfree : (0 : UInt8) ∉ s.dropWhile (· = 0x20) := fun hmem =>
    h ((List.dropWhile_sublist _).subset hmem)
  have hword : (s.dropWhile (· = 0x20)).takeWhile (· ≠ 0x20) = firstWord s := rfl
  simp only [strtok, dropWhile_space_append_zero, cstr_append_zero hfree, hword, if_neg hne]
  rcases firstWord_cases s with ⟨hs, hafter, hcut⟩ | ⟨hs, hcut⟩
  · rw [hs, List.drop_left, hcut, hafter]
    rfl
  · rw [hs, List.append_assoc, List.drop_left, hcut, List.append_assoc]
    rfl

/-- The C string of the token is the word. -/
theorem cstr_cutWord (h : (0 : UInt8) ∉ s) (hne : firstWord s ≠ []) (rest : List UInt8) :
    cstr (cutWord s ++ 0 :: rest) = firstWord s := by
  have hword := cstr_strtok (strtok_append_zero h hne rest)
  rwa [cstr_append_zero h] at hword

theorem strtok_append_zero_none (h : (0 : UInt8) ∉ s) (hnone : firstWord s = [])
    (rest : List UInt8) : strtok (s ++ 0 :: rest) = none := by
  rw [strtok_eq_none_iff, cstr_append_zero h, hnone]

end

end Kit
