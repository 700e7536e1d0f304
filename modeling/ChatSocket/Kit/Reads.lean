/-
# `Kit.Reads` — the C string functions in memory that ends

`strcmp?`, `strncpy?` and `memcpy?` are the functions of `Kit.CString` over
pieces of memory with nothing behind them: `none` where the function would read
on past the end of a piece.  A call that gives a value has read inside its
pieces only, so that the value is the same whatever stands behind them.
-/
import ChatSocket.Kit.CString

namespace Kit

/-- `strcmp`, in two pieces of memory. -/
def strcmp? : List UInt8 → List UInt8 → Option Int
  | a :: as, b :: bs =>
      if a = b then (if a = 0 then some 0 else strcmp? as bs)
      else some ((a.toNat : Int) - b.toNat)
  | _, _ => none

/-- The `k` bytes that `strncpy` writes of what it reads in a piece of memory. -/
def strncpy? : Nat → List UInt8 → Option (List UInt8)
  | 0, _ => some []
  | _ + 1, [] => none
  | k + 1, a :: as =>
      if a = 0 then some (List.replicate (k + 1) 0) else (strncpy? k as).map (a :: ·)

/-- The `k` bytes that `memcpy` reads in a piece of memory. -/
def memcpy? (k : Nat) (src : List UInt8) : Option (List UInt8) :=
  if k ≤ src.length then some (src.take k) else none

/-- What is read inside the pieces does not depend on what is behind them. -/
theorem strcmp_of_strcmp? {m m' : List UInt8} {c : Int} (h : strcmp? m m' = some c)
    (x x' : List UInt8) : strcmp (m ++ x) (m' ++ x') = c := by
  induction m generalizing m' with
  | nil => cases h
  | cons a as ih =>
      cases m' with
      | nil => cases h
      | cons b bs =>
          simp only [strcmp?] at h
          simp only [List.cons_append, strcmp]
          split at h
          · next hab =>
              rw [if_pos hab]
              split at h
              · next ha =>
                  rw [if_pos ha]
                  exact Option.some.inj h
              · next ha =>
                  rw [if_neg ha]
                  exact ih h
          · next hab =>
              rw [if_neg hab]
              exact Option.some.inj h

/-- A comparison ends where either of the two strings ends. -/
theorem strcmp?_isSome {m m' : List UInt8}
    (h : (0 : UInt8) ∈ m ∧ m.length ≤ m'.length ∨ (0 : UInt8) ∈ m' ∧ m'.length ≤ m.length) :
    (strcmp? m m').isSome := by
  induction m generalizing m' with
  | nil =>
      rcases h with ⟨hz, -⟩ | ⟨hz, hle⟩
      · cases hz
      · rw [List.eq_nil_of_length_eq_zero (Nat.le_zero.mp hle)] at hz
        cases hz
  | cons a as ih =>
      cases m' with
      | nil =>
          rcases h with ⟨-, hle⟩ | ⟨hz, -⟩
          · exact absurd hle (Nat.not_succ_le_zero _)
          · cases hz
      | cons b bs =>
          simp only [strcmp?]
          split
          · next hab =>
              split
              · rfl
              · next ha =>
                  -- the NUL is behind
                  apply ih
                  simp only [List.mem_cons, List.length_cons, Nat.add_le_add_iff_right] at h
                  rcases h with ⟨hz, hle⟩ | ⟨hz, hle⟩
                  · exact Or.inl ⟨hz.resolve_left fun he => ha he.symm, hle⟩
                  · exact Or.inr ⟨hz.resolve_left fun he => ha (hab.trans he.symm), hle⟩
          · rfl

/-- `strncpy` reads `k` bytes at most, and what it writes does not depend on the others. -/
theorem strncpy?_eq (k : Nat) {m : List UInt8} (h : k ≤ m.length) (x : List UInt8) :
    strncpy? k m
      = some ((cstr (m ++ x)).take k ++ List.replicate (k - strlen (m ++ x)) 0) := by
  induction k generalizing m with
  | zero => simp [strncpy?]
  | succ k ih =>
      cases m with
      | nil => exact absurd h (Nat.not_succ_le_zero k)
      | cons a as =>
          rw [strncpy?, strlen, List.cons_append, cstr_cons]
          split
          · simp
          · rw [ih (Nat.le_of_succ_le_succ h), List.take_succ_cons, List.length_cons,
              Nat.add_sub_add_right]
            rfl

end Kit
