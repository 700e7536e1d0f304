/-
# `Kit.CString` — byte buffers and the C string functions

Memory is a list of bytes, read from a pointer onwards.  `cstr` is the C string
at the start of a piece of memory: the bytes before the first NUL.  A `Buf n`
is a `char` array of `n` bytes.

`strcmp`, `strcpy`, `strncpy`, `strncat`, `memcpy` and `memset` follow the
standard's text.  `strcmp` compares byte by byte and stops at the first
difference or at a common NUL; memory that ends is read as if a NUL followed
(`strcmp_eq_zero_iff` then says that only the two C strings count).  A write
past the end of a `Buf` is cut off there: where a program could overflow an
array, that it does not is a theorem about the program and not part of these
definitions.
-/
import Mathlib.Data.List.TakeWhile

namespace Kit

/-- The bytes of an ASCII literal. -/
def ascii (s : String) : List UInt8 := s.toList.map fun c => UInt8.ofNat c.toNat

/-- The C string at the start of `m`. -/
def cstr (m : List UInt8) : List UInt8 := m.takeWhile (· ≠ 0)

/-- `strlen`. -/
def strlen (m : List UInt8) : Nat := (cstr m).length

/-- `strcmp`: negative, zero or positive. -/
def strcmp : List UInt8 → List UInt8 → Int
  | [], [] => 0
  | [], b :: _ => - b.toNat
  | a :: _, [] => a.toNat
  | a :: as, b :: bs =>
      if a = b then (if a = 0 then 0 else strcmp as bs) else (a.toNat : Int) - b.toNat

/-- `strtok(m, " ")`: memory from the token on, with a NUL over the space that ends it, and memory
from where `strtok(NULL, " ")` goes on. -/
def strtok (m : List UInt8) : Option (List UInt8 × List UInt8) :=
  let token := m.dropWhile (· = 0x20)
  let word := (cstr token).takeWhile (· ≠ 0x20)
  if word = [] then none
  else
    match token.drop word.length with
    | 0x20 :: rest => some (word ++ 0 :: rest, rest)
    | rest => some (token, rest)

/-- `strncmp`: as `strcmp`, over at most `n` bytes. -/
def strncmp : Nat → List UInt8 → List UInt8 → Int
  | 0, _, _ => 0
  | _ + 1, [], [] => 0
  | _ + 1, [], b :: _ => - b.toNat
  | _ + 1, a :: _, [] => a.toNat
  | n + 1, a :: as, b :: bs =>
      if a = b then (if a = 0 then 0 else strncmp n as bs) else (a.toNat : Int) - b.toNat

@[simp] theorem cstr_nil : cstr [] = [] := rfl

theorem cstr_cons (a : UInt8) (m : List UInt8) :
    cstr (a :: m) = if a = 0 then [] else a :: cstr m := by
  by_cases h : a = 0 <;> simp [cstr, h]

theorem zero_notMem_cstr (m : List UInt8) : (0 : UInt8) ∉ cstr m := by
  induction m with
  | nil => exact List.not_mem_nil
  | cons a m ih =>
      rw [cstr_cons]
      by_cases ha : a = 0
      · simp [ha]
      · rw [if_neg ha]
        intro h
        rcases List.mem_cons.mp h with h0 | hm
        · exact ha h0.symm
        · exact ih hm

theorem cstr_eq_self {m : List UInt8} (h : (0 : UInt8) ∉ m) : cstr m = m := by
  induction m with
  | nil => rfl
  | cons a m ih =>
      have ha : a ≠ 0 := fun he => h (he ▸ List.mem_cons_self)
      rw [cstr_cons, if_neg ha, ih fun hm => h (List.mem_cons_of_mem _ hm)]

@[simp] theorem cstr_cstr (m : List UInt8) : cstr (cstr m) = cstr m :=
  cstr_eq_self (zero_notMem_cstr m)

/-- What follows the terminating NUL is not part of the string. -/
theorem cstr_append_zero {s : List UInt8} (h : (0 : UInt8) ∉ s) (m : List UInt8) :
    cstr (s ++ 0 :: m) = s := by
  induction s with
  | nil => simp [cstr_cons]
  | cons a s ih =>
      have ha : a ≠ 0 := fun he => h (he ▸ List.mem_cons_self)
      rw [List.cons_append, cstr_cons, if_neg ha, ih fun hs => h (List.mem_cons_of_mem _ hs)]

/-- Only what is before a NUL counts. -/
theorem cstr_append_zero_cstr (s m : List UInt8) : cstr (s ++ 0 :: m) = cstr s := by
  induction s with
  | nil => simp [cstr_cons]
  | cons a s ih => rw [List.cons_append, cstr_cons, cstr_cons, ih]

/-- A NUL ends the string. -/
theorem exists_eq_cstr_append {m : List UInt8} (h : (0 : UInt8) ∈ m) :
    ∃ rest, m = cstr m ++ 0 :: rest := by
  induction m with
  | nil => cases h
  | cons a m ih =>
      rw [cstr_cons]
      split
      · next ha => exact ⟨m, ha ▸ rfl⟩
      · next ha =>
          obtain ⟨rest, hrest⟩ := ih ((List.mem_cons.mp h).resolve_left fun he => ha he.symm)
          exact ⟨rest, congrArg (a :: ·) hrest⟩

theorem UInt8.toNat_ne_zero {a : UInt8} (h : a ≠ 0) : (a.toNat : Int) ≠ 0 := by
  intro he
  exact h (UInt8.toNat_inj.mp (by simpa using he))

/-- `strcmp` is zero exactly on equal C strings. -/
theorem strcmp_eq_zero_iff : ∀ m m' : List UInt8, strcmp m m' = 0 ↔ cstr m = cstr m'
  | [], [] => by simp [strcmp]
  | [], b :: bs => by
      by_cases hb : b = 0
      · simp [strcmp, cstr_cons, hb]
      · have := UInt8.toNat_ne_zero hb
        simp only [strcmp, cstr_cons, if_neg hb, cstr_nil]
        constructor
        · intro h; omega
        · intro h; cases h
  | a :: as, [] => by
      by_cases ha : a = 0
      · simp [strcmp, cstr_cons, ha]
      · have := UInt8.toNat_ne_zero ha
        simp only [strcmp, cstr_cons, if_neg ha, cstr_nil]
        constructor
        · intro h; omega
        · intro h; cases h
  | a :: as, b :: bs => by
      by_cases hab : a = b
      · subst hab
        by_cases ha : a = 0
        · simp [strcmp, cstr_cons, ha]
        · simp [strcmp, cstr_cons, ha, strcmp_eq_zero_iff as bs]
      · have hne : a.toNat ≠ b.toNat := fun h => hab (UInt8.toNat_inj.mp h)
        simp only [strcmp, if_neg hab, cstr_cons]
        constructor
        · intro h; omega
        · intro h
          by_cases ha : a = 0 <;> by_cases hb : b = 0 <;> simp_all

/-- `strncmp` is zero exactly if the C strings begin with the same `n` bytes. -/
theorem strncmp_eq_zero_iff (n : Nat) (m m' : List UInt8) :
    strncmp n m m' = 0 ↔ (cstr m).take n = (cstr m').take n := by
  induction n generalizing m m' with
  | zero => simp [strncmp]
  | succ n ih =>
      cases m with
      | nil =>
          cases m' with
          | nil => simp [strncmp]
          | cons b bs =>
              by_cases hb : b = 0
              · simp [strncmp, cstr_cons, hb]
              · have := UInt8.toNat_ne_zero hb
                simp only [strncmp, cstr_cons, if_neg hb, cstr_nil]
                constructor
                · intro h; omega
                · intro h; cases h
      | cons a as =>
          cases m' with
          | nil =>
              by_cases ha : a = 0
              · simp [strncmp, cstr_cons, ha]
              · have := UInt8.toNat_ne_zero ha
                simp only [strncmp, cstr_cons, if_neg ha, cstr_nil]
                constructor
                · intro h; omega
                · intro h; cases h
          | cons b bs =>
              by_cases hab : a = b
              · subst hab
                by_cases ha : a = 0
                · simp [strncmp, cstr_cons, ha]
                · simp [strncmp, cstr_cons, ha, ih]
              · have hne : a.toNat ≠ b.toNat := fun h => hab (UInt8.toNat_inj.mp h)
                simp only [strncmp, if_neg hab, cstr_cons]
                constructor
                · intro h; omega
                · intro h
                  by_cases ha : a = 0 <;> by_cases hb : b = 0 <;> simp_all

/-- `strncmp(m, w, strlen(w))` looks for `w` at the start of a string. -/
theorem strncmp_strlen_iff (m w : List UInt8) :
    strncmp (strlen w) m w = 0 ↔ cstr w <+: cstr m := by
  rw [strncmp_eq_zero_iff, List.prefix_iff_eq_take, strlen, List.take_length]
  exact eq_comm

/-! ## Words -/

/-- What stands between the spaces at the start of a string and the next space. -/
def firstWord (s : List UInt8) : List UInt8 :=
  (s.dropWhile (· = 0x20)).takeWhile (· ≠ 0x20)

theorem space_notMem_firstWord (s : List UInt8) : (0x20 : UInt8) ∉ firstWord s := by
  intro h
  simpa using List.mem_takeWhile_imp h

theorem length_firstWord_le (s : List UInt8) : (firstWord s).length ≤ s.length :=
  ((List.takeWhile_sublist _).trans (List.dropWhile_sublist _)).length_le

theorem firstWord_eq_self_iff {s : List UInt8} : firstWord s = s ↔ (0x20 : UInt8) ∉ s := by
  constructor
  · intro h
    rw [← h]
    exact space_notMem_firstWord s
  · intro h
    have hdrop : s.dropWhile (· = 0x20) = s := by
      cases s with
      | nil => rfl
      | cons a s =>
          have ha : a ≠ 0x20 := fun he => h (he ▸ List.mem_cons_self)
          exact List.dropWhile_cons_of_neg (by simpa using ha)
    rw [firstWord, hdrop, List.takeWhile_eq_self_iff]
    intro a ha
    simpa using fun he : a = 0x20 => h (he ▸ ha)

theorem cstr_dropWhile_space (m : List UInt8) :
    cstr (m.dropWhile (· = 0x20)) = (cstr m).dropWhile (· = 0x20) := by
  induction m with
  | nil => rfl
  | cons a m ih =>
      by_cases ha : a = 0x20
      · subst ha
        exact ih
      · rw [List.dropWhile_cons_of_neg (by simpa using ha), cstr_cons]
        split
        · rfl
        · exact (List.dropWhile_cons_of_neg (by simpa using ha)).symm

/-- `strtok` finds a token in what has a word. -/
theorem strtok_eq_none_iff (m : List UInt8) : strtok m = none ↔ firstWord (cstr m) = [] := by
  rw [firstWord, ← cstr_dropWhile_space, strtok]
  split
  · next h => exact iff_of_true rfl h
  · next h =>
      refine iff_of_false ?_ h
      split <;> nofun

/-- The token is the first word. -/
theorem cstr_strtok {m : List UInt8} {q : List UInt8 × List UInt8} (h : strtok m = some q) :
    cstr q.1 = firstWord (cstr m) := by
  rw [firstWord, ← cstr_dropWhile_space]
  simp only [strtok] at h
  generalize m.dropWhile (· = 0x20) = token at h ⊢
  -- the token goes on where the word ends, or is at its end
  have hword := List.takeWhile_append_dropWhile (p := (· ≠ (0x20 : UInt8))) (l := cstr token)
  have hend := List.head?_dropWhile_not (· ≠ (0x20 : UInt8)) (cstr token)
  obtain ⟨behind, hbehind⟩ : ∃ behind, cstr token ++ behind = token :=
    ⟨_, List.takeWhile_append_dropWhile⟩
  generalize (cstr token).takeWhile (· ≠ 0x20) = word at h hword ⊢
  generalize (cstr token).dropWhile (· ≠ 0x20) = rest at hword hend
  split at h
  · cases h
  split at h
  · cases h
    refine cstr_append_zero (fun hmem => zero_notMem_cstr token ?_) _
    rw [← hword]
    exact List.mem_append_left _ hmem
  · next hdrop =>
      cases h
      cases rest with
      | nil =>
          rw [List.append_nil] at hword
          exact hword.symm
      | cons a rest =>
          obtain rfl : a = 0x20 := by simpa using hend
          refine absurd ?_ (hdrop (rest ++ behind))
          rw [← hbehind, ← hword, List.append_assoc, List.drop_left]
          rfl

/-! ## Arrays -/

/-- A `char` array of `n` bytes. -/
structure Buf (n : Nat) where
  bytes : List UInt8
  size_eq : bytes.length = n
  deriving DecidableEq

namespace Buf

variable {n : Nat}

/-- `memset(dst, 0, n)`. -/
def zero (n : Nat) : Buf n := ⟨List.replicate n 0, List.length_replicate⟩

/-- Write `xs` from the start of the array on, as far as the array goes. -/
def write (dst : Buf n) (xs : List UInt8) : Buf n :=
  ⟨(xs ++ dst.bytes.drop xs.length).take n, by
    have := dst.size_eq
    simp only [List.length_take, List.length_append, List.length_drop]
    omega⟩

/-- `memcpy(dst, src, k)`. -/
def memcpy (dst : Buf n) (src : List UInt8) (k : Nat) : Buf n := dst.write (src.take k)

/-- `strcpy(dst, src)`: the C string and its NUL. -/
def strcpy (dst : Buf n) (src : List UInt8) : Buf n := dst.write (cstr src ++ [0])

/-- `strncpy(dst, src, k)`: at most `k` bytes of the C string, filled up with NULs to `k`. -/
def strncpy (dst : Buf n) (src : List UInt8) (k : Nat) : Buf n :=
  dst.write ((cstr src).take k ++ List.replicate (k - strlen src) 0)

/-- `strncat(dst, src, k)`: at most `k` bytes of the C string, after that of `dst`, and a NUL. -/
def strncat (dst : Buf n) (src : List UInt8) (k : Nat) : Buf n :=
  dst.write (cstr dst.bytes ++ (cstr src).take k ++ [0])

/-- `dst[i] = c`. -/
def put (dst : Buf n) (i : Nat) (c : UInt8) : Buf n :=
  ⟨dst.bytes.set i c, by rw [List.length_set, dst.size_eq]⟩

/-- The C string in the array. -/
def str (b : Buf n) : List UInt8 := cstr b.bytes

theorem bytes_injective {b b' : Buf n} (h : b.bytes = b'.bytes) : b = b' := by
  cases b; cases b'; cases h; rfl

/-- A string that does not fill its array ends in it. -/
theorem zero_mem_of_length_str {b : Buf n} (h : b.str.length < n) : (0 : UInt8) ∈ b.bytes := by
  by_contra hz
  rw [str, cstr_eq_self hz, b.size_eq] at h
  exact Nat.lt_irrefl n h

/-- What a write that fits leaves in the array. -/
theorem bytes_write {dst : Buf n} {xs : List UInt8} (h : xs.length ≤ n) :
    (dst.write xs).bytes = xs ++ dst.bytes.drop xs.length := by
  have := dst.size_eq
  apply List.take_of_length_le
  simp only [List.length_append, List.length_drop]
  omega

/-- A string that fits, copied with its NUL, is the string in the array. -/
theorem str_strcpy {dst : Buf n} {src : List UInt8} (h : strlen src < n) :
    (dst.strcpy src).str = cstr src := by
  have hlen : (cstr src ++ [0]).length ≤ n := by
    simp only [List.length_append, List.length_singleton]
    exact h
  rw [str, strcpy, bytes_write hlen, List.append_assoc]
  exact cstr_append_zero (zero_notMem_cstr src) _

/-- Of a string that does not fit, the array holds as much as it can. -/
theorem str_strcpy_take (dst : Buf n) (src : List UInt8) :
    (dst.strcpy src).str = (cstr src).take n := by
  by_cases h : strlen src < n
  · rw [str_strcpy h, List.take_of_length_le (Nat.le_of_lt h)]
  · have hle : n ≤ (cstr src).length := Nat.not_lt.mp h
    have hbytes : (dst.strcpy src).bytes = (cstr src).take n := by
      show List.take n (cstr src ++ [0] ++ _) = _
      rw [List.append_assoc, List.take_append_of_le_length hle]
    rw [str, hbytes]
    exact cstr_eq_self fun hmem => zero_notMem_cstr src (List.mem_of_mem_take hmem)

/-- A string that is copied together with the memory behind it. -/
theorem str_memcpy {src : List UInt8} (h : strlen src < n) :
    ((zero n).memcpy src n).str = cstr src := by
  have hsplit := List.takeWhile_append_dropWhile (p := (· ≠ (0 : UInt8))) (l := src)
  have hend := List.head?_dropWhile_not (· ≠ (0 : UInt8)) src
  change cstr src ++ _ = src at hsplit
  rw [str, memcpy, bytes_write (List.length_take_le n src)]
  cases hbehind : src.dropWhile (· ≠ (0 : UInt8)) with
  | nil =>
      -- the array is filled up with NULs
      rw [hbehind, List.append_nil] at hsplit
      have hlen : src.length < n := by rwa [strlen, hsplit] at h
      obtain ⟨k, hk⟩ : ∃ k, n - src.length = k + 1 :=
        Nat.exists_eq_add_one.mpr (Nat.sub_pos_of_lt hlen)
      rw [List.take_of_length_le (Nat.le_of_lt hlen), zero, List.drop_replicate, hk,
        List.replicate_succ, cstr_append_zero (hsplit ▸ zero_notMem_cstr src), hsplit]
  | cons a behind =>
      rw [hbehind] at hend hsplit
      obtain rfl : a = 0 := by simpa using hend
      obtain ⟨k, hk⟩ : ∃ k, n - (cstr src).length = k + 1 :=
        Nat.exists_eq_add_one.mpr (Nat.sub_pos_of_lt h)
      have htake : src.take n = cstr src ++ 0 :: behind.take k := by
        rw [← congrArg (List.take n) hsplit, List.take_append,
          List.take_of_length_le (Nat.le_of_lt h), hk, List.take_succ_cons]
      rw [htake, List.append_assoc]
      exact cstr_append_zero (zero_notMem_cstr src) _

/-- A string that fits behind the one in the array. -/
theorem str_strncat {dst : Buf n} {src : List UInt8} {k : Nat} (hk : strlen src ≤ k)
    (h : dst.str.length + strlen src < n) : (dst.strncat src k).str = dst.str ++ cstr src := by
  have hlen : (cstr dst.bytes ++ cstr src ++ [0]).length ≤ n := by
    rw [List.length_append, List.length_append]
    exact h
  have hfree : (0 : UInt8) ∉ cstr dst.bytes ++ cstr src := fun hmem =>
    (List.mem_append.mp hmem).elim (zero_notMem_cstr _) (zero_notMem_cstr _)
  rw [str, strncat, List.take_of_length_le hk, bytes_write hlen, List.append_assoc _ [0]]
  exact cstr_append_zero hfree _

/-- `strncpy(dst, src, k); dst[k] = 0;` into an array of `k + 1` bytes. -/
theorem bytes_strncpy_put {k : Nat} (dst : Buf (k + 1)) (src : List UInt8) :
    ((dst.strncpy src k).put k 0).bytes
      = (cstr src).take k ++ 0 :: List.replicate (k - strlen src) 0 := by
  have hlen : ((cstr src).take k ++ List.replicate (k - strlen src) (0 : UInt8)).length = k := by
    simp only [List.length_append, List.length_take, List.length_replicate, strlen]
    omega
  obtain ⟨x, hx⟩ : ∃ x, dst.bytes.drop k = [x] := by
    apply List.length_eq_one_iff.mp
    rw [List.length_drop, dst.size_eq]
    omega
  show (dst.write _).bytes.set k 0 = _
  rw [bytes_write (by omega), hlen, hx, List.set_append_right _ _ (by omega), hlen, Nat.sub_self,
    List.set_cons_zero, List.append_assoc, ← List.replicate_succ', List.replicate_succ]

/-- The copied string, cut to `k` bytes. -/
theorem str_strncpy_put {k : Nat} (dst : Buf (k + 1)) (src : List UInt8) :
    ((dst.strncpy src k).put k 0).str = (cstr src).take k := by
  rw [str, bytes_strncpy_put]
  exact cstr_append_zero (fun h => zero_notMem_cstr src (List.mem_of_mem_take h)) _

end Buf

end Kit
