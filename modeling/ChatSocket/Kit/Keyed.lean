/-
# `Kit.Keyed` — a list of records as a finite map

Records of type `α` carry a key, `key : α → κ`.  A list of records is walked
from its head: `look` is the first record with a given key, `alter` overwrites
the first record with a given key, and `List.eraseP` cuts it out.  Nothing
stops two records from sharing a key; the laws that need the keys to be
pairwise different say so (`Nodup`).

The three laws the users of this file rewrite with are `look_alter`,
`look_append` and `look_erase`: they say what a walk finds after an update, in
terms of what it found before.

A second attribute of the records is a partial function of the key.  `OneToOne`
says that it tells the keys apart; `nodup_map_iff` is the same said of the list.
-/
import Mathlib.Data.List.Nodup
import Mathlib.Logic.Function.Basic

namespace Kit

variable {α β κ : Type} [DecidableEq κ]

/-- The first record of `l` with key `k`. -/
def look (key : α → κ) (k : κ) (l : List α) : Option α := l.find? fun a => key a = k

/-- Overwrite the first record with key `k`. -/
def alter (key : α → κ) (k : κ) (f : α → α) : List α → List α
  | [] => []
  | a :: l => if key a = k then f a :: l else a :: alter key k f l

section
variable {key : α → κ} {k j : κ} {f : α → α} {l : List α}

@[simp] theorem look_nil : look key k [] = none := rfl

theorem look_cons (a : α) :
    look key k (a :: l) = if key a = k then some a else look key k l := by
  by_cases h : key a = k <;> simp [look, h]

theorem look_mem {a : α} (h : look key k l = some a) : a ∈ l :=
  List.mem_of_find?_eq_some h

theorem look_key {a : α} (h : look key k l = some a) : key a = k := by
  simpa using List.find?_some h

theorem look_eq_none_iff : look key k l = none ↔ ∀ a ∈ l, key a ≠ k := by
  simp [look]

/-- With keys pairwise different, a record is found under its own key. -/
theorem look_of_mem (hnd : (l.map key).Nodup) {a : α} (ha : a ∈ l) :
    look key (key a) l = some a := by
  induction l with
  | nil => exact absurd ha List.not_mem_nil
  | cons b l ih =>
      rw [List.map_cons, List.nodup_cons] at hnd
      rw [look_cons]
      rcases List.mem_cons.mp ha with rfl | ha'
      · simp
      · have hne : key b ≠ key a := fun he => hnd.1 (he ▸ List.mem_map_of_mem ha')
        rw [if_neg hne]
        exact ih hnd.2 ha'

/-! ## Overwriting -/

theorem map_alter_of_eq {g : α → β} (hg : ∀ a, g (f a) = g a) :
    ∀ l : List α, (alter key k f l).map g = l.map g
  | [] => rfl
  | a :: l => by
      by_cases h : key a = k
      · simp [alter, h, hg]
      · simp [alter, h, map_alter_of_eq hg l]

theorem look_alter (hf : ∀ a, key (f a) = key a) :
    look key j (alter key k f l) = if j = k then (look key k l).map f else look key j l := by
  induction l with
  | nil => simp [alter]
  | cons a l ih =>
      by_cases ha : key a = k
      · have hfa : key (f a) = k := (hf a).trans ha
        rw [alter, if_pos ha, look_cons, look_cons, look_cons, hfa, ha]
        by_cases hj : j = k
        · subst hj; simp
        · have hkj : k ≠ j := fun h => hj h.symm
          simp [hj, hkj]
      · simp only [alter, if_neg ha, look_cons, ih]
        by_cases hj : j = k
        · subst hj; simp [ha]
        · simp [hj]

theorem alter_eq_self (h : look key k l = none) : alter key k f l = l := by
  induction l with
  | nil => rfl
  | cons a l ih =>
      rw [look_eq_none_iff] at h
      have ha : key a ≠ k := h a List.mem_cons_self
      simp only [alter, if_neg ha]
      rw [ih (look_eq_none_iff.mpr fun b hb => h b (List.mem_cons_of_mem _ hb))]

/-- Two changes of one record are one change. -/
theorem alter_alter {g : α → α} (hf : ∀ a, key (f a) = key a) :
    alter key k g (alter key k f l) = alter key k (fun a => g (f a)) l := by
  induction l with
  | nil => rfl
  | cons a l ih =>
      by_cases ha : key a = k
      · simp only [alter, if_pos ha, hf a]
      · simp only [alter, if_neg ha, ih]

/-- Changes of different records may be made in either order. -/
theorem alter_comm {g : α → α} (hf : ∀ a, key (f a) = key a) (hg : ∀ a, key (g a) = key a)
    (hjk : j ≠ k) : alter key j g (alter key k f l) = alter key k f (alter key j g l) := by
  induction l with
  | nil => rfl
  | cons a l ih =>
      by_cases hk : key a = k
      · have hj : key a ≠ j := fun h => hjk (h.symm.trans hk)
        simp only [alter, if_pos hk, if_neg hj, hf a]
      · by_cases hj : key a = j
        · simp only [alter, if_neg hk, if_pos hj, hg a]
        · simp only [alter, if_neg hk, if_neg hj, ih]

/-- A change that changes nothing. -/
theorem alter_of_look {a : α} (h : look key k l = some a) (hf : f a = a) :
    alter key k f l = l := by
  induction l with
  | nil => rfl
  | cons b l ih =>
      rw [look_cons] at h
      by_cases hb : key b = k
      · rw [if_pos hb] at h
        cases h
        simp only [alter, if_pos hb, hf]
      · rw [if_neg hb] at h
        simp only [alter, if_neg hb, ih h]

/-- With keys pairwise different, the first record with a key is every record with it. -/
theorem alter_eq_map (hnd : (l.map key).Nodup) :
    alter key k f l = l.map fun a => if key a = k then f a else a := by
  induction l with
  | nil => rfl
  | cons a l ih =>
      rw [List.map_cons, List.nodup_cons] at hnd
      by_cases ha : key a = k
      · have hl : l.map (fun b => if key b = k then f b else b) = l := by
          refine (List.map_congr_left fun b hb => ?_).trans (List.map_id l)
          exact if_neg fun he : key b = k =>
            hnd.1 (List.mem_map.mpr ⟨b, hb, he.trans ha.symm⟩)
        simp only [alter, if_pos ha, List.map_cons, hl]
      · simp only [alter, if_neg ha, List.map_cons, ih hnd.2]

/-- What a walk by another key reads is not touched by a change that keeps it. -/
theorem map_look_alter {ν : Type} [DecidableEq ν] {key' : α → ν} {g : α → β} {x : ν}
    (hk : ∀ a, key' (f a) = key' a) (hg : ∀ a, g (f a) = g a) :
    (look key' x (alter key k f l)).map g = (look key' x l).map g := by
  induction l with
  | nil => rfl
  | cons a l ih =>
      by_cases ha : key a = k
      · rw [alter, if_pos ha, look_cons, look_cons, hk]
        split
        · exact congrArg some (hg a)
        · rfl
      · rw [alter, if_neg ha, look_cons, look_cons]
        split
        · rfl
        · exact ih

/-- A property of records that the change keeps holds of all records afterwards. -/
theorem forall_alter_of_key {p : α → Prop} (hf : ∀ a, key a = k → p a → p (f a)) :
    ∀ {l : List α}, (∀ a ∈ l, p a) → ∀ b ∈ alter key k f l, p b
  | [], _ => fun _ hb => absurd hb List.not_mem_nil
  | a :: l, h => by
      obtain ⟨ha, hl⟩ := List.forall_mem_cons.mp h
      rw [alter]
      split
      · next hk => exact List.forall_mem_cons.mpr ⟨hf a hk ha, hl⟩
      · exact List.forall_mem_cons.mpr ⟨ha, forall_alter_of_key hf hl⟩

theorem forall_alter {p : α → Prop} (hf : ∀ a, p a → p (f a)) {l : List α}
    (h : ∀ a ∈ l, p a) : ∀ b ∈ alter key k f l, p b :=
  forall_alter_of_key (fun a _ => hf a) h

/-- A change of all records that keeps their keys. -/
theorem look_map (hf : ∀ a, key (f a) = key a) : look key j (l.map f) = (look key j l).map f := by
  induction l with
  | nil => rfl
  | cons a l ih =>
      rw [List.map_cons, look_cons, look_cons, hf, ih]
      split <;> rfl

/-! ## Appending and cutting out -/

theorem look_append (a : α) :
    look key j (l ++ [a]) = (look key j l).or (if key a = j then some a else none) := by
  by_cases h : key a = j <;> simp [look, h]

theorem look_erase (hnd : (l.map key).Nodup) :
    look key j (l.eraseP fun a => key a = k) = if j = k then none else look key j l := by
  induction l with
  | nil => simp
  | cons a l ih =>
      rw [List.map_cons, List.nodup_cons] at hnd
      by_cases ha : key a = k
      · rw [List.eraseP_cons_of_pos (by simpa using ha), look_cons]
        by_cases hj : j = k
        · subst hj
          rw [if_pos rfl, look_eq_none_iff]
          intro b hb he
          exact hnd.1 (ha ▸ he ▸ List.mem_map_of_mem hb)
        · have hkj : k ≠ j := fun h => hj h.symm
          simp [hj, ha, hkj]
      · rw [List.eraseP_cons_of_neg (by simpa using ha), look_cons, look_cons, ih hnd.2]
        by_cases hj : j = k
        · subst hj; simp [ha]
        · simp [hj]

/-- So is the record that is cut out. -/
theorem eraseP_eq_filter (hnd : (l.map key).Nodup) :
    (l.eraseP fun a => key a = k) = l.filter fun a => key a ≠ k := by
  induction l with
  | nil => rfl
  | cons a l ih =>
      rw [List.map_cons, List.nodup_cons] at hnd
      by_cases ha : key a = k
      · have hl : l.filter (fun b => key b ≠ k) = l := by
          refine List.filter_eq_self.mpr fun b hb => ?_
          have hne : key b ≠ k := fun he =>
            hnd.1 (List.mem_map.mpr ⟨b, hb, he.trans ha.symm⟩)
          simpa using hne
        rw [List.eraseP_cons_of_pos (by simpa using ha), List.filter_cons_of_neg (by simpa using ha),
          hl]
      · rw [List.eraseP_cons_of_neg (by simpa using ha), List.filter_cons_of_pos (by simpa using ha),
          ih hnd.2]

theorem look_filter_ne :
    look key j (l.filter fun a => key a ≠ k) = if j = k then none else look key j l := by
  induction l with
  | nil => simp
  | cons a l ih =>
      by_cases ha : key a = k
      · rw [List.filter_cons_of_neg (by simpa using ha), ih, look_cons]
        split
        · rfl
        · next hj => rw [if_neg (ha.trans_ne (Ne.symm hj))]
      · rw [List.filter_cons_of_pos (by simpa using ha), look_cons, look_cons, ih]
        split
        · next haj => rw [if_neg (haj ▸ ha)]
        · rfl

/-! ## A second attribute that tells the keys apart -/

section OneToOne
variable {ν : Type} {d : κ → Option ν}

/-- No value is under two keys. -/
def OneToOne (d : κ → Option ν) : Prop := ∀ i j x, d i = some x → d j = some x → i = j

/-- What holds of every value holds after an update exactly if it holds of the new one. -/
theorem forall_update_iff {p : ν → Prop} (h : ∀ i x, d i = some x → p x) {k : κ} {v : Option ν} :
    (∀ i x, Function.update d k v i = some x → p x) ↔ ∀ x, v = some x → p x := by
  constructor
  · intro hall x hx
    exact hall k x (by rw [Function.update_self, hx])
  · intro hv i x hx
    rw [Function.update_apply] at hx
    split at hx
    · exact hv x hx
    · exact h i x hx

theorem OneToOne.update_none (h : OneToOne d) (k : κ) : OneToOne (Function.update d k none) := by
  intro i j x hi hj
  rw [Function.update_apply] at hi hj
  split at hi
  · cases hi
  · split at hj
    · cases hj
    · exact h i j x hi hj

/-- A value may be put under a key exactly if it is under no other. -/
theorem OneToOne.update_some_iff (h : OneToOne d) {k : κ} {x : ν} :
    OneToOne (Function.update d k (some x)) ↔ ∀ i, i ≠ k → d i ≠ some x := by
  constructor
  · intro hu i hi hx
    refine hi (hu i k x ?_ (Function.update_self _ _ _))
    rw [Function.update_of_ne hi, hx]
  · intro hx i j y hi hj
    rw [Function.update_apply] at hi hj
    split at hi
    · next hik =>
        split at hj
        · next hjk => exact hik.trans hjk.symm
        · next hjk => exact absurd (hj.trans hi.symm) (hx j hjk)
    · next hik =>
        split at hj
        · exact absurd (hi.trans hj.symm) (hx i hik)
        · exact h i j y hi hj

/-- The attributes in the list are pairwise different exactly if they tell the keys apart. -/
theorem nodup_map_iff (hnd : (l.map key).Nodup) {g : α → ν} :
    (l.map g).Nodup ↔ OneToOne fun i => (look key i l).map g := by
  have hl : l.Nodup := hnd.of_map
  constructor
  · intro h i j x hi hj
    obtain ⟨a, ha, rfl⟩ := Option.map_eq_some_iff.mp hi
    obtain ⟨b, hb, hab⟩ := Option.map_eq_some_iff.mp hj
    have := List.inj_on_of_nodup_map h (look_mem hb) (look_mem ha) hab
    exact (look_key ha).symm.trans (this ▸ look_key hb)
  · intro h
    refine hl.map_on fun a ha b hb hab => ?_
    have hkey : key a = key b := h _ _ (g a) (by simp [look_of_mem hnd ha])
      (by simp [look_of_mem hnd hb, hab])
    exact List.inj_on_of_nodup_map hnd ha hb hkey

end OneToOne

end

end Kit
