/-
# `Kit.Chain` — singly linked lists in memory

A `Memory` maps addresses to cells: a value and the address of the next cell,
or none.  `Chain m p l` says that from the pointer `p` on, the memory holds the
list `l` of addresses and values and then a null pointer.  Nothing in it says
that the addresses of `l` differ; the laws about writes ask for it (`Nodup`).

Three loops walk such a list: `walk` to the first value that satisfies a test,
`walkPrev` to the same place with the cell before it at hand, and `walkLast` to
the last cell.  They have fuel, since memory can be cyclic.  On a chain, more
fuel than it has cells is enough, and the law of each loop says where it ends.
-/
import ChatSocket.Kit.Keyed
import Mathlib.Data.List.Nodup
import Mathlib.Logic.Function.Basic

namespace Kit

variable {α : Type}

structure Cell (α : Type) where
  val : α
  next : Option Nat

abbrev Memory (α : Type) := Nat → Option (Cell α)

/-- From a pointer on, the memory holds a list and then a null pointer. -/
inductive Chain (m : Memory α) : Option Nat → List (Nat × α) → Prop where
  | nil : Chain m none []
  | cons {a : Nat} {x : α} {next : Option Nat} {l : List (Nat × α)} :
      m a = some ⟨x, next⟩ → Chain m next l → Chain m (some a) ((a, x) :: l)

/-- `while (temp && !stop(temp)) temp = temp->next;` -/
def walk (m : Memory α) (stop : α → Bool) : Nat → Option Nat → Option (Option Nat)
  | 0, _ => none
  | _ + 1, none => some none
  | fuel + 1, some a =>
      (m a).bind fun c => if stop c.val then some (some a) else walk m stop fuel c.next

/-- `while (curr && !stop(curr)) { prev = curr; curr = curr->next; }` -/
def walkPrev (m : Memory α) (stop : α → Bool) :
    Nat → Nat → Option Nat → Option (Nat × Option Nat)
  | 0, _, _ => none
  | _ + 1, prev, none => some (prev, none)
  | fuel + 1, prev, some a =>
      (m a).bind fun c =>
        if stop c.val then some (prev, some a) else walkPrev m stop fuel a c.next

/-- `while (head->next) head = head->next;` -/
def walkLast (m : Memory α) : Nat → Nat → Option Nat
  | 0, _ => none
  | fuel + 1, a =>
      (m a).bind fun c =>
        match c.next with
        | none => some a
        | some b => walkLast m fuel b

variable {m : Memory α} {p : Option Nat} {l : List (Nat × α)}

/-! ## Reading -/

theorem Chain.read (h : Chain m p l) {a : Nat} {x : α} (hmem : (a, x) ∈ l) :
    ∃ next, m a = some ⟨x, next⟩ := by
  induction h with
  | nil => cases hmem
  | cons ha _ ih =>
      rcases List.mem_cons.mp hmem with he | hmem
      · cases he
        exact ⟨_, ha⟩
      · exact ih hmem

/-- A null pointer is the start of an empty list. -/
theorem Chain.eq_nil_iff (h : Chain m p l) : p = none ↔ l = [] := by
  cases h with
  | nil => exact iff_of_true rfl rfl
  | cons => exact iff_of_false (by simp) (by simp)

/-- A walk ends at the first value that satisfies the test. -/
theorem walk_chain (h : Chain m p l) (stop : α → Bool) :
    ∀ {fuel : Nat}, l.length < fuel →
      walk m stop fuel p = some ((l.find? fun n => stop n.2).map Prod.fst) := by
  induction h with
  | nil =>
      intro fuel hfuel
      cases fuel with
      | zero => cases hfuel
      | succ fuel => rfl
  | @cons a x next l ha _ ih =>
      intro fuel hfuel
      cases fuel with
      | zero => cases hfuel
      | succ fuel =>
          simp only [walk, ha, Option.bind_some, List.find?_cons]
          cases stop x with
          | true => rfl
          | false => exact ih (Nat.lt_of_succ_lt_succ hfuel)

/-! ## Writing -/

/-- A cell outside of a list may be written. -/
theorem Chain.frame (h : Chain m p l) {a : Nat} (ha : a ∉ l.map Prod.fst) (c : Option (Cell α)) :
    Chain (Function.update m a c) p l := by
  induction h with
  | nil => exact .nil
  | cons hb _ ih =>
      rw [List.map_cons, List.mem_cons, not_or] at ha
      refine .cons ?_ (ih ha.2)
      rw [Function.update_of_ne (Ne.symm ha.1)]
      exact hb

/-- The value of a cell is overwritten. -/
theorem Chain.write (h : Chain m p l) (hnd : (l.map Prod.fst).Nodup) {a : Nat} {c : Cell α}
    (hc : m a = some c) (y : α) :
    Chain (Function.update m a (some { c with val := y })) p
      (alter Prod.fst a (fun n => (n.1, y)) l) := by
  induction h with
  | nil => exact .nil
  | @cons b x next l hb htail ih =>
      rw [List.map_cons, List.nodup_cons] at hnd
      by_cases hab : b = a
      · subst hab
        rw [hb] at hc
        cases hc
        simp only [alter, if_true]
        exact .cons (Function.update_self _ _ _) (htail.frame hnd.1 _)
      · simp only [alter, if_neg hab]
        refine .cons ?_ (ih hnd.2)
        rw [Function.update_of_ne hab]
        exact hb

/-- The last cell is reached, and a new cell can be linked to it. -/
theorem Chain.link (h : Chain m p l) (hnd : (l.map Prod.fst).Nodup) {b : Nat} {y : α}
    (hb : b ∉ l.map Prod.fst) :
    ∀ {a : Nat} {fuel : Nat}, p = some a → l.length ≤ fuel →
      ∃ z c, walkLast (Function.update m b (some ⟨y, none⟩)) fuel a = some z ∧ z ∈ l.map Prod.fst ∧
        Function.update m b (some ⟨y, none⟩) z = some c ∧
        Chain (Function.update (Function.update m b (some ⟨y, none⟩)) z
          (some { c with next := some b })) p (l ++ [(b, y)]) := by
  induction h with
  | nil => exact fun hp => nomatch hp
  | @cons a x next l ha htail ih =>
      intro a' fuel hp hfuel
      cases hp
      rw [List.map_cons, List.nodup_cons] at hnd
      rw [List.map_cons, List.mem_cons, not_or] at hb
      have hread : Function.update m b (some ⟨y, none⟩) a = some ⟨x, next⟩ := by
        rw [Function.update_of_ne (Ne.symm hb.1)]
        exact ha
      cases fuel with
      | zero => cases hfuel
      | succ fuel =>
          cases htail with
          | nil =>
              refine ⟨a, ⟨x, none⟩, ?_, List.mem_cons_self, hread, ?_⟩
              · simp only [walkLast, hread, Option.bind_some]
              · refine .cons (Function.update_self _ _ _) (.cons ?_ .nil)
                rw [Function.update_of_ne hb.1, Function.update_self]
          | @cons a₁ x₁ next₁ l₁ ha₁ htail₁ =>
              obtain ⟨z, c, hwalk, hz, hc, hchain⟩ := ih hnd.2 hb.2 rfl (Nat.le_of_succ_le_succ hfuel)
              refine ⟨z, c, ?_, List.mem_cons_of_mem a hz, hc, ?_⟩
              · simp only [walkLast, hread, Option.bind_some]
                exact hwalk
              · refine .cons ?_ hchain
                have haz : a ≠ z := fun he => hnd.1 (he ▸ hz)
                rw [Function.update_of_ne haz]
                exact hread

/-- The walk that keeps the cell before ends without a find, or the cell it finds can be cut
out. -/
theorem Chain.unlink (h : Chain m p l) (stop : α → Bool) :
    ∀ {prev : Nat} {x : α} {fuel : Nat}, m prev = some ⟨x, p⟩ →
      ((prev :: l.map Prod.fst).Nodup) → l.length < fuel →
      ((∀ n ∈ l, stop n.2 = false) ∧ ∃ z, walkPrev m stop fuel prev p = some (z, none)) ∨
      ∃ z d c e, walkPrev m stop fuel prev p = some (z, some d) ∧
        z ∈ prev :: l.map Prod.fst ∧ d ∈ l.map Prod.fst ∧ m z = some c ∧ m d = some e ∧
        (d, e.val) ∈ l ∧ stop e.val = true ∧
        Chain (Function.update (Function.update m z (some { c with next := e.next })) d none)
          (some prev) ((prev, x) :: l.eraseP fun n => stop n.2) := by
  induction h with
  | nil =>
      intro prev x fuel _ _ hfuel
      cases fuel with
      | zero => cases hfuel
      | succ fuel => exact Or.inl ⟨fun _ hn => (nomatch hn), prev, rfl⟩
  | @cons a y next l ha htail ih =>
      intro prev x fuel hprev hnd hfuel
      rw [List.map_cons, List.nodup_cons, List.mem_cons, not_or] at hnd
      obtain ⟨⟨hpa, hpl⟩, hndl⟩ := hnd
      have hal := (List.nodup_cons.mp hndl).1
      cases fuel with
      | zero => cases hfuel
      | succ fuel =>
          simp only [walkPrev, ha, Option.bind_some]
          cases hstop : stop y with
          | true =>
              right
              refine ⟨prev, a, ⟨x, some a⟩, ⟨y, next⟩, rfl, List.mem_cons_self,
                List.mem_cons_self, hprev, ha, List.mem_cons_self, hstop, ?_⟩
              rw [List.eraseP_cons_of_pos (p := fun n : Nat × α => stop n.2) hstop]
              refine .cons ?_ ((htail.frame hpl _).frame hal _)
              rw [Function.update_of_ne hpa, Function.update_self]
          | false =>
              have hfuel' := Nat.lt_of_succ_lt_succ hfuel
              rcases ih ha hndl hfuel' with ⟨hnone, z, hwalk⟩ |
                ⟨z, d, c, e, hwalk, hz, hd, hc, he, hde, hse, hchain⟩
              · left
                refine ⟨List.forall_mem_cons.mpr ⟨hstop, hnone⟩, z, ?_⟩
                simpa using hwalk
              · right
                have hpz : prev ≠ z := by
                  rintro rfl
                  rcases List.mem_cons.mp hz with rfl | hz
                  · exact hpa rfl
                  · exact hpl hz
                have hpd : prev ≠ d := fun he => hpl (he ▸ hd)
                refine ⟨z, d, c, e, by simpa using hwalk, List.mem_cons_of_mem prev hz,
                  List.mem_cons_of_mem a hd, hc, he, List.mem_cons_of_mem _ hde, hse, ?_⟩
                rw [List.eraseP_cons_of_neg (by simpa using hstop)]
                refine .cons ?_ hchain
                rw [Function.update_of_ne hpd, Function.update_of_ne hpz]
                exact hprev

end Kit
