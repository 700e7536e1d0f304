/-
# `Kit.Turns` — one process among others, and how many turns it has left

A run interleaves the events of many processes.  `own` picks those of one of them,
and a rank says in every state how many more it can have: an own event lowers it,
and an event of somebody else does not raise it.  While that is so the process
makes no more turns than its rank says, whatever the others do between them.

That a rank falls is often known only for as long as the process is at something
(`B`, which it leaves for `L`), and of the states of an invariant (`I`).  The rank of
a crowd of processes is the sum of theirs; `sum_add_of_eq_off` is what one of them
changes about it.
-/
import Mathlib.Algebra.BigOperators.Group.Finset.Basic
import Mathlib.Algebra.BigOperators.Intervals
import ChatSocket.Kit.Machine

namespace Kit

variable {σ ε ω : Type} {step : σ → ε → Option (σ × ω)}

/-- While a process is at something it makes no more turns than its rank: a run takes it out of
there with no more, or leaves it there with those it has not yet made. -/
theorem left_or_countP_add_rank_le {I B L : σ → Prop} (own : ε → Bool) (rank : σ → Nat)
    (hI : ∀ s e s' o, I s → step s e = some (s', o) → I s')
    (hleave : ∀ s e s' o, I s → B s → step s e = some (s', o) → B s' ∨ L s')
    (hown : ∀ s e s' o, I s → B s → step s e = some (s', o) → own e = true → rank s' < rank s)
    (hother : ∀ s e s' o, I s → B s → step s e = some (s', o) → own e = false →
      rank s' ≤ rank s)
    (es : List ε) {s t : σ} (hs : I s) (hB : B s) (ht : play step s es = some t) :
    (∃ es₁ es₂ u, es = es₁ ++ es₂ ∧ play step s es₁ = some u ∧ L u ∧ es₁.countP own ≤ rank s) ∨
      B t ∧ es.countP own + rank t ≤ rank s := by
  induction es generalizing s with
  | nil =>
      cases ht
      exact Or.inr ⟨hB, Nat.le_of_eq (Nat.zero_add _)⟩
  | cons e es ih =>
      obtain ⟨⟨u, o⟩, hu, hrest⟩ := Option.bind_eq_some_iff.mp ht
      -- what the first event takes from the rank
      have hfirst : ∀ n, n ≤ rank u → [e].countP own + n ≤ rank s := by
        intro n hn
        cases he : own e with
        | false =>
            have hle := hother s e u o hs hB hu he
            rw [List.countP_cons_of_neg (by simp [he]), List.countP_nil]
            omega
        | true =>
            have hlt := hown s e u o hs hB hu he
            rw [List.countP_cons_of_pos he, List.countP_nil]
            omega
      have hcount : ∀ es' : List ε, (e :: es').countP own = [e].countP own + es'.countP own := by
        intro es'
        rw [← List.singleton_append, List.countP_append]
      have hplay : ∀ es', play step s (e :: es') = play step u es' := by
        intro es'
        rw [play, hu]
        rfl
      rcases hleave s e u o hs hB hu with hB' | hL
      · rcases ih (hI s e u o hs hu) hB' hrest with ⟨es₁, es₂, v, rfl, hv, hL, hle⟩ | ⟨hBt, hle⟩
        · refine Or.inl ⟨e :: es₁, es₂, v, rfl, (hplay es₁).trans hv, hL, ?_⟩
          rw [hcount]
          exact hfirst _ hle
        · refine Or.inr ⟨hBt, ?_⟩
          rw [hcount, Nat.add_assoc]
          exact hfirst _ hle
      · exact Or.inl ⟨[e], es, u, rfl, hplay [], hL, hfirst 0 (Nat.zero_le _)⟩

/-- If every event of a kind lowers the rank, and no other raises it, a run has no more of that kind
than the rank it starts with. -/
theorem countP_le_rank {I : σ → Prop} (own : ε → Bool) (rank : σ → Nat)
    (hI : ∀ s e s' o, I s → step s e = some (s', o) → I s')
    (hown : ∀ s e s' o, I s → step s e = some (s', o) → own e = true → rank s' < rank s)
    (hother : ∀ s e s' o, I s → step s e = some (s', o) → own e = false → rank s' ≤ rank s)
    {es : List ε} {s t : σ} (hs : I s) (ht : play step s es = some t) :
    es.countP own ≤ rank s := by
  rcases left_or_countP_add_rank_le (B := fun _ => True) (L := fun _ => False) own rank hI
    (fun _ _ _ _ _ _ _ => Or.inl trivial) (fun s e s' o hs _ => hown s e s' o hs)
    (fun s e s' o hs _ => hother s e s' o hs) es hs trivial ht with hleft | ⟨-, hle⟩
  · obtain ⟨-, -, -, -, -, hL, -⟩ := hleft
    exact hL.elim
  · omega

/-- Two sums that differ in one summand. -/
theorem sum_add_of_eq_off {f g : Nat → Nat} {n t : Nat} (ht : t < n)
    (hoff : ∀ i, i ≠ t → f i = g i) :
    (∑ i ∈ Finset.range n, f i) + g t = (∑ i ∈ Finset.range n, g i) + f t := by
  have hmem : t ∈ Finset.range n := Finset.mem_range.mpr ht
  have hrest : ∑ i ∈ (Finset.range n).erase t, f i = ∑ i ∈ (Finset.range n).erase t, g i :=
    Finset.sum_congr rfl fun i hi => hoff i (Finset.ne_of_mem_erase hi)
  rw [← Finset.add_sum_erase _ f hmem, ← Finset.add_sum_erase _ g hmem, hrest]
  omega

end Kit
