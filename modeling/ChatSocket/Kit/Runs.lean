/-
# `Kit.Runs` — runs that grow at their end

What a run has done so far is often said about the list of its events: something has
happened before something else, a state has been passed through.  Such a property is
proved along the run by adding one event at its end, with `play_induction`.

What holds all along a run holds all along each part of it that was there before.
-/
import ChatSocket.Kit.Machine

namespace Kit

variable {σ ε ω : Type} {step : σ → ε → Option (σ × ω)} {P : σ → Prop} {G : σ → ε → Prop}

theorem play_concat {s t u : σ} {es : List ε} {e : ε} {o : ω} (hes : play step s es = some t)
    (he : step t e = some (u, o)) : play step s (es ++ [e]) = some u := by
  rw [play_append, hes, Option.bind_some, play, he]
  rfl

/-- What every further event keeps of the run so far and the state it has led to. -/
theorem play_induction {J : List ε → σ → Prop}
    (hstep : ∀ es s e s' o, J es s → step s e = some (s', o) → J (es ++ [e]) s')
    {es : List ε} {s t : σ} (hs : J [] s) (ht : play step s es = some t) : J es t := by
  have hfrom : ∀ (es past : List ε) (s : σ), J past s → play step s es = some t →
      J (past ++ es) t := by
    intro es
    induction es with
    | nil =>
        intro past s hs ht
        cases ht
        rwa [List.append_nil]
    | cons e es ih =>
        intro past s hs ht
        obtain ⟨q, hq, hrest⟩ := Option.bind_eq_some_iff.mp ht
        have hlast := ih (past ++ [e]) q.1 (hstep past s e q.1 q.2 hs hq) hrest
        rwa [List.append_assoc] at hlast
  exact hfrom es [] s hs ht

/-- The part of a run before its last events. -/
theorem Everywhere.of_append {es' : List ε} :
    ∀ {es : List ε} {s : σ}, Everywhere step P s (es ++ es') → Everywhere step P s es
  | [], _, h => h.head
  | e :: es, s, h => by
      refine ⟨h.1, ?_⟩
      have htail := h.2
      cases hs : step s e with
      | none => trivial
      | some q =>
          rw [hs] at htail
          exact Everywhere.of_append htail

theorem EveryStep.of_append {es' : List ε} :
    ∀ {es : List ε} {s : σ}, EveryStep step G s (es ++ es') → EveryStep step G s es
  | [], _, _ => trivial
  | e :: es, s, h => by
      simp only [List.cons_append, EveryStep] at h ⊢
      cases hs : step s e with
      | none => trivial
      | some q =>
          rw [hs] at h
          exact ⟨h.1, EveryStep.of_append h.2⟩

/-- A map between two machines that every step keeps is kept by whole runs. -/
theorem play_map {σ' ε' ω' : Type} {step' : σ' → ε' → Option (σ' × ω')} {f : σ → σ'} {g : ε → ε'}
    {k : σ × ω → σ' × ω'} (hk : ∀ q, (k q).1 = f q.1)
    (hstep : ∀ s e, step' (f s) (g e) = (step s e).map k) (es : List ε) :
    ∀ s : σ, play step' (f s) (es.map g) = (play step s es).map f := by
  induction es with
  | nil => exact fun _ => rfl
  | cons e es ih =>
      intro s
      rw [List.map_cons, play, play, hstep]
      cases step s e with
      | none => rfl
      | some q =>
          show play step' (k q).1 (es.map g) = (play step q.1 es).map f
          rw [hk, ih]

variable {β : Type}

/-- What is noted at the steps of a run, in order. -/
def gather (step : σ → ε → Option (σ × ω)) (f : σ → ε → ω → List β) : σ → List ε → List β
  | _, [] => []
  | s, e :: es =>
      match step s e with
      | none => []
      | some (s', o) => f s e o ++ gather step f s' es

theorem gather_concat (f : σ → ε → ω → List β) {es : List ε} {e : ε} {o : ω} :
    ∀ {s t u : σ}, play step s es = some t → step t e = some (u, o) →
      gather step f s (es ++ [e]) = gather step f s es ++ f t e o := by
  induction es with
  | nil =>
      intro s t u hes he
      cases hes
      rw [List.nil_append, gather, gather, he]
      exact List.append_nil _
  | cons e' es ih =>
      intro s t u hes he
      obtain ⟨⟨s', o'⟩, hs', hes⟩ := Option.bind_eq_some_iff.mp hes
      simp only [List.cons_append, gather, hs']
      rw [ih hes he, List.append_assoc]

end Kit
