/-
# `Kit.Machine` — runs of a deterministic partial machine

A machine is a function `step : σ → ε → Option (σ × ω)`: in a state, an event
either is not possible (`none`) or leads to one next state and one output.
All choice is in the events, so a run is a start state and a list of events;
if an event of the list is not possible the run ends there.

Two predicates read a run.  `Everywhere step P s es`: `P` holds in every state
the run passes through, the first and the last included.  `EveryStep step G s
es`: `G` holds of every step the run takes, as a relation between the state
before the step and its event.

`everywhere_iff` is the rule this file is for.  When a step from a state that
satisfies `P` leads to a state that satisfies `P` *exactly if* `G` holds of the
step, then over whole runs `P` holds everywhere exactly if `G` holds of every
step: `G` is then not only a safe discipline for the events but the weakest one.
-/

namespace Kit

variable {σ ε ω : Type}

/-- `P` holds in every state of the run of `es` from `s`. -/
def Everywhere (step : σ → ε → Option (σ × ω)) (P : σ → Prop) : σ → List ε → Prop
  | s, [] => P s
  | s, e :: es =>
      P s ∧ match step s e with
        | none => True
        | some (s', _) => Everywhere step P s' es

/-- `G` holds of every step of the run of `es` from `s`. -/
def EveryStep (step : σ → ε → Option (σ × ω)) (G : σ → ε → Prop) : σ → List ε → Prop
  | _, [] => True
  | s, e :: es =>
      match step s e with
        | none => True
        | some (s', _) => G s e ∧ EveryStep step G s' es

/-- The state after all of `es`, if every event was possible. -/
def play (step : σ → ε → Option (σ × ω)) : σ → List ε → Option σ
  | s, [] => some s
  | s, e :: es => (step s e).bind fun q => play step q.1 es

/-- The state after all of `es` and the output of each, if every event was possible. -/
def trace (step : σ → ε → Option (σ × ω)) : σ → List ε → Option (σ × List ω)
  | s, [] => some (s, [])
  | s, e :: es => (step s e).bind fun q => (trace step q.1 es).map fun p => (p.1, q.2 :: p.2)

/-- The state a run ends in; the start state if some event of it was not possible. -/
def final (step : σ → ε → Option (σ × ω)) (s : σ) (es : List ε) : σ := (play step s es).getD s

/-- Some list of events leads from `s₀` to `s`. -/
def Reachable (step : σ → ε → Option (σ × ω)) (s₀ s : σ) : Prop :=
  ∃ es, play step s₀ es = some s

section
variable {step : σ → ε → Option (σ × ω)} {P Q I : σ → Prop} {G H : σ → ε → Prop}

theorem play_final {s : σ} {es : List ε} (h : (play step s es).isSome) :
    play step s es = some (final step s es) := by
  obtain ⟨t, ht⟩ := Option.isSome_iff_exists.mp h
  rw [final, ht]
  rfl

theorem play_append (es es' : List ε) (s : σ) :
    play step s (es ++ es') = (play step s es).bind fun t => play step t es' := by
  induction es generalizing s with
  | nil => rfl
  | cons e es ih =>
      simp only [List.cons_append, play, Option.bind_assoc]
      congr 1
      funext q
      exact ih q.1

theorem trace_cons {s t u : σ} {e : ε} {es : List ε} {o : ω} {os : List ω}
    (he : step s e = some (t, o)) (hes : trace step t es = some (u, os)) :
    trace step s (e :: es) = some (u, o :: os) := by
  simp only [trace, he, Option.bind_some, hes, Option.map_some]

/-- An output of a run is that of a step from a state the run passes through. -/
theorem trace_mem {s t : σ} {es : List ε} {os : List ω} (h : trace step s es = some (t, os))
    (hP : Everywhere step P s es) {o : ω} (ho : o ∈ os) :
    ∃ s' e u, P s' ∧ e ∈ es ∧ step s' e = some (u, o) := by
  induction es generalizing s os with
  | nil =>
      cases h
      cases ho
  | cons e es ih =>
      obtain ⟨q, hq, hr⟩ := Option.bind_eq_some_iff.mp h
      obtain ⟨p, hp, he⟩ := Option.map_eq_some_iff.mp hr
      cases he
      rcases List.mem_cons.mp ho with rfl | ho
      · exact ⟨s, e, q.1, hP.1, List.mem_cons_self, hq⟩
      · have htail := hP.2
        rw [hq] at htail
        obtain ⟨s', e', u, hs', he', hstep⟩ := ih hp htail ho
        exact ⟨s', e', u, hs', List.mem_cons_of_mem _ he', hstep⟩

theorem trace_append {s t u : σ} {es es' : List ε} {os os' : List ω}
    (hes : trace step s es = some (t, os)) (hes' : trace step t es' = some (u, os')) :
    trace step s (es ++ es') = some (u, os ++ os') := by
  induction es generalizing s os with
  | nil =>
      cases hes
      exact hes'
  | cons e es ih =>
      obtain ⟨q, hq, hr⟩ := Option.bind_eq_some_iff.mp hes
      obtain ⟨p, hp, he⟩ := Option.map_eq_some_iff.mp hr
      cases he
      exact trace_cons hq (ih hp)

theorem Everywhere.head {s : σ} : ∀ {es : List ε}, Everywhere step P s es → P s
  | [], h => h
  | _ :: _, h => h.1

theorem Everywhere.mono (hPQ : ∀ s, P s → Q s) :
    ∀ {es : List ε} {s : σ}, Everywhere step P s es → Everywhere step Q s es
  | [], s, h => hPQ s h
  | e :: es, s, h => by
      refine ⟨hPQ s h.1, ?_⟩
      have ht := h.2
      cases hs : step s e with
      | none => trivial
      | some q =>
          rw [hs] at ht
          exact Everywhere.mono hPQ ht

theorem Everywhere.and : ∀ {es : List ε} {s : σ}, Everywhere step P s es →
    Everywhere step Q s es → Everywhere step (fun s => P s ∧ Q s) s es
  | [], _, hP, hQ => ⟨hP, hQ⟩
  | e :: es, s, hP, hQ => by
      refine ⟨⟨hP.1, hQ.1⟩, ?_⟩
      have htP := hP.2
      have htQ := hQ.2
      cases hs : step s e with
      | none => trivial
      | some q =>
          rw [hs] at htP htQ
          exact Everywhere.and htP htQ

/-- What follows from `P` for a step holds of every step of a run where `P` holds everywhere. -/
theorem Everywhere.everyStep (hG : ∀ s e, P s → G s e) :
    ∀ {es : List ε} {s : σ}, Everywhere step P s es → EveryStep step G s es
  | [], _, _ => trivial
  | e :: es, s, h => by
      have ht := h.2
      simp only [EveryStep]
      cases hs : step s e with
      | none => trivial
      | some q =>
          rw [hs] at ht
          exact ⟨hG s e h.1, Everywhere.everyStep hG ht⟩

/-- An invariant holds in every reachable state. -/
theorem Reachable.inv (hI : ∀ s e s' o, I s → step s e = some (s', o) → I s') {s₀ s : σ}
    (h₀ : I s₀) (h : Reachable step s₀ s) : I s := by
  obtain ⟨es, hes⟩ := h
  induction es generalizing s₀ with
  | nil =>
      cases hes
      exact h₀
  | cons e es ih =>
      obtain ⟨q, hq, hr⟩ := Option.bind_eq_some_iff.mp hes
      exact ih (hI s₀ e q.1 q.2 h₀ hq) hr

/-- What holds everywhere holds in the state a run ends in. -/
theorem Everywhere.at_play {s t : σ} {es : List ε} (h : Everywhere step P s es)
    (ht : play step s es = some t) : P t := by
  induction es generalizing s with
  | nil =>
      cases ht
      exact h
  | cons e es ih =>
      obtain ⟨q, hq, hr⟩ := Option.bind_eq_some_iff.mp ht
      have htail := h.2
      rw [hq] at htail
      exact ih htail hr

/-- An invariant that events of `E` keep holds everywhere in runs of such events. -/
theorem everywhere_of_events {E : ε → Prop}
    (hI : ∀ s e s' o, E e → I s → step s e = some (s', o) → I s') :
    ∀ {es : List ε} {s : σ}, (∀ e ∈ es, E e) → I s → Everywhere step I s es
  | [], _, _, hs => hs
  | e :: es, s, hE, hs => by
      refine ⟨hs, ?_⟩
      obtain ⟨he, hes⟩ := List.forall_mem_cons.mp hE
      cases hstep : step s e with
      | none => trivial
      | some q => exact everywhere_of_events hI hes (hI s e q.1 q.2 he hs hstep)

/-- What holds of every event of a list holds of every step of its run. -/
theorem everyStep_of_events {E : ε → Prop} (hG : ∀ s e, E e → G s e) :
    ∀ {es : List ε} {s : σ}, (∀ e ∈ es, E e) → EveryStep step G s es
  | [], _, _ => trivial
  | e :: es, s, hE => by
      obtain ⟨he, hes⟩ := List.forall_mem_cons.mp hE
      simp only [EveryStep]
      cases step s e with
      | none => trivial
      | some q => exact ⟨hG s e he, everyStep_of_events hG hes⟩

/-- An invariant holds everywhere. -/
theorem everywhere_of_inv (hI : ∀ s e s' o, I s → step s e = some (s', o) → I s')
    (es : List ε) {s : σ} (hs : I s) : Everywhere step I s es :=
  everywhere_of_events (E := fun _ => True) (fun s e s' o _ => hI s e s' o) (fun _ _ => trivial) hs

theorem EveryStep.mono (hGH : ∀ s e, G s e → H s e) :
    ∀ {es : List ε} {s : σ}, EveryStep step G s es → EveryStep step H s es
  | [], _, _ => trivial
  | e :: es, s, h => by
      simp only [EveryStep] at h ⊢
      cases hs : step s e with
      | none => trivial
      | some q =>
          rw [hs] at h
          exact ⟨hGH s e h.1, h.2.mono hGH⟩

/-- What holds of every step of a run holds of its last one. -/
theorem EveryStep.last {s t : σ} {es : List ε} {e : ε} (h : EveryStep step G s (es ++ [e]))
    (ht : play step s es = some t) (he : (step t e).isSome) : G t e := by
  induction es generalizing s with
  | nil =>
      cases ht
      obtain ⟨q, hq⟩ := Option.isSome_iff_exists.mp he
      simp only [List.nil_append, EveryStep, hq] at h
      exact h.1
  | cons e' es ih =>
      obtain ⟨q, hq, hr⟩ := Option.bind_eq_some_iff.mp ht
      simp only [List.cons_append, EveryStep, hq] at h
      exact ih h.2 hr

/-- If `G` keeps `P` on the states of `I`, runs of `G` steps keep `P`. -/
theorem everywhere_of_everyStep (hI : ∀ s e s' o, I s → step s e = some (s', o) → I s')
    (hP : ∀ s e s' o, I s → P s → step s e = some (s', o) → G s e → P s') :
    ∀ (es : List ε) {s : σ}, I s → P s → EveryStep step G s es → Everywhere step P s es
  | [], _, _, hPs, _ => hPs
  | e :: es, s, hIs, hPs, hG => by
      refine ⟨hPs, ?_⟩
      simp only [EveryStep] at hG
      cases hs : step s e with
      | none => trivial
      | some q =>
          rw [hs] at hG
          exact everywhere_of_everyStep hI hP es (hI s e q.1 q.2 hIs hs)
            (hP s e q.1 q.2 hIs hPs hs hG.1) hG.2

/-- If on the states of `I` an event of `E` keeps `P` exactly when it satisfies `G`, then in runs
of such events `P` holds everywhere exactly when every step satisfies `G`. -/
theorem everywhere_iff_of {E : ε → Prop}
    (hI : ∀ s e s' o, I s → step s e = some (s', o) → I s')
    (hP : ∀ s e s' o, E e → I s → P s → step s e = some (s', o) → (P s' ↔ G s e)) :
    ∀ (es : List ε) {s : σ}, (∀ e ∈ es, E e) → I s → P s →
      (Everywhere step P s es ↔ EveryStep step G s es) := by
  intro es
  induction es with
  | nil => intro s _ _ hPs; exact ⟨fun _ => trivial, fun _ => hPs⟩
  | cons e es ih =>
      intro s hE hIs hPs
      obtain ⟨hEe, hEs⟩ := List.forall_mem_cons.mp hE
      simp only [Everywhere, EveryStep]
      cases hs : step s e with
      | none => exact ⟨fun _ => trivial, fun _ => ⟨hPs, trivial⟩⟩
      | some q =>
          have hstep := hP s e q.1 q.2 hEe hIs hPs hs
          have hIq := hI s e q.1 q.2 hIs hs
          constructor
          · rintro ⟨-, ht⟩
            exact ⟨hstep.mp ht.head, (ih hEs hIq ht.head).mp ht⟩
          · rintro ⟨hg, ht⟩
            exact ⟨hPs, (ih hEs hIq (hstep.mpr hg)).mpr ht⟩

/-- If on the states of `I` a step keeps `P` exactly when it satisfies `G`, then `P` holds
everywhere exactly when every step satisfies `G`. -/
theorem everywhere_iff (hI : ∀ s e s' o, I s → step s e = some (s', o) → I s')
    (hP : ∀ s e s' o, I s → P s → step s e = some (s', o) → (P s' ↔ G s e))
    (es : List ε) {s : σ} (hIs : I s) (hPs : P s) :
    Everywhere step P s es ↔ EveryStep step G s es :=
  everywhere_iff_of (E := fun _ => True) hI (fun s e s' o _ => hP s e s' o) es
    (fun _ _ => trivial) hIs hPs

/-- If from the states of `Q` a step leads to a state of `P` exactly when it satisfies `G`, and then
to one of `Q`, then `P` holds everywhere exactly when every step satisfies `G`.  What becomes of
`Q` after another step does not matter: `P` has failed by then. -/
theorem everywhere_iff_while
    (hQ : ∀ s e s' o, Q s → step s e = some (s', o) → G s e → Q s')
    (hP : ∀ s e s' o, Q s → step s e = some (s', o) → (P s' ↔ G s e)) :
    ∀ (es : List ε) {s : σ}, Q s → P s → (Everywhere step P s es ↔ EveryStep step G s es) := by
  intro es
  induction es with
  | nil => intro s _ hPs; exact ⟨fun _ => trivial, fun _ => hPs⟩
  | cons e es ih =>
      intro s hQs hPs
      simp only [Everywhere, EveryStep]
      cases hs : step s e with
      | none => exact ⟨fun _ => trivial, fun _ => ⟨hPs, trivial⟩⟩
      | some q =>
          have hstep := hP s e q.1 q.2 hQs hs
          constructor
          · rintro ⟨-, ht⟩
            have hg := hstep.mp ht.head
            exact ⟨hg, (ih (hQ s e q.1 q.2 hQs hs hg) ht.head).mp ht⟩
          · rintro ⟨hg, ht⟩
            exact ⟨hPs, (ih (hQ s e q.1 q.2 hQs hs hg) (hstep.mpr hg)).mpr ht⟩

end

/-! ## Deciding a run

Both predicates are computed along the run, so a given run can be checked. -/

instance Everywhere.dec (step : σ → ε → Option (σ × ω)) (P : σ → Prop) [DecidablePred P] :
    ∀ (s : σ) (es : List ε), Decidable (Everywhere step P s es)
  | s, [] => inferInstanceAs (Decidable (P s))
  | s, e :: es =>
      match h : step s e with
      | none =>
          decidable_of_iff (P s) (by simp [Everywhere, h])
      | some (s', o) =>
          have := Everywhere.dec step P s' es
          decidable_of_iff (P s ∧ Everywhere step P s' es) (by simp [Everywhere, h])

instance EveryStep.dec (step : σ → ε → Option (σ × ω)) (G : σ → ε → Prop)
    [∀ s e, Decidable (G s e)] : ∀ (s : σ) (es : List ε), Decidable (EveryStep step G s es)
  | _, [] => inferInstanceAs (Decidable True)
  | s, e :: es =>
      match h : step s e with
      | none =>
          decidable_of_iff True (by simp [EveryStep, h])
      | some (s', o) =>
          have := EveryStep.dec step G s' es
          decidable_of_iff (G s e ∧ EveryStep step G s' es) (by simp [EveryStep, h])

end Kit
