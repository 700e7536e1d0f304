/-
# `Kit.Serial` — a machine whose steps are parts of another's

One machine does in several steps what another does in one.  Where a run of the first
never leaves off in the middle of an event to begin another, it is a run of the
second, and a part of one more event: `Follows.of_play`.  What is compared is where the
two are (`At`, `Within`) and what they have noted, one thing after the other.

The other way round, where for each event there is a run of the first machine, there is
one for each run of events: `leads_of_events`.
-/
import ChatSocket.Kit.Runs

namespace Kit

variable {σ τ ε ε' ω ω' α : Type}

/-- The steps of `fine` that `G` permits are events of `coarse`, parts of one, or nothing at all;
`f` and `g` are what is noted at a step and at an event. -/
structure Parts (fine : σ → ε → Option (σ × ω)) (coarse : τ → ε' → Option (τ × ω'))
    (f : σ → ε → ω → List α) (g : τ → ε' → ω' → List α) (G : σ → ε → Prop) where
  At : σ → τ → Prop
  /-- Of an event, this has been noted. -/
  Within : σ → τ → ε' → List α → Prop
  between : ∀ {s s' t e o}, At s t → G s e → fine s e = some (s', o) →
    At s' t ∧ f s e o = [] ∨
      (∃ e' t' o', coarse t e' = some (t', o') ∧ At s' t' ∧ f s e o = g t e' o') ∨
      ∃ e', Within s' t e' (f s e o)
  inside : ∀ {s s' t e o e' noted}, Within s t e' noted → G s e → fine s e = some (s', o) →
    Within s' t e' (noted ++ f s e o) ∨
      ∃ t' o', coarse t e' = some (t', o') ∧ At s' t' ∧ noted ++ f s e o = g t e' o'

namespace Parts

variable {fine : σ → ε → Option (σ × ω)} {coarse : τ → ε' → Option (τ × ω')}
  {f : σ → ε → ω → List α} {g : τ → ε' → ω' → List α} {G : σ → ε → Prop}

/-- The run so far is the events `es'`, and a part of one more. -/
def Follows (P : Parts fine coarse f g G) (t₀ : τ) (noted : List α) (s : σ) : Prop :=
  ∃ es' t, play coarse t₀ es' = some t ∧
    (P.At s t ∧ noted = gather coarse g t₀ es' ∨
      ∃ e' part, P.Within s t e' part ∧ noted = gather coarse g t₀ es' ++ part)

variable {P : Parts fine coarse f g G} {t₀ : τ} {noted : List α} {s s' : σ} {e : ε} {o : ω}

theorem Follows.step (h : P.Follows t₀ noted s) (hG : G s e) (hs : fine s e = some (s', o)) :
    P.Follows t₀ (noted ++ f s e o) s' := by
  obtain ⟨es', t, hplay, ⟨hat, rfl⟩ | ⟨e', part, hwithin, rfl⟩⟩ := h
  · rcases P.between hat hG hs with ⟨hat', hnone⟩ | ⟨e', t', o', he, hat', hsame⟩ | ⟨e', hwithin⟩
    · exact ⟨es', t, hplay, Or.inl ⟨hat', by rw [hnone, List.append_nil]⟩⟩
    · refine ⟨es' ++ [e'], t', play_concat hplay he, Or.inl ⟨hat', ?_⟩⟩
      rw [gather_concat g hplay he, hsame]
    · exact ⟨es', t, hplay, Or.inr ⟨e', _, hwithin, rfl⟩⟩
  · rcases P.inside hwithin hG hs with hwithin' | ⟨t', o', he, hat', hsame⟩
    · exact ⟨es', t, hplay, Or.inr ⟨e', _, hwithin', List.append_assoc _ _ _⟩⟩
    · refine ⟨es' ++ [e'], t', play_concat hplay he, Or.inl ⟨hat', ?_⟩⟩
      rw [gather_concat g hplay he, List.append_assoc, hsame]

theorem Follows.of_play (h : P.At s t₀) {es : List ε} (hG : EveryStep fine G s es)
    (hplay : play fine s es = some s') : P.Follows t₀ (gather fine f s es) s' := by
  have hrun := play_induction
    (J := fun es s' => play fine s es = some s' ∧
      (EveryStep fine G s es → P.Follows t₀ (gather fine f s es) s'))
    (by
      rintro es s₁ e s₂ o ⟨hplay, hfollows⟩ hstep
      refine ⟨play_concat hplay hstep, fun hG => ?_⟩
      rw [gather_concat f hplay hstep]
      exact (hfollows hG.of_append).step (hG.last hplay (by rw [hstep]; rfl)) hstep)
    ⟨rfl, fun _ => ⟨[], t₀, rfl, Or.inl ⟨h, rfl⟩⟩⟩ hplay
  exact hrun.2 hG

end Parts

/-! ## Runs for events -/

/-- A permitted run leads from one state to another, and this is noted on the way. -/
inductive Leads (fine : σ → ε → Option (σ × ω)) (f : σ → ε → ω → List α) (G : σ → ε → Prop)
    (s : σ) : List α → σ → Prop where
  | refl : Leads fine f G s [] s
  | step {noted s' e s'' o} : Leads fine f G s noted s' → G s' e → fine s' e = some (s'', o) →
      Leads fine f G s (noted ++ f s' e o) s''

section
variable {fine : σ → ε → Option (σ × ω)} {coarse : τ → ε' → Option (τ × ω')}
  {f : σ → ε → ω → List α} {g : τ → ε' → ω' → List α} {G : σ → ε → Prop} {s s' s'' : σ}
  {noted noted' : List α}

theorem Leads.trans (h : Leads fine f G s noted s') (h' : Leads fine f G s' noted' s'') :
    Leads fine f G s (noted ++ noted') s'' := by
  induction h' with
  | refl => rwa [List.append_nil]
  | step _ hG hs ih =>
      rw [← List.append_assoc]
      exact ih.step hG hs

theorem EveryStep.concat {es : List ε} {e : ε} :
    ∀ {s : σ}, EveryStep fine G s es → play fine s es = some s' → G s' e →
      EveryStep fine G s (es ++ [e]) := by
  induction es with
  | nil =>
      intro s _ hplay hG
      cases hplay
      rw [List.nil_append, EveryStep]
      split
      · trivial
      · exact ⟨hG, trivial⟩
  | cons e' es ih =>
      intro s h hplay hG
      obtain ⟨q, hq, hrest⟩ := Option.bind_eq_some_iff.mp hplay
      simp only [List.cons_append, EveryStep, hq] at h ⊢
      exact ⟨h.1, ih h.2 hrest hG⟩

theorem Leads.exists_play (h : Leads fine f G s noted s') :
    ∃ es, play fine s es = some s' ∧ EveryStep fine G s es ∧ gather fine f s es = noted := by
  induction h with
  | refl => exact ⟨[], rfl, trivial, rfl⟩
  | @step _ _ e _ _ _ hG hs ih =>
      obtain ⟨es, hplay, hevery, rfl⟩ := ih
      exact ⟨es ++ [e], play_concat hplay hs, hevery.concat hplay hG, gather_concat f hplay hs⟩

/-- What can be done for each event can be done for each run of events. -/
theorem leads_of_events {R : σ → τ → Prop} {K : τ → ε' → Prop}
    (hevent : ∀ {s t e t' o}, R s t → K t e → coarse t e = some (t', o) →
      ∃ s', Leads fine f G s (g t e o) s' ∧ R s' t') (es : List ε') :
    ∀ {s : σ} {t t' : τ}, R s t → EveryStep coarse K t es → play coarse t es = some t' →
      ∃ s', Leads fine f G s (gather coarse g t es) s' ∧ R s' t' := by
  induction es with
  | nil =>
      intro s t t' hR _ hplay
      cases hplay
      exact ⟨s, .refl, hR⟩
  | cons e es ih =>
      intro s t t' hR hK hplay
      obtain ⟨⟨t₁, o⟩, hq, hrest⟩ := Option.bind_eq_some_iff.mp hplay
      simp only [EveryStep, hq] at hK
      obtain ⟨s₁, hleads, hR₁⟩ := hevent hR hK.1 hq
      obtain ⟨s', hleads', hR'⟩ := ih hR₁ hK.2 hrest
      refine ⟨s', ?_, hR'⟩
      simp only [gather, hq]
      exact hleads.trans hleads'

end

end Kit
