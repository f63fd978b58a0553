import T2Bus.Lib.Lts

/-!
# Simulations between two systems

One system simulates another when each step of the one is a run of the other, up to a relation between
their states. Then each state that the one reaches is related to a state that the other reaches.

* `Lts.Backward`: a condition that a state passes on to the states before it;
* **`Lts.Reachable.simulate`**.
-/

namespace Lts

variable {σ α τ β : Type*} {step : σ → α → Option σ} {stepT : τ → β → Option τ}

theorem Reachable.single {s s' : σ} {a : α} (h : step s a = some s') : Reachable step s s' :=
  (Reachable.refl s).tail h

/-- What holds after a step holds before it. -/
def Backward (step : σ → α → Option σ) (P : σ → Prop) : Prop :=
  ∀ s a s', step s a = some s' → P s' → P s

/-- **The simulation rule for a relation**: where each step from related states is matched by a run of
the other system to related states, each reachable state is related to a reachable one. The match may use
a condition of the states, if it is kept backward. -/
theorem Reachable.simulate {P : σ → Prop} {R : σ → τ → Prop} {s₀ : σ} {t₀ : τ} (hP : Backward step P)
    (init : R s₀ t₀)
    (match_ : ∀ s a s' t, Reachable step s₀ s → Reachable stepT t₀ t → P s' → R s t →
      step s a = some s' → ∃ t', Reachable stepT t t' ∧ R s' t') {s : σ} (h : Reachable step s₀ s) :
    P s → ∃ t, Reachable stepT t₀ t ∧ R s t := by
  refine Reachable.induct (I := fun s => P s → ∃ t, Reachable stepT t₀ t ∧ R s t)
    (fun _ => ⟨t₀, Reachable.refl _, init⟩) (fun s a s' hs ih hstep hp => ?_) h
  obtain ⟨t, ht, hr⟩ := ih (hP s a s' hstep hp)
  obtain ⟨t', htt', hr'⟩ := match_ s a s' t hs ht hp hr hstep
  exact ⟨t', ht.trans htt', hr'⟩

end Lts
