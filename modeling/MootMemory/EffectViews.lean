import MootMemory.EffectRun

namespace MootMemory

section Views

variable {ε σ τ γ α β : Type}

/-- Every outcome of the action keeps the property of the state. -/
def Preserves (P : σ → Prop) (x : EStateM ε σ α) : Prop :=
  ∀ s, P s → match x s with
    | .ok _ s' => P s'
    | .error _ s' => P s'

/-- An outcome as a view of its state shows it. -/
def viewResult (view : σ → τ) : EStateM.Result ε σ α → EStateM.Result ε τ α
  | .ok a s => .ok a (view s)
  | .error e s => .error e (view s)

/-- An action on the part of a state that a view shows and `put` replaces. -/
def zoom (view : σ → τ) (put : σ → τ → σ) (x : EStateM ε τ α) : EStateM ε σ α := fun s =>
  match x (view s) with
  | .ok a t => .ok a (put s t)
  | .error e t => .error e (put s t)

/-- From this state on the action does to the view what the other action does. -/
def SimulatesAt (view : σ → τ) (s : σ) (x : EStateM ε σ α) (y : EStateM ε τ α) : Prop :=
  viewResult view (x s) = y (view s)

variable {P : σ → Prop} {view : σ → τ} {put : σ → τ → σ} {s : σ}

theorem Preserves.stateAfter {x : EStateM ε σ α} (h : Preserves P x) (hs : P s) :
    P (stateAfter (x s)) := by
  have hx := h s hs
  cases hrun : x s with
  | ok a s' => rwa [hrun] at hx
  | error e s' => rwa [hrun] at hx

theorem Preserves.pure (a : α) : Preserves P (pure a : EStateM ε σ α) := fun _ h => h

theorem Preserves.throw (e : ε) : Preserves P (throw e : EStateM ε σ α) := fun _ h => h

theorem Preserves.get : Preserves P (get : EStateM ε σ σ) := fun _ h => h

theorem Preserves.modify {f : σ → σ} (hf : ∀ s, P s → P (f s)) :
    Preserves P (modify f : EStateM ε σ PUnit) := fun s h => hf s h

theorem Preserves.bind {x : EStateM ε σ α} {f : α → EStateM ε σ β} (hx : Preserves P x)
    (hf : ∀ a, Preserves P (f a)) : Preserves P (x >>= f) := by
  intro s h
  have hs := hx s h
  cases hrun : x s with
  | error e s₁ =>
    rw [hrun] at hs
    simp only [Bind.bind, EStateM.bind, hrun]
    exact hs
  | ok a s₁ =>
    rw [hrun] at hs
    simp only [Bind.bind, EStateM.bind, hrun]
    exact hf a s₁ hs

theorem Preserves.ite {p : Prop} [Decidable p] {x y : EStateM ε σ α} (hx : Preserves P x)
    (hy : Preserves P y) : Preserves P (if p then x else y) := by
  split
  next => exact hx
  next => exact hy

theorem Preserves.forM {ι : Type} {f : ι → EStateM ε σ Unit} (h : ∀ i, Preserves P (f i))
    (l : List ι) : Preserves P (l.forM f) := by
  induction l with
  | nil => exact .pure ()
  | cons i is ih => exact (h i).bind fun _ => ih

/-- An action on a part keeps what does not depend on more of it than the action keeps. -/
theorem Preserves.zoom {part : τ → γ} {x : EStateM ε τ α} (hx : Keeps part x)
    (hP : ∀ s t, part t = part (view s) → P s → P (put s t)) : Preserves P (zoom view put x) := by
  intro s h
  rw [MootMemory.zoom]
  cases hrun : x (view s) with
  | ok a t => exact hP s t (hx.of_ok hrun) h
  | error e t => exact hP s t (hx.of_error hrun) h

theorem simulatesAt_pure (a : α) :
    SimulatesAt view s (pure a : EStateM ε σ α) (pure a : EStateM ε τ α) := rfl

theorem simulatesAt_zoom (hput : ∀ s t, view (put s t) = t) (x : EStateM ε τ α) :
    SimulatesAt view s (zoom view put x) x := by
  rw [SimulatesAt, zoom]
  cases x (view s) with
  | ok a t => exact congrArg (EStateM.Result.ok a) (hput s t)
  | error e t => exact congrArg (EStateM.Result.error e) (hput s t)

/-- Actions one after the other simulate, where the later ones do in the states that are reached. -/
theorem SimulatesAt.bind {x : EStateM ε σ α} {y : EStateM ε τ α} {f : α → EStateM ε σ β}
    {g : α → EStateM ε τ β} (hx : SimulatesAt view s x y)
    (hf : ∀ a s', x s = .ok a s' → SimulatesAt view s' (f a) (g a)) :
    SimulatesAt view s (x >>= f) (y >>= g) := by
  rw [SimulatesAt] at hx
  cases hrun : x s with
  | error e s₁ =>
    rw [hrun, viewResult] at hx
    simp only [SimulatesAt, Bind.bind, EStateM.bind, hrun, ← hx, viewResult]
  | ok a s₁ =>
    rw [hrun, viewResult] at hx
    simp only [SimulatesAt, Bind.bind, EStateM.bind, hrun, ← hx]
    exact hf a s₁ hrun

theorem simulatesAt_get_bind {f : σ → EStateM ε σ β} {g : τ → EStateM ε τ β}
    (h : SimulatesAt view s (f s) (g (view s))) :
    SimulatesAt view s (get >>= f) (get >>= g) := h

theorem SimulatesAt.ite {p : Prop} [Decidable p] {x x' : EStateM ε σ α} {y y' : EStateM ε τ α}
    (h : SimulatesAt view s x y) (h' : SimulatesAt view s x' y') :
    SimulatesAt view s (if p then x else x') (if p then y else y') := by
  split
  next => exact h
  next => exact h'

/-- Where an action on a part ends well, so does the action on the part alone. -/
theorem zoom_eq_ok {x : EStateM ε τ α} {a : α} {s' : σ} (hput : ∀ s t, view (put s t) = t)
    (h : zoom view put x s = .ok a s') : x (view s) = .ok a (view s') := by
  rw [zoom] at h
  cases hrun : x (view s) with
  | error e t =>
    rw [hrun] at h
    cases h
  | ok b t =>
    rw [hrun] at h
    cases h
    rw [hput]

theorem simulatesAt_forM {ι : Type} {f : ι → EStateM ε σ Unit} {g : ι → EStateM ε τ Unit}
    (h : ∀ i s, SimulatesAt view s (f i) (g i)) (l : List ι) (s : σ) :
    SimulatesAt view s (l.forM f) (l.forM g) := by
  induction l generalizing s with
  | nil => exact simulatesAt_pure ()
  | cons i is ih => exact (h i s).bind fun _ s' _ => ih s'

end Views

end MootMemory
