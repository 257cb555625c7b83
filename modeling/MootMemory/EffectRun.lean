import Mathlib.Data.List.Basic

namespace MootMemory

section Results

universe u v

variable {ε : Type u} {α β σ : Type v}

theorem except_bind_ok {x : Except ε α} {f : α → Except ε β} {b : β} :
    (x >>= f) = .ok b ↔ ∃ a, x = .ok a ∧ f a = .ok b := by
  cases x with
  | error e => simp [bind, Except.bind]
  | ok a => simp [bind, Except.bind]

theorem except_bind_error {x : Except ε α} {f : α → Except ε β} {e : ε} :
    (x >>= f) = .error e ↔ x = .error e ∨ ∃ a, x = .ok a ∧ f a = .error e := by
  cases x with
  | error e' => simp [bind, Except.bind]
  | ok a => simp [bind, Except.bind]

/-- A loop whose body never fails is the fold of its body. -/
theorem foldlM_ok {f : σ → α → Except ε σ} {g : σ → α → σ} {l : List α}
    (h : ∀ x ∈ l, ∀ s, f s x = .ok (g s x)) (s : σ) : l.foldlM f s = .ok (l.foldl g s) := by
  induction l generalizing s with
  | nil => rfl
  | cons x xs ih =>
    rw [List.foldlM_cons, h x (by simp), List.foldl_cons]
    exact ih (fun y hy => h y (by simp [hy])) (g s x)

/-- A map whose function never fails is the plain map. -/
theorem mapM_ok {f : α → Except ε β} {g : α → β} {l : List α} (h : ∀ x ∈ l, f x = .ok (g x)) :
    l.mapM f = .ok (l.map g) := by
  induction l with
  | nil => rfl
  | cons x xs ih =>
    rw [List.mapM_cons, h x (by simp), ih fun y hy => h y (by simp [hy])]
    rfl

theorem except_ok_bind (a : α) (f : α → Except ε β) : (Except.ok a >>= f) = f a := rfl

/-- A map that ends in an error ends in that of one of its calls. -/
theorem mapM_error {f : α → Except ε β} {l : List α} {e : ε} (h : l.mapM f = .error e) :
    ∃ x ∈ l, f x = .error e := by
  induction l with
  | nil => cases h
  | cons x xs ih =>
    rw [List.mapM_cons] at h
    rcases except_bind_error.mp h with hx | ⟨y, _, h⟩
    · exact ⟨x, by simp, hx⟩
    · rcases except_bind_error.mp h with hxs | ⟨ys, _, h⟩
      · obtain ⟨z, hz, hfz⟩ := ih hxs
        exact ⟨z, by simp [hz], hfz⟩
      · cases h

/-- A map that ends well has called its function well on every element. -/
theorem mapM_defined {f : α → Except ε β} {l : List α} {ys : List β} (h : l.mapM f = .ok ys) :
    ∀ x ∈ l, ∃ y ∈ ys, f x = .ok y := by
  induction l generalizing ys with
  | nil => simp
  | cons x xs ih =>
    rw [List.mapM_cons] at h
    obtain ⟨z, hx, h⟩ := except_bind_ok.mp h
    obtain ⟨zs, hxs, h⟩ := except_bind_ok.mp h
    cases h
    intro w hw
    rcases List.mem_cons.mp hw with rfl | hw
    · exact ⟨z, by simp, hx⟩
    · obtain ⟨y, hy, hfy⟩ := ih hxs w hw
      exact ⟨y, by simp [hy], hfy⟩

theorem mem_of_mapM_ok {f : α → Except ε β} {l : List α} {ys : List β} (h : l.mapM f = .ok ys)
    {y : β} (hy : y ∈ ys) : ∃ x ∈ l, f x = .ok y := by
  induction l generalizing ys with
  | nil =>
    cases h
    cases hy
  | cons x xs ih =>
    rw [List.mapM_cons] at h
    obtain ⟨z, hx, h⟩ := except_bind_ok.mp h
    obtain ⟨zs, hxs, h⟩ := except_bind_ok.mp h
    cases h
    rcases List.mem_cons.mp hy with rfl | hy
    · exact ⟨x, by simp, hx⟩
    · obtain ⟨w, hw, hfw⟩ := ih hxs hy
      exact ⟨w, by simp [hw], hfw⟩

/-- A search whose test never fails is the plain search. -/
theorem anyM_ok {α : Type} {f : α → Except ε Bool} {g : α → Bool} {l : List α}
    (h : ∀ x ∈ l, f x = .ok (g x)) : l.anyM f = .ok (l.any g) := by
  induction l with
  | nil => rfl
  | cons x xs ih =>
    rw [List.anyM, h x (by simp), List.any_cons]
    cases g x with
    | true => rfl
    | false => exact ih fun y hy => h y (by simp [hy])

end Results

/-- The state a call ends in, also when it fails. -/
def stateAfter {ε σ α : Type} : EStateM.Result ε σ α → σ
  | .ok _ s => s
  | .error _ s => s

@[simp] theorem stateAfter_ok {ε σ α : Type} (a : α) (s : σ) :
    stateAfter (.ok a s : EStateM.Result ε σ α) = s := rfl

@[simp] theorem stateAfter_error {ε σ α : Type} (e : ε) (s : σ) :
    stateAfter (.error e s : EStateM.Result ε σ α) = s := rfl

section States

variable {ε σ α β : Type}

theorem get_eq (s : σ) : (get : EStateM ε σ σ) s = .ok s s := rfl

theorem modify_eq (f : σ → σ) (s : σ) : (modify f : EStateM ε σ Unit) s = .ok () (f s) := rfl

theorem estate_bind_ok {x : EStateM ε σ α} {f : α → EStateM ε σ β} {s s' : σ} {b : β} :
    (x >>= f) s = .ok b s' ↔ ∃ a s₁, x s = .ok a s₁ ∧ f a s₁ = .ok b s' := by
  cases h : x s with
  | error e s₁ => simp [bind, EStateM.bind, h]
  | ok a s₁ => simp [bind, EStateM.bind, h]

theorem estate_bind_error {x : EStateM ε σ α} {f : α → EStateM ε σ β} {s s' : σ} {e : ε} :
    (x >>= f) s = .error e s' ↔
      x s = .error e s' ∨ ∃ a s₁, x s = .ok a s₁ ∧ f a s₁ = .error e s' := by
  cases h : x s with
  | error e₁ s₁ => simp [bind, EStateM.bind, h]
  | ok a s₁ => simp [bind, EStateM.bind, h]

/-- A loop whose body never fails folds the states its body goes through. -/
theorem forM_ok {f : α → EStateM ε σ Unit} {g : σ → α → σ} {l : List α}
    (h : ∀ x ∈ l, ∀ s, f x s = .ok () (g s x)) (s : σ) : l.forM f s = .ok () (l.foldl g s) := by
  induction l generalizing s with
  | nil => rfl
  | cons x xs ih =>
    have hrest := ih (fun y hy => h y (by simp [hy])) (g s x)
    rw [List.foldl_cons]
    exact estate_bind_ok.mpr ⟨(), g s x, h x (by simp) s, hrest⟩

/-- Every outcome leaves a part of the state as it was. -/
def Keeps {γ : Type} (part : σ → γ) (x : EStateM ε σ α) : Prop :=
  ∀ s, match x s with
    | .ok _ s' => part s' = part s
    | .error _ s' => part s' = part s

variable {γ : Type} {part : σ → γ}

theorem Keeps.of_ok {x : EStateM ε σ α} (h : Keeps part x) {s s' : σ} {a : α}
    (hrun : x s = .ok a s') : part s' = part s := by
  have hs := h s
  rw [hrun] at hs
  exact hs

theorem Keeps.of_error {x : EStateM ε σ α} (h : Keeps part x) {s s' : σ} {e : ε}
    (hrun : x s = .error e s') : part s' = part s := by
  have hs := h s
  rw [hrun] at hs
  exact hs

theorem keeps_pure (a : α) : Keeps part (pure a : EStateM ε σ α) := fun _ => rfl

theorem keeps_get : Keeps part (get : EStateM ε σ σ) := fun _ => rfl

theorem Keeps.bind {x : EStateM ε σ α} {f : α → EStateM ε σ β} (hx : Keeps part x)
    (hf : ∀ a, Keeps part (f a)) : Keeps part (x >>= f) := by
  intro s
  have hs := hx s
  cases hrun : x s with
  | error e s₁ =>
    rw [hrun] at hs
    simp only [Bind.bind, EStateM.bind, hrun, hs]
  | ok a s₁ =>
    rw [hrun] at hs
    have hs₁ := hf a s₁
    simp only [Bind.bind, EStateM.bind, hrun]
    cases hrest : f a s₁ with
    | error e s₂ => rw [hrest] at hs₁; exact hs₁.trans hs
    | ok b s₂ => rw [hrest] at hs₁; exact hs₁.trans hs

/-- What is read of a kept part is kept. -/
theorem Keeps.map {δ : Type} {x : EStateM ε σ α} (h : Keeps part x) (g : γ → δ) :
    Keeps (fun s => g (part s)) x := by
  intro s
  cases hrun : x s with
  | ok a s' => exact congrArg g (h.of_ok hrun)
  | error e s' => exact congrArg g (h.of_error hrun)

theorem Keeps.ite {p : Prop} [Decidable p] {x y : EStateM ε σ α} (hx : Keeps part x)
    (hy : Keeps part y) : Keeps part (if p then x else y) := by
  split
  next => exact hx
  next => exact hy

theorem Keeps.forM {ι : Type} {f : ι → EStateM ε σ Unit} (h : ∀ x, Keeps part (f x)) (l : List ι) :
    Keeps part (l.forM f) := by
  induction l with
  | nil => exact keeps_pure ()
  | cons x xs ih => exact (h x).bind fun _ => ih

end States

end MootMemory
