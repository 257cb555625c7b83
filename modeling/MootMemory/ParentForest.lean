import Mathlib.Data.List.Nodup
import Mathlib.Logic.Basic

namespace MootMemory

section ParentForest

variable {α : Type} {parent : α → Option α} {a b c p : α} {chain chain' : List α}

/-- The parents over a node, the nearest first, up to a node without one. -/
inductive Ancestors (parent : α → Option α) : α → List α → Prop
  | root {a : α} (h : parent a = none) : Ancestors parent a []
  | step {a p : α} {chain : List α} (h : parent a = some p) (hp : Ancestors parent p chain) :
      Ancestors parent a (p :: chain)

/-- The first parents met on the way up, at most as many as the bound. -/
def climb (parent : α → Option α) : Nat → α → List α
  | 0, _ => []
  | n + 1, a =>
    match parent a with
    | none => []
    | some p => p :: climb parent n p

theorem climb_succ_of_none (n : Nat) (h : parent a = none) : climb parent (n + 1) a = [] := by
  rw [climb, h]

theorem climb_succ_of_some (n : Nat) (h : parent a = some p) :
    climb parent (n + 1) a = p :: climb parent n p := by
  rw [climb, h]

theorem Ancestors.climb_eq (h : Ancestors parent a chain) (n : Nat) :
    climb parent n a = chain.take n := by
  induction h generalizing n with
  | root h =>
    cases n with
    | zero => rfl
    | succ n => rw [climb_succ_of_none n h, List.take_nil]
  | step h _ ih =>
    cases n with
    | zero => rfl
    | succ n => rw [climb_succ_of_some n h, ih, List.take_succ_cons]

/-- A climb that ends before its bound has met every parent. -/
theorem ancestors_climb {n : Nat} (h : (climb parent n a).length < n) :
    Ancestors parent a (climb parent n a) := by
  induction n generalizing a with
  | zero => exact absurd h (Nat.not_lt_zero _)
  | succ n ih =>
    cases hp : parent a with
    | none => rw [climb_succ_of_none n hp]; exact .root hp
    | some p =>
      rw [climb_succ_of_some n hp] at h ⊢
      exact .step hp (ih (Nat.lt_of_succ_lt_succ h))

theorem length_climb_le (n : Nat) (a : α) : (climb parent n a).length ≤ n := by
  induction n generalizing a with
  | zero => exact Nat.le_refl _
  | succ n ih =>
    cases hp : parent a with
    | none => rw [climb_succ_of_none n hp]; exact Nat.zero_le _
    | some p => rw [climb_succ_of_some n hp]; exact Nat.succ_le_succ (ih p)

theorem Ancestors.unique (h : Ancestors parent a chain) (h' : Ancestors parent a chain') :
    chain = chain' := by
  induction h generalizing chain' with
  | root h =>
    cases h' with
    | root => rfl
    | step h2 _ => rw [h] at h2; cases h2
  | step h _ ih =>
    cases h' with
    | root h2 => rw [h] at h2; cases h2
    | step h2 hp2 =>
      rw [h] at h2
      cases h2
      rw [ih hp2]

/-- Every parent on the way has its own chain, which is what comes after it. -/
theorem Ancestors.of_mem (h : Ancestors parent a chain) (hc : c ∈ chain) :
    ∃ rest, Ancestors parent c rest ∧ rest.length < chain.length := by
  induction h with
  | root => cases hc
  | step _ hp ih =>
    rcases List.mem_cons.mp hc with rfl | hc
    · exact ⟨_, hp, Nat.lt_succ_self _⟩
    · obtain ⟨rest, hrest, hlt⟩ := ih hc
      exact ⟨rest, hrest, Nat.lt_succ_of_lt hlt⟩

theorem Ancestors.not_mem (h : Ancestors parent a chain) : a ∉ chain := by
  intro hmem
  obtain ⟨rest, hrest, hlt⟩ := h.of_mem hmem
  rw [h.unique hrest] at hlt
  exact Nat.lt_irrefl _ hlt

theorem Ancestors.nodup (h : Ancestors parent a chain) : chain.Nodup := by
  induction h with
  | root => exact List.nodup_nil
  | step _ hp ih => exact List.nodup_cons.mpr ⟨hp.not_mem, ih⟩

/-- Every way up ends. -/
def Forest (parent : α → Option α) : Prop := ∀ a, ∃ chain, Ancestors parent a chain

theorem forest_none : Forest (fun _ : α => none) := fun _ => ⟨[], .root rfl⟩

variable {parent' : α → Option α}

/-- A chain that does not pass the changed node stays. -/
theorem Ancestors.keep (h : Ancestors parent a chain) (ha : a ≠ c) (hc : c ∉ chain)
    (hsame : ∀ b, b ≠ c → parent' b = parent b) : Ancestors parent' a chain := by
  induction h with
  | root h => exact .root ((hsame _ ha).trans h)
  | step h _ ih =>
    rw [List.mem_cons, not_or] at hc
    exact .step ((hsame _ ha).trans h) (ih (Ne.symm hc.1) hc.2)

/-- Where the changed node's way up ends, all do. -/
theorem Forest.of_changed (h : Forest parent) (hsame : ∀ b, b ≠ c → parent' b = parent b)
    (hchanged : ∃ chain, Ancestors parent' c chain) : Forest parent' := by
  intro a
  obtain ⟨chain, hchain⟩ := h a
  induction hchain with
  | @root a hroot =>
    rcases eq_or_ne a c with rfl | hne
    · exact hchanged
    · exact ⟨[], .root ((hsame a hne).trans hroot)⟩
  | @step a p chain hp _ ih =>
    rcases eq_or_ne a c with rfl | hne
    · exact hchanged
    · obtain ⟨rest, hrest⟩ := ih
      exact ⟨p :: rest, .step ((hsame a hne).trans hp) hrest⟩

/-- A node taken off its parent leaves a forest. -/
theorem Forest.cut (h : Forest parent) (hsame : ∀ b, b ≠ c → parent' b = parent b)
    (hcut : parent' c = none) : Forest parent' :=
  h.of_changed hsame ⟨[], .root hcut⟩

/-- The node is the other or one of its ancestors. -/
def AtOrAbove (parent : α → Option α) (c p : α) : Prop :=
  p = c ∨ ∃ chain, Ancestors parent p chain ∧ c ∈ chain

theorem not_atOrAbove_of_root (hp : parent p = none) (hne : p ≠ c) : ¬AtOrAbove parent c p := by
  rintro (heq | ⟨chain, hchain, hmem⟩)
  · exact hne heq
  · rw [hchain.unique (.root hp)] at hmem
    cases hmem

/-- A node hung under another that is neither it nor below it leaves a forest. -/
theorem Forest.hang (h : Forest parent) (hsame : ∀ b, b ≠ c → parent' b = parent b)
    (hhang : parent' c = some p) (hp : ¬AtOrAbove parent c p) : Forest parent' := by
  obtain ⟨chain, hchain⟩ := h p
  rw [AtOrAbove, not_or] at hp
  have hc : c ∉ chain := fun hmem => hp.2 ⟨chain, hchain, hmem⟩
  exact h.of_changed hsame ⟨p :: chain, .step hhang (hchain.keep hp.1 hc hsame)⟩

/-- Taking a node off its parent puts it above nothing new. -/
theorem AtOrAbove.of_cut (h : AtOrAbove parent' c p)
    (hsame : ∀ b, b ≠ c → parent' b = parent b) (hforest : Forest parent) :
    AtOrAbove parent c p := by
  rcases h with rfl | ⟨chain', hchain', hmem⟩
  · exact Or.inl rfl
  · by_contra hnot
    rw [AtOrAbove, not_or] at hnot
    obtain ⟨chain, hchain⟩ := hforest p
    have hc : c ∉ chain := fun hc => hnot.2 ⟨chain, hchain, hc⟩
    rw [hchain'.unique (hchain.keep hnot.1 hc hsame)] at hmem
    exact hc hmem

end ParentForest

end MootMemory
