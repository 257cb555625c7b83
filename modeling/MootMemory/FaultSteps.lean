import MootMemory.CorpusSteady

namespace MootMemory

variable {sub : CorpusSubstrate} {α β : Type}

/-- None of the first so many coming steps fails. -/
def Clear (n : Nat) (faults : List (Option CorpusKitError)) : Prop :=
  ∀ k < n, ∀ e, faults[k]? ≠ some (some e)

theorem Clear.mono {m n : Nat} {faults : List (Option CorpusKitError)} (h : Clear n faults)
    (hle : m ≤ n) : Clear m faults := fun k hk => h k (Nat.lt_of_lt_of_le hk hle)

theorem clear_add {m n : Nat} {faults : List (Option CorpusKitError)} :
    Clear (m + n) faults ↔ Clear m faults ∧ Clear n (faults.drop m) := by
  constructor
  · intro h
    refine ⟨h.mono (Nat.le_add_right m n), fun k hk e => ?_⟩
    rw [List.getElem?_drop]
    exact h (m + k) (by omega) e
  · rintro ⟨hfirst, hrest⟩ k hk e
    by_cases hkm : k < m
    · exact hfirst k hkm e
    · have hget := hrest (k - m) (by omega) e
      rw [List.getElem?_drop] at hget
      have hk' : m + (k - m) = k := by omega
      rwa [hk'] at hget

theorem clear_one {faults : List (Option CorpusKitError)} :
    Clear 1 faults ↔ ∀ e, faults[0]? ≠ some (some e) := by
  constructor
  · exact fun h => h 0 Nat.zero_lt_one
  · intro h k hk
    obtain rfl : k = 0 := by omega
    exact h

/-- The action is so many steps: it ends well where none of them fails, and else with an error. -/
def Takes (n : Nat) (x : CorpusM sub α) : Prop :=
  ∀ s, (∃ a s', x s = .ok a s' ∧ Clear n s.faults ∧ s'.faults = s.faults.drop n) ∨
    ∃ e s', x s = .error e s' ∧ ¬Clear n s.faults

theorem Takes.ok {n : Nat} {x : CorpusM sub α} (h : Takes n x) {s : Session sub}
    (hclear : Clear n s.faults) : ∃ a s', x s = .ok a s' ∧ s'.faults = s.faults.drop n := by
  rcases h s with ⟨a, s', hrun, -, hfaults⟩ | ⟨e, s', -, hnot⟩
  · exact ⟨a, s', hrun, hfaults⟩
  · exact absurd hclear hnot

theorem Takes.of_ok {n : Nat} {x : CorpusM sub α} (h : Takes n x) {s s' : Session sub} {a : α}
    (hrun : x s = .ok a s') : Clear n s.faults ∧ s'.faults = s.faults.drop n := by
  rcases h s with ⟨b, s₁, hok, hclear, hfaults⟩ | ⟨e, s₁, herror, -⟩
  · rw [hrun, EStateM.Result.ok.injEq] at hok
    obtain ⟨-, rfl⟩ := hok
    exact ⟨hclear, hfaults⟩
  · rw [hrun] at herror
    cases herror

theorem Takes.of_error {n : Nat} {x : CorpusM sub α} (h : Takes n x) {s s' : Session sub}
    {e : CorpusFault} (hrun : x s = .error e s') : ¬Clear n s.faults := by
  rcases h s with ⟨b, s₁, hok, -, -⟩ | ⟨e', s₁, -, hnot⟩
  · rw [hrun] at hok
    cases hok
  · exact hnot

theorem clear_zero (faults : List (Option CorpusKitError)) : Clear 0 faults :=
  fun k hk => absurd hk (Nat.not_lt_zero k)

theorem Takes.pure (a : α) : Takes 0 (pure a : CorpusM sub α) := fun s =>
  Or.inl ⟨a, s, rfl, clear_zero _, rfl⟩

theorem Takes.getCorpus : Takes 0 (getCorpus : CorpusM sub (Corpus sub)) := fun s =>
  Or.inl ⟨s.corpus, s, rfl, clear_zero _, rfl⟩

theorem Takes.modifyCorpus (f : Corpus sub → Corpus sub) : Takes 0 (modifyCorpus f) := fun s =>
  Or.inl ⟨(), { s with corpus := f s.corpus }, rfl, clear_zero _, rfl⟩

theorem Takes.attempt : Takes 1 (attempt : CorpusM sub Unit) := by
  rintro ⟨c, faults⟩
  cases faults with
  | nil => exact Or.inl ⟨(), ⟨c, []⟩, rfl, clear_one.mpr (by simp), rfl⟩
  | cons fault faults =>
    cases fault with
    | none => exact Or.inl ⟨(), ⟨c, faults⟩, rfl, clear_one.mpr (by simp), rfl⟩
    | some e =>
      exact Or.inr ⟨.err e, ⟨c, faults⟩, rfl, fun h => clear_one.mp h e rfl⟩

theorem Takes.bind {m n : Nat} {x : CorpusM sub α} {f : α → CorpusM sub β} (hx : Takes m x)
    (hf : ∀ a, Takes n (f a)) : Takes (m + n) (x >>= f) := by
  intro s
  rcases hx s with ⟨a, s₁, hrun, hclear, hfaults⟩ | ⟨e, s₁, hrun, hnot⟩
  · rw [bind_of_ok hrun]
    rcases hf a s₁ with ⟨b, s₂, hrest, hclear', hfaults'⟩ | ⟨e, s₂, hrest, hnot⟩
    · rw [hfaults] at hclear' hfaults'
      exact Or.inl ⟨b, s₂, hrest, clear_add.mpr ⟨hclear, hclear'⟩, by rw [hfaults', List.drop_drop]⟩
    · rw [hfaults] at hnot
      exact Or.inr ⟨e, s₂, hrest, fun h => hnot (clear_add.mp h).2⟩
  · refine Or.inr ⟨e, s₁, ?_, fun h => hnot (clear_add.mp h).1⟩
    simp only [Bind.bind, EStateM.bind, hrun]

theorem Takes.cast {m n : Nat} {x : CorpusM sub α} (hx : Takes m x) (h : m = n) : Takes n x :=
  h ▸ hx

theorem Takes.writeCorpus (f : Corpus sub → Corpus sub) : Takes 1 (writeCorpus f) :=
  Takes.attempt.bind fun _ => .modifyCorpus f

theorem Takes.forM {ι : Type} {f : ι → CorpusM sub Unit} {g : ι → Nat} (h : ∀ i, Takes (g i) (f i))
    (l : List ι) : Takes (l.map g).sum (l.forM f) := by
  induction l with
  | nil => exact .pure ()
  | cons i is ih =>
    rw [List.map_cons, List.sum_cons]
    exact (h i).bind fun _ => ih

theorem Takes.mapM {f : β → CorpusM sub α} (h : ∀ b, Takes 1 (f b)) (l : List β) :
    Takes l.length (l.mapM f) := by
  induction l with
  | nil => exact .pure []
  | cons b l ih =>
    rw [List.mapM_cons]
    refine ((h b).bind fun _ => ih.bind fun _ => .pure _).cast ?_
    rw [List.length_cons]
    omega

/-- A transaction is a step more than its body before it, and one after it. -/
theorem Takes.inTransaction {n : Nat} {x : CorpusM sub α} (hx : Takes n x) :
    Takes (1 + (n + 1)) (inTransaction x) := by
  refine Takes.attempt.bind fun _ => ?_
  have hbody : Takes (n + 1) (do let a ← x; MootMemory.attempt; Pure.pure a : CorpusM sub α) :=
    hx.bind fun _ => Takes.attempt.bind fun _ => .pure _
  intro s
  unfold undoing
  rcases hbody s with ⟨a, s', hrun, hclear, hfaults⟩ | ⟨e, s', hrun, hnot⟩
  · rw [hrun]
    exact Or.inl ⟨a, s', rfl, hclear, hfaults⟩
  · rw [hrun]
    exact Or.inr ⟨e, _, rfl, hnot⟩

end MootMemory
