import MootMemory.CorpusSession

namespace MootMemory

variable {sub : CorpusSubstrate}

section Steady

variable {α β : Type}

/-- Where the action ends well, it ends so too if no step can fail. -/
def Steady (x : CorpusM sub α) : Prop :=
  ∀ s a s', x s = .ok a s' → x ⟨s.corpus, []⟩ = .ok a ⟨s'.corpus, []⟩

theorem bind_of_ok {x : CorpusM sub α} {f : α → CorpusM sub β} {s s' : Session sub} {a : α}
    (h : x s = .ok a s') : (x >>= f) s = f a s' := by
  simp only [bind, EStateM.bind, h]

theorem Steady.pure (a : α) : Steady (pure a : CorpusM sub α) := by
  intro s b s' h
  cases h
  rfl

theorem Steady.throw (e : CorpusFault) : Steady (throw e : CorpusM sub α) := by
  intro s a s' h
  cases h

theorem Steady.getCorpus : Steady (getCorpus : CorpusM sub (Corpus sub)) := by
  intro s c s' h
  cases h
  rfl

theorem Steady.modifyCorpus (f : Corpus sub → Corpus sub) : Steady (modifyCorpus f) := by
  intro s u s' h
  cases h
  rfl

theorem Steady.attempt : Steady (attempt : CorpusM sub Unit) := by
  rintro ⟨c, faults⟩ u s' h
  cases faults with
  | nil => cases h; rfl
  | cons fault faults =>
    cases fault with
    | none => cases h; rfl
    | some e => cases h

theorem Steady.bind {x : CorpusM sub α} {f : α → CorpusM sub β} (hx : Steady x)
    (hf : ∀ a, Steady (f a)) : Steady (x >>= f) := by
  intro s b s' h
  obtain ⟨a, s₁, hrun, hrest⟩ := estate_bind_ok.mp h
  rw [bind_of_ok (hx s a s₁ hrun)]
  exact hf a s₁ b s' hrest

theorem Steady.ite {p : Prop} [Decidable p] {x y : CorpusM sub α} (hx : Steady x)
    (hy : Steady y) : Steady (if p then x else y) := by
  split
  next => exact hx
  next => exact hy

theorem Steady.readCorpus (f : Corpus sub → α) : Steady (readCorpus f) :=
  Steady.attempt.bind fun _ => Steady.getCorpus.bind fun _ => .pure _

theorem Steady.writeCorpus (f : Corpus sub → Corpus sub) : Steady (writeCorpus f) :=
  Steady.attempt.bind fun _ => .modifyCorpus f

theorem Steady.forM {ι : Type} {f : ι → CorpusM sub Unit} (h : ∀ i, Steady (f i)) (l : List ι) :
    Steady (l.forM f) := by
  induction l with
  | nil => exact .pure ()
  | cons i is ih => exact (h i).bind fun _ => ih

theorem Steady.mapM {f : β → CorpusM sub α} (h : ∀ i, Steady (f i)) (l : List β) :
    Steady (l.mapM f) := by
  induction l with
  | nil => exact .pure []
  | cons i is ih =>
    rw [List.mapM_cons]
    exact (h i).bind fun _ => ih.bind fun _ => .pure _

theorem Steady.undoing {undo : Corpus sub → Corpus sub → Corpus sub} {x : CorpusM sub α}
    (hx : Steady x) : Steady (undoing undo x) := by
  have hy : Steady (do let a ← x; MootMemory.attempt; Pure.pure a : CorpusM sub α) :=
    hx.bind fun _ => Steady.attempt.bind fun _ => .pure _
  intro s a s' h
  unfold MootMemory.undoing at h ⊢
  cases hrun : (do let a ← x; MootMemory.attempt; Pure.pure a : CorpusM sub α) s with
  | error e s₁ =>
    rw [hrun] at h
    cases h
  | ok b s₁ =>
    rw [hrun] at h
    cases h
    rw [hy s a s' hrun]

theorem Steady.inTransaction {x : CorpusM sub α} (hx : Steady x) : Steady (inTransaction x) :=
  Steady.attempt.bind fun _ => hx.undoing

theorem Steady.inIndexBatch {x : CorpusM sub α} (hx : Steady x) : Steady (inIndexBatch x) :=
  Steady.attempt.bind fun _ => hx.undoing

end Steady

section Faultless

variable {α β : Type}

/-- Without failures the action does to the corpus what the function says. -/
def Does (x : CorpusM sub Unit) (f : Corpus sub → Corpus sub) : Prop :=
  ∀ c, x ⟨c, []⟩ = .ok () ⟨f c, []⟩

theorem attempt_faultless (c : Corpus sub) : attempt ⟨c, []⟩ = .ok () ⟨c, []⟩ := rfl

theorem readCorpus_faultless (f : Corpus sub → α) (c : Corpus sub) :
    readCorpus f ⟨c, []⟩ = .ok (f c) ⟨c, []⟩ := rfl

theorem getCorpus_bind (f : Corpus sub → CorpusM sub β) (s : Session sub) :
    (getCorpus >>= f) s = f s.corpus s := rfl

theorem Does.pure : Does (pure () : CorpusM sub Unit) id := fun _ => rfl

theorem Does.attempt : Does (attempt : CorpusM sub Unit) id := fun _ => rfl

theorem Does.modifyCorpus (f : Corpus sub → Corpus sub) : Does (modifyCorpus f) f := fun _ => rfl

theorem Does.writeCorpus (f : Corpus sub → Corpus sub) : Does (writeCorpus f) f := fun _ => rfl

theorem Does.bind {x y : CorpusM sub Unit} {f g : Corpus sub → Corpus sub} (hx : Does x f)
    (hy : Does y g) : Does (x >>= fun _ => y) (g ∘ f) := by
  intro c
  rw [bind_of_ok (hx c), hy]
  rfl

/-- A loop of actions is the fold of what they do. -/
theorem Does.forM {ι : Type} {f : ι → CorpusM sub Unit} {g : Corpus sub → ι → Corpus sub}
    {l : List ι} (h : ∀ i ∈ l, Does (f i) fun c => g c i) :
    Does (l.forM f) fun c => l.foldl g c := by
  induction l with
  | nil => exact .pure
  | cons i is ih =>
    exact (h i List.mem_cons_self).bind (ih fun j hj => h j (List.mem_cons_of_mem _ hj))

theorem Does.forM_write {ι : Type} (g : Corpus sub → ι → Corpus sub) (l : List ι) :
    Does (l.forM fun i => MootMemory.writeCorpus fun c => g c i) fun c => l.foldl g c :=
  .forM fun _ _ => .writeCorpus _

theorem undoing_faultless {undo : Corpus sub → Corpus sub → Corpus sub} {x : CorpusM sub α}
    {c c' : Corpus sub} {a : α} (h : x ⟨c, []⟩ = .ok a ⟨c', []⟩) :
    undoing undo x ⟨c, []⟩ = .ok a ⟨c', []⟩ := by
  have hrun : (do let a ← x; attempt; pure a : CorpusM sub α) ⟨c, []⟩ = .ok a ⟨c', []⟩ := by
    rw [bind_of_ok h]
    rfl
  unfold undoing
  rw [hrun]

theorem Does.inTransaction {x : CorpusM sub Unit} {f : Corpus sub → Corpus sub} (hx : Does x f) :
    Does (inTransaction x) f := fun c =>
  (bind_of_ok (attempt_faultless c)).trans (undoing_faultless (hx c))

theorem Does.inIndexBatch {x : CorpusM sub Unit} {f : Corpus sub → Corpus sub} (hx : Does x f) :
    Does (inIndexBatch x) f := fun c =>
  (bind_of_ok (attempt_faultless c)).trans (undoing_faultless (hx c))

/-- What an action answers and does where nothing fails. -/
theorem mapM_faultless {ι : Type} {f : ι → CorpusM sub α} {g : ι → α} {l : List ι}
    {c : Corpus sub} (h : ∀ i ∈ l, f i ⟨c, []⟩ = .ok (g i) ⟨c, []⟩) :
    l.mapM f ⟨c, []⟩ = .ok (l.map g) ⟨c, []⟩ := by
  induction l with
  | nil => rfl
  | cons i is ih =>
    rw [List.mapM_cons, bind_of_ok (h i List.mem_cons_self),
      bind_of_ok (ih fun j hj => h j (List.mem_cons_of_mem _ hj))]
    rfl

/-- An action that ended well did what it does without failures. -/
theorem Does.of_ok {x : CorpusM sub Unit} {f : Corpus sub → Corpus sub} (hx : Does x f)
    (hsteady : Steady x) {s s' : Session sub} {u : Unit} (h : x s = .ok u s') :
    s'.corpus = f s.corpus := by
  have hrun := hsteady s u s' h
  rw [hx, EStateM.Result.ok.injEq, Session.mk.injEq] at hrun
  exact hrun.2.1.symm

end Faultless

end MootMemory
