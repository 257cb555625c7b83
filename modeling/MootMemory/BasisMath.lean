import MootMemory.BasisCodec
import MootMemory.VectorTypes

namespace MootMemory

/-- The rows are `rows` many, each `cols` long. -/
def Shaped (m : List (List F32)) (rows cols : Nat) : Prop :=
  m.length = rows ∧ ∀ row ∈ m, row.length = cols

structure SvdResult where
  u : List (List F32)
  singularValues : List F32
  vt : List (List F32)
  rank : Nat

structure NmfFactorization where
  w : List (List F32)
  h : List (List F32)
  rank : Nat

/-- What the providers take from the substrate: hashing, the draws of its generator, floats as
the machine computes them, and the factorizations, of which only the shapes are known. -/
structure BasisMath where
  hash64 : String → UInt64
  splitMix : UInt64 → Nat → UInt64
  ofNat : Nat → F32
  add : F32 → F32 → F32
  sub : F32 → F32 → F32
  mul : F32 → F32 → F32
  div : F32 → F32 → F32
  ln : F32 → F32
  max : F32 → F32 → F32
  lt : F32 → F32 → Bool
  isZero : F32 → Bool
  sum : List F32 → F32
  l2Normalize : List F32 → List F32
  project : List F32 → UInt64 → Engram
  decompose : List (List F32) → Nat → Nat → SvdResult
  factorize : List (List F32) → Nat → Nat → UInt64 → NmfFactorization
  decompose_shaped : ∀ m rank sweeps rows cols, 0 < rows → Shaped m rows cols →
    let svd := decompose m rank sweeps
    Shaped svd.u rows svd.rank ∧ svd.singularValues.length = svd.rank ∧
      Shaped svd.vt svd.rank cols
  factorize_shaped : ∀ v rank maxIterations seed rows cols, 0 < rows → Shaped v rows cols →
    let nmf := factorize v rank maxIterations seed
    Shaped nmf.w rows nmf.rank ∧ Shaped nmf.h nmf.rank cols

def f32One : F32 := 0x3F800000

def f32NegOne : F32 := 0xBF800000

/-- `1e-9`. -/
def f32Eps : F32 := 0x3089705F

section Indexing

/-- `m[i][j]`. -/
def cell (m : List (List F32)) (i j : Nat) : Option F32 := do (← m[i]?)[j]?

/-- `xs[i] = x`. -/
def setAt {α : Type} (xs : List α) (i : Nat) (x : α) : Option (List α) :=
  if i < xs.length then some (xs.set i x) else none

/-- `m[i][j] = x`. -/
def setCell (m : List (List F32)) (i j : Nat) (x : F32) : Option (List (List F32)) := do
  setAt m i (← setAt (← m[i]?) j x)

/-- The transpose of the first `rows` rows and `cols` columns. -/
def flipped (m : List (List F32)) (rows cols : Nat) : Option (List (List F32)) :=
  (List.range cols).mapM fun j => (List.range rows).mapM fun i => cell m i j

/-- `for d in 0..dim { sum[d] += cv[d] }`. -/
def addInto (math : BasisMath) (dim : Nat) (sum cv : List F32) : Option (List F32) :=
  (List.range dim).foldlM (fun sum d => do
    let a ← sum[d]?
    let b ← cv[d]?
    setAt sum d (math.add a b)) sum

end Indexing

section Loops

variable {α β σ : Type} {f : α → Option β} {step : σ → α → Option σ}

theorem mapM_some_length {l : List α} {ys : List β} (h : l.mapM f = some ys) :
    ys.length = l.length := by
  induction l generalizing ys with
  | nil =>
    cases h
    rfl
  | cons x l ih =>
    rw [List.mapM_cons] at h
    obtain ⟨y, _, h⟩ := Option.bind_eq_some_iff.mp h
    obtain ⟨zs, hzs, h⟩ := Option.bind_eq_some_iff.mp h
    cases h
    rw [List.length_cons, List.length_cons, ih hzs]

theorem mapM_some_mem {l : List α} {ys : List β} (h : l.mapM f = some ys) {y : β} (hy : y ∈ ys) :
    ∃ x ∈ l, f x = some y := by
  induction l generalizing ys with
  | nil =>
    cases h
    cases hy
  | cons x l ih =>
    rw [List.mapM_cons] at h
    obtain ⟨z, hz, h⟩ := Option.bind_eq_some_iff.mp h
    obtain ⟨zs, hzs, h⟩ := Option.bind_eq_some_iff.mp h
    cases h
    rcases List.mem_cons.mp hy with rfl | hy
    · exact ⟨x, List.mem_cons_self, hz⟩
    · obtain ⟨x', hx', hy⟩ := ih hzs hy
      exact ⟨x', List.mem_cons_of_mem _ hx', hy⟩

/-- The loop runs to its end exactly when every round does. -/
theorem isSome_mapM {l : List α} : (l.mapM f).isSome ↔ ∀ x ∈ l, (f x).isSome := by
  induction l with
  | nil => simp
  | cons x l ih =>
    rw [List.mapM_cons, List.forall_mem_cons, ← ih]
    cases f x with
    | none => simp
    | some y => cases l.mapM f <;> simp

/-- What every round keeps, the loop keeps. -/
theorem foldlM_keeps {P : σ → Prop} (hstep : ∀ s x s', P s → step s x = some s' → P s')
    {l : List α} {s s' : σ} (hs : P s) (h : l.foldlM step s = some s') : P s' := by
  induction l generalizing s with
  | nil =>
    cases h
    exact hs
  | cons x l ih =>
    rw [List.foldlM_cons] at h
    obtain ⟨t, ht, h⟩ := Option.bind_eq_some_iff.mp h
    exact ih (hstep s x t hs ht) h

/-- A loop over states that share what its rounds depend on. -/
theorem isSome_foldlM {P : σ → Prop} {Q : α → Prop}
    (hkeeps : ∀ s x s', P s → step s x = some s' → P s')
    (hround : ∀ s x, P s → ((step s x).isSome ↔ Q x)) {l : List α} {s : σ} (hs : P s) :
    (l.foldlM step s).isSome ↔ ∀ x ∈ l, Q x := by
  induction l generalizing s with
  | nil => simp
  | cons x l ih =>
    rw [List.foldlM_cons, List.forall_mem_cons, ← hround s x hs]
    cases ht : step s x with
    | none => simp
    | some t => simpa using ih (hkeeps s x t hs ht)

/-- A loop each of whose rounds runs and keeps the property. -/
theorem foldlM_runs {P : σ → Prop} {l : List α}
    (hround : ∀ x ∈ l, ∀ s, P s → ∃ s', step s x = some s' ∧ P s') {s : σ} (hs : P s) :
    ∃ s', l.foldlM step s = some s' ∧ P s' := by
  induction l generalizing s with
  | nil => exact ⟨s, rfl, hs⟩
  | cons x l ih =>
    obtain ⟨t, ht, hP⟩ := hround x List.mem_cons_self s hs
    obtain ⟨s', hs', hP'⟩ := ih (fun y hy => hround y (List.mem_cons_of_mem _ hy)) hP
    refine ⟨s', ?_, hP'⟩
    rw [List.foldlM_cons, ht]
    exact hs'

end Loops

section Shapes

theorem shaped_replicate (rows cols : Nat) (x : F32) :
    Shaped (List.replicate rows (List.replicate cols x)) rows cols := by
  refine ⟨List.length_replicate, fun row hrow => ?_⟩
  rw [List.eq_of_mem_replicate hrow, List.length_replicate]

theorem setAt_some {α : Type} {xs ys : List α} {i : Nat} {x : α} (h : setAt xs i x = some ys) :
    i < xs.length ∧ ys = xs.set i x := by
  unfold setAt at h
  split at h
  next hi => exact ⟨hi, (Option.some.inj h).symm⟩
  next => cases h

theorem shaped_setCell {m m' : List (List F32)} {rows cols i j : Nat} {x : F32}
    (hm : Shaped m rows cols) (h : setCell m i j x = some m') : Shaped m' rows cols := by
  obtain ⟨row, hrow, h⟩ := Option.bind_eq_some_iff.mp h
  obtain ⟨row', hset, h⟩ := Option.bind_eq_some_iff.mp h
  obtain ⟨_, rfl⟩ := setAt_some h
  obtain ⟨_, rfl⟩ := setAt_some hset
  refine ⟨by rw [List.length_set, hm.1], fun r hr => ?_⟩
  rcases List.mem_or_eq_of_mem_set hr with hr | rfl
  · exact hm.2 r hr
  · rw [List.length_set, hm.2 row (List.mem_of_getElem? hrow)]

/-- Within its shape, a matrix can be written. -/
theorem Shaped.setCell_some {m : List (List F32)} {rows cols i j : Nat} (hm : Shaped m rows cols)
    (hi : i < rows) (hj : j < cols) (x : F32) : ∃ m', setCell m i j x = some m' ∧
      Shaped m' rows cols := by
  have hi : i < m.length := hm.1.symm ▸ hi
  have hrow : (m[i]).length = cols := hm.2 _ (List.getElem_mem hi)
  have hset : setCell m i j x = some (m.set i (m[i].set j x)) := by
    rw [setCell, List.getElem?_eq_getElem hi]
    simp [setAt, hi, hrow, hj]
  exact ⟨_, hset, shaped_setCell hm hset⟩

theorem shaped_flipped {m t : List (List F32)} {rows cols : Nat}
    (h : flipped m rows cols = some t) : Shaped t cols rows := by
  refine ⟨by rw [mapM_some_length h, List.length_range], fun row hrow => ?_⟩
  obtain ⟨j, _, hj⟩ := mapM_some_mem h hrow
  rw [mapM_some_length hj, List.length_range]

theorem length_addInto {math : BasisMath} {dim : Nat} {sum cv out : List F32}
    (h : addInto math dim sum cv = some out) : out.length = sum.length := by
  refine foldlM_keeps (P := fun s => s.length = sum.length) (fun s d s' hs hstep => ?_) rfl h
  obtain ⟨a, _, hstep⟩ := Option.bind_eq_some_iff.mp hstep
  obtain ⟨b, _, hstep⟩ := Option.bind_eq_some_iff.mp hstep
  obtain ⟨_, rfl⟩ := setAt_some hstep
  rw [List.length_set, hs]

theorem isSome_addInto (math : BasisMath) {dim : Nat} {sum cv : List F32}
    (hsum : sum.length = dim) : (addInto math dim sum cv).isSome ↔ dim ≤ cv.length := by
  have hloop : (addInto math dim sum cv).isSome ↔
      ∀ d ∈ List.range dim, d < dim ∧ d < cv.length := by
    refine isSome_foldlM (P := fun s => s.length = dim) (fun s d s' hs hstep => ?_)
      (fun s d hs => ?_) hsum
    · obtain ⟨a, _, hstep⟩ := Option.bind_eq_some_iff.mp hstep
      obtain ⟨b, _, hstep⟩ := Option.bind_eq_some_iff.mp hstep
      obtain ⟨_, rfl⟩ := setAt_some hstep
      rw [List.length_set, hs]
    · subst hs
      by_cases hd : d < s.length
      · by_cases hcv : d < cv.length
        · simp [setAt, hd, hcv]
        · simp [setAt, hd, hcv]
      · simp [hd]
  rw [hloop]
  constructor
  · intro h
    by_contra hlt
    have hlast := (h cv.length (List.mem_range.mpr (by omega))).2
    omega
  · intro h d hd
    have hd := List.mem_range.mp hd
    exact ⟨hd, by omega⟩

end Shapes

section Reference

def ones (rows cols : Nat) : List (List F32) := List.replicate rows (List.replicate cols f32One)

theorem columns_of_shaped {m : List (List F32)} {rows cols : Nat} (hrows : 0 < rows)
    (h : Shaped m rows cols) : (m.headD []).length = cols := by
  cases m with
  | nil =>
    have hlen := h.1
    rw [List.length_nil] at hlen
    omega
  | cons row m => exact h.2 row List.mem_cons_self

/-- Whole numbers for floats, and factors that are one throughout. -/
def referenceMath : BasisMath where
  hash64 term := UInt64.ofNat term.length
  splitMix seed n := seed + UInt64.ofNat n
  ofNat := UInt32.ofNat
  add a b := a + b
  sub a b := a - b
  mul a b := a * b
  div a b := a / b
  ln a := a
  max a b := if a < b then b else a
  lt a b := a < b
  isZero a := a == 0
  sum xs := xs.foldl (· + ·) 0
  l2Normalize v := v
  project _ seed := ⟨seed, 0, 0, 0⟩
  decompose m rank _ :=
    ⟨ones m.length rank, List.replicate rank f32One, ones rank (m.headD []).length, rank⟩
  factorize v rank _ _ := ⟨ones v.length rank, ones rank (v.headD []).length, rank⟩
  decompose_shaped m rank _ rows cols hrows h := by
    rw [columns_of_shaped hrows h, h.1]
    exact ⟨shaped_replicate _ _ _, List.length_replicate, shaped_replicate _ _ _⟩
  factorize_shaped v rank _ _ rows cols hrows h := by
    rw [columns_of_shaped hrows h, h.1]
    exact ⟨shaped_replicate _ _ _, shaped_replicate _ _ _⟩

end Reference

end MootMemory
