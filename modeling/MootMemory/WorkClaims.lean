import Mathlib.Data.List.Perm.Basic
import Mathlib.Data.List.Range

namespace MootMemory

/-- A program as a tree: its next action, and for each answer what it goes on with. -/
inductive Program (Act : Type) (Answer : Act → Type) where
  | done
  | act (a : Act) (next : Answer a → Program Act Answer)

namespace Program

variable {Act : Type} {Answer : Act → Type} {Know : Type}

/-- The program of each element, one after another. -/
def each {α : Type} (l : List α) (f : α → Program Act Answer → Program Act Answer)
    (rest : Program Act Answer) : Program Act Answer := l.foldr f rest

/-- Each action's precondition holds of what is known by then, whatever the answers are. -/
def Safe (pre : Know → Act → Prop) (learn : Know → (a : Act) → Answer a → Know) :
    Know → Program Act Answer → Prop
  | _, .done => True
  | know, .act a next => pre know a ∧ ∀ answer, Safe pre learn (learn know a answer) (next answer)

variable {pre : Know → Act → Prop} {learn : Know → (a : Act) → Answer a → Know}

theorem Safe.next {know : Know} {a : Act} {next : Answer a → Program Act Answer}
    (h : Safe pre learn know (.act a next)) (answer : Answer a) :
    Safe pre learn (learn know a answer) (next answer) := h.2 answer

/-- Who knows more is safe too. -/
theorem Safe.mono (le : Know → Know → Prop) (hpre : ∀ {k k' a}, le k k' → pre k a → pre k' a)
    (hlearn : ∀ {k k' a answer}, le k k' → le (learn k a answer) (learn k' a answer))
    {know know' : Know} (hle : le know know') {p : Program Act Answer}
    (h : Safe pre learn know p) : Safe pre learn know' p := by
  induction p generalizing know know' with
  | done => trivial
  | act a next ih => exact ⟨hpre hle h.1, fun answer => ih answer (hlearn hle) (h.2 answer)⟩

/-- A loop is safe where each round is, before what is safe by itself. -/
theorem safe_each {α : Type} {l : List α} {f : α → Program Act Answer → Program Act Answer}
    {rest : Program Act Answer} {P : Know → Prop}
    (hround : ∀ x ∈ l, ∀ p, (∀ know, P know → Safe pre learn know p) →
      ∀ know, P know → Safe pre learn know (f x p))
    (hrest : ∀ know, P know → Safe pre learn know rest) {know : Know} (h : P know) :
    Safe pre learn know (each l f rest) := by
  induction l generalizing know with
  | nil => exact hrest know h
  | cons x l ih =>
    rw [List.forall_mem_cons] at hround
    exact hround.1 _ (fun know' h' => ih hround.2 h') know h

end Program

section Windows

variable {α β : Type}

/-- The windows of a list, with fuel for the number of them. -/
def windowsOf (size : Nat) : Nat → List α → List (List α)
  | 0, _ => []
  | _ + 1, [] => []
  | fuel + 1, x :: xs => (x :: xs).take size :: windowsOf size fuel ((x :: xs).drop size)

/-- A list cut into windows of a size, the last of which may be shorter. -/
def windows (size : Nat) (l : List α) : List (List α) := windowsOf size l.length l

theorem flatten_windowsOf {size fuel : Nat} {l : List α} (hsize : 0 < size)
    (hfuel : l.length ≤ fuel) : (windowsOf size fuel l).flatten = l := by
  induction fuel generalizing l with
  | zero =>
    rw [List.eq_nil_of_length_eq_zero (Nat.le_zero.mp hfuel)]
    rfl
  | succ fuel ih =>
    cases l with
    | nil => rfl
    | cons x xs =>
      have hrest : ((x :: xs).drop size).length ≤ fuel := by
        rw [List.length_drop]
        omega
      rw [windowsOf, List.flatten_cons, ih hrest, List.take_append_drop]

theorem windowsOf_map (f : α → β) (size fuel : Nat) (l : List α) :
    windowsOf size fuel (l.map f) = (windowsOf size fuel l).map (·.map f) := by
  induction fuel generalizing l with
  | zero => rfl
  | succ fuel ih =>
    cases l with
    | nil => rfl
    | cons x xs =>
      show ((x :: xs).map f).take size :: windowsOf size fuel (((x :: xs).map f).drop size) = _
      rw [← List.map_take, ← List.map_drop, ih]
      rfl

theorem windows_map (f : α → β) (size : Nat) (l : List α) :
    windows size (l.map f) = (windows size l).map (·.map f) := by
  rw [windows, windows, List.length_map, windowsOf_map]

theorem flatten_windows {size : Nat} (hsize : 0 < size) (l : List α) :
    (windows size l).flatten = l := flatten_windowsOf hsize le_rfl

/-- A fold over a list is the fold over its windows of the folds over them. -/
theorem foldl_windows {size : Nat} (hsize : 0 < size) (f : β → α → β) (b : β) (l : List α) :
    (windows size l).foldl (fun b window => window.foldl f b) b = l.foldl f b := by
  rw [← List.foldl_flatten, flatten_windows hsize]

end Windows

/-- Pieces of work claimed by workers from a shared counter: every piece goes to one worker, and a
worker claims its pieces in order. -/
structure WorkClaims (workers pieces : Nat) where
  byWorker : List (List Nat)
  count : byWorker.length = workers
  once : byWorker.flatten.Perm (List.range pieces)
  ordered : ∀ claimed ∈ byWorker, claimed.Pairwise (· < ·)

section Reassembly

variable {α : Type}

/-- The results put to the places their indexes name; the error is the first place without one. -/
def reassemble (pieces : Nat) (results : List (Nat × α)) : Except Nat (List α) :=
  let places := results.foldl (fun places result => places.set result.1 (some result.2))
    (List.replicate pieces none)
  places.zipIdx.mapM fun place =>
    match place.1 with
    | some a => .ok a
    | none => .error place.2

theorem length_foldl_set (results : List (Nat × α)) (places : List (Option α)) :
    (results.foldl (fun places result => places.set result.1 (some result.2)) places).length =
      places.length := by
  induction results generalizing places with
  | nil => rfl
  | cons result results ih => rw [List.foldl_cons, ih, List.length_set]

/-- Where every result for a place is one value and there is one, that value is put there. -/
theorem getElem?_foldl_set {results : List (Nat × α)} {places : List (Option α)} {i : Nat} {a : α}
    (hi : i < places.length) (hall : ∀ result ∈ results, result.1 = i → result.2 = a)
    (hex : places[i]? = some (some a) ∨ ∃ result ∈ results, result.1 = i) :
    (results.foldl (fun places result => places.set result.1 (some result.2)) places)[i]? =
      some (some a) := by
  induction results generalizing places with
  | nil =>
    rcases hex with h | ⟨result, hmem, -⟩
    · exact h
    · exact absurd hmem List.not_mem_nil
  | cons result results ih =>
    rw [List.foldl_cons]
    apply ih (by rwa [List.length_set])
    · exact fun r hr => hall r (List.mem_cons_of_mem _ hr)
    · by_cases hplace : result.1 = i
      · left
        rw [hplace, List.getElem?_set_self hi, hall result List.mem_cons_self hplace]
      · rcases hex with h | ⟨r, hmem, hr⟩
        · exact Or.inl (by rw [List.getElem?_set_ne hplace, h])
        · rcases List.mem_cons.mp hmem with rfl | hmem
          · exact absurd hr hplace
          · exact Or.inr ⟨r, hmem, hr⟩

theorem mapM_zipIdx_some (l : List α) (n : Nat) :
    ((l.map some).zipIdx n).mapM (m := Except Nat) (fun place =>
      match place.1 with
      | some a => .ok a
      | none => .error place.2) = .ok l := by
  induction l generalizing n with
  | nil => rfl
  | cons a l ih =>
    rw [List.map_cons, List.zipIdx_cons, List.mapM_cons, ih]
    rfl

/-- Whoever worked on which piece, the pieces come back in order. -/
theorem reassemble_claims {workers pieces : Nat} (claims : WorkClaims workers pieces)
    (f : Nat → α) :
    reassemble pieces (claims.byWorker.map fun claimed => claimed.map fun i => (i, f i)).flatten =
      .ok ((List.range pieces).map f) := by
  have hflat : (claims.byWorker.map fun claimed => claimed.map fun i => (i, f i)).flatten =
      claims.byWorker.flatten.map fun i => (i, f i) := by
    rw [List.map_flatten]
  have hplaces : (claims.byWorker.flatten.map fun i => (i, f i)).foldl
      (fun places result => places.set result.1 (some result.2)) (List.replicate pieces none) =
        ((List.range pieces).map f).map some := by
    apply List.ext_getElem?
    intro i
    by_cases hi : i < pieces
    · rw [getElem?_foldl_set (a := f i)]
      · simp [hi]
      · simpa using hi
      · intro result hmem hplace
        obtain ⟨j, -, rfl⟩ := List.mem_map.mp hmem
        exact congrArg f hplace
      · right
        have hmem : i ∈ claims.byWorker.flatten := claims.once.mem_iff.mpr (List.mem_range.mpr hi)
        exact ⟨(i, f i), List.mem_map.mpr ⟨i, hmem, rfl⟩, rfl⟩
    · have hlen := length_foldl_set (claims.byWorker.flatten.map fun i => (i, f i))
        (List.replicate pieces (none : Option α))
      rw [List.getElem?_eq_none (by rw [hlen, List.length_replicate]; omega),
        List.getElem?_eq_none (by simpa using hi)]
  rw [hflat, reassemble]
  simp only [hplaces]
  exact mapM_zipIdx_some _ 0

end Reassembly

end MootMemory
