import Mathlib.Order.Compare
import Mathlib.Order.Lattice
import Mathlib.Data.List.Basic

namespace MootMemory

variable {α : Type*}

/-- The halving loop of a slice binary search: `c i` compares entry `i` with the target. -/
def bisect (c : Nat → Ordering) (base size : Nat) : Nat :=
  if 1 < size then
    bisect c (if c (base + size / 2) = .gt then base else base + size / 2) (size - size / 2)
  else base
termination_by size
decreasing_by omega

/-- The comparison of the entry at an index; past the end it is greater than the target. -/
def cmpAt (cmp : α → Ordering) (l : List α) (i : Nat) : Ordering :=
  match l[i]? with
  | some x => cmp x
  | none => .gt

/-- `Ok` is the index of a matching entry, `Err` the index where one could be inserted. -/
def binarySearchBy (cmp : α → Ordering) (l : List α) : Except Nat Nat :=
  if l = [] then .error 0
  else
    match cmpAt cmp l (bisect (cmpAt cmp l) 0 l.length) with
    | .eq => .ok (bisect (cmpAt cmp l) 0 l.length)
    | .lt => .error (bisect (cmpAt cmp l) 0 l.length + 1)
    | .gt => .error (bisect (cmpAt cmp l) 0 l.length)

/-- The first index at which a predicate that holds on a prefix of the list fails. -/
def partitionPoint (p : α → Bool) (l : List α) : Nat :=
  match binarySearchBy (fun x => if p x then .lt else .gt) l with
  | .ok i => i
  | .error i => i

/-- Along the list the comparison goes from less over equal to greater. -/
def Graded (cmp : α → Ordering) (l : List α) : Prop :=
  l.Pairwise fun a b => (cmp b = .lt → cmp a = .lt) ∧ (cmp a = .gt → cmp b = .gt)

theorem Graded.cmpAt_gt {cmp : α → Ordering} {l : List α} (h : Graded cmp l) {i j : Nat}
    (hij : i ≤ j) (hi : cmpAt cmp l i = .gt) : cmpAt cmp l j = .gt := by
  rcases Nat.lt_or_eq_of_le hij with hlt | rfl
  · by_cases hj : j < l.length
    · have hil : i < l.length := by omega
      simp only [cmpAt, List.getElem?_eq_getElem hil, List.getElem?_eq_getElem hj] at hi ⊢
      exact (List.pairwise_iff_getElem.mp h i j hil hj hlt).2 hi
    · simp [cmpAt, List.getElem?_eq_none (Nat.le_of_not_lt hj)]
  · exact hi

theorem Graded.cmpAt_lt {cmp : α → Ordering} {l : List α} (h : Graded cmp l) {i j : Nat}
    (hij : i ≤ j) (hj : cmpAt cmp l j = .lt) : cmpAt cmp l i = .lt := by
  rcases Nat.lt_or_eq_of_le hij with hlt | rfl
  · by_cases hjl : j < l.length
    · have hil : i < l.length := by omega
      simp only [cmpAt, List.getElem?_eq_getElem hil, List.getElem?_eq_getElem hjl] at hj ⊢
      exact (List.pairwise_iff_getElem.mp h i j hil hjl hlt).1 hj
    · simp [cmpAt, List.getElem?_eq_none (Nat.le_of_not_lt hjl)] at hj
  · exact hj

/-- The loop ends at the last entry that is not greater than the target, if there is one. -/
theorem bisect_spec {cmp : α → Ordering} {l : List α} (h : Graded cmp l) {base size : Nat}
    (hsize : 1 ≤ size) (hbase : base = 0 ∨ cmpAt cmp l base ≠ .gt)
    (htop : cmpAt cmp l (base + size) = .gt) :
    (bisect (cmpAt cmp l) base size = 0 ∨ cmpAt cmp l (bisect (cmpAt cmp l) base size) ≠ .gt) ∧
      cmpAt cmp l (bisect (cmpAt cmp l) base size + 1) = .gt := by
  fun_induction bisect with
  | case1 base size hlt ih =>
    apply ih (by omega)
    · split
      next => exact hbase
      next hmid => exact Or.inr hmid
    · split
      next hmid => exact h.cmpAt_gt (by omega) hmid
      next => rwa [show base + size / 2 + (size - size / 2) = base + size by omega]
  | case2 base size hle =>
    obtain rfl : size = 1 := by omega
    exact ⟨hbase, htop⟩

theorem cmpAt_length (cmp : α → Ordering) (l : List α) : cmpAt cmp l l.length = .gt := by
  simp [cmpAt]

theorem bisect_full {cmp : α → Ordering} {l : List α} (h : Graded cmp l) (hl : l ≠ []) :
    (bisect (cmpAt cmp l) 0 l.length = 0 ∨
      cmpAt cmp l (bisect (cmpAt cmp l) 0 l.length) ≠ .gt) ∧
      cmpAt cmp l (bisect (cmpAt cmp l) 0 l.length + 1) = .gt :=
  bisect_spec h (List.length_pos_iff.mpr hl) (Or.inl rfl)
    (by rw [Nat.zero_add]; exact cmpAt_length cmp l)

theorem binarySearchBy_ok {cmp : α → Ordering} {l : List α} {i : Nat}
    (h : binarySearchBy cmp l = .ok i) : ∃ x, l[i]? = some x ∧ cmp x = .eq := by
  unfold binarySearchBy at h
  split at h
  next => simp at h
  next =>
    split at h <;> try simp at h
    next heq =>
      subst h
      unfold cmpAt at heq
      split at heq
      next x hx => exact ⟨x, hx, heq⟩
      next => simp at heq

/-- A graded list that holds a match is found to hold one. -/
theorem binarySearchBy_of_mem {cmp : α → Ordering} {l : List α} (h : Graded cmp l) {x : α}
    (hx : x ∈ l) (heq : cmp x = .eq) : ∃ i, binarySearchBy cmp l = .ok i := by
  have hl := List.ne_nil_of_mem hx
  obtain ⟨j, hj⟩ := List.mem_iff_getElem?.mp hx
  have hcj : cmpAt cmp l j = .eq := by simp [cmpAt, hj, heq]
  obtain ⟨hb, hnext⟩ := bisect_full h hl
  rw [binarySearchBy, if_neg hl]
  generalize bisect (cmpAt cmp l) 0 l.length = b at hb hnext ⊢
  have hjb : j ≤ b := by
    by_contra hlt
    have := h.cmpAt_gt (by omega : b + 1 ≤ j) hnext
    simp [hcj] at this
  cases hc : cmpAt cmp l b with
  | eq => exact ⟨b, rfl⟩
  | lt =>
    have := h.cmpAt_lt hjb hc
    simp [hcj] at this
  | gt =>
    rcases hb with rfl | hb
    · have := h.cmpAt_gt (Nat.zero_le j) hc
      simp [hcj] at this
    · exact absurd hc hb

theorem graded_of_prefix {p : α → Bool} {l : List α}
    (h : l.Pairwise fun a b => p b → p a) :
    Graded (fun x => if p x then Ordering.lt else Ordering.gt) l := by
  apply h.imp
  intro a b hab
  cases ha : p a <;> cases hb : p b <;> simp_all

/-- Entries before the partition point satisfy the predicate, the others do not. -/
theorem partitionPoint_spec {p : α → Bool} {l : List α}
    (h : l.Pairwise fun a b => p b → p a) :
    partitionPoint p l ≤ l.length ∧ (∀ x ∈ l.take (partitionPoint p l), p x) ∧
      ∀ x ∈ l.drop (partitionPoint p l), ¬p x := by
  have hg := graded_of_prefix h
  have hlt : ∀ i x, cmpAt (fun x => if p x then Ordering.lt else .gt) l i = .lt →
      x ∈ l.take (i + 1) → p x := by
    intro i x hi hx
    obtain ⟨j, hj, rfl⟩ := List.mem_take_iff_getElem.mp hx
    have hcj := hg.cmpAt_lt (by omega : j ≤ i) hi
    simpa [cmpAt, List.getElem?_eq_getElem (show j < l.length by omega)] using hcj
  have hgt : ∀ i x, cmpAt (fun x => if p x then Ordering.lt else .gt) l i = .gt →
      x ∈ l.drop i → ¬p x := by
    intro i x hi hx
    obtain ⟨j, hj, rfl⟩ := List.mem_drop_iff_getElem.mp hx
    have hcj := hg.cmpAt_gt (by omega : i ≤ i + j) hi
    simpa [cmpAt, List.getElem?_eq_getElem (show i + j < l.length by omega)] using hcj
  by_cases hl : l = []
  · subst hl; simp [partitionPoint, binarySearchBy]
  obtain ⟨hb, hnext⟩ := bisect_full hg hl
  rw [partitionPoint, binarySearchBy, if_neg hl]
  generalize bisect (cmpAt (fun x => if p x then Ordering.lt else .gt) l) 0 l.length = b at hb hnext ⊢
  cases hc : cmpAt (fun x => if p x then Ordering.lt else .gt) l b with
  | eq =>
    unfold cmpAt at hc
    split at hc
    next x _ => cases hpx : p x <;> simp [hpx] at hc
    next => simp at hc
  | lt =>
    have hbl : b < l.length := by
      by_contra hge
      simp [cmpAt, List.getElem?_eq_none (Nat.le_of_not_lt hge)] at hc
    exact ⟨hbl, fun x hx => hlt b x hc hx, fun x hx => hgt (b + 1) x hnext hx⟩
  | gt =>
    rcases hb with rfl | hb
    · exact ⟨Nat.zero_le _, by simp, fun x hx => hgt 0 x hc hx⟩
    · exact absurd hc hb

section Linear

variable [LinearOrder α]

/-- A sorted list is graded with respect to any of its keys. -/
theorem graded_compare {l : List α} (h : l.Pairwise (· ≤ ·)) (key : α) :
    Graded (fun x => compare x key) l := by
  apply h.imp
  intro a b hab
  simp only [compare_lt_iff_lt, compare_gt_iff_gt]
  exact ⟨fun hb => hab.trans_lt hb, fun ha => ha.trans_le hab⟩

theorem lt_leading {l : List α} (h : l.Pairwise (· ≤ ·)) (a : α) :
    l.Pairwise fun x y => decide (y < a) → decide (x < a) := by
  apply h.imp
  intro x y hxy hy
  simp only [decide_eq_true_eq] at hy ⊢
  exact hxy.trans_lt hy

omit [LinearOrder α] in
theorem insertIdx_eq_append {l : List α} {n : Nat} {a : α} (h : n ≤ l.length) :
    l.insertIdx n a = l.take n ++ a :: l.drop n := by
  induction n generalizing l with
  | zero => rfl
  | succ n ih =>
    cases l with
    | nil => simp at h
    | cons x xs => rw [List.insertIdx_succ_cons, ih (by simpa using h)]; rfl

/-- Insert at the partition point of a sorted list. -/
def insertSorted (a : α) (l : List α) : List α :=
  l.insertIdx (partitionPoint (fun x => decide (x < a)) l) a

theorem mem_insertSorted {l : List α} (h : l.Pairwise (· ≤ ·)) {a x : α} :
    x ∈ insertSorted a l ↔ x = a ∨ x ∈ l :=
  List.mem_insertIdx (partitionPoint_spec (lt_leading h a)).1

theorem insertSorted_sorted {l : List α} (h : l.Pairwise (· ≤ ·)) (a : α) :
    (insertSorted a l).Pairwise (· ≤ ·) := by
  obtain ⟨hle, hbefore, hafter⟩ := partitionPoint_spec (lt_leading h a)
  rw [insertSorted, insertIdx_eq_append hle]
  refine List.pairwise_append.mpr ⟨h.sublist (List.take_sublist _ _), ?_, ?_⟩
  · refine List.pairwise_cons.mpr ⟨fun y hy => ?_, h.sublist (List.drop_sublist _ _)⟩
    simpa using hafter y hy
  · intro x hx y hy
    have hxa : x < a := by simpa using hbefore x hx
    rcases List.mem_cons.mp hy with rfl | hy
    · exact hxa.le
    · exact hxa.le.trans (by simpa using hafter y hy)

theorem insertSorted_nodup {l : List α} (h : l.Pairwise (· ≤ ·)) (hnodup : l.Nodup) {a : α}
    (ha : a ∉ l) : (insertSorted a l).Nodup := by
  have hle := (partitionPoint_spec (lt_leading h a)).1
  exact (List.perm_insertIdx a l hle).nodup_iff.mpr (List.nodup_cons.mpr ⟨ha, hnodup⟩)

/-- Remove the entry that a binary search finds. -/
def removeSorted (cmp : α → Ordering) (l : List α) : List α :=
  match binarySearchBy cmp l with
  | .ok i => l.eraseIdx i
  | .error _ => l

theorem mem_removeSorted {l : List α} (h : l.Pairwise (· ≤ ·)) (hnodup : l.Nodup) {a x : α} :
    x ∈ removeSorted (fun y => compare y a) l ↔ x ∈ l ∧ x ≠ a := by
  unfold removeSorted
  split
  next i hi =>
    obtain ⟨y, hy, hcmp⟩ := binarySearchBy_ok hi
    obtain rfl : y = a := compare_eq_iff_eq.mp hcmp
    rw [List.mem_eraseIdx_iff_getElem?]
    constructor
    · rintro ⟨j, hj, hx⟩
      refine ⟨List.mem_of_getElem? hx, ?_⟩
      rintro rfl
      exact hj (List.getElem?_inj (List.getElem?_eq_some_iff.mp hx).1 hnodup |>.mp (hx.trans hy.symm))
    · rintro ⟨hx, hne⟩
      obtain ⟨j, hj⟩ := List.mem_iff_getElem?.mp hx
      refine ⟨j, ?_, hj⟩
      rintro rfl
      exact hne (Option.some.inj (hj.symm.trans hy))
  next hnone =>
    refine ⟨fun hx => ⟨hx, ?_⟩, fun hx => hx.1⟩
    rintro rfl
    obtain ⟨i, hi⟩ := binarySearchBy_of_mem (graded_compare h x) hx (compare_eq_iff_eq.mpr rfl)
    rw [hi] at hnone
    cases hnone

omit [LinearOrder α] in
theorem removeSorted_sublist (cmp : α → Ordering) (l : List α) :
    (removeSorted cmp l).Sublist l := by
  unfold removeSorted
  split
  next i _ => exact List.eraseIdx_sublist l i
  next => exact List.Sublist.refl l

end Linear

end MootMemory
