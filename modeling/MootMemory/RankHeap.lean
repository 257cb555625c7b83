import Mathlib.Order.Lattice
import Mathlib.Data.List.Perm.Basic

namespace MootMemory

variable {α β : Type*}

/-- Exchange two entries of a list; an index out of range leaves it unchanged. -/
def swapAt (l : List α) (i j : Nat) : List α :=
  match l[i]?, l[j]? with
  | some a, some b => (l.set i b).set j a
  | _, _ => l

/-- Compare the entries at two indices; an index out of range compares as `false`. -/
def worseAt (worse : α → α → Bool) (l : List α) (i j : Nat) : Bool :=
  match l[i]?, l[j]? with
  | some a, some b => worse a b
  | _, _ => false

@[simp] theorem length_swapAt (l : List α) (i j : Nat) : (swapAt l i j).length = l.length := by
  unfold swapAt
  split <;> simp

theorem swapAt_eq {l : List α} {i j : Nat} (hi : i < l.length) (hj : j < l.length) :
    swapAt l i j = (l.set i l[j]).set j l[i] := by
  simp [swapAt, hi, hj]

theorem swapAt_perm (l : List α) (i j : Nat) : (swapAt l i j).Perm l := by
  unfold swapAt
  split
  next a b ha hb =>
    obtain ⟨hi, rfl⟩ := List.getElem?_eq_some_iff.mp ha
    obtain ⟨hj, rfl⟩ := List.getElem?_eq_some_iff.mp hb
    exact List.set_set_perm hi hj
  next => exact List.Perm.refl l

theorem getElem?_swapAt {l : List α} {i j : Nat} (hi : i < l.length) (hj : j < l.length) (k : Nat) :
    (swapAt l i j)[k]? = if k = j then l[i]? else if k = i then l[j]? else l[k]? := by
  rw [swapAt_eq hi hj, List.getElem?_set, List.getElem?_set]
  by_cases hkj : k = j
  · subst hkj; simp [hi, hj]
  · by_cases hki : k = i
    · subst hki; simp [hkj, Ne.symm hkj, hi, hj]
    · simp [hkj, hki, Ne.symm hkj, Ne.symm hki]

/-- Move the entry at `i` towards the root while it is worse than its parent. -/
def siftUp (worse : α → α → Bool) (l : List α) (i : Nat) : List α :=
  if 0 < i ∧ worseAt worse l i ((i - 1) / 2) then
    siftUp worse (swapAt l i ((i - 1) / 2)) ((i - 1) / 2)
  else l
termination_by i
decreasing_by omega

/-- The worse of the entries at `i` and `c`, where `c` may be out of range. -/
def pickWorse (worse : α → α → Bool) (l : List α) (i c : Nat) : Nat :=
  if c < l.length ∧ worseAt worse l c i then c else i

/-- The worst of an entry and its two children. -/
def worstChild (worse : α → α → Bool) (l : List α) (i : Nat) : Nat :=
  pickWorse worse l (pickWorse worse l i (2 * i + 1)) (2 * i + 2)

theorem pickWorse_cases (worse : α → α → Bool) (l : List α) (i c : Nat) :
    pickWorse worse l i c = i ∨ (pickWorse worse l i c = c ∧ c < l.length) := by
  unfold pickWorse
  split
  next h => exact Or.inr ⟨rfl, h.1⟩
  next => exact Or.inl rfl

theorem worstChild_cases (worse : α → α → Bool) (l : List α) (i : Nat) :
    worstChild worse l i = i ∨
      (worstChild worse l i < l.length ∧ 0 < worstChild worse l i ∧
        (worstChild worse l i - 1) / 2 = i) := by
  have hleft := pickWorse_cases worse l i (2 * i + 1)
  have hright := pickWorse_cases worse l (pickWorse worse l i (2 * i + 1)) (2 * i + 2)
  unfold worstChild
  omega

/-- Move the entry at `i` towards the leaves while a child is worse than it. -/
def siftDown (worse : α → α → Bool) (l : List α) (i : Nat) : List α :=
  if worstChild worse l i = i then l
  else siftDown worse (swapAt l i (worstChild worse l i)) (worstChild worse l i)
termination_by l.length - i
decreasing_by
  rcases worstChild_cases worse l i with h | h
  · contradiction
  · rw [length_swapAt]; omega

theorem siftUp_perm (worse : α → α → Bool) (l : List α) (i : Nat) :
    (siftUp worse l i).Perm l := by
  fun_induction siftUp with
  | case1 l i _ ih => exact ih.trans (swapAt_perm _ _ _)
  | case2 l i _ => exact List.Perm.refl l

theorem siftDown_perm (worse : α → α → Bool) (l : List α) (i : Nat) :
    (siftDown worse l i).Perm l := by
  fun_induction siftDown with
  | case1 l i _ => exact List.Perm.refl l
  | case2 l i _ ih => exact ih.trans (swapAt_perm _ _ _)

section Order

variable [LinearOrder β] {rank : α → β}

/-- No entry ranks above its parent. -/
def HeapOrder (rank : α → β) (l : List α) : Prop :=
  ∀ i x p, 0 < i → l[i]? = some x → l[(i - 1) / 2]? = some p → rank x ≤ rank p

/-- The children of `hole` do not rank above its parent. -/
def GrandOrder (rank : α → β) (l : List α) (hole : Nat) : Prop :=
  0 < hole → ∀ c x p, 0 < c → (c - 1) / 2 = hole → l[c]? = some x →
    l[(hole - 1) / 2]? = some p → rank x ≤ rank p

/-- The heap order may fail only between `hole` and its parent. -/
structure UpOrder (rank : α → β) (l : List α) (hole : Nat) : Prop where
  except : ∀ i x p, 0 < i → i ≠ hole → l[i]? = some x → l[(i - 1) / 2]? = some p → rank x ≤ rank p
  grand : GrandOrder rank l hole

/-- The heap order may fail only between `hole` and its children. -/
structure DownOrder (rank : α → β) (l : List α) (hole : Nat) : Prop where
  except : ∀ i x p, 0 < i → (i - 1) / 2 ≠ hole → l[i]? = some x → l[(i - 1) / 2]? = some p →
    rank x ≤ rank p
  grand : GrandOrder rank l hole

theorem HeapOrder.le_root {l : List α} {root : α} (h : HeapOrder rank l) (hr : l[0]? = some root) :
    ∀ x ∈ l, rank x ≤ rank root := by
  intro x hx
  obtain ⟨i, hi⟩ := List.mem_iff_getElem?.mp hx
  induction i using Nat.strongRecOn generalizing x with
  | ind i ih =>
    rcases Nat.eq_zero_or_pos i with rfl | hpos
    · rw [Option.some.inj (hi.symm.trans hr)]
    · obtain ⟨hlt, _⟩ := List.getElem?_eq_some_iff.mp hi
      have hp : l[(i - 1) / 2]? = some l[(i - 1) / 2] := List.getElem?_eq_getElem (by omega)
      exact (h i x _ hpos hi hp).trans (ih _ (by omega) _ (List.getElem_mem _) hp)

variable {worse : α → α → Bool}

theorem rank_lt_of_worseAt (hw : ∀ a b, worse a b ↔ rank b < rank a) {l : List α} {i j : Nat}
    {x y : α} (hx : l[i]? = some x) (hy : l[j]? = some y) :
    worseAt worse l i j ↔ rank y < rank x := by
  simp only [worseAt, hx, hy, hw]

theorem UpOrder.swap (hw : ∀ a b, worse a b ↔ rank b < rank a) {l : List α} {i : Nat}
    (h : UpOrder rank l i) (hpos : 0 < i) (hi : i < l.length)
    (hlt : worseAt worse l i ((i - 1) / 2)) :
    UpOrder rank (swapAt l i ((i - 1) / 2)) ((i - 1) / 2) := by
  have hp : (i - 1) / 2 < l.length := by omega
  have hx : l[i]? = some l[i] := List.getElem?_eq_getElem hi
  have hy : l[(i - 1) / 2]? = some l[(i - 1) / 2] := List.getElem?_eq_getElem hp
  rw [rank_lt_of_worseAt hw hx hy] at hlt
  constructor
  · intro j x p hj hne
    rw [getElem?_swapAt hi hp, getElem?_swapAt hi hp, if_neg hne]
    by_cases hji : j = i
    · subst hji
      rw [if_pos rfl, if_pos rfl, hx, hy]
      rintro ⟨rfl⟩ ⟨rfl⟩
      exact hlt.le
    · rw [if_neg hji]
      by_cases hjp : (j - 1) / 2 = (i - 1) / 2
      · rw [if_pos hjp, hx]
        rintro hjx ⟨rfl⟩
        exact (h.except j x _ hj hji hjx (by rw [hjp, hy])).trans hlt.le
      · rw [if_neg hjp]
        by_cases hjc : (j - 1) / 2 = i
        · rw [if_pos hjc]
          exact fun hjx hpx => h.grand hpos j x p hj hjc hjx hpx
        · rw [if_neg hjc]
          exact h.except j x p hj hji
  · intro hpp c x p hc hcp
    rw [getElem?_swapAt hi hp, getElem?_swapAt hi hp, if_neg (by omega : c ≠ (i - 1) / 2),
      if_neg (by omega : ((i - 1) / 2 - 1) / 2 ≠ (i - 1) / 2),
      if_neg (by omega : ((i - 1) / 2 - 1) / 2 ≠ i)]
    have hroot := fun p hg => h.except ((i - 1) / 2) _ p hpp (by omega) hy hg
    by_cases hci : c = i
    · rw [if_pos hci, hy]
      rintro ⟨rfl⟩ hg
      exact hroot p hg
    · rw [if_neg hci]
      exact fun hcx hg => (h.except c x _ hc hci hcx (by rw [hcp, hy])).trans (hroot p hg)

theorem UpOrder.heapOrder (hw : ∀ a b, worse a b ↔ rank b < rank a) {l : List α} {i : Nat}
    (h : UpOrder rank l i) (hstop : ¬(0 < i ∧ worseAt worse l i ((i - 1) / 2))) :
    HeapOrder rank l := by
  intro j x p hj hx hp
  by_cases hji : j = i
  · subst hji
    by_contra hlt
    exact hstop ⟨hj, (rank_lt_of_worseAt hw hx hp).mpr (not_le.mp hlt)⟩
  · exact h.except j x p hj hji hx hp

theorem siftUp_heapOrder (hw : ∀ a b, worse a b ↔ rank b < rank a) {l : List α} {i : Nat}
    (h : UpOrder rank l i) (hi : i < l.length) : HeapOrder rank (siftUp worse l i) := by
  fun_induction siftUp with
  | case1 l i hcond ih => exact ih (h.swap hw hcond.1 hi hcond.2) (by rw [length_swapAt]; omega)
  | case2 l i hstop => exact h.heapOrder hw hstop

theorem rank_le_pickWorse (hw : ∀ a b, worse a b ↔ rank b < rank a) {l : List α} {i c j : Nat}
    {x y : α} (hj : j = i ∨ j = c) (hx : l[j]? = some x)
    (hy : l[pickWorse worse l i c]? = some y) : rank x ≤ rank y := by
  by_cases hcond : c < l.length ∧ worseAt worse l c i
  · rw [pickWorse, if_pos hcond] at hy
    rcases hj with rfl | rfl
    · exact ((rank_lt_of_worseAt hw hy hx).mp hcond.2).le
    · rw [Option.some.inj (hx.symm.trans hy)]
  · rw [pickWorse, if_neg hcond] at hy
    rcases hj with rfl | rfl
    · rw [Option.some.inj (hx.symm.trans hy)]
    · by_contra hlt
      exact hcond ⟨(List.getElem?_eq_some_iff.mp hx).1,
        (rank_lt_of_worseAt hw hx hy).mpr (not_le.mp hlt)⟩

/-- The chosen entry ranks at least as high as the entry and both of its children. -/
theorem rank_le_worstChild (hw : ∀ a b, worse a b ↔ rank b < rank a) {l : List α} {i j : Nat}
    {x y : α} (hi : i < l.length) (hj : j = i ∨ (0 < j ∧ (j - 1) / 2 = i)) (hx : l[j]? = some x)
    (hy : l[worstChild worse l i]? = some y) : rank x ≤ rank y := by
  have hlt : pickWorse worse l i (2 * i + 1) < l.length := by
    have := pickWorse_cases worse l i (2 * i + 1); omega
  have hmid := List.getElem?_eq_getElem hlt
  by_cases hright : j = 2 * i + 2
  · exact rank_le_pickWorse hw (Or.inr hright) hx hy
  · exact (rank_le_pickWorse hw (by omega) hx hmid).trans
      (rank_le_pickWorse hw (Or.inl rfl) hmid hy)

theorem DownOrder.swap (hw : ∀ a b, worse a b ↔ rank b < rank a) {l : List α} {i t : Nat}
    (h : DownOrder rank l i) (hi : i < l.length) (ht : t = worstChild worse l i) (hne : t ≠ i) :
    DownOrder rank (swapAt l i t) t := by
  obtain ⟨htl, htpos, htp⟩ : t < l.length ∧ 0 < t ∧ (t - 1) / 2 = i := by
    have := worstChild_cases worse l i; omega
  have hx : l[i]? = some l[i] := List.getElem?_eq_getElem hi
  have hy : l[t]? = some l[t] := List.getElem?_eq_getElem htl
  have hbelow : ∀ j x, j = i ∨ (0 < j ∧ (j - 1) / 2 = i) → l[j]? = some x → rank x ≤ rank l[t] :=
    fun j x hj hjx => rank_le_worstChild hw hi hj hjx (by rw [← ht, hy])
  constructor
  · intro j x p hj hpt
    rw [getElem?_swapAt hi htl, getElem?_swapAt hi htl, if_neg hpt]
    by_cases hjt : j = t
    · subst hjt
      rw [if_pos rfl, if_pos htp, hx, hy]
      rintro ⟨rfl⟩ ⟨rfl⟩
      exact hbelow i _ (Or.inl rfl) hx
    · rw [if_neg hjt]
      by_cases hji : j = i
      · subst hji
        rw [if_pos rfl, if_neg (by omega), hy]
        rintro ⟨rfl⟩ hp
        exact h.grand hj t _ p htpos htp hy hp
      · rw [if_neg hji]
        by_cases hjp : (j - 1) / 2 = i
        · rw [if_pos hjp, hy]
          rintro hjx ⟨rfl⟩
          exact hbelow j x (Or.inr ⟨hj, hjp⟩) hjx
        · rw [if_neg hjp]
          exact h.except j x p hj hjp
  · intro _ c x p hc hct
    rw [getElem?_swapAt hi htl, getElem?_swapAt hi htl, if_neg (by omega : c ≠ t),
      if_neg (by omega : c ≠ i), if_neg (by omega : (t - 1) / 2 ≠ t), if_pos htp, hy]
    rintro hcx ⟨rfl⟩
    exact h.except c x _ hc (by omega) hcx (by rw [hct, hy])

theorem siftDown_heapOrder (hw : ∀ a b, worse a b ↔ rank b < rank a) {l : List α} {i : Nat}
    (h : DownOrder rank l i) (hi : i < l.length) : HeapOrder rank (siftDown worse l i) := by
  fun_induction siftDown with
  | case1 l i hstop =>
    intro j x p hj hx hp
    by_cases hji : (j - 1) / 2 = i
    · exact rank_le_worstChild hw hi (Or.inr ⟨hj, hji⟩) hx (by rw [hstop, ← hji, hp])
    · exact h.except j x p hj hji hx hp
  | case2 l i hne ih =>
    apply ih (h.swap hw hi rfl hne)
    rw [length_swapAt]
    have := worstChild_cases worse l i
    omega

/-- Appending an entry and sifting it up keeps the heap. -/
theorem siftUp_append (hw : ∀ a b, worse a b ↔ rank b < rank a) {l : List α}
    (h : HeapOrder rank l) (x : α) :
    HeapOrder rank (siftUp worse (l ++ [x]) l.length) := by
  apply siftUp_heapOrder hw _ (by simp)
  constructor
  · intro i y p hi hne hy hp
    have hlt := (List.getElem?_eq_some_iff.mp hy).1
    rw [List.length_append, List.length_singleton] at hlt
    rw [List.getElem?_append_left (by omega)] at hy hp
    exact h i y p hi hy hp
  · intro _ c y p hc hcp hy
    have hlt := (List.getElem?_eq_some_iff.mp hy).1
    rw [List.length_append, List.length_singleton] at hlt
    omega

/-- Replacing the root and sifting it down keeps the heap. -/
theorem siftDown_set_zero (hw : ∀ a b, worse a b ↔ rank b < rank a) {l : List α}
    (h : HeapOrder rank l) (hl : 0 < l.length) (x : α) :
    HeapOrder rank (siftDown worse (l.set 0 x) 0) := by
  apply siftDown_heapOrder hw _ (by simpa using hl)
  constructor
  · intro i y p hi hp0 hy hp
    rw [List.getElem?_set_ne (by omega)] at hy hp
    exact h i y p hi hy hp
  · intro h0
    omega

end Order

end MootMemory
