import MootMemory.RankHeap
import Mathlib.Data.List.Sort

namespace MootMemory

variable {α β : Type*} [LinearOrder β] {rank : α → β} {k : Nat}

/-- `kept` is a choice of `k` entries of `xs` of least rank, or all of them if there are fewer. -/
def BestOf (rank : α → β) (k : Nat) (xs kept : List α) : Prop :=
  ∃ rest, xs.Perm (kept ++ rest) ∧ kept.length ≤ k ∧ (rest ≠ [] → kept.length = k) ∧
    ∀ a ∈ kept, ∀ b ∈ rest, rank a ≤ rank b

theorem BestOf.nil : BestOf rank k [] [] :=
  ⟨[], by simp⟩

theorem BestOf.perm {xs ys kept kept' : List α} (h : BestOf rank k xs kept)
    (hx : xs.Perm ys) (hk : kept.Perm kept') : BestOf rank k ys kept' := by
  obtain ⟨rest, hp, hle, hfull, hlt⟩ := h
  refine ⟨rest, hx.symm.trans (hp.trans (hk.append_right rest)), hk.length_eq ▸ hle,
    fun hr => hk.length_eq ▸ hfull hr, fun a ha => hlt a (hk.mem_iff.mpr ha)⟩

theorem BestOf.push {xs kept : List α} (h : BestOf rank k xs kept) (hlt : kept.length < k)
    (x : α) : BestOf rank k (x :: xs) (x :: kept) := by
  obtain ⟨rest, hp, _, hfull, _⟩ := h
  have hr : rest = [] := by
    by_contra hne
    have := hfull hne
    omega
  subst hr
  exact ⟨[], hp.cons x, Nat.succ_le_of_lt hlt, by simp, by simp⟩

/-- Entries that do not rank below a full choice can be added to the candidates. -/
theorem BestOf.append {xs ys kept : List α} (h : BestOf rank k xs kept)
    (hfull : ys ≠ [] → kept.length = k) (hle : ∀ a ∈ kept, ∀ b ∈ ys, rank a ≤ rank b) :
    BestOf rank k (xs ++ ys) kept := by
  obtain ⟨rest, hp, hlen, hr, hlt⟩ := h
  refine ⟨rest ++ ys, ?_, hlen, ?_, ?_⟩
  · simpa [List.append_assoc] using hp.append_right ys
  · intro hne
    by_cases hy : ys = []
    · exact hr (by simpa [hy] using hne)
    · exact hfull hy
  · intro a ha b hb
    rcases List.mem_append.mp hb with hb | hb
    · exact hlt a ha b hb
    · exact hle a ha b hb

/-- Exchanging the worst kept entry for a better one. -/
theorem BestOf.replace {xs kept : List α} {worst x : α} (h : BestOf rank k xs (worst :: kept))
    (hk : (worst :: kept).length = k) (hmax : ∀ a ∈ kept, rank a ≤ rank worst)
    (hlt : rank x < rank worst) : BestOf rank k (x :: xs) (x :: kept) := by
  obtain ⟨rest, hp, hlen, _, hle⟩ := h
  refine ⟨worst :: rest, ?_, by simpa using hlen, fun _ => by simpa using hk, ?_⟩
  · exact (hp.cons x).trans ((@List.perm_middle _ worst kept rest).symm.cons x)
  · intro a ha b hb
    have hab : rank a ≤ rank worst := by
      rcases List.mem_cons.mp ha with rfl | ha
      · exact hlt.le
      · exact hmax a ha
    rcases List.mem_cons.mp hb with rfl | hb
    · exact hab
    · exact hab.trans (hle worst (by simp) b hb)

/-- Sort by rank, least first; stable. -/
def sortByRank (rank : α → β) (xs : List α) : List α :=
  xs.insertionSort fun a b => rank a ≤ rank b

theorem sortByRank_perm (xs : List α) : (sortByRank rank xs).Perm xs :=
  List.perm_insertionSort _ xs

theorem sortByRank_pairwise (xs : List α) :
    (sortByRank rank xs).Pairwise fun a b => rank a ≤ rank b := by
  have htotal : Std.Total fun a b : α => rank a ≤ rank b := ⟨fun a b => le_total _ _⟩
  have htrans : IsTrans α fun a b : α => rank a ≤ rank b := ⟨fun a b c => le_trans⟩
  exact List.pairwise_insertionSort _ xs

/-- A list ordered by an injective rank is determined by its entries. -/
theorem eq_sortByRank (hinj : Function.Injective rank) {xs ys : List α} (hp : ys.Perm xs)
    (hs : ys.Pairwise fun a b => rank a ≤ rank b) : ys = sortByRank rank xs := by
  apply List.Perm.eq_of_pairwise _ hs (sortByRank_pairwise xs) (hp.trans (sortByRank_perm xs).symm)
  exact fun a b _ _ hab hba => hinj (le_antisymm hab hba)

theorem sortByRank_congr (hinj : Function.Injective rank) {xs ys : List α} (hp : xs.Perm ys) :
    sortByRank rank xs = sortByRank rank ys :=
  eq_sortByRank hinj ((sortByRank_perm xs).trans hp) (sortByRank_pairwise xs)

/-- A best choice, sorted, is the front of the sorted candidates. -/
theorem BestOf.sort_eq_take (hinj : Function.Injective rank) {xs kept : List α}
    (h : BestOf rank k xs kept) : sortByRank rank kept = (sortByRank rank xs).take k := by
  obtain ⟨rest, hp, hlen, hfull, hle⟩ := h
  have hsorted : (sortByRank rank kept ++ sortByRank rank rest).Pairwise
      fun a b => rank a ≤ rank b := by
    refine List.pairwise_append.mpr ⟨sortByRank_pairwise _, sortByRank_pairwise _, ?_⟩
    intro a ha b hb
    exact hle a ((sortByRank_perm kept).mem_iff.mp ha) b ((sortByRank_perm rest).mem_iff.mp hb)
  have hperm : (sortByRank rank kept ++ sortByRank rank rest).Perm xs :=
    ((sortByRank_perm kept).append (sortByRank_perm rest)).trans hp.symm
  have hkept : (sortByRank rank kept).length = kept.length := (sortByRank_perm kept).length_eq
  rw [← eq_sortByRank hinj hperm hsorted]
  by_cases hr : rest = []
  · subst hr
    rw [show sortByRank rank ([] : List α) = [] from rfl, List.append_nil,
      List.take_of_length_le (by omega)]
  · rw [List.take_left' (hkept.trans (hfull hr))]

/-- A bounded heap holding a best choice of the entries offered so far. -/
structure BestHeap (rank : α → β) (k : Nat) (xs l : List α) : Prop where
  order : HeapOrder rank l
  best : BestOf rank k xs l

theorem BestHeap.nil : BestHeap rank k [] [] :=
  ⟨by intro i x p _ hx; simp at hx, BestOf.nil⟩

theorem BestHeap.congr {xs ys l : List α} (h : BestHeap rank k xs l) (hp : xs.Perm ys) :
    BestHeap rank k ys l :=
  ⟨h.order, h.best.perm hp (List.Perm.refl l)⟩

section Offer

variable {worse : α → α → Bool}

theorem BestHeap.push (hw : ∀ a b, worse a b ↔ rank b < rank a) {xs l : List α}
    (h : BestHeap rank k xs l) (hlt : l.length < k) (x : α) :
    BestHeap rank k (x :: xs) (siftUp worse (l ++ [x]) l.length) :=
  ⟨siftUp_append hw h.order x, (h.best.push hlt x).perm (List.Perm.refl _)
    ((List.perm_append_singleton x l).symm.trans (siftUp_perm worse _ _).symm)⟩

theorem BestHeap.replace (hw : ∀ a b, worse a b ↔ rank b < rank a) {xs l : List α} {root x : α}
    (h : BestHeap rank k xs l) (hfull : l.length = k) (hr : l[0]? = some root)
    (hlt : rank x < rank root) : BestHeap rank k (x :: xs) (siftDown worse (l.set 0 x) 0) := by
  have hmax := h.order.le_root hr
  cases l with
  | nil => simp at hr
  | cons y tail =>
    obtain rfl : y = root := by simpa using hr
    refine ⟨siftDown_set_zero hw h.order (by simp) x, ?_⟩
    refine (h.best.replace hfull (fun a ha => hmax a (List.mem_cons_of_mem _ ha)) hlt).perm
      (List.Perm.refl _) (siftDown_perm worse _ _).symm

theorem BestHeap.keep {xs l : List α} {root x : α} (h : BestHeap rank k xs l)
    (hfull : l.length = k) (hr : l[0]? = some root) (hle : rank root ≤ rank x) :
    BestHeap rank k (x :: xs) l := by
  have hmax := h.order.le_root hr
  have hlast : ∀ a ∈ l, ∀ b ∈ [x], rank a ≤ rank b := by
    intro a ha b hb
    rw [List.mem_singleton.mp hb]
    exact (hmax a ha).trans hle
  have hbest := h.best.append (fun _ => hfull) hlast
  exact ⟨h.order, hbest.perm (List.perm_append_singleton x xs) (List.Perm.refl l)⟩

end Offer

end MootMemory
