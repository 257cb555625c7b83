import Mathlib.Data.List.Induction
import Mathlib.Data.List.Pairwise
import Mathlib.Data.List.Sort
import Mathlib.Order.Lattice

namespace MootMemory

variable {α β : Type*} [LinearOrder β] {rank : α → β} {x : α} {xs l l' : List α} {k : Nat}

/-- Sort by rank, least first, by the library's stable merge sort. -/
def stableSort (rank : α → β) (xs : List α) : List α :=
  xs.mergeSort fun a b => decide (rank a ≤ rank b)

/-- `l` has the entries of `xs` by rank, and those of one rank in the order they have in `xs`. -/
structure StableOrder (rank : α → β) (xs l : List α) : Prop where
  sorted : l.Pairwise fun a b => rank a ≤ rank b
  ties : ∀ d, l.filter (fun a => rank a = d) = xs.filter fun a => rank a = d

theorem stableSort_perm (rank : α → β) (xs : List α) : (stableSort rank xs).Perm xs :=
  List.mergeSort_perm _ _

theorem rankLe_trans (a b c : α) (hab : decide (rank a ≤ rank b) = true)
    (hbc : decide (rank b ≤ rank c) = true) : decide (rank a ≤ rank c) = true := by
  rw [decide_eq_true_eq] at hab hbc ⊢
  exact hab.trans hbc

theorem rankLe_total (a b : α) :
    (decide (rank a ≤ rank b) || decide (rank b ≤ rank a)) = true := by
  rw [Bool.or_eq_true, decide_eq_true_eq, decide_eq_true_eq]
  exact le_total _ _

theorem stableSort_pairwise (rank : α → β) (xs : List α) :
    (stableSort rank xs).Pairwise fun a b => rank a ≤ rank b :=
  (List.pairwise_mergeSort rankLe_trans rankLe_total xs).imp fun h => of_decide_eq_true h

theorem stableSort_order (rank : α → β) (xs : List α) :
    StableOrder rank xs (stableSort rank xs) where
  sorted := stableSort_pairwise rank xs
  ties := by
    intro d
    have htied : (xs.filter fun a => rank a = d).Pairwise
        fun a b => decide (rank a ≤ rank b) = true := by
      refine List.pairwise_of_forall_mem_list fun a ha b hb => ?_
      have hra := (List.mem_filter.mp ha).2
      have hrb := (List.mem_filter.mp hb).2
      rw [decide_eq_true_eq] at hra hrb ⊢
      rw [hra, hrb]
    have hsub : (xs.filter fun a => rank a = d).Sublist (stableSort rank xs) :=
      List.sublist_mergeSort rankLe_trans rankLe_total htied List.filter_sublist
    have hfilter := hsub.filter fun a => decide (rank a = d)
    simp only [List.filter_filter, Bool.and_self] at hfilter
    refine (hfilter.eq_of_length ?_).symm
    exact ((stableSort_perm rank xs).filter _).length_eq.symm

theorem StableOrder.rank_head_le {a b : α} (h : StableOrder rank xs (a :: l))
    (h' : StableOrder rank xs (b :: l')) : rank a ≤ rank b := by
  have hmem : b ∈ (a :: l).filter fun c => rank c = rank b := by
    rw [h.ties, ← h'.ties]
    exact List.mem_filter.mpr ⟨List.mem_cons_self, decide_eq_true rfl⟩
  rcases List.mem_cons.mp (List.mem_filter.mp hmem).1 with rfl | hb
  · exact le_rfl
  · exact (List.pairwise_cons.mp h.sorted).1 b hb

/-- The stable order of a list is determined. -/
theorem StableOrder.unique (h : StableOrder rank xs l) (h' : StableOrder rank xs l') : l = l' := by
  induction l generalizing l' xs with
  | nil =>
    cases l' with
    | nil => rfl
    | cons b l' =>
      have hb := (h'.ties (rank b)).trans (h.ties (rank b)).symm
      simp at hb
  | cons a l ih =>
    cases l' with
    | nil =>
      have ha := (h.ties (rank a)).trans (h'.ties (rank a)).symm
      simp at ha
    | cons b l' =>
      have hrank : rank a = rank b := le_antisymm (h.rank_head_le h') (h'.rank_head_le h)
      have hheads := (h.ties (rank a)).trans (h'.ties (rank a)).symm
      rw [List.filter_cons, if_pos (decide_eq_true rfl), List.filter_cons,
        if_pos (decide_eq_true hrank.symm), List.cons.injEq] at hheads
      obtain ⟨rfl, htails⟩ := hheads
      have hrest : StableOrder rank l l' := by
        refine ⟨(List.pairwise_cons.mp h'.sorted).2, fun d => ?_⟩
        have hd := (h'.ties d).trans (h.ties d).symm
        rw [List.filter_cons, List.filter_cons] at hd
        split at hd
        next => exact (List.cons.inj hd).2
        next => exact hd
      rw [ih ⟨(List.pairwise_cons.mp h.sorted).2, fun _ => rfl⟩ hrest]

theorem eq_stableSort (h : StableOrder rank xs l) : l = stableSort rank xs :=
  h.unique (stableSort_order rank xs)

theorem stableSort_map {γ : Type*} (f : γ → α) (ys : List γ) :
    stableSort rank (ys.map f) = (stableSort (fun y => rank (f y)) ys).map f := by
  symm
  apply List.map_mergeSort
  intro a _ b _
  rfl

/-- A relation that the list has from left to right orders the entries of one rank. -/
theorem StableOrder.pairwise {R : α → α → Prop} (h : StableOrder rank xs l)
    (hxs : xs.Pairwise R) :
    l.Pairwise fun a b => rank a < rank b ∨ (rank a = rank b ∧ R a b) := by
  rw [List.pairwise_iff_forall_sublist]
  intro a b hab
  have hle : rank a ≤ rank b := List.pairwise_iff_forall_sublist.mp h.sorted hab
  rcases hle.lt_or_eq with hlt | heq
  · exact Or.inl hlt
  · have hsub := hab.filter fun c => decide (rank c = rank b)
    rw [h.ties, List.filter_cons, if_pos (decide_eq_true heq), List.filter_cons,
      if_pos (decide_eq_true rfl), List.filter_nil] at hsub
    exact Or.inr ⟨heq, List.pairwise_iff_forall_sublist.mp hxs (hsub.trans List.filter_sublist)⟩

/-- Puts the entry behind those of its rank. -/
def placeByRank (rank : α → β) (x : α) (l : List α) : List α :=
  l.orderedInsert (fun a b => rank a < rank b) x

@[simp] theorem placeByRank_nil : placeByRank rank x [] = [x] := rfl

theorem placeByRank_cons (a : α) : placeByRank rank x (a :: l) =
    if rank x < rank a then x :: a :: l else a :: placeByRank rank x l :=
  List.orderedInsert_cons ..

theorem length_placeByRank : (placeByRank rank x l).length = l.length + 1 :=
  List.orderedInsert_length ..

theorem placeByRank_perm : (placeByRank rank x l).Perm (x :: l) := List.perm_orderedInsert ..

theorem placeByRank_append {u v : List α} (hu : ∀ a ∈ u, rank a ≤ rank x)
    (hv : ∀ a ∈ v, rank x < rank a) : placeByRank rank x (u ++ v) = u ++ x :: v := by
  induction u with
  | nil =>
    cases v with
    | nil => rfl
    | cons b v => rw [List.nil_append, placeByRank_cons, if_pos (hv b List.mem_cons_self)]; rfl
  | cons a u ih =>
    rw [List.cons_append, placeByRank_cons,
      if_neg (not_lt.mpr (hu a List.mem_cons_self)), List.cons_append,
      ih fun b hb => hu b (List.mem_cons_of_mem a hb)]

theorem placeByRank_pairwise (h : l.Pairwise fun a b => rank a ≤ rank b) :
    (placeByRank rank x l).Pairwise fun a b => rank a ≤ rank b := by
  induction l with
  | nil => exact List.pairwise_singleton _ _
  | cons a l ih =>
    obtain ⟨hhead, htail⟩ := List.pairwise_cons.mp h
    rw [placeByRank_cons]
    split
    next hlt =>
      refine List.pairwise_cons.mpr ⟨fun b hb => ?_, h⟩
      rcases List.mem_cons.mp hb with rfl | hb
      · exact hlt.le
      · exact hlt.le.trans (hhead b hb)
    next hge =>
      refine List.pairwise_cons.mpr ⟨fun b hb => ?_, ih htail⟩
      rcases List.mem_cons.mp (placeByRank_perm.mem_iff.mp hb) with rfl | hb
      · exact not_lt.mp hge
      · exact hhead b hb

theorem filter_placeByRank (h : l.Pairwise fun a b => rank a ≤ rank b) (d : β) :
    (placeByRank rank x l).filter (fun a => rank a = d) =
      l.filter (fun a => rank a = d) ++ [x].filter fun a => rank a = d := by
  induction l with
  | nil => rfl
  | cons a l ih =>
    obtain ⟨hhead, htail⟩ := List.pairwise_cons.mp h
    rw [placeByRank_cons]
    split
    next hlt =>
      -- all that stands behind the entry ranks after it
      by_cases hx : rank x = d
      · have hnone : (a :: l).filter (fun a => rank a = d) = [] := by
          refine List.filter_eq_nil_iff.mpr fun b hb => ?_
          rw [decide_eq_true_eq]
          rintro rfl
          rcases List.mem_cons.mp hb with rfl | hb
          · exact absurd hx hlt.ne
          · exact absurd hx (hlt.trans_le (hhead b hb)).ne
        rw [List.filter_cons, if_pos (decide_eq_true hx), hnone, List.nil_append,
          List.filter_cons, if_pos (decide_eq_true hx), List.filter_nil]
      · have hneg : ¬decide (rank x = d) = true := by simpa using hx
        rw [List.filter_cons, if_neg hneg]
        simp [hx]
    next =>
      rw [List.filter_cons, List.filter_cons, ih htail]
      split <;> simp

theorem StableOrder.place (h : StableOrder rank xs l) :
    StableOrder rank (xs ++ [x]) (placeByRank rank x l) := by
  refine ⟨placeByRank_pairwise h.sorted, fun d => ?_⟩
  rw [filter_placeByRank h.sorted, h.ties, List.filter_append]

/-- The last entry goes behind those of its rank. -/
theorem stableSort_concat (rank : α → β) (xs : List α) (x : α) :
    stableSort rank (xs ++ [x]) = placeByRank rank x (stableSort rank xs) :=
  (eq_stableSort (stableSort_order rank xs).place).symm

theorem take_placeByRank (k : Nat) (x : α) (l : List α) :
    (placeByRank rank x l).take k = (placeByRank rank x (l.take k)).take k := by
  induction l generalizing k with
  | nil => rw [List.take_nil]
  | cons a l ih =>
    cases k with
    | zero => rfl
    | succ k =>
      rw [List.take_succ_cons, placeByRank_cons, placeByRank_cons]
      split
      next =>
        have hfront : (a :: l.take k).take k = (a :: l).take k := by
          rw [← List.take_succ_cons, List.take_take, Nat.min_eq_left (Nat.le_succ k)]
        rw [List.take_succ_cons, List.take_succ_cons, hfront]
      next => rw [List.take_succ_cons, List.take_succ_cons, ih]

/-- How far from the back an entry moves up: past those that it is better than. -/
def placeFromBack (better : α → Bool) (l : List α) : Nat → Nat
  | 0 => 0
  | i + 1 => if l[i]?.any better then placeFromBack better l i else i + 1

/-- Inserts into a list of at most `k` entries, best first; what does not beat the last of a full
list is left out. -/
def boundedInsert (better : α → α → Bool) (k : Nat) (l : List α) (x : α) : List α :=
  if k = 0 then l
  else if k ≤ l.length && !l.getLast?.any (better x) then l
  else
    let l := l.insertIdx (placeFromBack (better x) l l.length) x
    if l.length > k then l.dropLast else l

theorem placeFromBack_spec (better : α → Bool) (l : List α) {n : Nat} (hn : n ≤ l.length)
    (hback : ∀ i, n ≤ i → ∀ a, l[i]? = some a → better a) :
    placeFromBack better l n ≤ n ∧
      (∀ i, placeFromBack better l n ≤ i → ∀ a, l[i]? = some a → better a) ∧
      ∀ i, i + 1 = placeFromBack better l n → ∀ a, l[i]? = some a → better a = false := by
  induction n with
  | zero =>
    rw [placeFromBack]
    exact ⟨le_rfl, hback, fun i hi => absurd hi (Nat.succ_ne_zero i)⟩
  | succ n ih =>
    have hget : l[n]? = some l[n] := List.getElem?_eq_getElem hn
    rw [placeFromBack, hget, Option.any_some]
    split
    next hbetter =>
      have hback' : ∀ i, n ≤ i → ∀ a, l[i]? = some a → better a := by
        intro i hi a ha
        rcases hi.lt_or_eq with hlt | rfl
        · exact hback i hlt a ha
        · rw [hget] at ha
          cases ha
          exact hbetter
      obtain ⟨hle, hrest⟩ := ih (Nat.le_of_succ_le hn) hback'
      exact ⟨Nat.le_succ_of_le hle, hrest⟩
    next hworse =>
      refine ⟨le_rfl, hback, fun i hi a ha => ?_⟩
      obtain rfl : i = n := Nat.succ_injective hi
      rw [hget] at ha
      cases ha
      exact Bool.not_eq_true _ ▸ hworse

theorem insertIdx_eq_take_append {m : Nat} (hm : m ≤ l.length) :
    l.insertIdx m x = l.take m ++ x :: l.drop m := by
  induction l generalizing m with
  | nil =>
    obtain rfl : m = 0 := Nat.le_zero.mp hm
    rfl
  | cons a l ih =>
    cases m with
    | zero => rfl
    | succ m =>
      rw [List.insertIdx_succ_cons, ih (Nat.le_of_succ_le_succ hm), List.take_succ_cons,
        List.drop_succ_cons, List.cons_append]

/-- Moving up from the back of a sorted list ends behind the entries of the same rank. -/
theorem insertIdx_placeFromBack (h : l.Pairwise fun a b => rank a ≤ rank b) (x : α) :
    l.insertIdx (placeFromBack (fun a => rank x < rank a) l l.length) x =
      placeByRank rank x l := by
  obtain ⟨hle, hback, hfront⟩ := placeFromBack_spec (fun a => decide (rank x < rank a)) l le_rfl
    (by
      intro i hi a ha
      rw [List.getElem?_eq_none hi] at ha
      cases ha)
  generalize placeFromBack (fun a => decide (rank x < rank a)) l l.length = m at hle hback hfront
  have hfirst : ∀ a ∈ l.take m, rank a ≤ rank x := by
    intro a ha
    cases m with
    | zero => simp at ha
    | succ i =>
      have hworse := hfront i rfl l[i] (List.getElem?_eq_getElem hle)
      rw [decide_eq_false_iff_not, not_lt] at hworse
      obtain ⟨j, hj, rfl⟩ := List.mem_take_iff_getElem.mp ha
      have hji : j ≤ i := by omega
      rcases hji.lt_or_eq with hlt | rfl
      · exact (List.pairwise_iff_getElem.mp h j i _ _ hlt).trans hworse
      · exact hworse
  have hrest : ∀ a ∈ l.drop m, rank x < rank a := by
    intro a ha
    obtain ⟨j, hj, rfl⟩ := List.mem_drop_iff_getElem.mp ha
    have hget : l[m + j]? = some l[m + j] := List.getElem?_eq_getElem _
    have hbetter := hback (m + j) (Nat.le_add_right m j) _ hget
    exact of_decide_eq_true hbetter
  conv_rhs => rw [← List.take_append_drop m l]
  rw [placeByRank_append hfirst hrest, insertIdx_eq_take_append hle]

/-- One bounded insertion keeps the front of the sorted entries. -/
theorem boundedInsert_take (hl : l.Pairwise fun a b => rank a ≤ rank b) (k : Nat) (x : α) :
    boundedInsert (fun a b => rank a < rank b) k (l.take k) x = (placeByRank rank x l).take k := by
  have hfront : (l.take k).Pairwise fun a b => rank a ≤ rank b :=
    hl.sublist (List.take_sublist k l)
  rw [boundedInsert, take_placeByRank]
  by_cases hk : k = 0
  · subst hk
    rw [if_pos rfl, List.take_zero, List.take_zero]
  rw [if_neg hk]
  have hlen : (l.take k).length ≤ k := List.length_take_le k l
  generalize l.take k = t at hfront hlen
  split
  next hskip =>
    rw [Bool.and_eq_true, decide_eq_true_eq, Bool.not_eq_true'] at hskip
    obtain ⟨hfull, hworse⟩ := hskip
    have hlast : ∀ a ∈ t, rank a ≤ rank x := by
      intro a ha
      have hne : t ≠ [] := List.ne_nil_of_mem ha
      rw [List.getLast?_eq_some_getLast hne, Option.any_some, decide_eq_false_iff_not,
        not_lt] at hworse
      exact (hfront.rel_getLast_of_rel_getLast_getLast ha le_rfl).trans hworse
    have hbehind := placeByRank_append hlast (v := []) (fun a ha => absurd ha List.not_mem_nil)
    rw [List.append_nil] at hbehind
    rw [hbehind, List.take_append_of_le_length hfull, List.take_of_length_le hlen]
  next =>
    rw [insertIdx_placeFromBack hfront]
    dsimp only
    have hplaced : (placeByRank rank x t).length = t.length + 1 := length_placeByRank
    split
    next hover =>
      have hk' : k = (placeByRank rank x t).length - 1 := by omega
      rw [List.dropLast_eq_take, ← hk']
    next hroom => rw [List.take_of_length_le (Nat.not_lt.mp hroom)]

/-- Bounded insertion of all entries, one by one, is the front of the stable sort. -/
theorem foldl_boundedInsert (rank : α → β) (k : Nat) (xs : List α) :
    xs.foldl (boundedInsert (fun a b => rank a < rank b) k) [] = (stableSort rank xs).take k := by
  induction xs using List.reverseRecOn with
  | nil => rw [stableSort, List.mergeSort_nil, List.take_nil, List.foldl_nil]
  | append_singleton xs x ih =>
    rw [List.foldl_append, List.foldl_cons, List.foldl_nil, ih, stableSort_concat]
    exact boundedInsert_take (stableSort_pairwise rank xs) k x

end MootMemory
