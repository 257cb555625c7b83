import MootMemory.BestOf
import Mathlib.Algebra.Order.BigOperators.Group.List
import Mathlib.Algebra.Order.Ring.Int
import Mathlib.Data.List.Induction
import Mathlib.Data.Prod.Lex

namespace MootMemory

variable {κ : Type*} [LinearOrder κ]

/-- What the entries hold for a key, taken together. -/
def amountAt (entries : List (κ × Int)) (d : κ) : Int :=
  ((entries.filter fun e => e.1 = d).map Prod.snd).sum

/-- Adds an amount to its key's total. -/
def addAmount (totals : List (κ × Int)) (e : κ × Int) : List (κ × Int) :=
  if e.1 ∈ totals.map Prod.fst then
    totals.map fun p => if p.1 = e.1 then (p.1, p.2 + e.2) else p
  else totals ++ [e]

/-- Each key with its total. -/
def tally (entries : List (κ × Int)) : List (κ × Int) := entries.foldl addAmount []

/-- Large totals first, the smaller key first among equal ones. -/
def scoreRank (p : κ × Int) : Int ×ₗ κ := toLex (-p.2, p.1)

/-- The `k` best totals in order. -/
def topScores (k : Nat) (entries : List (κ × Int)) : List (κ × Int) :=
  (sortByRank scoreRank (tally entries)).take k

section Amounts

variable {E E' : List (κ × Int)} {d : κ}

theorem amountAt_append (E E' : List (κ × Int)) (d : κ) :
    amountAt (E ++ E') d = amountAt E d + amountAt E' d := by
  rw [amountAt, List.filter_append, List.map_append, List.sum_append]
  rfl

theorem amountAt_singleton (e : κ × Int) (d : κ) :
    amountAt [e] d = if e.1 = d then e.2 else 0 := by
  rw [amountAt, List.filter_cons]
  by_cases h : e.1 = d
  · simp [h]
  · simp [h]

theorem amountAt_perm (h : E.Perm E') : amountAt E d = amountAt E' d :=
  ((h.filter _).map _).sum_eq

theorem amountAt_eq_zero (h : d ∉ E.map Prod.fst) : amountAt E d = 0 := by
  have hnil : E.filter (fun e => e.1 = d) = [] := by
    refine List.filter_eq_nil_iff.mpr fun e he => ?_
    rw [decide_eq_true_eq]
    exact fun heq => h (List.mem_map.mpr ⟨e, he, heq⟩)
  rw [amountAt, hnil, List.map_nil, List.sum_nil]

theorem amountAt_pos (hpos : ∀ e ∈ E, 0 < e.2) (h : d ∈ E.map Prod.fst) : 0 < amountAt E d := by
  obtain ⟨e, he, rfl⟩ := List.mem_map.mp h
  refine List.sum_pos _ (fun x hx => ?_) ?_
  · obtain ⟨e', he', rfl⟩ := List.mem_map.mp hx
    exact hpos e' (List.mem_filter.mp he').1
  · have hmem : e ∈ E.filter fun e' => e'.1 = e.1 := List.mem_filter.mpr ⟨he, by simp⟩
    exact List.ne_nil_of_mem (List.mem_map_of_mem hmem)

/-- Fewer entries hold no more. -/
theorem amountAt_le (hpos : ∀ e ∈ E', 0 < e.2) (h : List.Subperm E E') (d : κ) :
    amountAt E d ≤ amountAt E' d := by
  obtain ⟨l, hl, hsub⟩ := h
  rw [← amountAt_perm hl]
  refine ((hsub.filter _).map _).sum_le_sum fun x hx => ?_
  obtain ⟨e, he, rfl⟩ := List.mem_map.mp hx
  exact (hpos e (List.mem_filter.mp he).1).le

theorem amountAt_filter_ne {d' : κ} (h : d' ≠ d) :
    amountAt (E.filter fun e => e.1 ≠ d) d' = amountAt E d' := by
  rw [amountAt, amountAt, List.filter_filter]
  refine congrArg (fun l => (List.map Prod.snd l).sum) (List.filter_congr fun e _ => ?_)
  by_cases he : e.1 = d'
  · simp [he, h]
  · simp [he]

theorem map_fst_addAmount (totals : List (κ × Int)) (e : κ × Int)
    (h : e.1 ∈ totals.map Prod.fst) :
    (addAmount totals e).map Prod.fst = totals.map Prod.fst := by
  rw [addAmount, if_pos h, List.map_map]
  refine List.map_congr_left fun p _ => ?_
  rw [Function.comp_apply]
  split <;> rfl

theorem tally_concat (E : List (κ × Int)) (e : κ × Int) :
    tally (E ++ [e]) = addAmount (tally E) e := by
  rw [tally, List.foldl_append]
  rfl

theorem mem_keys_tally : d ∈ (tally E).map Prod.fst ↔ d ∈ E.map Prod.fst := by
  induction E using List.reverseRecOn generalizing d with
  | nil => rfl
  | append_singleton E e ih =>
    rw [tally_concat, List.map_append, List.mem_append, List.map_singleton, List.mem_singleton]
    by_cases hmem : e.1 ∈ (tally E).map Prod.fst
    · rw [map_fst_addAmount _ _ hmem, ih]
      refine ⟨Or.inl, fun h => h.elim id fun heq => ?_⟩
      rw [heq]
      exact ih.mp hmem
    · rw [addAmount, if_neg hmem, List.map_append, List.mem_append, ih, List.map_singleton,
        List.mem_singleton]

theorem snd_of_mem_tally {p : κ × Int} (h : p ∈ tally E) : p.2 = amountAt E p.1 := by
  induction E using List.reverseRecOn generalizing p with
  | nil => cases h
  | append_singleton E e ih =>
    rw [tally_concat, addAmount] at h
    rw [amountAt_append, amountAt_singleton]
    split at h
    next hmem =>
      obtain ⟨q, hq, rfl⟩ := List.mem_map.mp h
      by_cases hk : q.1 = e.1
      · rw [if_pos hk, if_pos hk.symm, ih hq]
      · rw [if_neg hk, if_neg (Ne.symm hk), add_zero, ih hq]
    next hmem =>
      rcases List.mem_append.mp h with hp | hp
      · have hne : e.1 ≠ p.1 := fun heq => hmem (heq ▸ List.mem_map_of_mem hp)
        rw [if_neg hne, add_zero, ih hp]
      · obtain rfl := List.mem_singleton.mp hp
        rw [if_pos rfl, amountAt_eq_zero (mem_keys_tally.not.mp hmem), zero_add]

theorem mem_tally {p : κ × Int} :
    p ∈ tally E ↔ p.1 ∈ E.map Prod.fst ∧ p.2 = amountAt E p.1 := by
  constructor
  · intro h
    exact ⟨mem_keys_tally.mp (List.mem_map_of_mem h), snd_of_mem_tally h⟩
  · rintro ⟨hkey, hsnd⟩
    obtain ⟨q, hq, hqk⟩ := List.mem_map.mp (mem_keys_tally.mpr hkey)
    have hpq : q = p := Prod.ext hqk (by rw [snd_of_mem_tally hq, hsnd, hqk])
    exact hpq ▸ hq

end Amounts

omit [LinearOrder κ] in
theorem scoreRank_injective : Function.Injective (scoreRank : κ × Int → Int ×ₗ κ) := by
  intro p q h
  have hpair := Prod.ext_iff.mp (toLex.injective h)
  exact Prod.ext hpair.2 (neg_injective hpair.1)

theorem scoreRank_lt {p q : κ × Int} :
    scoreRank p < scoreRank q ↔ q.2 < p.2 ∨ (p.2 = q.2 ∧ p.1 < q.1) := by
  rw [scoreRank, scoreRank, Prod.Lex.toLex_lt_toLex]
  exact or_congr neg_lt_neg_iff (and_congr_left fun _ => neg_inj)

/-- Before an entry among the first `k` stand fewer than `k` entries. -/
theorem length_lt_of_mem_take {α β : Type*} [LinearOrder β] {rank : α → β} {k : Nat} {t : α}
    {xs ys : List α} (ht : t ∈ (sortByRank rank xs).take k) (hys : ys.Nodup)
    (hbefore : ∀ y ∈ ys, y ∈ xs ∧ rank y < rank t) : ys.length < k := by
  obtain ⟨i, hi, hti⟩ := List.mem_iff_getElem.mp ht
  rw [List.length_take] at hi
  rw [List.getElem_take] at hti
  have hsub : ys ⊆ (sortByRank rank xs).take i := by
    intro y hy
    obtain ⟨hyx, hlt⟩ := hbefore y hy
    have hsorted : y ∈ sortByRank rank xs := (sortByRank_perm xs).mem_iff.mpr hyx
    obtain ⟨j, hj, hyj⟩ := List.mem_iff_getElem.mp hsorted
    have hji : j < i := by
      by_contra hge
      rcases (Nat.le_of_not_lt hge).lt_or_eq with hij | heq
      · have hpairwise : (sortByRank rank xs).Pairwise fun a b => rank a ≤ rank b :=
          sortByRank_pairwise xs
        have hle := List.pairwise_iff_getElem.mp hpairwise i j (by omega) hj hij
        rw [hti, hyj] at hle
        exact absurd hlt (not_lt.mpr hle)
      · subst heq
        rw [hti] at hyj
        rw [hyj] at hlt
        exact absurd hlt (lt_irrefl _)
    rw [← hyj]
    exact List.mem_take_iff_getElem.mpr ⟨j, Nat.lt_min.mpr ⟨hji, hj⟩, rfl⟩
  have hlen := (List.subperm_of_subset hys hsub).length_le
  rw [List.length_take] at hlen
  omega

/-- A scan that takes the keys in order: the entries still to come are among those of the start and
lie after the offers made, and no offer says more than its key has. -/
structure Scanned (E₀ E O : List (κ × Int)) : Prop where
  positive : ∀ e ∈ E₀, 0 < e.2
  within : E.Subperm E₀
  nodup : (O.map Prod.fst).Nodup
  before : ∀ o ∈ O, ∀ e ∈ E, o.1 < e.1
  offered : ∀ o ∈ O, o.1 ∈ E₀.map Prod.fst ∧ o.2 ≤ amountAt E₀ o.1
  gains : ∀ o ∈ O, 0 < o.2

variable {E₀ E E' O kept T : List (κ × Int)} {k : Nat} {d : κ} {t : κ × Int} {θ : Int}

theorem Scanned.start (hpos : ∀ e ∈ E₀, 0 < e.2) : Scanned E₀ E₀ [] :=
  ⟨hpos, List.Subperm.refl _, List.nodup_nil, fun _ h => (nomatch h), fun _ h => (nomatch h),
    fun _ h => (nomatch h)⟩

theorem Scanned.drop (h : Scanned E₀ E O) (hE : E'.Subperm E) : Scanned E₀ E' O :=
  ⟨h.positive, hE.trans h.within, h.nodup, fun o ho e he => h.before o ho e (hE.subset he),
    h.offered, h.gains⟩

/-- The least key of all that is to come is offered with all that is to come for it. -/
theorem Scanned.offer (h : Scanned E₀ E O) (hmem : d ∈ E.map Prod.fst)
    (hmin : ∀ e ∈ E, d ≤ e.1) :
    Scanned E₀ (E.filter fun e => e.1 ≠ d) ((d, amountAt E d) :: O) := by
  have hsub : (E.filter fun e => e.1 ≠ d).Subperm E := List.filter_sublist.subperm
  obtain ⟨e, he, rfl⟩ := List.mem_map.mp hmem
  refine ⟨h.positive, hsub.trans h.within, ?_, ?_, ?_, ?_⟩
  · refine List.nodup_cons.mpr ⟨fun hold => ?_, h.nodup⟩
    obtain ⟨o, ho, heq⟩ := List.mem_map.mp hold
    exact absurd (h.before o ho e he) (heq ▸ lt_irrefl _)
  · intro o ho e' he'
    obtain ⟨he', hne⟩ := List.mem_filter.mp he'
    rcases List.mem_cons.mp ho with rfl | ho
    · exact lt_of_le_of_ne (hmin e' he') (Ne.symm (by simpa using hne))
    · exact h.before o ho e' he'
  · intro o ho
    rcases List.mem_cons.mp ho with rfl | ho
    · exact ⟨List.mem_map.mpr ⟨e, h.within.subset he, rfl⟩, amountAt_le h.positive h.within _⟩
    · exact h.offered o ho
  · intro o ho
    rcases List.mem_cons.mp ho with rfl | ho
    · exact amountAt_pos (fun e he => h.positive e (h.within.subset he)) hmem
    · exact h.gains o ho

theorem mem_of_mem_topScores (ht : t ∈ topScores k E₀) :
    t.1 ∈ E₀.map Prod.fst ∧ t.2 = amountAt E₀ t.1 :=
  mem_tally.mp ((sortByRank_perm _).mem_iff.mp (List.mem_of_mem_take ht))

/-- While the best choice is full, what is to come and belongs to the result beats some of it. -/
theorem Scanned.beats (h : Scanned E₀ E O) (hbest : BestOf scoreRank k O kept)
    (hfull : kept.length = k) (ht : t ∈ topScores k E₀) (hE : t.1 ∈ E.map Prod.fst)
    (hθ : ∀ a ∈ kept, θ ≤ a.2) : θ < t.2 := by
  by_contra hle
  obtain ⟨rest, hperm, -, -, -⟩ := hbest
  have hkept : ∀ a ∈ kept, a ∈ O := fun a ha => hperm.mem_iff.mpr (List.mem_append_left _ ha)
  have hnodup : (kept.map Prod.fst).Nodup := by
    have hall := (hperm.map Prod.fst).nodup_iff.mp h.nodup
    rw [List.map_append] at hall
    exact (List.nodup_append.mp hall).1
  have hlt := @length_lt_of_mem_take _ _ _ _ _ _ _
    (kept.map fun a => (a.1, amountAt E₀ a.1)) ht
    (List.Nodup.of_map Prod.fst (by rwa [List.map_map])) ?_
  · rw [List.length_map] at hlt
    omega
  · intro y hy
    obtain ⟨a, ha, rfl⟩ := List.mem_map.mp hy
    obtain ⟨hkey, hscore⟩ := h.offered a (hkept a ha)
    obtain ⟨e, he, heq⟩ := List.mem_map.mp hE
    have hbefore : a.1 < t.1 := heq ▸ h.before a (hkept a ha) e he
    have hge : t.2 ≤ amountAt E₀ a.1 := (not_lt.mp hle).trans ((hθ a ha).trans hscore)
    refine ⟨mem_tally.mpr ⟨hkey, rfl⟩, scoreRank_lt.mpr ?_⟩
    rcases hge.lt_or_eq with hlt | heq
    · exact Or.inl hlt
    · exact Or.inr ⟨heq.symm, hbefore⟩

/-- Of the result, all was offered or is still to come in full. -/
def Intact (k : Nat) (E₀ E O : List (κ × Int)) : Prop :=
  ∀ t ∈ topScores k E₀, t ∈ O ∨ amountAt E t.1 = t.2

theorem Intact.start : Intact k E₀ E₀ [] := fun _ ht => Or.inr (mem_of_mem_topScores ht).2.symm

theorem Intact.offer (h : Intact k E₀ E O) :
    Intact k E₀ (E.filter fun e => e.1 ≠ d) ((d, amountAt E d) :: O) := by
  intro t ht
  rcases h t ht with hO | hE
  · exact Or.inl (List.mem_cons_of_mem _ hO)
  · rcases eq_or_ne t.1 d with heq | hne
    · refine Or.inl (List.mem_cons.mpr (Or.inl ?_))
      exact Prod.ext heq (by rw [← heq, hE])
    · exact Or.inr ((amountAt_filter_ne hne).trans hE)

/-- What is dropped must not belong to the result. -/
theorem Intact.drop (h : Intact k E₀ E O)
    (hsafe : ∀ t ∈ topScores k E₀, amountAt E t.1 = t.2 → amountAt E' t.1 = amountAt E t.1) :
    Intact k E₀ E' O :=
  fun t ht => (h t ht).imp id fun hE => (hsafe t ht hE).trans hE

/-- One of the result was neither offered nor can it be any more. -/
def Lost (E O : List (κ × Int)) (t : κ × Int) : Prop := t ∉ O ∧ amountAt E t.1 < t.2

theorem Lost.offer (h : Lost E O t) (hpos : ∀ e ∈ E, 0 < e.2) :
    Lost (E.filter fun e => e.1 ≠ d) ((d, amountAt E d) :: O) t := by
  refine ⟨fun hmem => ?_, (amountAt_le hpos List.filter_sublist.subperm _).trans_lt h.2⟩
  rcases List.mem_cons.mp hmem with heq | hO
  · rw [heq] at h
    exact lt_irrefl _ h.2
  · exact h.1 hO

theorem Lost.drop (h : Lost E O t) (hpos : ∀ e ∈ E, 0 < e.2) (hE : E'.Subperm E) :
    Lost E' O t :=
  ⟨h.1, (amountAt_le hpos hE _).trans_lt h.2⟩

end MootMemory
