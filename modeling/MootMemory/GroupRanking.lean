import Mathlib.Data.List.Dedup
import Mathlib.Data.List.Sort
import Mathlib.Data.Prod.Lex
import Mathlib.Order.MinMax

namespace MootMemory

variable {Group Score R : Type*} {rank : Score → R}
  {credits top ranking ranking' : List (Group × Score)} {limit : Nat}

/-- The order of a ranking: by rank, least first, and by group where ranks are equal. -/
def groupKey (rank : Score → R) (p : Group × Score) : R ×ₗ Group := toLex (rank p.2, p.1)

/-- `ranking` has every group of the credits once, with the best of its scores, the best groups
first. -/
structure RanksGroups [LinearOrder Group] [LinearOrder R] (rank : Score → R)
    (credits ranking : List (Group × Score)) : Prop where
  groups : ∀ group, group ∈ ranking.map Prod.fst ↔ group ∈ credits.map Prod.fst
  credited : ∀ p ∈ ranking, p ∈ credits
  best : ∀ p ∈ ranking, ∀ q ∈ credits, q.1 = p.1 → rank p.2 ≤ rank q.2
  ordered : ranking.Pairwise fun p q => groupKey rank p < groupKey rank q

variable [LinearOrder Group] [LinearOrder R]

namespace RanksGroups

theorem score_eq (hrank : Function.Injective rank) (h : RanksGroups rank credits ranking)
    (h' : RanksGroups rank credits ranking') {p q : Group × Score} (hp : p ∈ ranking)
    (hq : q ∈ ranking') (hgroup : p.1 = q.1) : p = q := by
  have hle := h.best p hp q (h'.credited q hq) hgroup.symm
  have hge := h'.best q hq p (h.credited p hp) hgroup
  exact Prod.ext hgroup (hrank (le_antisymm hle hge))

theorem mem_of_mem (hrank : Function.Injective rank) (h : RanksGroups rank credits ranking)
    (h' : RanksGroups rank credits ranking') {p : Group × Score} (hp : p ∈ ranking) :
    p ∈ ranking' := by
  have hgroup := (h'.groups p.1).mpr ((h.groups p.1).mp (List.mem_map_of_mem hp))
  obtain ⟨q, hq, heq⟩ := List.mem_map.mp hgroup
  rw [h.score_eq hrank h' hp hq heq.symm]
  exact hq

/-- There is one ranking of the groups of given credits. -/
theorem unique (hrank : Function.Injective rank) (h : RanksGroups rank credits ranking)
    (h' : RanksGroups rank credits ranking') : ranking = ranking' := by
  refine List.Pairwise.eq_of_mem_iff (r := fun p q => groupKey rank p < groupKey rank q)
    h.ordered h'.ordered fun p => ?_
  exact ⟨h.mem_of_mem hrank h', h'.mem_of_mem hrank h⟩

/-- Where the credits come best first, what is credited on the way ranks as in the end: the groups
that are not met yet are all that the ranking lacks. -/
theorem of_prefix (hrank : Function.Injective rank)
    (hbest : credits.Pairwise fun p q => rank p.2 ≤ rank q.2) (htop : top <+: credits)
    (h : RanksGroups rank credits ranking) :
    RanksGroups rank top (ranking.filter fun p => p.1 ∈ top.map Prod.fst) := by
  obtain ⟨rest, rfl⟩ := htop
  obtain ⟨-, -, hlater⟩ := List.pairwise_append.mp hbest
  refine ⟨fun group => ⟨fun hgroup => ?_, fun hgroup => ?_⟩, fun p hp => ?_,
    fun p hp q hq => ?_, h.ordered.sublist List.filter_sublist⟩
  · obtain ⟨p, hp, rfl⟩ := List.mem_map.mp hgroup
    exact of_decide_eq_true (List.mem_filter.mp hp).2
  · have hcredited : group ∈ (top ++ rest).map Prod.fst := by
      rw [List.map_append]
      exact List.mem_append_left _ hgroup
    obtain ⟨p, hp, rfl⟩ := List.mem_map.mp ((h.groups group).mpr hcredited)
    exact List.mem_map_of_mem (List.mem_filter.mpr ⟨hp, decide_eq_true hgroup⟩)
  · obtain ⟨hp, hmet⟩ := List.mem_filter.mp hp
    obtain ⟨q, hq, heq⟩ := List.mem_map.mp (of_decide_eq_true hmet)
    rcases List.mem_append.mp (h.credited p hp) with hmem | hmem
    · exact hmem
    · -- The group was met with a score that is no worse, so with its best.
      have hle := h.best p hp q (List.mem_append_left _ hq) heq
      have hscore := hrank (le_antisymm hle (hlater q hq p hmem))
      rw [Prod.ext heq.symm hscore]
      exact hq
  · exact h.best p (List.mem_filter.mp hp).1 q (List.mem_append_left _ hq)

end RanksGroups

theorem take_filter_eq_take_iff {α : Type*} {keep : α → Bool} {xs : List α} :
    (xs.filter keep).take limit = xs.take limit ↔ ∀ x ∈ xs.take limit, keep x = true := by
  constructor
  · intro h x hx
    rw [← h] at hx
    exact (List.mem_filter.mp (List.mem_of_mem_take hx)).2
  · intro h
    have hhead : (xs.take limit).filter keep = xs.take limit := List.filter_eq_self.mpr h
    conv_lhs => rw [← List.take_append_drop limit xs, List.filter_append, hhead]
    by_cases hlimit : limit ≤ xs.length
    · rw [List.take_append_of_le_length (by rw [List.length_take]; omega), List.take_take,
        min_self]
    · have htail : xs.drop limit = [] := List.drop_eq_nil_of_le (by omega)
      rw [htail, List.filter_nil, List.append_nil, List.take_take, min_self]

/-- The best groups of what is credited on the way are the best of all exactly if each of these is
met on the way. -/
theorem RanksGroups.take_eq_take_iff (hrank : Function.Injective rank)
    (hbest : credits.Pairwise fun p q => rank p.2 ≤ rank q.2) (htop : top <+: credits)
    (h : RanksGroups rank credits ranking) (h' : RanksGroups rank top ranking') (limit : Nat) :
    ranking'.take limit = ranking.take limit ↔
      ∀ p ∈ ranking.take limit, p.1 ∈ top.map Prod.fst := by
  rw [h'.unique hrank (h.of_prefix hrank hbest htop), take_filter_eq_take_iff]
  exact forall₂_congr fun p _ => decide_eq_true_iff

theorem groupKey_le_iff {p q : Group × Score} : groupKey rank p ≤ groupKey rank q ↔
    rank p.2 < rank q.2 ∨ (rank p.2 = rank q.2 ∧ p.1 ≤ q.1) :=
  Prod.Lex.toLex_le_toLex

section Grouped

variable [DecidableEq Group] {better : Score → Score → Score} {worst : Score}
  {before : Group × Score → Group × Score → Prop} [DecidableRel before]

/-- Every group of the credits once, with the best of its scores, in order. -/
def groupRanking (better : Score → Score → Score) (worst : Score)
    (before : Group × Score → Group × Score → Prop) [DecidableRel before]
    (credits : List (Group × Score)) : List (Group × Score) :=
  (((credits.map (·.1)).dedup).map fun group =>
    (group, ((credits.filter (·.1 = group)).map (·.2)).foldl better worst)).insertionSort before

theorem rank_foldl_le (hbetter : ∀ a b, rank (better a b) = min (rank a) (rank b))
    (scores : List Score) (start : Score) :
    rank (scores.foldl better start) ≤ rank start ∧
      ∀ score ∈ scores, rank (scores.foldl better start) ≤ rank score := by
  induction scores generalizing start with
  | nil => simp
  | cons score scores ih =>
    obtain ⟨hstart, hscores⟩ := ih (better start score)
    rw [hbetter] at hstart
    rw [List.foldl_cons]
    refine ⟨hstart.trans (min_le_left _ _), fun s hs => ?_⟩
    rcases List.mem_cons.mp hs with rfl | hs
    · exact hstart.trans (min_le_right _ _)
    · exact hscores s hs

theorem better_eq_or (hrank : Function.Injective rank)
    (hbetter : ∀ a b, rank (better a b) = min (rank a) (rank b)) (a b : Score) :
    better a b = a ∨ better a b = b := by
  rcases min_choice (rank a) (rank b) with h | h
  · exact Or.inl (hrank ((hbetter a b).trans h))
  · exact Or.inr (hrank ((hbetter a b).trans h))

theorem foldl_better_mem (hrank : Function.Injective rank)
    (hbetter : ∀ a b, rank (better a b) = min (rank a) (rank b)) (scores : List Score)
    (start : Score) : scores.foldl better start ∈ start :: scores := by
  induction scores generalizing start with
  | nil => simp
  | cons score scores ih =>
    rw [List.foldl_cons]
    rcases List.mem_cons.mp (ih (better start score)) with h | h
    · rw [h]
      rcases better_eq_or hrank hbetter start score with h | h <;> simp [h]
    · exact List.mem_cons_of_mem _ (List.mem_cons_of_mem _ h)

/-- A start that is no better than any score does not show in the best of them. -/
theorem foldl_better_mem_of_le (hrank : Function.Injective rank)
    (hbetter : ∀ a b, rank (better a b) = min (rank a) (rank b)) {scores : List Score}
    (hne : scores ≠ []) (hworst : ∀ score ∈ scores, rank score ≤ rank worst) :
    scores.foldl better worst ∈ scores := by
  rcases List.mem_cons.mp (foldl_better_mem hrank hbetter scores worst) with h | h
  · obtain ⟨score, hscore⟩ := List.exists_mem_of_ne_nil scores hne
    have hle := (rank_foldl_le hbetter scores worst).2 score hscore
    rw [h] at hle ⊢
    rw [hrank (le_antisymm hle (hworst score hscore))]
    exact hscore
  · exact h

theorem groupRanking_ranks (hrank : Function.Injective rank)
    (hbetter : ∀ a b, rank (better a b) = min (rank a) (rank b))
    (hworst : ∀ p ∈ credits, rank p.2 ≤ rank worst)
    (hbefore : ∀ p q, before p q ↔ groupKey rank p ≤ groupKey rank q) :
    RanksGroups rank credits (groupRanking better worst before credits) := by
  have hmem : ∀ p, p ∈ groupRanking better worst before credits ↔
      p.1 ∈ credits.map (·.1) ∧
        p.2 = ((credits.filter (·.1 = p.1)).map (·.2)).foldl better worst := by
    intro p
    rw [groupRanking, List.mem_insertionSort, List.mem_map]
    constructor
    · rintro ⟨group, hgroup, rfl⟩
      exact ⟨List.mem_dedup.mp hgroup, rfl⟩
    · rintro ⟨hgroup, hscore⟩
      exact ⟨p.1, List.mem_dedup.mpr hgroup, Prod.ext rfl hscore.symm⟩
  have hscores : ∀ p ∈ groupRanking better worst before credits,
      p.2 ∈ (credits.filter (·.1 = p.1)).map (·.2) := by
    intro p hp
    obtain ⟨hgroup, hscore⟩ := (hmem p).mp hp
    rw [hscore]
    refine foldl_better_mem_of_le hrank hbetter ?_ fun score hscore => ?_
    · obtain ⟨q, hq, heq⟩ := List.mem_map.mp hgroup
      exact List.ne_nil_of_mem
        (List.mem_map_of_mem (List.mem_filter.mpr ⟨hq, decide_eq_true heq⟩))
    · obtain ⟨q, hq, rfl⟩ := List.mem_map.mp hscore
      exact hworst q (List.mem_filter.mp hq).1
  refine ⟨fun group => ⟨fun h => ?_, fun h => ?_⟩, fun p hp => ?_, fun p hp q hq heq => ?_, ?_⟩
  · obtain ⟨p, hp, rfl⟩ := List.mem_map.mp h
    exact ((hmem p).mp hp).1
  · let score := ((credits.filter (·.1 = group)).map (·.2)).foldl better worst
    exact List.mem_map.mpr ⟨(group, score), (hmem (group, score)).mpr ⟨h, rfl⟩, rfl⟩
  · obtain ⟨q, hq, hscore⟩ := List.mem_map.mp (hscores p hp)
    obtain ⟨hq, heq⟩ := List.mem_filter.mp hq
    rw [← Prod.ext (of_decide_eq_true heq) hscore]
    exact hq
  · rw [((hmem p).mp hp).2]
    refine (rank_foldl_le hbetter _ _).2 _ (List.mem_map_of_mem ?_)
    exact List.mem_filter.mpr ⟨hq, decide_eq_true heq⟩
  · have : Std.Total before := ⟨fun p q => by
      rw [hbefore, hbefore]
      exact le_total _ _⟩
    have : IsTrans (Group × Score) before := ⟨fun p q r hpq hqr => by
      rw [hbefore] at hpq hqr ⊢
      exact hpq.trans hqr⟩
    have hsorted : (groupRanking better worst before credits).Pairwise before :=
      List.pairwise_insertionSort before _
    have hgroups : ((groupRanking better worst before credits).map (·.1)).Nodup := by
      refine ((List.perm_insertionSort before _).map _).nodup_iff.mpr ?_
      rw [List.map_map]
      simpa [Function.comp_def] using List.nodup_dedup (credits.map (·.1))
    refine (hsorted.and (List.pairwise_map.mp hgroups)).imp fun {p q} h => ?_
    refine lt_of_le_of_ne ((hbefore p q).mp h.1) fun heq => h.2 ?_
    exact (Prod.mk.inj (toLex.injective heq)).2

end Grouped

end MootMemory
