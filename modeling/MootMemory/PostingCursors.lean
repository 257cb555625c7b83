import MootMemory.InvertedIndex

namespace MootMemory

namespace PostingCursor

variable {c : PostingCursor} {d target : String}

def contribution (c : PostingCursor) (posting : ImpactPosting) : String × Int :=
  (posting.itemId, c.queryWeight * posting.impact)

/-- What the cursor has yet to give. -/
def rest (c : PostingCursor) : List (String × Int) :=
  (c.postings.drop c.position).map c.contribution

/-- Postings in order of their ids, each giving something and none more than the bound. -/
structure Sound (c : PostingCursor) : Prop where
  sorted : c.postings.Pairwise fun a b => a.itemId < b.itemId
  positive : ∀ p ∈ c.postings, 0 < c.queryWeight * p.impact
  bounded : ∀ p ∈ c.postings, c.queryWeight * p.impact ≤ c.termUb

theorem Sound.move {position : Nat} (h : c.Sound) : ({ c with position := position }).Sound :=
  ⟨h.sorted, h.positive, h.bounded⟩

theorem Sound.advance (h : c.Sound) : c.advance.Sound := h.move

theorem Sound.seek (h : c.Sound) (target : String) : (c.seek target).Sound := h.move

theorem currentId_eq (c : PostingCursor) : c.currentId = c.rest.head?.map Prod.fst := by
  rw [currentId, rest, List.head?_map, List.head?_drop, Option.map_map]
  rfl

theorem isExhausted_iff : c.isExhausted = true ↔ c.rest = [] := by
  rw [isExhausted, decide_eq_true_eq, rest, List.map_eq_nil_iff, List.drop_eq_nil_iff]

theorem rest_of_currentId (h : c.currentId = some d) :
    ∃ tail, c.rest = (d, c.queryWeight * c.currentImpact) :: tail ∧ c.advance.rest = tail := by
  rw [currentId, Option.map_eq_some_iff] at h
  obtain ⟨posting, hget, rfl⟩ := h
  obtain ⟨hlt, rfl⟩ := List.getElem?_eq_some_iff.mp hget
  refine ⟨c.advance.rest, ?_, rfl⟩
  rw [rest, List.drop_eq_getElem_cons hlt, List.map_cons, currentImpact, hget]
  rfl

theorem rest_pairwise (h : c.Sound) : c.rest.Pairwise fun a b => a.1 < b.1 := by
  rw [rest, List.pairwise_map]
  exact h.sorted.sublist (List.drop_sublist _ _)

theorem mem_rest {e : String × Int} (he : e ∈ c.rest) :
    ∃ p ∈ c.postings, e = (p.itemId, c.queryWeight * p.impact) := by
  obtain ⟨p, hp, rfl⟩ := List.mem_map.mp he
  exact ⟨p, List.mem_of_mem_drop hp, rfl⟩

theorem rest_positive (h : c.Sound) : ∀ e ∈ c.rest, 0 < e.2 := by
  intro e he
  obtain ⟨p, hp, rfl⟩ := mem_rest he
  exact h.positive p hp

/-- A cursor holds at most one entry for a key. -/
theorem amountAt_rest_le_of (h : c.Sound) {bound : Int} (hbound : 0 ≤ bound)
    (hall : ∀ p ∈ c.postings, p.itemId = d → c.queryWeight * p.impact ≤ bound) :
    amountAt c.rest d ≤ bound := by
  by_cases hmem : d ∈ c.rest.map Prod.fst
  · obtain ⟨e, he, rfl⟩ := List.mem_map.mp hmem
    obtain ⟨pre, post, hsplit⟩ := List.append_of_mem he
    have hpair := rest_pairwise h
    rw [hsplit, List.pairwise_append, List.pairwise_cons] at hpair
    obtain ⟨-, ⟨hpost, -⟩, hpre⟩ := hpair
    have hprenone : e.1 ∉ pre.map Prod.fst := by
      intro hin
      obtain ⟨e', he', heq⟩ := List.mem_map.mp hin
      exact absurd (hpre e' he' e List.mem_cons_self) (heq ▸ lt_irrefl _)
    have hpostnone : e.1 ∉ post.map Prod.fst := by
      intro hin
      obtain ⟨e', he', heq⟩ := List.mem_map.mp hin
      exact absurd (hpost e' he') (heq ▸ lt_irrefl _)
    have hcons : e :: post = [e] ++ post := rfl
    rw [hsplit, hcons, amountAt_append, amountAt_append, amountAt_eq_zero hprenone,
      amountAt_eq_zero hpostnone, amountAt_singleton, if_pos rfl, zero_add, add_zero]
    obtain ⟨p, hp, heq⟩ := mem_rest he
    rw [heq]
    exact hall p hp (congrArg Prod.fst heq).symm
  · rw [amountAt_eq_zero hmem]
    exact hbound

theorem amountAt_rest_le (h : c.Sound) (hub : 0 ≤ c.termUb) (d : String) :
    amountAt c.rest d ≤ c.termUb := amountAt_rest_le_of h hub fun p hp _ => h.bounded p hp

theorem termUb_pos (h : c.Sound) (hid : c.currentId = some d) : 0 < c.termUb := by
  obtain ⟨tail, hrest, -⟩ := rest_of_currentId hid
  have hmem : (d, c.queryWeight * c.currentImpact) ∈ c.rest := hrest ▸ List.mem_cons_self
  obtain ⟨p, hp, -⟩ := mem_rest hmem
  exact (h.positive p hp).trans_le (h.bounded p hp)

/-- Nothing in a cursor comes before its current id. -/
theorem currentId_le (h : c.Sound) (hid : c.currentId = some d) : ∀ e ∈ c.rest, d ≤ e.1 := by
  obtain ⟨tail, hrest, -⟩ := rest_of_currentId hid
  have hpair := rest_pairwise h
  rw [hrest] at hpair ⊢
  intro e he
  rcases List.mem_cons.mp he with rfl | he
  · exact le_rfl
  · exact ((List.pairwise_cons.mp hpair).1 e he).le

/-- What the cursor leaves behind on its way to the target. -/
def passed (c : PostingCursor) (target : String) : List (String × Int) :=
  let left := c.postings.drop c.position
  (left.take (seekSteps target left)).map c.contribution

theorem rest_seek (c : PostingCursor) (target : String) :
    c.rest = c.passed target ++ (c.seek target).rest := by
  rw [rest, passed, rest, seek, ← List.drop_drop]
  exact (List.map_append.symm.trans (congrArg _ (List.take_append_drop _ _))).symm

theorem itemId_lt_of_mem_take {p : ImpactPosting} (postings : List ImpactPosting)
    (hp : p ∈ postings.take (seekSteps target postings)) : p.itemId < target := by
  induction postings with
  | nil => cases hp
  | cons q rest ih =>
    rw [seekSteps] at hp
    split at hp
    next hlt =>
      rw [List.take_succ_cons, List.mem_cons] at hp
      rcases hp with rfl | hp
      · exact hlt
      · exact ih hp
    next => cases hp

theorem passed_lt {e : String × Int} (he : e ∈ c.passed target) : e.1 < target := by
  obtain ⟨p, hp, rfl⟩ := List.mem_map.mp he
  exact itemId_lt_of_mem_take _ hp

/-- A cursor before the target moves. -/
theorem passed_ne_nil (hid : c.currentId = some d) (hlt : d < target) : c.passed target ≠ [] := by
  intro hnil
  have hrest := rest_seek c target
  obtain ⟨tail, hcons, -⟩ := rest_of_currentId hid
  rw [currentId, Option.map_eq_some_iff] at hid
  obtain ⟨posting, hget, rfl⟩ := hid
  obtain ⟨hpos, rfl⟩ := List.getElem?_eq_some_iff.mp hget
  rw [passed, List.map_eq_nil_iff, List.drop_eq_getElem_cons hpos, seekSteps, if_pos hlt,
    List.take_succ_cons] at hnil
  cases hnil

/-- The current posting is the only one at its id. -/
theorem amountAt_aligned (h : c.Sound) (hmin : ∀ e ∈ c.rest, d ≤ e.1) :
    amountAt c.rest d = if c.currentId = some d then c.queryWeight * c.currentImpact else 0 := by
  split
  next hid =>
    obtain ⟨tail, hrest, -⟩ := rest_of_currentId hid
    have hpair := rest_pairwise h
    rw [hrest, List.pairwise_cons] at hpair
    have hnone : d ∉ tail.map Prod.fst := by
      intro hin
      obtain ⟨e, he, heq⟩ := List.mem_map.mp hin
      exact absurd (hpair.1 e he) (heq ▸ lt_irrefl _)
    have hcons : ∀ e : String × Int, e :: tail = [e] ++ tail := fun _ => rfl
    rw [hrest, hcons, amountAt_append, amountAt_eq_zero hnone, amountAt_singleton, if_pos rfl,
      add_zero]
  next hid =>
    refine amountAt_eq_zero fun hin => hid ?_
    obtain ⟨e, he, rfl⟩ := List.mem_map.mp hin
    rw [currentId_eq]
    cases hrest : c.rest with
    | nil => rw [hrest] at he; cases he
    | cons first tail =>
      have hpair := rest_pairwise h
      rw [hrest] at he hpair hmin
      rw [List.head?_cons, Option.map_some]
      rcases List.mem_cons.mp he with rfl | he
      · rfl
      · have hlt := (List.pairwise_cons.mp hpair).1 e he
        exact absurd (hmin first List.mem_cons_self) (not_le.mpr hlt)

/-- Past the least id, the cursor has everything but that id. -/
theorem rest_aligned (h : c.Sound) (hmin : ∀ e ∈ c.rest, d ≤ e.1) :
    (if c.currentId = some d then c.advance else c).rest =
      c.rest.filter fun e => e.1 ≠ d := by
  have hnone : ∀ l : List (String × Int), (∀ e ∈ l, d < e.1) →
      l.filter (fun e => e.1 ≠ d) = l := by
    intro l hl
    exact List.filter_eq_self.mpr fun e he => decide_eq_true (hl e he).ne'
  have hpair := rest_pairwise h
  split
  next hid =>
    obtain ⟨tail, hrest, htail⟩ := rest_of_currentId hid
    rw [hrest, List.pairwise_cons] at hpair
    rw [htail, hrest, List.filter_cons, if_neg (by simp), hnone tail hpair.1]
  next hid =>
    refine (hnone _ fun e he => lt_of_le_of_ne (hmin e he) fun heq => hid ?_).symm
    have hamount := amountAt_aligned h hmin
    rw [if_neg hid] at hamount
    have hpos := amountAt_pos (rest_positive h) (d := d) (heq ▸ List.mem_map_of_mem he)
    rw [hamount] at hpos
    exact absurd hpos (lt_irrefl _)

end PostingCursor

end MootMemory
