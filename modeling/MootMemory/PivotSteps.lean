import MootMemory.PivotScan

namespace MootMemory

namespace InvertedIndex

variable {cursors : List PostingCursor} {c : PostingCursor} {d target : String} {threshold : Int}
  {i k : Nat} {s s' : PivotState} {E₀ O passed : List (String × Int)} {t : String × Int}

/-- The step offers the least id that is left, with all that is left for it. -/
structure Offers (s s' : PivotState) (d : String) : Prop where
  mem : d ∈ (remaining s.cursors).map Prod.fst
  min : ∀ e ∈ remaining s.cursors, d ≤ e.1
  rest : (remaining s'.cursors).Perm ((remaining s.cursors).filter fun e => e.1 ≠ d)
  offer : s.heap.offer d (amountAt (remaining s.cursors) d) s.threshold = (s'.heap, s'.threshold)

/-- The step leaves something behind and offers nothing. -/
structure Moves (s s' : PivotState) (passed : List (String × Int)) : Prop where
  split : (remaining s.cursors).Perm (passed ++ remaining s'.cursors)
  ne : passed ≠ []
  heap : s'.heap = s.heap
  threshold : s'.threshold = s.threshold

theorem remaining_modify {j : Nat} (hc : cursors[j]? = some c) (target : String) :
    (remaining cursors).Perm
      (c.passed target ++ remaining (cursors.modify j (·.seek target))) := by
  obtain ⟨hj, rfl⟩ := List.getElem?_eq_some_iff.mp hc
  have hsplit : cursors = cursors.take j ++ cursors[j] :: cursors.drop (j + 1) := by
    rw [← List.drop_eq_getElem_cons hj, List.take_append_drop]
  rw [List.modify_eq_take_cons_drop hj, remaining_append, remaining_cons]
  conv_lhs => rw [hsplit, remaining_append, remaining_cons, PostingCursor.rest_seek _ target]
  rw [List.append_assoc]
  exact List.perm_append_comm_assoc ..

theorem moves_seekChosen (hc : s.cursors[chooseAdvance s.cursors i d]? = some c)
    {id : String} (hid : c.currentId = some id) (hlt : id < target) :
    Moves s (s.seekChosen i d target) (c.passed target) :=
  ⟨remaining_modify hc target, PostingCursor.passed_ne_nil hid hlt, rfl, rfl⟩

theorem seekChosen_sound (h : ∀ c ∈ s.cursors, c.Sound) :
    ∀ c ∈ (s.seekChosen i d target).cursors, c.Sound := by
  intro c hc
  obtain ⟨j, hj, rfl⟩ := List.mem_iff_getElem.mp hc
  simp only [PivotState.seekChosen, List.getElem_modify]
  split
  next => exact (h _ (List.getElem_mem _)).seek target
  next => exact h _ (List.getElem_mem _)

theorem PivotAt.first_cursor (h : PivotAt cursors threshold i d) :
    ∃ c id, cursors[0]? = some c ∧ c.currentId = some id ∧ id ≤ d ∧
      ∀ e ∈ remaining cursors, id ≤ e.1 := by
  obtain ⟨c, hget, -⟩ := h.index
  have hlen : 0 < cursors.length := by
    have := (List.getElem?_eq_some_iff.mp hget).1
    omega
  obtain ⟨id, hid⟩ := h.first cursors[0] (List.getElem?_eq_getElem hlen)
  exact ⟨cursors[0], id, List.getElem?_eq_getElem hlen, hid⟩

/-- The chosen cursor stands at the pivot or before it. -/
theorem PivotAt.chosen (h : PivotAt cursors threshold i d) :
    ∃ c id, cursors[chooseAdvance cursors i d]? = some c ∧ c.currentId = some id ∧ id ≤ d := by
  rcases chooseAdvance_spec cursors i d with ⟨c, id, hc, hid, hlt⟩ | ⟨hzero, -⟩
  · exact ⟨c, id, hc, hid, hlt.le⟩
  · obtain ⟨c, id, hc, hid, hle, -⟩ := h.first_cursor
    exact ⟨c, id, hzero ▸ hc, hid, hle⟩

/-- Either the pivot is offered, or a cursor moves past ids that cannot beat the threshold. -/
theorem scoreOrSeek_cases (h : Arranged s.cursors) (hpivot : PivotAt s.cursors s.threshold i d) :
    (∀ c ∈ (s.scoreOrSeek i d).cursors, c.Sound) ∧
      (Offers s (s.scoreOrSeek i d) d ∨ ∃ passed, Moves s (s.scoreOrSeek i d) passed ∧
        ∀ e ∈ passed, amountAt (remaining s.cursors) e.1 ≤ s.threshold) := by
  obtain ⟨first, id, hfirst, hid, hle, hall⟩ := hpivot.first_cursor
  rw [PivotState.scoreOrSeek, List.head?_eq_getElem?, hfirst, Option.bind_some, hid]
  split
  next heq =>
    obtain rfl := Option.some.inj heq
    obtain ⟨hscore, hrest⟩ := scoreAligned_spec h.sound hall
    refine ⟨scoreAligned_sound h.sound, Or.inl ⟨hpivot.mem, hall, by rw [hrest], ?_⟩⟩
    rw [← hscore]
  next hne =>
    have hlt : id < d := lt_of_le_of_ne hle fun heq => hne (congrArg some heq)
    refine ⟨seekChosen_sound h.sound, Or.inr ?_⟩
    rcases chooseAdvance_spec s.cursors i d with ⟨c, cid, hc, hcid, hclt⟩ | ⟨-, hnone⟩
    · exact ⟨_, moves_seekChosen hc hcid hclt, fun e he =>
        hpivot.under e.1 (PostingCursor.passed_lt he)⟩
    · -- the first cursor is behind the pivot, so the pivot is not at the first
      exfalso
      obtain ⟨c, hget, hcid⟩ := hpivot.index
      rcases Nat.eq_zero_or_pos i with rfl | hpos
      · rw [hfirst] at hget
        cases hget
        rw [hid] at hcid
        exact hne hcid
      · exact hnone 0 hpos ⟨first, id, hfirst, hid, hlt⟩

theorem Offers.of_arranged (h : Offers s.arranged s' d) : Offers s s' d := by
  have hperm := remaining_arrange s.cursors
  refine ⟨(hperm.map _).mem_iff.mp h.mem, fun e he => h.min e (hperm.mem_iff.mpr he),
    h.rest.trans (hperm.filter _), ?_⟩
  rw [← amountAt_perm hperm]
  exact h.offer

theorem Moves.of_arranged (h : Moves s.arranged s' passed) : Moves s s' passed :=
  ⟨(remaining_arrange s.cursors).symm.trans h.split, h.ne, h.heap, h.threshold⟩

/-- The scan has come to a state of the loop, having made the offers. -/
structure Scan (k : Nat) (E₀ O : List (String × Int)) (s : PivotState) : Prop where
  sound : ∀ c ∈ s.cursors, c.Sound
  scanned : Scanned E₀ (remaining s.cursors) O
  holds : s.heap.Holds k O s.threshold

theorem Scan.threshold_nonneg (h : Scan k E₀ O s) (hk : 1 ≤ k) : 0 ≤ s.threshold := by
  by_cases hfull : s.heap.entries.length < k
  · rw [h.holds.threshold, if_pos hfull]
  · obtain ⟨root, hroot, hthreshold⟩ := h.holds.root hk hfull
    obtain ⟨rest, hperm, -⟩ := h.holds.best.best
    have hmem : root ∈ O :=
      hperm.mem_iff.mpr (List.mem_append_left _ (List.mem_of_getElem? hroot))
    rw [hthreshold]
    exact (h.scanned.gains root hmem).le

/-- What belongs to the result and is left in full beats the threshold. -/
theorem Scan.beats (h : Scan k E₀ O s) (hk : 1 ≤ k) (ht : t ∈ topScores k E₀)
    (hleft : amountAt (remaining s.cursors) t.1 = t.2) : s.threshold < t.2 := by
  obtain ⟨hkey, hscore⟩ := mem_of_mem_topScores ht
  have hpos : 0 < t.2 := hscore ▸ amountAt_pos h.scanned.positive hkey
  by_cases hfull : s.heap.entries.length < k
  · rw [h.holds.threshold, if_pos hfull]
    exact hpos
  · have hmem : t.1 ∈ (remaining s.cursors).map Prod.fst := by
      by_contra hnone
      rw [amountAt_eq_zero hnone] at hleft
      exact absurd hpos (hleft ▸ lt_irrefl _)
    have hlen : s.heap.entries.length = k := le_antisymm h.holds.length_le (not_lt.mp hfull)
    exact h.scanned.beats h.holds.best.best hlen ht hmem (h.holds.threshold_le hk hfull)

theorem Scan.offers (h : Scan k E₀ O s) (hk : 1 ≤ k) (hoffers : Offers s s' d)
    (hsound : ∀ c ∈ s'.cursors, c.Sound) :
    Scan k E₀ ((d, amountAt (remaining s.cursors) d) :: O) s' := by
  refine ⟨hsound, (h.scanned.offer hoffers.mem hoffers.min).drop hoffers.rest.subperm, ?_⟩
  have hholds := h.holds.offer hk d (amountAt (remaining s.cursors) d)
  rw [hoffers.offer] at hholds
  exact hholds

theorem Scan.moves (h : Scan k E₀ O s) (hmoves : Moves s s' passed)
    (hsound : ∀ c ∈ s'.cursors, c.Sound) : Scan k E₀ O s' := by
  refine ⟨hsound, h.scanned.drop ?_, ?_⟩
  · exact (List.sublist_append_right _ _).subperm.trans hmoves.split.symm.subperm
  · rw [hmoves.heap, hmoves.threshold]
    exact h.holds

theorem Offers.intact (hoffers : Offers s s' d) (h : Intact k E₀ (remaining s.cursors) O) :
    Intact k E₀ (remaining s'.cursors) ((d, amountAt (remaining s.cursors) d) :: O) := by
  intro t ht
  rw [amountAt_perm hoffers.rest]
  exact h.offer t ht

theorem Moves.amountAt_eq (hmoves : Moves s s' passed) (hd : d ∉ passed.map Prod.fst) :
    amountAt (remaining s'.cursors) d = amountAt (remaining s.cursors) d := by
  rw [amountAt_perm hmoves.split, amountAt_append, amountAt_eq_zero hd, zero_add]

/-- What the scan passes without an offer must not belong to the result. -/
theorem Moves.intact (hmoves : Moves s s' passed) (h : Intact k E₀ (remaining s.cursors) O)
    (hsafe : ∀ t ∈ topScores k E₀, amountAt (remaining s.cursors) t.1 = t.2 →
      t.1 ∉ passed.map Prod.fst) : Intact k E₀ (remaining s'.cursors) O :=
  h.drop fun t ht hleft => hmoves.amountAt_eq (hsafe t ht hleft)

theorem Offers.shorter (hoffers : Offers s s' d) :
    (remaining s'.cursors).length < (remaining s.cursors).length := by
  rw [hoffers.rest.length_eq]
  obtain ⟨e, he, heq⟩ := List.mem_map.mp hoffers.mem
  exact List.length_filter_lt_length_iff_exists.mpr ⟨e, he, by simp [heq]⟩

theorem Moves.shorter (hmoves : Moves s s' passed) :
    (remaining s'.cursors).length < (remaining s.cursors).length := by
  rw [hmoves.split.length_eq, List.length_append]
  have hpos := List.length_pos_iff.mpr hmoves.ne
  omega

theorem Scan.pivotAt (h : Scan k E₀ O s) (hk : 1 ≤ k)
    (hpivot : findPivot s.arranged.cursors s.threshold = some (i, d)) :
    PivotAt s.arranged.cursors s.arranged.threshold i d :=
  pivotAt_of_findPivot (arranged_arrange h.sound) (h.threshold_nonneg hk) hpivot

/-- A pivot in sight, the step of the first search makes an offer or passes what is beaten. -/
theorem Scan.scoreOrSeek (h : Scan k E₀ O s) (hk : 1 ≤ k)
    (hpivot : findPivot s.arranged.cursors s.threshold = some (i, d)) :
    (∀ c ∈ (s.arranged.scoreOrSeek i d).cursors, c.Sound) ∧
      (Offers s (s.arranged.scoreOrSeek i d) d ∨
        ∃ passed, Moves s (s.arranged.scoreOrSeek i d) passed ∧
          ∀ t ∈ topScores k E₀, amountAt (remaining s.cursors) t.1 = t.2 →
            t.1 ∉ passed.map Prod.fst) := by
  obtain ⟨hsound, hoffers | ⟨passed, hmoves, hunder⟩⟩ :=
    scoreOrSeek_cases (arranged_arrange h.sound) (h.pivotAt hk hpivot)
  · exact ⟨hsound, Or.inl hoffers.of_arranged⟩
  · refine ⟨hsound, Or.inr ⟨passed, hmoves.of_arranged, fun t ht hleft hin => ?_⟩⟩
    obtain ⟨e, he, heq⟩ := List.mem_map.mp hin
    have hle : amountAt (remaining (arrange s.cursors)) e.1 ≤ s.threshold := hunder e he
    rw [heq, amountAt_perm (remaining_arrange s.cursors), hleft] at hle
    exact absurd (h.beats hk ht hleft) (not_lt.mpr hle)

end InvertedIndex

end MootMemory
