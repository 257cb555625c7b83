import MootMemory.PostingCursors
import MootMemory.InvertedIndex

namespace MootMemory

namespace InvertedIndex

variable {cursors : List PostingCursor} {d target : String} {threshold : Int} {i : Nat}

/-- What all cursors have yet to give. -/
def remaining (cursors : List PostingCursor) : List (String × Int) :=
  cursors.flatMap PostingCursor.rest

theorem remaining_append (pre post : List PostingCursor) :
    remaining (pre ++ post) = remaining pre ++ remaining post := List.flatMap_append

theorem remaining_cons (c : PostingCursor) (cursors : List PostingCursor) :
    remaining (c :: cursors) = c.rest ++ remaining cursors := List.flatMap_cons

theorem mem_remaining {e : String × Int} :
    e ∈ remaining cursors ↔ ∃ c ∈ cursors, e ∈ c.rest := List.mem_flatMap

/-- Sound cursors, none of them at its end, in order of their current ids. -/
structure Arranged (cursors : List PostingCursor) : Prop where
  sound : ∀ c ∈ cursors, c.Sound
  live : ∀ c ∈ cursors, ∃ id, c.currentId = some id
  ordered : cursors.Pairwise fun a b => a.currentId.getD "" ≤ b.currentId.getD ""

theorem Arranged.tail {c : PostingCursor} (h : Arranged (c :: cursors)) : Arranged cursors :=
  ⟨fun b hb => h.sound b (List.mem_cons_of_mem _ hb),
    fun b hb => h.live b (List.mem_cons_of_mem _ hb), (List.pairwise_cons.mp h.ordered).2⟩

theorem mem_arrange {c : PostingCursor} :
    c ∈ arrange cursors ↔ c ∈ cursors ∧ c.isExhausted = false := by
  rw [arrange, (List.perm_insertionSort _ _).mem_iff, List.mem_filter, Bool.not_eq_true']

theorem cursorLe_trans {a b c : PostingCursor} (hab : cursorLe a b) (hbc : cursorLe b c) :
    cursorLe a c := by
  rcases hab with hab | ⟨heq, hab⟩
  · rcases hbc with hbc | ⟨heq', -⟩
    · exact Or.inl (hab.trans hbc)
    · exact Or.inl (heq' ▸ hab)
  · rcases hbc with hbc | ⟨heq', hbc⟩
    · exact Or.inl (heq ▸ hbc)
    · exact Or.inr ⟨heq.trans heq', hab.trans hbc⟩

theorem cursorLe_total (a b : PostingCursor) : cursorLe a b ∨ cursorLe b a := by
  rcases lt_trichotomy (a.currentId.getD "") (b.currentId.getD "") with hlt | heq | hgt
  · exact Or.inl (Or.inl hlt)
  · exact (le_total a.termId b.termId).imp (fun h => Or.inr ⟨heq, h⟩) fun h =>
      Or.inr ⟨heq.symm, h⟩
  · exact Or.inr (Or.inl hgt)

theorem arranged_arrange (h : ∀ c ∈ cursors, c.Sound) : Arranged (arrange cursors) := by
  refine ⟨fun c hc => h c (mem_arrange.mp hc).1, fun c hc => ?_, ?_⟩
  · cases hid : c.currentId with
    | some id => exact ⟨id, rfl⟩
    | none =>
      rw [PostingCursor.currentId_eq, Option.map_eq_none_iff, List.head?_eq_none_iff] at hid
      have hlive := (mem_arrange.mp hc).2
      rw [PostingCursor.isExhausted_iff.mpr hid] at hlive
      cases hlive
  · have htotal : Std.Total cursorLe := ⟨cursorLe_total⟩
    have htrans : IsTrans PostingCursor cursorLe := ⟨fun _ _ _ => cursorLe_trans⟩
    refine (List.pairwise_insertionSort cursorLe _).imp fun hle => ?_
    exact hle.elim le_of_lt fun h => h.1.le

/-- Cursors at their end have nothing to give. -/
theorem remaining_arrange (cursors : List PostingCursor) :
    (remaining (arrange cursors)).Perm (remaining cursors) := by
  have hfilter : remaining (cursors.filter fun c => !c.isExhausted) = remaining cursors := by
    induction cursors with
    | nil => rfl
    | cons c cursors ih =>
      rw [List.filter_cons, remaining_cons]
      cases hend : c.isExhausted with
      | true =>
        rw [if_neg (by simp), PostingCursor.isExhausted_iff.mp hend, List.nil_append]
        exact ih
      | false => rw [if_pos (by simp), remaining_cons, ih]
  rw [← hfilter]
  exact (List.perm_insertionSort _ _).flatMap_right _

theorem amountAt_remaining_le (h : Arranged cursors) (d : String) :
    amountAt (remaining cursors) d ≤ (cursors.map (·.termUb)).sum := by
  induction cursors with
  | nil => exact le_rfl
  | cons c cursors ih =>
    obtain ⟨id, hid⟩ := h.live c List.mem_cons_self
    have hsound := h.sound c List.mem_cons_self
    rw [remaining_cons, amountAt_append, List.map_cons, List.sum_cons]
    exact add_le_add
      (PostingCursor.amountAt_rest_le hsound (PostingCursor.termUb_pos hsound hid).le d) (ih h.tail)

theorem findPivotFrom_some {acc : Int} {start : Nat} (h : Arranged cursors)
    (hpivot : findPivotFrom threshold start acc cursors = some (i, d)) (hacc : acc ≤ threshold) :
    ∃ pre c post, cursors = pre ++ c :: post ∧ start + pre.length = i ∧ c.currentId = some d ∧
      acc + (pre.map (·.termUb)).sum ≤ threshold := by
  induction cursors generalizing start acc with
  | nil => cases hpivot
  | cons c cursors ih =>
    obtain ⟨id, hid⟩ := h.live c List.mem_cons_self
    rw [findPivotFrom, hid] at hpivot
    dsimp only at hpivot
    split at hpivot
    next hover =>
      cases hpivot
      exact ⟨[], c, cursors, rfl, rfl, hid, by simpa using hacc⟩
    next hunder =>
      obtain ⟨pre, b, post, hsplit, hlen, hb, hsum⟩ := ih h.tail hpivot (not_lt.mp hunder)
      refine ⟨c :: pre, b, post, by rw [hsplit, List.cons_append], ?_, hb, ?_⟩
      · rw [List.length_cons]
        omega
      · rw [List.map_cons, List.sum_cons]
        omega

/-- A pivot: its cursor, and the cursors before it, whose bounds do not pass the threshold. -/
structure PivotAt (cursors : List PostingCursor) (threshold : Int) (i : Nat) (d : String) :
    Prop where
  mem : d ∈ (remaining cursors).map Prod.fst
  under : ∀ id < d, amountAt (remaining cursors) id ≤ threshold
  index : ∃ c, cursors[i]? = some c ∧ c.currentId = some d
  first : ∀ c, cursors[0]? = some c → ∃ id, c.currentId = some id ∧ id ≤ d ∧
    ∀ e ∈ remaining cursors, id ≤ e.1

theorem Arranged.le_remaining {c : PostingCursor} (h : Arranged (c :: cursors))
    (hid : c.currentId = some d) : ∀ e ∈ remaining (c :: cursors), d ≤ e.1 := by
  intro e he
  rw [remaining_cons, List.mem_append] at he
  rcases he with he | he
  · exact PostingCursor.currentId_le (h.sound c List.mem_cons_self) hid e he
  · obtain ⟨b, hb, he⟩ := mem_remaining.mp he
    obtain ⟨id, hbid⟩ := h.live b (List.mem_cons_of_mem _ hb)
    have hle := (List.pairwise_cons.mp h.ordered).1 b hb
    rw [hid, hbid] at hle
    exact le_trans hle
      (PostingCursor.currentId_le (h.sound b (List.mem_cons_of_mem _ hb)) hbid e he)

theorem Arranged.of_append {pre post : List PostingCursor} (h : Arranged (pre ++ post)) :
    Arranged pre ∧ Arranged post := by
  obtain ⟨hpre, hpost, -⟩ := List.pairwise_append.mp h.ordered
  exact ⟨⟨fun c hc => h.sound c (List.mem_append_left _ hc),
      fun c hc => h.live c (List.mem_append_left _ hc), hpre⟩,
    ⟨fun c hc => h.sound c (List.mem_append_right _ hc),
      fun c hc => h.live c (List.mem_append_right _ hc), hpost⟩⟩

theorem pivotAt_of_findPivot (h : Arranged cursors) (hthreshold : 0 ≤ threshold)
    (hpivot : findPivot cursors threshold = some (i, d)) : PivotAt cursors threshold i d := by
  obtain ⟨pre, c, post, rfl, hlen, hid, hsum⟩ := findPivotFrom_some h hpivot hthreshold
  rw [zero_add] at hlen hsum
  obtain ⟨hpre, hpost⟩ := h.of_append
  obtain ⟨tail, hrest, -⟩ := PostingCursor.rest_of_currentId hid
  have hmem : (d, c.queryWeight * c.currentImpact) ∈ remaining (pre ++ c :: post) := by
    rw [remaining_append, remaining_cons, hrest]
    exact List.mem_append_right _ List.mem_cons_self
  refine ⟨List.mem_map.mpr ⟨_, hmem, rfl⟩, fun id hlt => ?_, ⟨c, ?_, hid⟩, fun first hfirst => ?_⟩
  · have hnone : id ∉ (remaining (c :: post)).map Prod.fst := by
      intro hin
      obtain ⟨e, he, rfl⟩ := List.mem_map.mp hin
      exact absurd (hpost.le_remaining hid e he) (not_le.mpr hlt)
    rw [remaining_append, amountAt_append, amountAt_eq_zero hnone, add_zero]
    exact (amountAt_remaining_le hpre id).trans hsum
  · rw [← hlen, List.getElem?_append_right le_rfl, Nat.sub_self]
    rfl
  · cases hlist : pre ++ c :: post with
    | nil => rw [hlist] at hfirst; cases hfirst
    | cons b rest =>
      rw [hlist] at hfirst h hmem
      obtain rfl : b = first := Option.some.inj hfirst
      obtain ⟨id, hbid⟩ := h.live b List.mem_cons_self
      have hall := h.le_remaining hbid
      exact ⟨id, hbid, hall _ hmem, hall⟩

theorem scoreAligned_spec (h : ∀ c ∈ cursors, c.Sound) (hmin : ∀ e ∈ remaining cursors, d ≤ e.1) :
    (scoreAligned cursors d).1 = amountAt (remaining cursors) d ∧
      remaining (scoreAligned cursors d).2 = (remaining cursors).filter fun e => e.1 ≠ d := by
  induction cursors with
  | nil => exact ⟨rfl, rfl⟩
  | cons c cursors ih =>
    obtain ⟨hscore, hrest⟩ := ih (fun b hb => h b (List.mem_cons_of_mem _ hb)) fun e he =>
      hmin e (by rw [remaining_cons]; exact List.mem_append_right _ he)
    have hsound := h c List.mem_cons_self
    have hfirst : ∀ e ∈ c.rest, d ≤ e.1 := fun e he =>
      hmin e (by rw [remaining_cons]; exact List.mem_append_left _ he)
    simp only [scoreAligned] at hscore hrest ⊢
    rw [List.map_cons, List.sum_cons, List.map_cons, remaining_cons, remaining_cons,
      amountAt_append, List.filter_append, hscore, hrest]
    exact ⟨by rw [PostingCursor.amountAt_aligned hsound hfirst],
      by rw [PostingCursor.rest_aligned hsound hfirst]⟩

theorem scoreAligned_sound (h : ∀ c ∈ cursors, c.Sound) :
    ∀ c ∈ (scoreAligned cursors d).2, c.Sound := by
  intro c hc
  obtain ⟨b, hb, rfl⟩ := List.mem_map.mp hc
  split
  next => exact (h b hb).advance
  next => exact h b hb

/-- The cursor at the index stands before the pivot. -/
def Behind (cursors : List PostingCursor) (d : String) (j : Nat) : Prop :=
  ∃ c id, cursors[j]? = some c ∧ c.currentId = some id ∧ id < d

/-- A choice among the first cursors: one before the pivot, or none if there is none. -/
def Chosen (cursors : List PostingCursor) (d : String) (n : Nat) : Option Nat → Prop
  | some j => Behind cursors d j
  | none => ∀ j < n, ¬Behind cursors d j

theorem Chosen.skip {best : Option Nat} {n : Nat} (h : Chosen cursors d n best)
    (hn : ¬Behind cursors d n) : Chosen cursors d (n + 1) best := by
  cases best with
  | some j => exact h
  | none =>
    intro j hj
    rcases Nat.lt_succ_iff_lt_or_eq.mp hj with hlt | rfl
    · exact h j hlt
    · exact hn

theorem Chosen.step {best : Option Nat} {n : Nat} (h : Chosen cursors d n best) :
    Chosen cursors d (n + 1) (chooseStep cursors d best n) := by
  rw [chooseStep]
  cases hc : cursors[n]? with
  | none =>
    refine h.skip ?_
    rintro ⟨c, id, hget, -⟩
    rw [hc] at hget
    cases hget
  | some c =>
    dsimp only
    cases hid : c.currentId with
    | none =>
      refine h.skip ?_
      rintro ⟨b, id, hget, hb, -⟩
      rw [hc] at hget
      cases hget
      rw [hid] at hb
      cases hb
    | some id =>
      dsimp only
      by_cases hge : d ≤ id
      · rw [if_pos hge]
        refine h.skip ?_
        rintro ⟨b, id', hget, hb, hlt⟩
        rw [hc] at hget
        cases hget
        rw [hid] at hb
        cases hb
        exact absurd hge (not_le.mpr hlt)
      · rw [if_neg hge]
        have hnew : Chosen cursors d (n + 1) (some n) := ⟨c, id, hc, hid, not_le.mp hge⟩
        split
        next => exact hnew
        next b hb =>
          split
          next => exact hnew
          next =>
            cases best with
            | none => cases hb
            | some j => exact h

/-- The chosen cursor stands before the pivot; only where none does it is the first. -/
theorem chooseAdvance_spec (cursors : List PostingCursor) (i : Nat) (d : String) :
    Behind cursors d (chooseAdvance cursors i d) ∨
      (chooseAdvance cursors i d = 0 ∧ ∀ j < i, ¬Behind cursors d j) := by
  have hfold : ∀ n, Chosen cursors d n ((List.range n).foldl (chooseStep cursors d) none) := by
    intro n
    induction n with
    | zero => exact fun j hj => absurd hj (Nat.not_lt_zero _)
    | succ n ih =>
      rw [List.range_succ, List.foldl_append]
      exact ih.step
  have hchosen := hfold i
  rw [chooseAdvance]
  cases hbest : (List.range i).foldl (chooseStep cursors d) none with
  | some j => rw [hbest] at hchosen; exact Or.inl hchosen
  | none => rw [hbest] at hchosen; exact Or.inr ⟨rfl, hchosen⟩

end InvertedIndex

end MootMemory
