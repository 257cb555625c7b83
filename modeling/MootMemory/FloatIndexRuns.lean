import MootMemory.FloatBruteForce

namespace MootMemory

namespace FloatBruteForceIndex

/-- The calls that write the index. -/
inductive Call where
  | build (vectors : List VectorPayload) (keys : List VectorRecordKey)
  | add (key : VectorRecordKey) (vector : VectorPayload)
  | remove (key : VectorRecordKey)

def Call.run (idx : FloatBruteForceIndex) : Call → Except Fault FloatBruteForceIndex
  | .build vectors keys => idx.build vectors keys
  | .add key vector => idx.add key vector
  | .remove key => .ok (idx.remove key)

/-- What the call makes of the keys of a map. -/
def Call.keysAfter (present : List VectorRecordKey) : Call → List VectorRecordKey
  | .build _ keys => keys
  | .add key _ => key :: present
  | .remove key => present.filter (· ≠ key)

/-- An index, with the keys of the map that it stands for. -/
structure Mapped where
  index : FloatBruteForceIndex
  present : List VectorRecordKey

/-- A call that fails changes nothing. -/
def Mapped.step (s : Mapped) (call : Call) : Mapped :=
  match call.run s.index with
  | .ok index => ⟨index, call.keysAfter s.present⟩
  | .error _ => s

def Mapped.new : Mapped := ⟨.new, []⟩

/-- A build is of vectors of one length under different keys. -/
def Call.WellFormed : Call → Prop
  | .build vectors keys => vectors ≠ [] ∧
      (∀ v ∈ vectors, ∀ w ∈ vectors, v.bytes.length = w.bytes.length) ∧ keys.Nodup
  | _ => True

/-- A key in the map is not added before it is removed. -/
def AddsNew (s : Mapped) : Call → Prop
  | .add key _ => key ∉ s.present
  | _ => True

/-- A key is removed while no slot but its first is live. -/
def RemovesFirst (s : Mapped) : Call → Prop
  | .remove key => ∀ arr, s.index.array = some arr → ∀ i, visibleKey arr i = some key →
      slotOf arr key = some i
  | _ => True

/-- A search in either direction returns the hits. -/
def Returns {D : Type} (math : FloatMath D) (idx : FloatBruteForceIndex)
    (hits : List DenseHit) : Prop :=
  ∃ probe metric k filter, search math idx probe metric k filter = .ok hits ∨
    searchFarthest math idx probe metric k filter = .ok hits

variable {D : Type} {math : FloatMath D} {s : Mapped} {arr : ResidentVectorArray}
  {key other : VectorRecordKey} {vector : VectorPayload} {hits : List DenseHit} {i j : Nat}

theorem visibleKey_eq_some : visibleKey arr i = some key ↔
    arr.isTombstoned i = false ∧ arr.keys[i]? = some key := by
  rw [visibleKey]
  cases arr.isTombstoned i <;> simp

theorem Returns.keys {idx : FloatBruteForceIndex} (h : Returns math idx hits) :
    hits = [] ∨ ∃ arr, idx.array = some arr ∧ (hits.map (·.key)).Subperm
      ((List.range arr.count).filterMap (visibleKey arr)) := by
  obtain ⟨probe, metric, k, filter, h | h⟩ := h
  · exact searchDirected_keys h
  · exact searchDirected_keys h

/-- Every key that a search can meet is in the map. -/
def Mapped.Sound (s : Mapped) : Prop :=
  ∀ arr, s.index.array = some arr → ∀ i key, visibleKey arr i = some key → key ∈ s.present

/-- No two slots that a search can meet hold one key. -/
def Mapped.OneSlot (s : Mapped) : Prop :=
  ∀ arr, s.index.array = some arr → ∀ i j key, visibleKey arr i = some key →
    visibleKey arr j = some key → i = j

theorem Mapped.Sound.returns (h : s.Sound) (hits' : Returns math s.index hits) :
    ∀ hit ∈ hits, hit.key ∈ s.present := by
  intro hit hmem
  rcases hits'.keys with rfl | ⟨arr, harr, hsub⟩
  · cases hmem
  · have hkey := hsub.subset (List.mem_map_of_mem hmem)
    obtain ⟨i, -, hi⟩ := List.mem_filterMap.mp hkey
    exact h arr harr i _ hi

theorem Mapped.OneSlot.returns (h : s.OneSlot) (hits' : Returns math s.index hits) :
    (hits.map (·.key)).Nodup := by
  rcases hits'.keys with rfl | ⟨arr, harr, l, hperm, hsub⟩
  · exact List.nodup_nil
  · have hslots : ((List.range arr.count).filterMap (visibleKey arr)).Nodup :=
      List.nodup_range.filterMap fun i j key hi hj => h arr harr i j key hi hj
    exact hperm.nodup_iff.mp (hslots.sublist hsub)

theorem build_eq_ok {idx built : FloatBruteForceIndex} {vectors : List VectorPayload}
    {keys : List VectorRecordKey} (hne : vectors ≠ [])
    (h : idx.build vectors keys = .ok built) :
    ∃ arr, built.array = some arr ∧ arr.keys = keys ∧ arr.tombstones = [] := by
  cases vectors with
  | nil => exact absurd rfl hne
  | cons first rest =>
    simp only [build] at h
    split at h
    next => cases h; exact ⟨_, rfl, rfl, rfl⟩
    next => cases h

theorem add_eq_ok {idx added : FloatBruteForceIndex} (h : idx.add key vector = .ok added) :
    added.array = some (appendSlot (idx.arrayFor vector) key vector) := by
  unfold add at h
  split at h
  next => cases h
  next =>
    dsimp only at h
    split at h
    next => cases h
    next => cases h; rfl

/-- An added slot shows its own key, the slots before it what they showed. -/
theorem visibleKey_appendSlot
    (h : visibleKey (appendSlot arr key vector) i = some other) :
    visibleKey arr i = some other ∨ (i = arr.keys.length ∧ other = key) := by
  obtain ⟨hlive, hkey⟩ := visibleKey_eq_some.mp h
  change (arr.keys ++ [key])[i]? = some other at hkey
  rcases Nat.lt_or_ge i arr.keys.length with hlt | hge
  · rw [List.getElem?_append_left hlt] at hkey
    exact Or.inl (visibleKey_eq_some.mpr ⟨hlive, hkey⟩)
  · rw [List.getElem?_append_right hge] at hkey
    have hzero : i - arr.keys.length = 0 := by
      by_contra hne
      rw [List.getElem?_eq_none (by simp; omega)] at hkey
      cases hkey
    rw [hzero] at hkey
    exact Or.inr ⟨by omega, (Option.some.inj hkey).symm⟩

theorem visibleKey_arrayFor {idx : FloatBruteForceIndex}
    (h : visibleKey (idx.arrayFor vector) i = some key) :
    ∃ arr, idx.array = some arr ∧ visibleKey arr i = some key ∧ idx.arrayFor vector = arr := by
  cases harr : idx.array with
  | none =>
    rw [arrayFor, harr] at h
    simp [visibleKey_eq_some, ResidentVectorArray.empty] at h
  | some arr =>
    have hfor : idx.arrayFor vector = arr := by rw [arrayFor, harr, Option.getD_some]
    rw [hfor] at h
    exact ⟨arr, rfl, h, hfor⟩

/-- A slot shows its key after a removal where it did before and is not the one that died. -/
theorem visibleKey_remove {idx : FloatBruteForceIndex} {arr' : ResidentVectorArray}
    (harr' : (idx.remove key).array = some arr') :
    ∃ arr, idx.array = some arr ∧ ∀ i other, visibleKey arr' i = some other ↔
      visibleKey arr i = some other ∧ slotOf arr key ≠ some i := by
  unfold remove at harr'
  split at harr'
  next hnone => rw [hnone] at harr'; cases harr'
  next arr harr =>
    split at harr'
    next hslot =>
      refine ⟨arr, harr, fun i other => ?_⟩
      rw [harr] at harr'
      cases harr'
      simp [hslot]
    next slot hslot =>
      refine ⟨arr, harr, fun i other => ?_⟩
      cases harr'
      rw [visibleKey_eq_some, visibleKey_eq_some, hslot]
      simp only [ResidentVectorArray.isTombstoned, wordsBit_setWordsBit, Bool.or_eq_false_iff,
        decide_eq_false_iff_not, ne_eq, Option.some.injEq]
      tauto

theorem keys_of_slotOf (h : slotOf arr key = some i) : arr.keys[i]? = some key := by
  obtain ⟨hlt, hp, -⟩ := List.findIdx?_eq_some_iff_getElem.mp h
  rw [List.getElem?_eq_getElem hlt, of_decide_eq_true hp]

theorem exists_array_remove {idx : FloatBruteForceIndex} (harr : idx.array = some arr) :
    ∃ arr', (idx.remove key).array = some arr' := by
  unfold remove
  simp only [harr]
  split
  next => exact ⟨arr, harr⟩
  next => exact ⟨_, rfl⟩

/-- A removal hides its key from all searches exactly where no later slot of it is live. -/
theorem removesFirst_iff : RemovesFirst s (.remove key) ↔
    ∀ arr, (s.index.remove key).array = some arr → ∀ i, visibleKey arr i ≠ some key := by
  constructor
  · intro h arr' harr' i hi
    obtain ⟨arr, harr, hvisible⟩ := visibleKey_remove harr'
    obtain ⟨hbefore, hother⟩ := (hvisible i key).mp hi
    exact hother (h arr harr i hbefore)
  · intro h arr harr i hi
    by_contra hother
    obtain ⟨arr', harr'⟩ : ∃ arr', (s.index.remove key).array = some arr' :=
      exists_array_remove harr
    obtain ⟨old, hold, hvisible⟩ := visibleKey_remove harr'
    obtain rfl : arr = old := Option.some.inj (harr.symm.trans hold)
    exact h arr' harr' i ((hvisible i key).mpr ⟨hi, hother⟩)

theorem Mapped.Sound.step (h : s.Sound) {call : Call} (hwf : call.WellFormed)
    (hfirst : RemovesFirst s call) : (s.step call).Sound := by
  rw [Mapped.step]
  cases hrun : call.run s.index with
  | error e => exact h
  | ok index =>
    intro arr harr i other hi
    change index.array = some arr at harr
    cases call with
    | build vectors keys =>
      have hbuild : s.index.build vectors keys = .ok index := hrun
      obtain ⟨built, hbuilt, hkeys, -⟩ := build_eq_ok hwf.1 hbuild
      obtain rfl : built = arr := Option.some.inj (hbuilt.symm.trans harr)
      have hkey := (visibleKey_eq_some.mp hi).2
      rw [hkeys] at hkey
      exact List.mem_of_getElem? hkey
    | add key vector =>
      rw [add_eq_ok hrun] at harr
      cases harr
      rcases visibleKey_appendSlot hi with hold | ⟨-, rfl⟩
      · obtain ⟨arr, harr, hold, -⟩ := visibleKey_arrayFor hold
        exact List.mem_cons_of_mem _ (h arr harr i other hold)
      · exact List.mem_cons_self
    | remove key =>
      cases hrun
      obtain ⟨old, hold, hvisible⟩ := visibleKey_remove harr
      have hne : other ≠ key := by
        rintro rfl
        exact removesFirst_iff.mp hfirst arr harr i hi
      have hbefore := h old hold i other ((hvisible i other).mp hi).1
      exact List.mem_filter.mpr ⟨hbefore, decide_eq_true hne⟩

theorem Mapped.OneSlot.step (h : s.OneSlot) (hsound : s.Sound) {call : Call}
    (hwf : call.WellFormed) (hnew : AddsNew s call) : (s.step call).OneSlot := by
  rw [Mapped.step]
  cases hrun : call.run s.index with
  | error e => exact h
  | ok index =>
    intro arr harr i j other hi hj
    change index.array = some arr at harr
    cases call with
    | build vectors keys =>
      have hbuild : s.index.build vectors keys = .ok index := hrun
      obtain ⟨built, hbuilt, hkeys, -⟩ := build_eq_ok hwf.1 hbuild
      obtain rfl : built = arr := Option.some.inj (hbuilt.symm.trans harr)
      have hki := (visibleKey_eq_some.mp hi).2
      have hkj := (visibleKey_eq_some.mp hj).2
      rw [hkeys] at hki hkj
      obtain ⟨hlt, -⟩ := List.getElem?_eq_some_iff.mp hki
      exact (List.getElem?_inj hlt hwf.2.2).mp (hki.trans hkj.symm)
    | add key vector =>
      rw [add_eq_ok hrun] at harr
      cases harr
      have hold : ∀ n, visibleKey (s.index.arrayFor vector) n = some other →
          other ∈ s.present := by
        intro n hn
        obtain ⟨arr, harr, hn, -⟩ := visibleKey_arrayFor hn
        exact hsound arr harr n other hn
      rcases visibleKey_appendSlot hi with hbefore | ⟨rfl, rfl⟩
      · rcases visibleKey_appendSlot hj with hbefore' | ⟨-, rfl⟩
        · obtain ⟨arr, harr, hvisible, hfor⟩ := visibleKey_arrayFor hbefore
          rw [hfor] at hbefore'
          exact h arr harr i j other hvisible hbefore'
        · exact absurd (hold i hbefore) hnew
      · rcases visibleKey_appendSlot hj with hbefore' | ⟨rfl, -⟩
        · exact absurd (hold j hbefore') hnew
        · rfl
    | remove key =>
      cases hrun
      obtain ⟨old, hold, hvisible⟩ := visibleKey_remove harr
      exact h old hold i j other ((hvisible i other).mp hi).1 ((hvisible j other).mp hj).1

/-- Every key of the map is in sight of a search, and only slots that exist are dead. -/
structure Mapped.Complete (s : Mapped) : Prop where
  dead : ∀ arr, s.index.array = some arr → ∀ i, arr.isTombstoned i = true → i < arr.keys.length
  shown : ∀ key ∈ s.present, ∃ arr, s.index.array = some arr ∧ ∃ i, visibleKey arr i = some key

theorem Mapped.Complete.build (hbuild : s.index.array = some arr)
    (hkeys : arr.keys = s.present) (htombs : arr.tombstones = []) : s.Complete := by
  have hlive : ∀ i, arr.isTombstoned i = false := fun i => by
    rw [ResidentVectorArray.isTombstoned, htombs, wordsBit_nil]
  constructor
  · intro arr' harr' i hi
    obtain rfl : arr = arr' := Option.some.inj (hbuild.symm.trans harr')
    rw [hlive] at hi
    cases hi
  · intro key hkey
    rw [← hkeys] at hkey
    obtain ⟨i, hi⟩ := List.mem_iff_getElem?.mp hkey
    exact ⟨arr, hbuild, i, visibleKey_eq_some.mpr ⟨hlive i, hi⟩⟩

theorem Mapped.Complete.add (h : s.Complete) : Mapped.Complete
    ⟨⟨some (appendSlot (s.index.arrayFor vector) key vector)⟩, key :: s.present⟩ := by
  have hdead : ∀ i, (s.index.arrayFor vector).isTombstoned i = true →
      i < (s.index.arrayFor vector).keys.length := by
    intro i hi
    cases harr : s.index.array with
    | none =>
      rw [arrayFor, harr, Option.getD_none] at hi
      simp [ResidentVectorArray.isTombstoned, ResidentVectorArray.empty] at hi
    | some arr =>
      rw [arrayFor, harr, Option.getD_some] at hi ⊢
      exact h.dead arr harr i hi
  constructor
  · intro arr harr i hi
    cases harr
    have hlt := hdead i hi
    simp only [appendSlot, List.length_append, List.length_singleton]
    omega
  · intro other hother
    refine ⟨_, rfl, ?_⟩
    rcases List.mem_cons.mp hother with rfl | hother
    · refine ⟨(s.index.arrayFor vector).keys.length, visibleKey_eq_some.mpr ⟨?_, ?_⟩⟩
      · rw [Bool.eq_false_iff]
        exact fun hi => Nat.lt_irrefl _ (hdead _ hi)
      · simp [appendSlot]
    · obtain ⟨arr, harr, i, hi⟩ := h.shown other hother
      obtain ⟨hlive, hkey⟩ := visibleKey_eq_some.mp hi
      obtain ⟨hlt, -⟩ := List.getElem?_eq_some_iff.mp hkey
      have hfor : s.index.arrayFor vector = arr := by rw [arrayFor, harr, Option.getD_some]
      rw [hfor]
      refine ⟨i, visibleKey_eq_some.mpr ⟨hlive, ?_⟩⟩
      exact (List.getElem?_append_left hlt).trans hkey

theorem Mapped.Complete.remove (h : s.Complete) : Mapped.Complete
    ⟨s.index.remove key, s.present.filter (· ≠ key)⟩ := by
  constructor
  · intro arr harr i hi
    unfold FloatBruteForceIndex.remove at harr
    split at harr
    next hnone => rw [hnone] at harr; cases harr
    next old hold =>
      split at harr
      next => exact h.dead arr harr i hi
      next slot hslot =>
        cases harr
        have hlt := (List.getElem?_eq_some_iff.mp (keys_of_slotOf hslot)).1
        simp only [ResidentVectorArray.isTombstoned, wordsBit_setWordsBit, Bool.or_eq_true,
          decide_eq_true_eq] at hi
        rcases hi with rfl | hi
        · exact hlt
        · exact h.dead old hold i hi
  · intro other hother
    obtain ⟨hmem, hne⟩ := List.mem_filter.mp hother
    obtain ⟨arr, harr, i, hi⟩ := h.shown other hmem
    obtain ⟨arr', harr'⟩ : ∃ arr', (s.index.remove key).array = some arr' :=
      exists_array_remove harr
    obtain ⟨old, hold, hvisible⟩ := visibleKey_remove harr'
    obtain rfl : arr = old := Option.some.inj (harr.symm.trans hold)
    refine ⟨arr', harr', i, (hvisible i other).mpr ⟨hi, fun hslot => ?_⟩⟩
    have hkey := (visibleKey_eq_some.mp hi).2.symm.trans (keys_of_slotOf hslot)
    exact of_decide_eq_true hne (Option.some.inj hkey)

theorem Mapped.Complete.step (h : s.Complete) {call : Call} (hwf : call.WellFormed) :
    (s.step call).Complete := by
  rw [Mapped.step]
  cases hrun : call.run s.index with
  | error e => exact h
  | ok index =>
    cases call with
    | build vectors keys =>
      have hbuild : s.index.build vectors keys = .ok index := hrun
      obtain ⟨arr, harr, hkeys, htombs⟩ := build_eq_ok hwf.1 hbuild
      exact .build harr hkeys htombs
    | add key vector =>
      have hadd : index = ⟨some (appendSlot (s.index.arrayFor vector) key vector)⟩ :=
        congrArg FloatBruteForceIndex.mk (add_eq_ok hrun)
      rw [hadd]
      exact h.add
    | remove key =>
      cases hrun
      exact h.remove

/-- While keys are removed only where their first slot is the live one, the keys in sight of a
search are those of the map. -/
theorem exists_visibleKey_iff {s : Mapped}
    (hrun : GuardedRun Mapped.step (fun s call => call.WellFormed ∧ RemovesFirst s call) .new s)
    (key : VectorRecordKey) :
    (∃ arr, s.index.array = some arr ∧ ∃ i, visibleKey arr i = some key) ↔ key ∈ s.present := by
  have hboth := hrun.invariant (P := fun s => s.Sound ∧ s.Complete)
    ⟨fun arr harr => (nomatch harr), fun arr harr => (nomatch harr), fun key hkey => (nomatch hkey)⟩
    fun s call h hcall => ⟨h.1.step hcall.1 hcall.2, h.2.step hcall.1⟩
  constructor
  · rintro ⟨arr, harr, i, hi⟩
    exact hboth.1 arr harr i key hi
  · exact hboth.2.shown key

/-- While keys are removed only where their first slot is the live one, searches return keys of
the map, and none twice if no key of the map is added again. -/
theorem searches_like_map {D : Type} (math : FloatMath D) {s : Mapped}
    (hrun : GuardedRun Mapped.step (fun s call => call.WellFormed ∧ RemovesFirst s call) .new s) :
    (∀ hits, Returns math s.index hits → ∀ hit ∈ hits, hit.key ∈ s.present) ∧
      (GuardedRun Mapped.step (fun s call => call.WellFormed ∧ RemovesFirst s call ∧
          AddsNew s call) .new s →
        ∀ hits, Returns math s.index hits → (hits.map (·.key)).Nodup) := by
  have hnew : Mapped.new.Sound := fun arr harr => nomatch harr
  have hone : Mapped.new.OneSlot := fun arr harr => nomatch harr
  have hsound : s.Sound := hrun.invariant hnew fun s call h hcall => h.step hcall.1 hcall.2
  refine ⟨fun hits hreturns => hsound.returns hreturns, fun hdisciplined hits hreturns => ?_⟩
  have hboth := hdisciplined.invariant (P := fun s => s.Sound ∧ s.OneSlot) ⟨hnew, hone⟩
    fun s call h hcall => ⟨h.1.step hcall.1 hcall.2.1, h.2.step h.1 hcall.1 hcall.2.2⟩
  exact hboth.2.returns hreturns

/-- All distances equal. -/
def flatMath : FloatMath Unit where
  distance := fun _ _ _ => ()
  partialCmp := fun _ _ => some .eq
  toRaw := fun _ => 0

def floatKey (itemId : String) : VectorRecordKey := ⟨itemId, 0, "m", "v1"⟩

def oneFloat : VectorPayload := ⟨.float32, 1, [0, 0, 128, 63], none⟩

/-- Two keys are added, and one of them is removed and added again. -/
def readdCalls : List Call :=
  [.add (floatKey "a") oneFloat, .add (floatKey "b") oneFloat, .remove (floatKey "a"),
    .add (floatKey "a") oneFloat]

theorem removesFirst_bothAdded :
    RemovesFirst ((readdCalls.take 2).foldl Mapped.step .new) (.remove (floatKey "a")) := by
  intro arr harr i hi
  cases harr
  have hkey := (visibleKey_eq_some.mp hi).2
  rcases i with _ | _ | i
  · decide +kernel
  · exact absurd hkey (by decide +kernel)
  · cases hkey

/-- Each of the two keys is found, and found once. -/
theorem searches_like_map_readded :
    (readdCalls.foldl Mapped.step .new).present = [floatKey "a", floatKey "b"] ∧
      ∀ hits, Returns flatMath (readdCalls.foldl Mapped.step .new).index hits →
        (∀ hit ∈ hits, hit.key ∈ [floatKey "a", floatKey "b"]) ∧ (hits.map (·.key)).Nodup := by
  have hpresent : (readdCalls.foldl Mapped.step .new).present =
      [floatKey "a", floatKey "b"] := by decide +kernel
  have hsecond : floatKey "b" ∉ ((readdCalls.take 1).foldl Mapped.step .new).present := by
    decide +kernel
  have hagain : floatKey "a" ∉ ((readdCalls.take 3).foldl Mapped.step .new).present := by
    decide +kernel
  have hdisciplined : GuardedRun Mapped.step
      (fun s call => call.WellFormed ∧ RemovesFirst s call ∧ AddsNew s call) .new
      (readdCalls.foldl Mapped.step .new) := by
    have hfirst : GuardedRun Mapped.step
        (fun s call => call.WellFormed ∧ RemovesFirst s call ∧ AddsNew s call) .new
        (Mapped.new.step (.add (floatKey "a") oneFloat)) :=
      .next _ .start ⟨trivial, trivial, List.not_mem_nil⟩
    have hboth := hfirst.next (Call.add (floatKey "b") oneFloat) ⟨trivial, trivial, hsecond⟩
    have hremoved := hboth.next (Call.remove (floatKey "a"))
      ⟨trivial, removesFirst_bothAdded, trivial⟩
    exact hremoved.next (Call.add (floatKey "a") oneFloat) ⟨trivial, trivial, hagain⟩
  have hrun : GuardedRun Mapped.step (fun s call => call.WellFormed ∧ RemovesFirst s call) .new
      (readdCalls.foldl Mapped.step .new) := hdisciplined.mono fun _ _ h => ⟨h.1, h.2.1⟩
  refine ⟨hpresent, fun hits hreturns => ⟨fun hit hmem => ?_, ?_⟩⟩
  · rw [← hpresent]
    exact (searches_like_map flatMath hrun).1 hits hreturns hit hmem
  · exact (searches_like_map flatMath hrun).2 hdisciplined hits hreturns

/-- The calls by which a float row is written, written over and deleted. -/
def rewriteCalls : List Call :=
  [.add (floatKey "a") oneFloat, .remove (floatKey "a"), .add (floatKey "a") oneFloat,
    .remove (floatKey "a")]

/-- Two slots of one key, of which the first is dead. -/
def twoCopies : ResidentVectorArray where
  kind := .float32
  stride := 4
  count := 2
  storage := [0, 0, 128, 63, 0, 0, 128, 63]
  keys := [floatKey "a", floatKey "a"]
  modelPartitions := [⟨"m", 0, 2⟩]
  tombstones := [1]

theorem scan_twoCopies : (List.range twoCopies.count).foldlM
    (scanStep flatMath twoCopies oneFloat .cosine none) [] = .ok [((), floatKey "a")] := by
  rfl

/-- The second copy of a key outlives its removal. -/
theorem not_searches_like_map :
    ¬∀ (D : Type) (math : FloatMath D) (s : Mapped),
      GuardedRun Mapped.step (fun _ call => call.WellFormed) .new s →
      (∀ hits, Returns math s.index hits → ∀ hit ∈ hits, hit.key ∈ s.present) ∧
        (GuardedRun Mapped.step (fun s call => call.WellFormed ∧ AddsNew s call) .new s →
          ∀ hits, Returns math s.index hits → (hits.map (·.key)).Nodup) := by
  intro h
  have hrun : GuardedRun Mapped.step (fun _ call => call.WellFormed) .new
      (rewriteCalls.foldl Mapped.step .new) := by
    refine GuardedRun.foldl .start fun pre call post heq => ?_
    have hmem : call ∈ rewriteCalls := heq ▸ List.mem_append_right _ List.mem_cons_self
    cases call with
    | build vectors keys => simp [rewriteCalls] at hmem
    | add key vector => trivial
    | remove key => trivial
  have hscan : search flatMath (rewriteCalls.foldl Mapped.step .new).index oneFloat
      (.float .cosine) 1 none = .ok [⟨floatKey "a", 0, .float .cosine⟩] := by
    have harray : (rewriteCalls.foldl Mapped.step .new).index = ⟨some twoCopies⟩ := by
      decide +kernel
    have hsearch : search flatMath ⟨some twoCopies⟩ oneFloat (.float .cosine) 1 none =
        (List.range twoCopies.count).foldlM
          (scanStep flatMath twoCopies oneFloat .cosine none) [] >>= fun scored =>
          .ok (((scored.mergeSort fun a b => (scoredCmp flatMath .nearest a b).isLE).take 1).map
            (hitOf flatMath (.float .cosine))) := rfl
    rw [harray, hsearch, scan_twoCopies]
    change Except.ok _ = _
    rw [List.mergeSort_singleton]
    rfl
  have hpresent := (h Unit flatMath _ hrun).1 _ ⟨_, _, _, _, Or.inl hscan⟩ _
    (List.mem_singleton_self _)
  have hempty : (rewriteCalls.foldl Mapped.step .new).present = [] := by decide +kernel
  rw [hempty] at hpresent
  cases hpresent

end FloatBruteForceIndex

end MootMemory
