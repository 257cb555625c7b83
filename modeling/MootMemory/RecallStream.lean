import MootMemory.ByIdAgreement

namespace MootMemory

structure RecallPage where
  rows : List Drawer
  pageIndex : Nat
  isLast : Bool
deriving DecidableEq

/-- A cursor over the rows of a recall. -/
structure RecallStream where
  rows : List Drawer
  pageSize : Nat
  hydrationLevel : HydrationLevel
  offset : Nat
  pageIndex : Nat
  exhausted : Bool
  degradedStages : List String

/-- The lightest level strips the content; the other two hand the row through. -/
def hydrate (drawer : Drawer) : HydrationLevel → Drawer
  | .bitmapOnly => drawer.clearContent
  | .structured => drawer
  | .full => drawer

namespace RecallStream

def defaultPageSize : Nat := 50

def bitmapEvalFailed : String := "locus.bitmapEval.failed"

def new (rows : List Drawer) (pageSize : Nat) (hydrationLevel : HydrationLevel) :
    RecallStream where
  rows := rows
  pageSize := max pageSize 1
  hydrationLevel := hydrationLevel
  offset := 0
  pageIndex := 0
  exhausted := false
  degradedStages := []

def withDegradedStages (s : RecallStream) (stages : List String) : RecallStream :=
  { s with degradedStages := stages }

/-- The part of a list between two offsets, which are in order and inside. -/
def slice (l : List Drawer) (start stop : Nat) : Option (List Drawer) :=
  if start ≤ stop ∧ stop ≤ l.length then some ((l.take stop).drop start) else none

/-- The next page, if there is one, and the cursor after it; an overflow of the offset and a slice
outside the rows end the call without an answer. -/
def nextPage (s : RecallStream) : Option (Option RecallPage × RecallStream) :=
  if s.exhausted then some (none, s)
  else if s.offset + s.pageSize < 2 ^ 64 then
    let stop := min (s.offset + s.pageSize) s.rows.length
    (slice s.rows s.offset stop).map fun rows =>
      let isLast := decide (s.rows.length ≤ stop)
      (some ⟨rows.map (hydrate · s.hydrationLevel), s.pageIndex, isLast⟩,
        { s with
          offset := stop
          pageIndex := s.pageIndex + 1
          exhausted := isLast })
  else none

/-- What calls in a row give back, and the cursor after them. -/
def nextPages : Nat → RecallStream → Option (List (Option RecallPage) × RecallStream)
  | 0, s => some ([], s)
  | n + 1, s => do
    let (page, s) ← s.nextPage
    let (pages, s) ← nextPages n s
    return (page :: pages, s)

/-- Drains all pages; without fuel there is no answer. -/
def collectAll : Nat → RecallStream → List Drawer → Option (List Drawer)
  | 0, _, _ => none
  | fuel + 1, s, all =>
    match s.nextPage with
    | none => none
    | some (none, _) => some all
    | some (some page, s) => collectAll fuel s (all ++ page.rows)

def pageCount (rows : List Drawer) (pageSize : Nat) : Nat :=
  max 1 ((rows.length + pageSize - 1) / pageSize)

/-- The page of an index, without a cursor. -/
def pageAt (rows : List Drawer) (pageSize : Nat) (level : HydrationLevel) (k : Nat) : RecallPage where
  rows := ((rows.drop (k * pageSize)).take pageSize).map (hydrate · level)
  pageIndex := k
  isLast := decide (k + 1 = pageCount rows pageSize)

/-- The cursor after as many pages. -/
def advanced (s : RecallStream) (k : Nat) : RecallStream :=
  let count := pageCount s.rows s.pageSize
  { s with
    offset := min (k * s.pageSize) s.rows.length
    pageIndex := min k count
    exhausted := decide (count ≤ k) }

section Pages

variable {rows : List Drawer} {pageSize k : Nat} {level : HydrationLevel}

theorem pageCount_pos : 0 < pageCount rows pageSize := by
  rw [pageCount]
  omega

/-- All pages but the last are full. -/
theorem mul_lt_length (hsize : 0 < pageSize) (hk : k + 1 < pageCount rows pageSize) :
    (k + 1) * pageSize < rows.length := by
  have hceil : k + 1 < (rows.length + pageSize - 1) / pageSize := by
    rw [pageCount] at hk
    omega
  have hmul := (Nat.le_div_iff_mul_le hsize).mp (Nat.succ_le_of_lt hceil)
  have hsucc : (k + 1).succ * pageSize = (k + 1) * pageSize + pageSize := Nat.succ_mul _ _
  omega

theorem length_le_mul (hsize : 0 < pageSize) (hk : pageCount rows pageSize ≤ k) :
    rows.length ≤ k * pageSize := by
  have hceil : (rows.length + pageSize - 1) / pageSize < k + 1 := by
    rw [pageCount] at hk
    omega
  have hmul := (Nat.div_lt_iff_lt_mul hsize).mp hceil
  have hsucc : (k + 1) * pageSize = k * pageSize + pageSize := Nat.succ_mul _ _
  omega

theorem isLast_iff (hsize : 0 < pageSize) (hk : k < pageCount rows pageSize) :
    rows.length ≤ min ((k + 1) * pageSize) rows.length ↔ k + 1 = pageCount rows pageSize := by
  constructor
  · intro hle
    by_contra hne
    have hlt := mul_lt_length hsize (show k + 1 < pageCount rows pageSize by omega)
    omega
  · intro heq
    have hle := length_le_mul hsize heq.ge
    omega

theorem offset_le_length (hsize : 0 < pageSize) (hk : k < pageCount rows pageSize) :
    k * pageSize ≤ rows.length := by
  cases k with
  | zero =>
    rw [Nat.zero_mul]
    exact Nat.zero_le _
  | succ k => exact (mul_lt_length hsize hk).le

/-- The offset after a page stays below the word, since only the first page can be longer than the
rows. -/
theorem offset_fits (hsize : 0 < pageSize) (hword : pageSize < 2 ^ 64)
    (hlength : rows.length < 2 ^ 63) (hk : k < pageCount rows pageSize) :
    k * pageSize + pageSize < 2 ^ 64 := by
  cases k with
  | zero =>
    rw [Nat.zero_mul, Nat.zero_add]
    exact hword
  | succ k =>
    have hfull := mul_lt_length hsize hk
    have hone : pageSize ≤ (k + 1) * pageSize := Nat.le_mul_of_pos_left pageSize k.succ_pos
    omega

theorem slice_page (hsize : 0 < pageSize) (hk : k < pageCount rows pageSize) :
    slice rows (k * pageSize) (min (k * pageSize + pageSize) rows.length) =
      some ((rows.drop (k * pageSize)).take pageSize) := by
  have hoffset := offset_le_length hsize hk
  have horder : k * pageSize ≤ min (k * pageSize + pageSize) rows.length := by omega
  rw [slice, if_pos ⟨horder, Nat.min_le_right _ _⟩, List.take_eq_take_min, Nat.min_assoc,
    Nat.min_self, ← List.take_eq_take_min, List.drop_take, Nat.add_sub_cancel_left]

/-- One call: the page of the index, or none once all pages are out. -/
theorem nextPage_advanced (s : RecallStream) (hsize : 0 < s.pageSize) (hword : s.pageSize < 2 ^ 64)
    (hlength : s.rows.length < 2 ^ 63) (k : Nat) :
    (s.advanced k).nextPage =
      some (if k < pageCount s.rows s.pageSize then
        some (pageAt s.rows s.pageSize s.hydrationLevel k) else none, s.advanced (k + 1)) := by
  by_cases hk : k < pageCount s.rows s.pageSize
  · have hoffset : min (k * s.pageSize) s.rows.length = k * s.pageSize :=
      Nat.min_eq_left (offset_le_length hsize hk)
    have hfits := offset_fits hsize hword hlength hk
    have hsucc : (k + 1) * s.pageSize = k * s.pageSize + s.pageSize := Nat.succ_mul _ _
    have hlast := isLast_iff hsize hk
    have hdone : pageCount s.rows s.pageSize ≤ k + 1 ↔ k + 1 = pageCount s.rows s.pageSize := by
      omega
    rw [hsucc] at hlast
    rw [if_pos hk, nextPage, advanced]
    simp only [decide_eq_true_eq, Nat.not_le.mpr hk, if_false, hoffset, if_pos hfits,
      slice_page hsize hk, Option.map_some, advanced, pageAt, hsucc, hlast, hdone,
      Nat.min_eq_left hk.le, Nat.min_eq_left (Nat.succ_le_of_lt hk)]
  · have hexhausted : (s.advanced k).exhausted = true := by
      simpa [advanced] using Nat.not_lt.mp hk
    have hle := length_le_mul hsize (Nat.not_lt.mp hk)
    have hle' := length_le_mul hsize (show pageCount s.rows s.pageSize ≤ k + 1 by omega)
    have hsame : s.advanced (k + 1) = s.advanced k := by
      have hcount : min (k + 1) (pageCount s.rows s.pageSize) =
          min k (pageCount s.rows s.pageSize) := by omega
      have hdone : pageCount s.rows s.pageSize ≤ k + 1 ↔ pageCount s.rows s.pageSize ≤ k := by
        omega
      simp only [advanced, Nat.min_eq_right hle, Nat.min_eq_right hle', hcount, hdone]
    rw [if_neg hk, nextPage, if_pos hexhausted, hsame]

/-- Calls in a row give the pages in their order, and nothing after the last. -/
theorem nextPages_advanced (s : RecallStream) (hsize : 0 < s.pageSize)
    (hword : s.pageSize < 2 ^ 64) (hlength : s.rows.length < 2 ^ 63) (n k : Nat) :
    nextPages n (s.advanced k) = some ((List.range' k n).map fun i =>
      if i < pageCount s.rows s.pageSize then
        some (pageAt s.rows s.pageSize s.hydrationLevel i) else none, s.advanced (k + n)) := by
  induction n generalizing k with
  | zero => rfl
  | succ n ih =>
    rw [nextPages, nextPage_advanced s hsize hword hlength k]
    show (nextPages n (s.advanced (k + 1))).bind _ = _
    rw [ih (k + 1)]
    have hlater : k + 1 + n = k + (n + 1) := by omega
    rw [hlater, List.range'_succ, List.map_cons]
    rfl

/-- Draining hands over what the pages that are left hold. -/
theorem collectAll_advanced (s : RecallStream) (hsize : 0 < s.pageSize)
    (hword : s.pageSize < 2 ^ 64) (hlength : s.rows.length < 2 ^ 63) {fuel : Nat}
    (all : List Drawer) (hk : k ≤ pageCount s.rows s.pageSize)
    (hfuel : pageCount s.rows s.pageSize < k + fuel) :
    collectAll fuel (s.advanced k) all =
      some (all ++ (s.rows.drop (k * s.pageSize)).map (hydrate · s.hydrationLevel)) := by
  induction fuel generalizing k all with
  | zero => omega
  | succ fuel ih =>
    rw [collectAll, nextPage_advanced s hsize hword hlength k]
    by_cases hmore : k < pageCount s.rows s.pageSize
    · have hsucc : (k + 1) * s.pageSize = k * s.pageSize + s.pageSize := Nat.succ_mul _ _
      have hsplit := List.take_append_drop s.pageSize (s.rows.drop (k * s.pageSize))
      rw [if_pos hmore]
      show collectAll fuel (s.advanced (k + 1)) (all ++ _) = _
      rw [ih _ (by omega) (by omega), hsucc, ← List.drop_drop, List.append_assoc, pageAt,
        ← List.map_append, hsplit]
    · have hle := length_le_mul hsize (Nat.not_lt.mp hmore)
      rw [if_neg hmore, List.drop_eq_nil_of_le hle]
      simp

theorem advanced_new (rows : List Drawer) (pageSize : Nat) (level : HydrationLevel)
    (stages : List String) : ((new rows pageSize level).withDegradedStages stages).advanced 0 =
      (new rows pageSize level).withDegradedStages stages := by
  have hpos : ¬pageCount rows (max pageSize 1) ≤ 0 := by
    have := @pageCount_pos rows (max pageSize 1)
    omega
  simp [advanced, withDegradedStages, new, hpos]

end Pages

end RecallStream

namespace DrawerStore

variable (substrate : Substrate) (s : DrawerStore)

/-- The rows of a recall as a cursor; an evaluation that fails is a named stage and no rows. -/
def recallStream (frame : RecallFrame) : RecallStream :=
  let pageSize := frame.limit.getD RecallStream.defaultPageSize
  match s.recallRows substrate frame with
  | .ok rows => .new rows pageSize frame.hydrationLevel
  | .error _ => (RecallStream.new [] pageSize frame.hydrationLevel).withDegradedStages
      [RecallStream.bitmapEvalFailed]

/-- The rows a recall found. -/
def recalledRows (frame : RecallFrame) : List Drawer :=
  (s.recallRows substrate frame).toOption.getD []

theorem recallStream_eq (frame : RecallFrame) : ∃ stages,
    s.recallStream substrate frame = (RecallStream.new (s.recalledRows substrate frame)
      (frame.limit.getD RecallStream.defaultPageSize) frame.hydrationLevel).withDegradedStages
        stages ∧ (stages = [] ↔ (s.recallRows substrate frame).isOk) := by
  rw [recallStream, recalledRows]
  cases s.recallRows substrate frame with
  | ok rows => exact ⟨[], rfl, iff_of_true rfl rfl⟩
  | error e => exact ⟨[RecallStream.bitmapEvalFailed], rfl, iff_of_false (List.cons_ne_nil _ _)
      Bool.false_ne_true⟩

/-- Calls for the pages of a recall, as many as one likes, hand over its rows in windows of the page
size, the last of which alone is marked, and nothing afterwards; draining them gives each row once.
At the lightest level no row carries its content, and a stage is named exactly if the evaluation
failed. -/
theorem recall_pages (frame : RecallFrame)
    (hlimit : frame.limit.getD RecallStream.defaultPageSize < 2 ^ 64)
    (hlength : (s.recalledRows substrate frame).length < 2 ^ 63) :
    let rows := s.recalledRows substrate frame
    let pageSize := max (frame.limit.getD RecallStream.defaultPageSize) 1
    let count := RecallStream.pageCount rows pageSize
    let page := RecallStream.pageAt rows pageSize frame.hydrationLevel
    let stream := s.recallStream substrate frame
    (∀ n, ∃ after, RecallStream.nextPages n stream =
      some ((List.range n).map fun k => if k < count then some (page k) else none, after)) ∧
    (∀ fuel, count < fuel → RecallStream.collectAll fuel stream [] =
      some (rows.map (hydrate · frame.hydrationLevel))) ∧
    (frame.hydrationLevel = .bitmapOnly → ∀ k, ∀ row ∈ (page k).rows, row.content = "") ∧
    (stream.degradedStages = [] ↔ (s.recallRows substrate frame).isOk) := by
  intro rows pageSize count page stream
  obtain ⟨stages, hstream, hstages⟩ := s.recallStream_eq substrate frame
  have hsize : 0 < pageSize := Nat.le_max_right _ _
  have hword : pageSize < 2 ^ 64 := by omega
  have hstart := RecallStream.advanced_new rows (frame.limit.getD RecallStream.defaultPageSize)
    frame.hydrationLevel stages
  refine ⟨fun n => ?_, fun fuel hfuel => ?_, fun hlevel k row hrow => ?_, ?_⟩
  · have hpages := RecallStream.nextPages_advanced ((RecallStream.new rows
      (frame.limit.getD RecallStream.defaultPageSize) frame.hydrationLevel).withDegradedStages
        stages) hsize hword hlength n 0
    rw [hstart, ← List.range_eq_range'] at hpages
    rw [show stream = _ from hstream]
    exact ⟨_, hpages⟩
  · have hall := RecallStream.collectAll_advanced ((RecallStream.new rows
      (frame.limit.getD RecallStream.defaultPageSize) frame.hydrationLevel).withDegradedStages
        stages) hsize hword hlength (k := 0) [] (Nat.zero_le _) ((Nat.zero_add fuel).symm ▸ hfuel)
    rw [hstart, List.nil_append, Nat.zero_mul, List.drop_zero] at hall
    rw [show stream = _ from hstream]
    exact hall
  · obtain ⟨drawer, -, rfl⟩ := List.mem_map.mp hrow
    rw [hlevel]
    rfl
  · have hdegraded : stream.degradedStages = stages := congrArg (·.degradedStages) hstream
    rw [hdegraded]
    exact hstages

/-- A room with three drawers, the newest stored first. -/
def filledRoom : DrawerStore :=
  [StoreCall.addDrawer (referenceDrawer "2" 2 4) 6, .addDrawer (referenceDrawer "3" 3 3) 7].foldl
    (step referenceSubstrate) capturedRoom

/-- All rows, two of them on a page, without their contents. -/
def pairFrame : RecallFrame := { frameAt none with hydrationLevel := .bitmapOnly, limit := some 2 }

theorem recalledRows_filledRoom :
    (filledRoom.recallRows referenceSubstrate pairFrame).isOk ∧
      (filledRoom.recalledRows referenceSubstrate pairFrame).length = 3 := by
  have hsorted : filledRoom.drawers.rows.mergeSort newestFirst = filledRoom.drawers.rows :=
    List.mergeSort_of_pairwise (by decide +kernel)
  have hlive : filledRoom.liveRows referenceSubstrate pairFrame =
      ((filledRoom.drawers.rows.take pairFrame.scanBound).map (·.clearContent)).filter
        (·.tombstonedAt.isNone) := by
    rw [liveRows, if_neg (by decide), allDrawersBoundedProjectedDesc, allDrawersBoundedDesc,
      hsorted, if_neg (by decide)]
  obtain ⟨rows, hrows⟩ := exists_eq_ok (x := filledRoom.recallRows referenceSubstrate pairFrame)
    (by rw [recallRows, hlive]; decide +kernel)
  have hlength : (((filledRoom.drawers.rows.take pairFrame.scanBound).map (·.clearContent)).filter
      (·.tombstonedAt.isNone) |>.filter
        (filledRoom.passesFrame referenceSubstrate pairFrame)).length = 3 := by decide +kernel
  refine ⟨by rw [hrows]; rfl, ?_⟩
  rw [recalledRows, hrows]
  rw [recallRows, hlive] at hrows
  change rows.length = 3
  rw [evaluate_eq_ok hrows, sortDrawers, List.length_mergeSort, hlength]

theorem recall_pages_filledRoom :
    let rows := filledRoom.recalledRows referenceSubstrate pairFrame
    let stream := filledRoom.recallStream referenceSubstrate pairFrame
    let page := RecallStream.pageAt rows 2 .bitmapOnly
    rows.length = 3 ∧
    (∃ after, RecallStream.nextPages 3 stream =
      some ([some (page 0), some (page 1), none], after)) ∧
    RecallStream.collectAll 3 stream [] = some (rows.map (hydrate · .bitmapOnly)) ∧
    (∀ k, ∀ row ∈ (page k).rows, row.content = "") ∧ stream.degradedStages = [] := by
  obtain ⟨hok, hlength⟩ := recalledRows_filledRoom
  obtain ⟨hpages, hall, hlight, hstages⟩ :=
    recall_pages referenceSubstrate filledRoom pairFrame (by decide) (by rw [hlength]; decide)
  have hcount : RecallStream.pageCount (filledRoom.recalledRows referenceSubstrate pairFrame)
      (max (pairFrame.limit.getD RecallStream.defaultPageSize) 1) = 2 := by
    rw [RecallStream.pageCount, hlength]
    rfl
  rw [hcount] at hpages hall
  exact ⟨hlength, hpages 3, hall 3 (by decide), hlight rfl, hstages.mpr hok⟩

end DrawerStore

end MootMemory
