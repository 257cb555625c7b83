import MootMemory.IndexActor
import MootMemory.NamedPostings

namespace MootMemory

namespace PostingTables

/-- The rows of an item are the same in both. -/
def SameAt (itemId : String) (t t' : PostingTables) : Prop :=
  (∀ row : TermFreq, row.itemId = itemId → (row ∈ t.termFreqs.rows ↔ row ∈ t'.termFreqs.rows)) ∧
    ∀ row : DocLen, row.itemId = itemId → (row ∈ t.docLens.rows ↔ row ∈ t'.docLens.rows)

/-- The rows of an item are these. -/
def HasAt (itemId : String) (t : PostingTables) (tf : List TermFreq) (lens : List DocLen) : Prop :=
  (∀ row : TermFreq, row.itemId = itemId → (row ∈ t.termFreqs.rows ↔ row ∈ tf)) ∧
    ∀ row : DocLen, row.itemId = itemId → (row ∈ t.docLens.rows ↔ row ∈ lens)

variable {itemId : String} {t t' t'' : PostingTables} {tf : List TermFreq} {lens : List DocLen}

theorem SameAt.refl : SameAt itemId t t := ⟨fun _ _ => Iff.rfl, fun _ _ => Iff.rfl⟩

theorem SameAt.symm (h : SameAt itemId t t') : SameAt itemId t' t :=
  ⟨fun row hrow => (h.1 row hrow).symm, fun row hrow => (h.2 row hrow).symm⟩

theorem SameAt.trans (h : SameAt itemId t t') (h' : SameAt itemId t' t'') : SameAt itemId t t'' :=
  ⟨fun row hrow => (h.1 row hrow).trans (h'.1 row hrow),
    fun row hrow => (h.2 row hrow).trans (h'.2 row hrow)⟩

theorem HasAt.same (h : HasAt itemId t tf lens) (hsame : SameAt itemId t t') :
    HasAt itemId t' tf lens :=
  ⟨fun row hrow => (hsame.1 row hrow).symm.trans (h.1 row hrow),
    fun row hrow => (hsame.2 row hrow).symm.trans (h.2 row hrow)⟩

theorem HasAt.sameAt (h : HasAt itemId t tf lens) (h' : HasAt itemId t' tf lens) :
    SameAt itemId t t' :=
  ⟨fun row hrow => (h.1 row hrow).trans (h'.1 row hrow).symm,
    fun row hrow => (h.2 row hrow).trans (h'.2 row hrow).symm⟩

theorem eq_of_sameAt (h : ∀ itemId, SameAt itemId t t') : t = t' := by
  apply PostingTables.ext
  · exact RowSet.ext fun row => (h row.itemId).1 row rfl
  · exact RowSet.ext fun row => (h row.itemId).2 row rfl

/-- Rows of one item are deleted. -/
theorem sameAt_deleteTermFreqs {removed : String} (h : itemId ≠ removed) :
    SameAt itemId t
      { t with termFreqs := t.termFreqs.deleteWhere fun row => row.itemId == removed } := by
  refine ⟨fun row hrow => ?_, fun _ _ => Iff.rfl⟩
  have hne : (row.itemId == removed) = false := beq_eq_false_iff_ne.mpr (hrow ▸ h)
  rw [RowSet.mem_deleteWhere, hne]
  exact (and_iff_left rfl).symm

theorem sameAt_deleteDocLens {removed : String} (h : itemId ≠ removed) :
    SameAt itemId t
      { t with docLens := t.docLens.deleteWhere fun row => row.itemId == removed } := by
  refine ⟨fun _ _ => Iff.rfl, fun row hrow => ?_⟩
  have hne : (row.itemId == removed) = false := beq_eq_false_iff_ne.mpr (hrow ▸ h)
  rw [RowSet.mem_deleteWhere, hne]
  exact (and_iff_left rfl).symm

theorem sameAt_deleteItem {removed : String} (h : itemId ≠ removed) :
    SameAt itemId t (t.deleteItem removed) :=
  (sameAt_deleteTermFreqs h).trans (sameAt_deleteDocLens h)

theorem hasAt_deleteItem (itemId : String) (t : PostingTables) :
    HasAt itemId (t.deleteItem itemId) [] [] := by
  refine ⟨fun row hrow => ?_, fun row hrow => ?_⟩
  · rw [deleteItem, RowSet.mem_deleteWhere, hrow]
    simp
  · rw [deleteItem, RowSet.mem_deleteWhere, hrow]
    simp

theorem sameAt_putTermFreq {row : TermFreq} (h : itemId ≠ row.itemId) :
    SameAt itemId t { t with termFreqs := t.termFreqs.replace row } := by
  refine ⟨fun row' hrow' => ?_, fun _ _ => Iff.rfl⟩
  have hitem : row'.itemId ≠ row.itemId := hrow' ▸ h
  rw [RowSet.mem_replace]
  constructor
  · exact fun hmem => Or.inr ⟨hmem, fun hkey => hitem (congrArg Prod.snd hkey)⟩
  · rintro (rfl | ⟨hmem, -⟩)
    · exact absurd rfl hitem
    · exact hmem

theorem sameAt_putDocLen {row : DocLen} (h : itemId ≠ row.itemId) :
    SameAt itemId t { t with docLens := t.docLens.replace row } := by
  refine ⟨fun _ _ => Iff.rfl, fun row' hrow' => ?_⟩
  have hitem : row'.itemId ≠ row.itemId := hrow' ▸ h
  rw [RowSet.mem_replace]
  constructor
  · exact fun hmem => Or.inr ⟨hmem, hitem⟩
  · rintro (rfl | ⟨hmem, -⟩)
    · exact absurd rfl hitem
    · exact hmem

end PostingTables

namespace IndexedItem

variable (item : IndexedItem)

def docLen : DocLen := ⟨item.itemId, item.tokens.length⟩

theorem itemId_of_mem_tf {row : TermFreq} (h : row ∈ item.tf) : row.itemId = item.itemId :=
  (mem_termFreqsOf.mp (item.perm.mem_iff.mp h)).1

theorem key_inj_of_mem_tf {a b : TermFreq} (ha : a ∈ item.tf) (hb : b ∈ item.tf)
    (h : a.key = b.key) : a = b := by
  obtain ⟨hid, -, hfreq⟩ := mem_termFreqsOf.mp (item.perm.mem_iff.mp ha)
  obtain ⟨hid', -, hfreq'⟩ := mem_termFreqsOf.mp (item.perm.mem_iff.mp hb)
  have hterm : a.term = b.term := congrArg Prod.fst h
  cases a
  cases b
  simp only at hid hid' hfreq hfreq' hterm
  rw [hterm, hid, hid', hfreq, hfreq', hterm]

end IndexedItem

namespace IndexTask

/-- The item that a task puts into the index, once it has taken its first step. -/
def item? : IndexTask → Option IndexedItem
  | .deleteDocLens (.index item) | .deleted (.index item) | .putTermFreq item _ _ | .putDocLen item
  | .indexed item => some item
  | _ => none

def itemId? (task : IndexTask) : Option String := task.item?.map (·.itemId)

/-- How many mutations there had been when a build that has begun to read began. -/
def builtFrom? : IndexTask → Option Nat
  | .loadTermFreqs _ builtFrom | .loadDocLengths _ builtFrom _ | .publish _ builtFrom _ =>
    some builtFrom
  | _ => none

/-- A task that has changed no table: it is at its first step, or reads. -/
def Clean : IndexTask → Prop
  | .deleteTermFreqs _ | .buildIndex _ | .loadTermFreqs _ _ | .loadDocLengths _ _ _ | .publish _ _ _ => True
  | _ => False

/-- What a build has read is what the tables have. -/
def ReadWell (tables : PostingTables) : IndexTask → Prop
  | .loadDocLengths _ _ termFreqs => termFreqs = tables.termFreqs
  | .publish _ _ loaded => loaded = tables
  | _ => True

/-- Some of an item's frequencies are put, and nothing of it is in memory. -/
def Putting (tables maps : PostingTables) (item : IndexedItem) (rest : List TermFreq) : Prop :=
  ∃ put, item.tf = put ++ rest ∧ tables.HasAt item.itemId put [] ∧ maps.HasAt item.itemId [] []

/-- How far an item has come, where it is in memory too. -/
def Stage (tables maps : PostingTables) : IndexTask → Prop
  | .deleteDocLens (.index item) => ∀ row ∈ tables.termFreqs.rows, row.itemId ≠ item.itemId
  | .deleted (.index item) => tables.HasAt item.itemId [] []
  | .putTermFreq item row rest => Putting tables maps item (row :: rest)
  | .putDocLen item => Putting tables maps item []
  | .indexed item =>
    tables.HasAt item.itemId item.tf [item.docLen] ∧ maps.HasAt item.itemId [] []
  | _ => True

variable {tables maps tables' maps' : PostingTables} {task : IndexTask}

theorem stage_putTermFreqs {item : IndexedItem} {rest : List TermFreq} :
    Stage tables maps (putTermFreqs item rest) ↔ Putting tables maps item rest := by
  cases rest with
  | nil => exact Iff.rfl
  | cons row rest => exact Iff.rfl

theorem item?_putTermFreqs {item : IndexedItem} {rest : List TermFreq} :
    (putTermFreqs item rest).item? = some item := by
  cases rest with
  | nil => rfl
  | cons row rest => rfl

/-- It looks at the item's rows only. -/
theorem Stage.same (h : Stage tables maps task)
    (hsame : ∀ itemId ∈ task.itemId?, tables.SameAt itemId tables' ∧ maps.SameAt itemId maps') :
    Stage tables' maps' task := by
  have hputting : ∀ {item rest}, item.itemId ∈ task.itemId? → Putting tables maps item rest →
      Putting tables' maps' item rest := by
    rintro item rest hitem ⟨put, hput, htables, hmaps⟩
    obtain ⟨hsame, hsame'⟩ := hsame _ hitem
    exact ⟨put, hput, htables.same hsame, hmaps.same hsame'⟩
  cases task with
  | deleteDocLens deletion =>
    cases deletion with
    | index item =>
      intro row hrow hitem
      have hold := ((hsame _ rfl).1.1 row hitem).mpr hrow
      exact h row hold hitem
    | remove itemId => trivial
    | deleteAll => trivial
  | deleted deletion =>
    cases deletion with
    | index item => exact PostingTables.HasAt.same h (hsame _ rfl).1
    | remove itemId => trivial
    | deleteAll => trivial
  | putTermFreq item row rest => exact hputting rfl h
  | putDocLen item => exact hputting rfl h
  | indexed item => exact ⟨h.1.same (hsame _ rfl).1, h.2.same (hsame _ rfl).2⟩
  | _ => trivial

theorem stage_of_item?_eq_none (h : task.item? = none) : Stage tables maps task := by
  cases task with
  | deleteDocLens deletion =>
    cases deletion with
    | index item => cases h
    | remove itemId => trivial
    | deleteAll => trivial
  | deleted deletion =>
    cases deletion with
    | index item => cases h
    | remove itemId => trivial
    | deleteAll => trivial
  | putTermFreq item row rest => cases h
  | putDocLen item => cases h
  | indexed item => cases h
  | _ => trivial

end IndexTask

end MootMemory
