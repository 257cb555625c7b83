import MootMemory.AuditTypes

namespace MootMemory

/-- The operational and provenance slots; flag fields have no value set. -/
def unionSlots : List FieldSlot := [
  .withValues .operational 0 6 "capture_channel" [0, 1, 2, 3, 4, 5],
  .withValues .operational 6 6 "content_kind" [0, 1, 2, 3, 4, 5, 6, 7],
  .new .operational 12 12 "feature_flags",
  .new .operational 24 1 "state_extension",
  .new .operational 25 1 "lineage_clustering",
  .withValues .provenance 0 6 "source_type" [0, 1, 2, 3, 4, 5, 6, 7, 8, 9],
  .withValues .provenance 6 6 "channel" [0, 1, 2, 3, 4, 5, 6, 7, 8, 15, 16],
  .withValues .provenance 12 6 "prov_capture_channel" [0, 1, 2, 3, 4, 5],
  .withValues .provenance 18 6 "confirmation" [0, 1, 2, 3, 4],
  .withValues .provenance 24 6 "confidence" [0, 16, 32, 48, 56],
  .withValues .provenance 30 6 "sensitivity_at_capture" [0, 16, 32, 48],
  .withValues .provenance 36 6 "enrichment_status" [0, 1, 2, 3, 4]]

/-- The slot that only state transitions and captures write. -/
def stateSlot : FieldSlot :=
  .withValues .adjective 0 6 "state" [0, 1, 2, 3, 16, 17, 18, 19, 32, 33]

def flagsSlot : FieldSlot := .new .adjective 24 3 "flags"

def FieldSlot.isState (slot : FieldSlot) : Bool := slot.column == .adjective && slot.shift == 0

/-- Reads the value of a slot out of a column. -/
def FieldSlot.write (slot : FieldSlot) (columnValue : Bitmap) : FieldWrite :=
  ⟨slot, extractField columnValue slot.shift slot.width⟩

/-- The slots a field edit of the column may write. -/
def editableSlots (substrate : Substrate) : AuditColumn → List FieldSlot
  | .adjective => substrate.basis.filter fun slot => !slot.isState
  | .operational => unionSlots.filter (·.column == .operational)
  | .provenance => unionSlots.filter (·.column == .provenance)

/-- The slots a capture writes: of the basis those of the adjective column, the state included,
then those of the union. -/
def captureSlots (substrate : Substrate) : List FieldSlot :=
  substrate.basis.filter (·.column == .adjective) ++
    unionSlots.filter fun slot => slot.column == .operational || slot.column == .provenance

def captureWrites (substrate : Substrate) (bitmaps : BitmapFields) : List FieldWrite :=
  (captureSlots substrate).map fun slot => slot.write (bitmaps.get slot.column)

end MootMemory
