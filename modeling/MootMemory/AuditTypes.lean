import MootMemory.DrawerTypes
import Mathlib.Data.Prod.Lex

namespace MootMemory

/-- A hybrid logical clock stamp. -/
structure Hlc where
  physicalTime : Int
  logicalCount : Nat
  nodeId : Nat
deriving DecidableEq, Repr

/-- Stamps are ordered by physical time, then by logical count, then by node. -/
def Hlc.key (stamp : Hlc) : Int ×ₗ Nat ×ₗ Nat :=
  toLex (stamp.physicalTime, toLex (stamp.logicalCount, stamp.nodeId))

theorem Hlc.key_injective : Function.Injective Hlc.key := by
  rintro ⟨_, _, _⟩ ⟨_, _, _⟩ h
  cases h
  rfl

instance : LinearOrder Hlc := LinearOrder.lift' Hlc.key Hlc.key_injective

theorem Hlc.lt_iff {a b : Hlc} : a < b ↔ a.physicalTime < b.physicalTime ∨
    a.physicalTime = b.physicalTime ∧ (a.logicalCount < b.logicalCount ∨
      a.logicalCount = b.logicalCount ∧ a.nodeId < b.nodeId) := by
  rw [show a < b ↔ a.key < b.key from Iff.rfl, Hlc.key, Hlc.key, Prod.Lex.toLex_lt_toLex,
    Prod.Lex.toLex_lt_toLex]

theorem Hlc.le_iff {a b : Hlc} : a ≤ b ↔ a.physicalTime < b.physicalTime ∨
    a.physicalTime = b.physicalTime ∧ (a.logicalCount < b.logicalCount ∨
      a.logicalCount = b.logicalCount ∧ a.nodeId ≤ b.nodeId) := by
  rw [show a ≤ b ↔ a.key ≤ b.key from Iff.rfl, Hlc.key, Hlc.key, Prod.Lex.toLex_le_toLex,
    Prod.Lex.toLex_le_toLex]

/-- A clock and the last stamp it gave out. -/
structure HlcGenerator where
  physicalTime : Int
  logicalCount : Nat
  nodeId : Nat
deriving DecidableEq, Repr

def HlcGenerator.new (nodeId : Nat) : HlcGenerator := ⟨0, 0, nodeId⟩

def HlcGenerator.stamp (clock : HlcGenerator) : Hlc :=
  ⟨clock.physicalTime, clock.logicalCount, clock.nodeId⟩

inductive AuditColumn where
  | adjective
  | operational
  | provenance
deriving DecidableEq, Repr

def BitmapFields.get (fields : BitmapFields) : AuditColumn → Bitmap
  | .adjective => fields.adjective
  | .operational => fields.operational
  | .provenance => fields.provenance

def BitmapFields.set (fields : BitmapFields) (column : AuditColumn) (value : Bitmap) :
    BitmapFields :=
  match column with
  | .adjective => { fields with adjective := value }
  | .operational => { fields with operational := value }
  | .provenance => { fields with provenance := value }

/-- A declared field of a column; `legal` lists its values where it has a fixed set. -/
structure FieldSlot where
  column : AuditColumn
  shift : Nat
  width : Nat
  name : String
  legal : Option (List Nat)
deriving DecidableEq, Repr

def FieldSlot.withValues (column : AuditColumn) (shift width : Nat) (name : String)
    (legal : List Nat) : FieldSlot := ⟨column, shift, width, name, some legal⟩

def FieldSlot.new (column : AuditColumn) (shift width : Nat) (name : String) : FieldSlot :=
  ⟨column, shift, width, name, none⟩

structure FieldWrite where
  slot : FieldSlot
  value : Bitmap
deriving DecidableEq, Repr

inductive RowVerb where
  | capture
  | mutate
  | observe
  | reject
  | contest
  | resolveContest
  | promote
  | supersede
  | decay
  | retract
  | expire
  | tombstone
deriving DecidableEq, Repr

/-- The packed lattice position that an audit event carries. -/
structure AuditAnchor where
  udcCode : Nat
  qidPointer : Nat
deriving DecidableEq, Repr

structure AuditEvent where
  eventId : Uuid
  estateUuid : Uuid
  rowId : Uuid
  hlc : Hlc
  verb : String
  beforeBitmaps : Option BitmapFields
  afterBitmaps : BitmapFields
  beforeLatticeAnchor : Option AuditAnchor
  afterLatticeAnchor : AuditAnchor
  actor : String
  reason : Option String
deriving DecidableEq, Repr

/-- What a write asks of the gate; noun and vocabulary are the same for every drawer write. -/
structure AdmitRequest where
  estateUuid : Uuid
  rowId : Uuid
  verb : RowVerb
  prior : Option BitmapFields
  priorLatticeAnchor : Option AuditAnchor
  writes : List FieldWrite
  afterLatticeAnchor : AuditAnchor
  stamp : Hlc
  actor : String
deriving DecidableEq, Repr

/-- The functions the kit calls in libraries outside its own source. -/
structure Substrate where
  basis : List FieldSlot
  gateAdmit : AdmitRequest → Except String AuditEvent
  contentId : Uuid → Uuid → Hlc → String → BitmapFields → AuditAnchor → Uuid
  udcAnchor : String → AuditAnchor
  udcQidAnchor : String → String → AuditAnchor
  send : HlcGenerator → Int → Hlc × HlcGenerator
  projectStateAt : Uuid → List AuditEvent → Hlc → Option BitmapFields
  parseUuid : String → Option Uuid
  hash32 : String → Nat
  nfc : String → String
  toLowercase : String → String

def validateNonEmpty (value label : String) : Except LocusKitError Unit :=
  if value = "" then .error (.invalidContent (label ++ " must not be empty")) else .ok ()

def requireUuid (substrate : Substrate) (s label : String) : Except LocusKitError Uuid :=
  match substrate.parseUuid s with
  | some uuid => .ok uuid
  | none => .error (.invalidContent (label ++ " is not a UUID: " ++ s))

end MootMemory
