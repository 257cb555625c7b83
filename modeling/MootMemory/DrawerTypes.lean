import MootMemory.BitField
import Mathlib.Data.String.Basic

namespace MootMemory

inductive State where
  | active
  | pending
  | contested
  | accepted
  | superseded
  | decayed
  | withdrawn
  | expired
  | rejected
  | tombstoned
deriving DecidableEq, Repr

def State.rawValue : State → Bitmap
  | .active => 0
  | .pending => 1
  | .contested => 2
  | .accepted => 3
  | .superseded => 16
  | .decayed => 17
  | .withdrawn => 18
  | .expired => 19
  | .rejected => 32
  | .tombstoned => 33

/-- Values that name no state are read as active. -/
def State.fromRaw (v : Bitmap) : State :=
  match v.toNat with
  | 0 => .active
  | 1 => .pending
  | 2 => .contested
  | 3 => .accepted
  | 16 => .superseded
  | 17 => .decayed
  | 18 => .withdrawn
  | 19 => .expired
  | 32 => .rejected
  | 33 => .tombstoned
  | _ => .active

@[simp] theorem State.fromRaw_rawValue (state : State) : State.fromRaw state.rawValue = state := by
  cases state <;> rfl

theorem State.rawValue_lowMask (state : State) :
    state.rawValue &&& lowMask 6 = state.rawValue := by
  cases state <;> decide

inductive Trust where
  | verbatim
  | observed
  | imported
  | canonical
  | derived
  | proposed
  | ambient
deriving DecidableEq, Repr

def Trust.rawValue : Trust → Bitmap
  | .verbatim => 0
  | .observed => 1
  | .imported => 2
  | .canonical => 3
  | .derived => 4
  | .proposed => 5
  | .ambient => 6

def Trust.fromRaw (v : Bitmap) : Trust :=
  match v.toNat with
  | 0 => .verbatim
  | 1 => .observed
  | 2 => .imported
  | 3 => .canonical
  | 4 => .derived
  | 5 => .proposed
  | 6 => .ambient
  | _ => .verbatim

inductive AdjectiveSensitivity where
  | normal
  | elevated
  | restricted
  | secret
deriving DecidableEq, Repr

def AdjectiveSensitivity.rawValue : AdjectiveSensitivity → Bitmap
  | .normal => 0
  | .elevated => 16
  | .restricted => 32
  | .secret => 48

inductive AdjectiveExportability where
  | «private»
  | «public»
deriving DecidableEq, Repr

def AdjectiveExportability.rawValue : AdjectiveExportability → Bitmap
  | .private => 0
  | .public => 32

inductive SourceType where
  | user
  | observed
  | imported
  | canonical
  | derived
  | federationAggregate
  | tierAggregate
  | pairedEstate
  | ambient
  | actuator
deriving DecidableEq, Repr

def SourceType.rawValue : SourceType → Bitmap
  | .user => 0
  | .observed => 1
  | .imported => 2
  | .canonical => 3
  | .derived => 4
  | .federationAggregate => 5
  | .tierAggregate => 6
  | .pairedEstate => 7
  | .ambient => 8
  | .actuator => 9

inductive Channel where
  | uiTyped
  | uiVoiced
  | mcpAgent
  | fileImport
  | apiGrounding
  | federationInbound
  | dreamProposal
  | dreamAssociation
  | dreamMiningResult
  | deviceSensor
  | actuatorOutcome
deriving DecidableEq, Repr

def Channel.rawValue : Channel → Bitmap
  | .uiTyped => 0
  | .uiVoiced => 1
  | .mcpAgent => 2
  | .fileImport => 3
  | .apiGrounding => 4
  | .federationInbound => 5
  | .dreamProposal => 6
  | .dreamAssociation => 7
  | .dreamMiningResult => 8
  | .deviceSensor => 15
  | .actuatorOutcome => 16

inductive Confirmation where
  | unconfirmed
  | userConfirmed
  | automatedConfirmed
  | peerConfirmed
  | actuatorConfirmed
deriving DecidableEq, Repr

def Confirmation.rawValue : Confirmation → Bitmap
  | .unconfirmed => 0
  | .userConfirmed => 1
  | .automatedConfirmed => 2
  | .peerConfirmed => 3
  | .actuatorConfirmed => 4

inductive Confidence where
  | null
  | low
  | medium
  | high
  | verified
deriving DecidableEq, Repr

def Confidence.rawValue : Confidence → Bitmap
  | .null => 0
  | .low => 16
  | .medium => 32
  | .high => 48
  | .verified => 56

inductive Sensitivity where
  | normal
  | elevated
  | restricted
  | secret
deriving DecidableEq, Repr

def Sensitivity.rawValue : Sensitivity → Bitmap
  | .normal => 0
  | .elevated => 16
  | .restricted => 32
  | .secret => 48

inductive CaptureChannel where
  | typed
  | voiced
  | ocr
  | importedFile
  | sensor
  | actuator
deriving DecidableEq, Repr

def CaptureChannel.rawValue : CaptureChannel → Bitmap
  | .typed => 0
  | .voiced => 1
  | .ocr => 2
  | .importedFile => 3
  | .sensor => 4
  | .actuator => 5

inductive ContentKind where
  | prose
  | code
  | transcript
  | list
  | structuredJson
  | imageCaption
  | fingerprintOnly
  | dataset
deriving DecidableEq, Repr

def ContentKind.rawValue : ContentKind → Bitmap
  | .prose => 0
  | .code => 1
  | .transcript => 2
  | .list => 3
  | .structuredJson => 4
  | .imageCaption => 5
  | .fingerprintOnly => 6
  | .dataset => 7

/-- The bits 12 to 23 of the operational column. -/
def DrawerFeatureFlags.fieldMask : Bitmap := 0xFFF000

abbrev Uuid := BitVec 128

structure LatticeAnchor where
  udcCode : String
  udcFacets : Option String
  wikidataQid : Option String
  wikidataQidsSecondary : Option String
deriving DecidableEq, Repr

/-- The three packed columns of a drawer. -/
structure BitmapFields where
  adjective : Bitmap
  operational : Bitmap
  provenance : Bitmap
deriving DecidableEq, Repr

structure Drawer where
  id : String
  lineageId : Uuid
  content : String
  parentNodeId : String
  addedBy : String
  filedAt : Int
  eventTime : Int
  embeddingModelId : String
  tombstonedAt : Option Int
  bitmaps : BitmapFields
  udcCode : String
  udcFacets : Option String
  wikidataQid : Option String
  wikidataQidsSecondary : Option String
deriving DecidableEq, Repr

/-- The state field, the generated column `g_state_cluster`. -/
def Drawer.stateRaw (drawer : Drawer) : Bitmap := extractField drawer.bitmaps.adjective 0 6

def Drawer.state (drawer : Drawer) : State := State.fromRaw drawer.stateRaw

inductive LocusKitError where
  | databaseUnavailable (message : String)
  | drawerNotFound (id : String)
  | invalidContent (message : String)
  | disciplineViolation (source target : Bitmap) (reason : String)
  | corruptStoredValue (table column storedText : String)
deriving DecidableEq, Repr

end MootMemory
