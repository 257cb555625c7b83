import MootMemory.DrawerWrites

namespace MootMemory

def SourceType.fromRaw (v : Bitmap) : SourceType :=
  match v.toNat with
  | 0 => .user
  | 1 => .observed
  | 2 => .imported
  | 3 => .canonical
  | 4 => .derived
  | 5 => .federationAggregate
  | 6 => .tierAggregate
  | 7 => .pairedEstate
  | 8 => .ambient
  | 9 => .actuator
  | _ => .user

def Channel.fromRaw (v : Bitmap) : Channel :=
  match v.toNat with
  | 0 => .uiTyped
  | 1 => .uiVoiced
  | 2 => .mcpAgent
  | 3 => .fileImport
  | 4 => .apiGrounding
  | 5 => .federationInbound
  | 6 => .dreamProposal
  | 7 => .dreamAssociation
  | 8 => .dreamMiningResult
  | 15 => .deviceSensor
  | 16 => .actuatorOutcome
  | _ => .uiTyped

def Sensitivity.fromRaw (v : Bitmap) : Sensitivity :=
  match v.toNat with
  | 0 => .normal
  | 16 => .elevated
  | 32 => .restricted
  | 48 => .secret
  | _ => .normal

def CaptureChannel.fromRaw (v : Bitmap) : CaptureChannel :=
  match v.toNat with
  | 0 => .typed
  | 1 => .voiced
  | 2 => .ocr
  | 3 => .importedFile
  | 4 => .sensor
  | 5 => .actuator
  | _ => .typed

namespace Drawer

def sourceType (drawer : Drawer) : SourceType :=
  .fromRaw (extractField drawer.bitmaps.provenance 0 6)

def channel (drawer : Drawer) : Channel := .fromRaw (extractField drawer.bitmaps.provenance 6 6)

def sensitivity (drawer : Drawer) : Sensitivity :=
  .fromRaw (extractField drawer.bitmaps.provenance 30 6)

def captureChannel (drawer : Drawer) : CaptureChannel :=
  .fromRaw (extractField drawer.bitmaps.operational 0 6)

end Drawer

structure LatticeInput where
  udcPrefixHash : BitVec 16
  qidHash : BitVec 16
  qidClosureHash : BitVec 32
deriving DecidableEq, Repr

structure LineageTemporalInput where
  lineageHash : BitVec 16
  captureWeek : BitVec 8
  deferPattern : Nat
  completionBucket : Nat
  recency : Nat
deriving DecidableEq, Repr

structure ChannelSourceInput where
  channel : BitVec 8
  sourceType : BitVec 8
  captureChannel : BitVec 8
  sensitivity : BitVec 8
  estateHash : BitVec 8
  streamSources : Nat
deriving DecidableEq, Repr

/-- Four blocks of 64 bits. -/
abbrev Fingerprint256 := BitVec 256

/-- The functions of the outside libraries that derive hashes, seeds and fingerprints. -/
structure FingerprintLibrary where
  Family : Type
  hash64 : String → BitVec 64
  hash16 : String → BitVec 16
  expandSeed64 : BitVec 64 → List (BitVec 8)
  blockFamilies : List (BitVec 8) → List Family
  /-- The closure of a Wikidata id, as sorted texts. -/
  ancestors : String → List String
  simhash : BitmapFields → LatticeInput → LineageTemporalInput → ChannelSourceInput →
    List Family → Fingerprint256

/-- The hyperplane families of one estate, from its UUID. -/
structure EstateFingerprintFamilies (library : FingerprintLibrary) where
  families : List library.Family
  estateUuid : String

def captureWeekEpochSeconds : Int := 1577836800

/-- Whole weeks from the epoch to a time in milliseconds, modulo 256; zero before the epoch. -/
def captureWeekBucket (eventTime : Int) : BitVec 8 :=
  let seconds := eventTime / 1000 - captureWeekEpochSeconds
  if seconds ≤ 0 then 0 else BitVec.ofInt 8 (seconds / (7 * 86400) % 256)

/-- The hash of the first four digits of a UDC code. -/
def udcPrefixHash (library : FingerprintLibrary) (udcCode : String) : BitVec 16 :=
  library.hash16 (String.ofList ((udcCode.toList.filter fun c => '0' ≤ c ∧ c ≤ '9').take 4))

namespace EstateFingerprintFamilies

variable (library : FingerprintLibrary)

def baseSeed (estateUuid : String) : List (BitVec 8) :=
  library.expandSeed64 (library.hash64 ("GLfp-base:" ++ estateUuid))

def new (estateUuid : String) : EstateFingerprintFamilies library where
  families := library.blockFamilies (baseSeed library estateUuid)
  estateUuid := estateUuid

variable {library}

def estateUuidByte (families : EstateFingerprintFamilies library) : BitVec 8 :=
  (library.hash64 families.estateUuid).setWidth 8

def qidClosureHash (library : FingerprintLibrary) (qid : String) : BitVec 32 :=
  if library.ancestors qid = [] then 0
  else (library.hash16 ("|".intercalate (library.ancestors qid))).setWidth 32

/-- The structural fingerprint of a drawer. -/
def fingerprint (families : EstateFingerprintFamilies library) (drawer : Drawer) : Fingerprint256 :=
  library.simhash drawer.bitmaps
    { udcPrefixHash := udcPrefixHash library drawer.udcCode
      qidHash := library.hash16 (drawer.wikidataQid.getD "")
      qidClosureHash := qidClosureHash library (drawer.wikidataQid.getD "") }
    { lineageHash := library.hash16 (Uuid.text drawer.lineageId)
      captureWeek := captureWeekBucket drawer.eventTime
      deferPattern := 0
      completionBucket := 0
      recency := 0 }
    { channel := drawer.channel.rawValue.setWidth 8
      sourceType := drawer.sourceType.rawValue.setWidth 8
      captureChannel := drawer.captureChannel.rawValue.setWidth 8
      sensitivity := drawer.sensitivity.rawValue.setWidth 8
      estateHash := families.estateUuidByte
      streamSources := 0 }
    families.families

/-- Rows alike in the fields that the derivation reads have one fingerprint. -/
theorem fingerprint_congr {families : EstateFingerprintFamilies library} {drawer drawer' : Drawer}
    (hbitmaps : drawer.bitmaps = drawer'.bitmaps) (hudc : drawer.udcCode = drawer'.udcCode)
    (hqid : drawer.wikidataQid = drawer'.wikidataQid)
    (hlineage : drawer.lineageId = drawer'.lineageId)
    (htime : drawer.eventTime = drawer'.eventTime) :
    families.fingerprint drawer = families.fingerprint drawer' := by
  simp only [fingerprint, Drawer.channel, Drawer.sourceType, Drawer.captureChannel,
    Drawer.sensitivity, hbitmaps, hudc, hqid, hlineage, htime]

end EstateFingerprintFamilies

end MootMemory
