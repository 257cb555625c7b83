import MootMemory.AuditTypes
import MootMemory.TieredFormula
import MootMemory.BitField
import MootMemory.BitCount

namespace MootMemory

inductive StateCluster where
  | knowNow
  | knewPast
  | terminal
deriving DecidableEq, Repr

inductive HydrationLevel where
  | structured
  | full
  | bitmapOnly
deriving DecidableEq, Repr

inductive RecallOrdering where
  | byCaptureTimeDesc
  | byCaptureTimeAsc
  | byRoomAsc
deriving DecidableEq, Repr

/-- The cases of a filter that hold no other filter. -/
inductive FilterLeaf where
  | currentlyBelieve
  | usedToBelieve
  | knewOnceAndErased
  | state (s : State)
  | stateInCluster (c : StateCluster)
  | trustworthy
  | requiresConfirmation
  | trust (t : Trust)
  | trustAtMost (t : Trust)
  | sensitivity (s : AdjectiveSensitivity)
  | sensitivityAtMost (s : AdjectiveSensitivity)
  | exportable
  | contained
  | userConfirmed
  | automatedConfirmedOnly
  | unconfirmed
  | sourceType (s : SourceType)
  | channel (c : Channel)
  | confidenceAtLeast (c : Confidence)
  | captureChannel (c : CaptureChannel)
  | contentKind (k : ContentKind)
  | hasFeatureFlag (flag : Bitmap)
  | inRoom (room : String)
  | inWing (wing : String)
  | lineageId (l : Uuid)
  | createdAfter (d : Int)
  | createdBefore (d : Int)
  | latticeAnchor (a : LatticeAnchor)
  | latticeUnder (p : String)
  | wikidataConcept (q : String)
  | contentMatches (s : String)
deriving DecidableEq, Repr

/-- `All`, `Any` and `Not` over the other cases. -/
abbrev Filter := Formula FilterLeaf

inductive Tier where
  | bitmap
  | structured
  | content
deriving DecidableEq, Repr

/-- The stage of the evaluation that decides a leaf. -/
def FilterLeaf.tier : FilterLeaf → Tier
  | .inRoom _ | .inWing _ | .lineageId _ | .createdAfter _ | .createdBefore _
  | .latticeAnchor _ | .latticeUnder _ | .wikidataConcept _ => .structured
  | .contentMatches _ => .content
  | _ => .bitmap

structure RecallFrame where
  filterChain : List Filter
  hydrationLevel : HydrationLevel
  limit : Option Nat
  ordering : RecallOrdering
  asOf : Option Hlc

/-- The wing and room of a parent node. -/
abbrev NodeNames := String → Option (String × String)

def popcount (mask : Bitmap) : Nat := bitCount 64 mask.toNat

/-- The field under the mask equals `expected`, which stands at the field's own position. -/
def andMask (bitmap mask expected : Bitmap) : Bool := bitmap &&& mask == expected

inductive ThresholdOp where
  | lessThan
  | lessThanOrEqual
  | greaterThanOrEqual
deriving DecidableEq, Repr

def thresholdCompare (bitmap mask : Bitmap) (shift : Nat) (op : ThresholdOp) (value : Bitmap) :
    Bool :=
  let field := if mask = 0 then 0 else extractField bitmap shift (popcount mask)
  match op with
  | .lessThan => field.toInt < value.toInt
  | .lessThanOrEqual => field.toInt ≤ value.toInt
  | .greaterThanOrEqual => value.toInt ≤ field.toInt

/-- The field of the mask's width from bit `shift` up. -/
def shiftExtract (bitmap : Bitmap) (shift : Nat) (mask : Bitmap) : Bitmap :=
  if mask = 0 then 0 else extractField bitmap shift (popcount mask)

def adjStateMask : Bitmap := 0x3F
def adjSensMask : Bitmap := 0x3F <<< 6
def adjExportMask : Bitmap := 0x3F <<< 12
def adjTrustMask : Bitmap := 0x3F <<< 18
def stateClusterMask : Bitmap := 0x3
def stateTombstone : Bitmap := 33
def trustThreshold : Bitmap := 4
def provSourceMask : Bitmap := 0x3F
def provChannelMask : Bitmap := 0xFC0
def provConfirmMask : Bitmap := 0xFC0000
def provConfidenceMask : Bitmap := 0x3F000000
def provUserConfirmed : Bitmap := 1
def opChannelMask : Bitmap := 0x3F
def opContentKindMask : Bitmap := 0xFC0

/-- 0 for cluster A, 1 for cluster B, 2 for cluster C. -/
def stateCluster (fields : BitmapFields) : Bitmap :=
  shiftExtract fields.adjective 4 stateClusterMask

/-- The leaf cases of `evaluate_one`; leaves of the other tiers pass. -/
def evaluateBitmapLeaf (fields : BitmapFields) : FilterLeaf → Bool
  | .currentlyBelieve => stateCluster fields == 0
  | .usedToBelieve => stateCluster fields == 1
  | .knewOnceAndErased => stateCluster fields == 2
  | .state s => andMask fields.adjective adjStateMask s.rawValue
  | .stateInCluster .knowNow => stateCluster fields == 0
  | .stateInCluster .knewPast => stateCluster fields == 1
  | .stateInCluster .terminal => stateCluster fields == 2
  | .trustworthy => thresholdCompare fields.adjective adjTrustMask 18 .lessThan trustThreshold
  | .requiresConfirmation =>
    thresholdCompare fields.adjective adjTrustMask 18 .greaterThanOrEqual trustThreshold
  | .trust t => andMask fields.adjective adjTrustMask (t.rawValue <<< 18)
  | .trustAtMost t =>
    thresholdCompare fields.adjective adjTrustMask 18 .lessThanOrEqual t.rawValue
  | .sensitivity s => andMask fields.adjective adjSensMask (s.rawValue <<< 6)
  | .sensitivityAtMost s =>
    thresholdCompare fields.adjective adjSensMask 6 .lessThanOrEqual s.rawValue
  | .exportable =>
    andMask fields.adjective adjExportMask (AdjectiveExportability.public.rawValue <<< 12)
  | .contained =>
    andMask fields.adjective adjExportMask (AdjectiveExportability.private.rawValue <<< 12)
  | .userConfirmed =>
    thresholdCompare fields.provenance provConfirmMask 18 .greaterThanOrEqual provUserConfirmed
  | .automatedConfirmedOnly =>
    andMask fields.provenance provConfirmMask (Confirmation.automatedConfirmed.rawValue <<< 18)
  | .unconfirmed => andMask fields.provenance provConfirmMask 0
  | .sourceType s => andMask fields.provenance provSourceMask (s.rawValue <<< 0)
  | .confidenceAtLeast c =>
    thresholdCompare fields.provenance provConfidenceMask 24 .greaterThanOrEqual c.rawValue
  | .channel c => andMask fields.provenance provChannelMask (c.rawValue <<< 6)
  | .captureChannel c => andMask fields.operational opChannelMask (c.rawValue <<< 0)
  | .contentKind k => andMask fields.operational opContentKindMask (k.rawValue <<< 6)
  | .hasFeatureFlag flag => fields.operational &&& flag != 0
  | _ => true

def evaluateOne (filter : Filter) (fields : BitmapFields) : Bool :=
  filter.holds (evaluateBitmapLeaf fields)

def isTombstonedField (fields : BitmapFields) : Bool :=
  shiftExtract fields.adjective 0 adjStateMask == stateTombstone

def evaluateBitmapTier (chain : List Filter) (fields : BitmapFields) : Bool :=
  if isTombstonedField fields then false else chain.all fun f => evaluateOne f fields

/-- The text has the needle somewhere in it. -/
def containsText (text needle : String) : Bool := decide (needle.toList <:+: text.toList)

/-- The leaf cases of `evaluate_structured`; leaves of the other tiers pass. -/
def evaluateStructuredLeaf (drawer : Drawer) (nodeNames : NodeNames) : FilterLeaf → Bool
  | .inRoom r => ((nodeNames drawer.parentNodeId).getD ("", "")).2 == r
  | .inWing w => ((nodeNames drawer.parentNodeId).getD ("", "")).1 == w
  | .lineageId l => drawer.lineageId == l
  | .createdAfter d => d < drawer.filedAt
  | .createdBefore d => drawer.filedAt < d
  | .latticeAnchor a => drawer.udcCode == a.udcCode
  | .latticeUnder p => p.toList.isPrefixOf drawer.udcCode.toList
  | .wikidataConcept q =>
    drawer.wikidataQid == some q ||
      match drawer.wikidataQidsSecondary with
      | some secondary => containsText ("," ++ secondary ++ ",") ("," ++ q ++ ",")
      | none => false
  | _ => true

def isStructuralLeaf (leaf : FilterLeaf) : Bool := leaf.tier == .structured

def isStructuralFilter (filter : Filter) : Bool := filter.mentions isStructuralLeaf

/-- Composite filters ask only the parts that name a structured concern. -/
def evaluateStructured (filter : Filter) (drawer : Drawer) (nodeNames : NodeNames) : Bool :=
  filter.holdsOf isStructuralLeaf (evaluateStructuredLeaf drawer nodeNames)

def evaluateStructuredTier (chain : List Filter) (drawer : Drawer) (nodeNames : NodeNames) :
    Bool := chain.all fun f => evaluateStructured f drawer nodeNames

def isContentLeaf (leaf : FilterLeaf) : Bool := leaf.tier == .content

def isContentFilter (filter : Filter) : Bool := filter.mentions isContentLeaf

/-- The leaf cases of `evaluate_content`; leaves of the other tiers pass. -/
def evaluateContentLeaf (toLowercase : String → String) (drawer : Drawer) : FilterLeaf → Bool
  | .contentMatches s => containsText (toLowercase drawer.content) (toLowercase s)
  | _ => true

def evaluateContent (toLowercase : String → String) (filter : Filter) (drawer : Drawer) : Bool :=
  filter.holdsOf isContentLeaf (evaluateContentLeaf toLowercase drawer)

def evaluateContentTier (toLowercase : String → String) (chain : List Filter) (drawer : Drawer) :
    Bool := chain.all fun f => evaluateContent toLowercase f drawer

def isBitmapStateFilter (filter : Filter) : Bool :=
  filter.mentions fun
    | .currentlyBelieve | .usedToBelieve | .knewOnceAndErased | .state _ | .stateInCluster _ => true
    | _ => false

def isBitmapTrustFilter (filter : Filter) : Bool :=
  filter.mentions fun
    | .trustworthy | .requiresConfirmation | .trust _ | .trustAtMost _ => true
    | _ => false

def isSensitivityLeaf : FilterLeaf → Bool
  | .sensitivity _ | .sensitivityAtMost _ => true
  | _ => false

def isBitmapSensitivityFilter (filter : Filter) : Bool := filter.mentions isSensitivityLeaf

/-- Puts a default in front of the chain where no filter covers its concern. -/
def insertDefault (covers : Filter → Bool) (default : FilterLeaf) (chain result : List Filter) :
    List Filter :=
  if chain.any covers then result else .leaf default :: result

def insertDefaults (chain : List Filter) : List Filter :=
  insertDefault isBitmapSensitivityFilter (.sensitivityAtMost .elevated) chain <|
    insertDefault isBitmapTrustFilter .trustworthy chain <|
      insertDefault isBitmapStateFilter .currentlyBelieve chain chain

/-- The bitmaps a row had at a past stamp, if it had events by then. -/
def reconstructAt (substrate : Substrate) (auditLog : List AuditEvent) (rowId : String)
    (asOf : Hlc) : Except LocusKitError (Option BitmapFields) := do
  let uuid ← requireUuid substrate rowId "rowID"
  return substrate.projectStateAt uuid (auditLog.filter (·.rowId == uuid)) asOf

def bitmapsAt (substrate : Substrate) (auditLog : List AuditEvent) (asOf : Option Hlc)
    (drawer : Drawer) : Except LocusKitError (Option BitmapFields) :=
  match asOf with
  | some stamp => reconstructAt substrate auditLog drawer.id stamp
  | none => .ok (some drawer.bitmaps)

/-- The rows that pass the bitmap tier; rows without a state at the asked time are skipped. -/
def bitmapCandidates (substrate : Substrate) (auditLog : List AuditEvent) (asOf : Option Hlc)
    (chain : List Filter) : List Drawer → Except LocusKitError (List Drawer)
  | [] => .ok []
  | drawer :: rest => do
    let fields ← bitmapsAt substrate auditLog asOf drawer
    let candidates ← bitmapCandidates substrate auditLog asOf chain rest
    return match fields with
      | some fields =>
        if evaluateBitmapTier chain fields then drawer :: candidates else candidates
      | none => candidates

/-- The name of a drawer's room, empty when the node tree does not hold its parent. -/
def roomName (nodeNames : NodeNames) (drawer : Drawer) : String :=
  ((nodeNames drawer.parentNodeId).map (·.2)).getD ""

/-- Whether a drawer may stand before another; ties go to the smaller id. -/
def RecallOrdering.precedes (nodeNames : NodeNames) (a b : Drawer) : RecallOrdering → Bool
  | .byCaptureTimeDesc => b.filedAt < a.filedAt || (a.filedAt == b.filedAt && a.id ≤ b.id)
  | .byCaptureTimeAsc => a.filedAt < b.filedAt || (a.filedAt == b.filedAt && a.id ≤ b.id)
  | .byRoomAsc => roomName nodeNames a < roomName nodeNames b ||
      (roomName nodeNames a == roomName nodeNames b && a.id ≤ b.id)

def sortDrawers (drawers : List Drawer) (ordering : RecallOrdering) (nodeNames : NodeNames) :
    List Drawer := drawers.mergeSort fun a b => ordering.precedes nodeNames a b

/-- `BitmapEvaluator::evaluate` over the rows and the audit log of a store. -/
def evaluate (substrate : Substrate) (frame : RecallFrame) (drawers : List Drawer)
    (auditLog : List AuditEvent) (nodeNames : NodeNames) : Except LocusKitError (List Drawer) := do
  let chain := insertDefaults frame.filterChain
  let candidates ← bitmapCandidates substrate auditLog frame.asOf chain drawers
  let structured := candidates.filter fun d => evaluateStructuredTier chain d nodeNames
  let result := structured.filter fun d => evaluateContentTier substrate.toLowercase chain d
  return sortDrawers result frame.ordering nodeNames

mutual

/-- The fingerprint proves that no row of the container satisfies the filter. -/
def containerProvablyExcludes (fp : BitmapFields) : Filter → Bool
  | .leaf (.hasFeatureFlag flag) => fp.operational &&& flag == 0
  | .leaf _ => false
  | .all fs => someProvablyExcluded fp fs
  | .any fs => !fs.isEmpty && allProvablyExcluded fp fs
  | .not _ => false

def someProvablyExcluded (fp : BitmapFields) : List Filter → Bool
  | [] => false
  | f :: fs => containerProvablyExcludes fp f || someProvablyExcluded fp fs

def allProvablyExcluded (fp : BitmapFields) : List Filter → Bool
  | [] => true
  | f :: fs => containerProvablyExcludes fp f && allProvablyExcluded fp fs

end

def containerSurvives (chain : List Filter) (fp : BitmapFields) : Bool :=
  !chain.any (containerProvablyExcludes fp)

def chainHasPrunableFilter (chain : List Filter) : Bool :=
  chain.any <| Formula.mentions fun
    | .hasFeatureFlag _ => true
    | _ => false

def chainHasContentPredicate (chain : List Filter) : Bool := chain.any isContentFilter

end MootMemory
