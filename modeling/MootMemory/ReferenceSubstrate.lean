import MootMemory.AuditTypes
import MootMemory.ContainerFingerprints

namespace MootMemory

/-- Each write puts its value into its slot. -/
def BitmapFields.applyWrites (fields : BitmapFields) (writes : List FieldWrite) : BitmapFields :=
  writes.foldl (fun acc w =>
    acc.set w.slot.column (writeField w.value (acc.get w.slot.column) w.slot.shift w.slot.width))
    fields

def BitmapFields.state (fields : BitmapFields) : State :=
  State.fromRaw (extractField fields.adjective 0 6)

/-- The text of a verb in an audit event. -/
def RowVerb.text : RowVerb → String
  | .capture => "capture"
  | .mutate => "mutate"
  | .observe => "observe"
  | .reject => "reject"
  | .contest => "contest"
  | .resolveContest => "resolveContest"
  | .promote => "promote"
  | .supersede => "supersede"
  | .decay => "decay"
  | .retract => "retract"
  | .expire => "expire"
  | .tombstone => "tombstone"

/-- The row-state transitions that the kit's comments and tests name. -/
def referenceTransition : State → RowVerb → Option State
  | .pending, .observe => some .active
  | .pending, .reject => some .rejected
  | .pending, .retract => some .withdrawn
  | .pending, .contest => some .contested
  | .active, .mutate => some .active
  | .active, .contest => some .contested
  | .active, .decay => some .decayed
  | .active, .retract => some .withdrawn
  | .active, .expire => some .expired
  | .active, .promote => some .accepted
  | .active, .supersede => some .superseded
  | .active, .tombstone => some .tombstoned
  | .contested, .resolveContest => some .active
  | .contested, .reject => some .rejected
  | .accepted, .supersede => some .superseded
  | .superseded, .observe => some .active
  | .superseded, .tombstone => some .tombstoned
  | .decayed, .observe => some .active
  | .withdrawn, .observe => some .active
  | .expired, .observe => some .active
  | _, _ => none

def AdmitRequest.event (request : AdmitRequest) (after : BitmapFields) : AuditEvent where
  eventId := request.rowId
  estateUuid := request.estateUuid
  rowId := request.rowId
  hlc := request.stamp
  verb := request.verb.text
  beforeBitmaps := request.prior
  afterBitmaps := after
  beforeLatticeAnchor := request.priorLatticeAnchor
  afterLatticeAnchor := request.afterLatticeAnchor
  actor := request.actor
  reason := none

def referenceAdmit (request : AdmitRequest) : Except String AuditEvent :=
  match request.prior with
  | none =>
    let after := BitmapFields.zero.applyWrites request.writes
    if request.verb = .capture ∧ (after.state = .active ∨ after.state = .pending) then
      .ok (request.event after)
    else .error "illegal capture"
  | some prior =>
    let after := prior.applyWrites request.writes
    if referenceTransition prior.state request.verb = some after.state then
      .ok (request.event after)
    else .error "illegal transition"

/-- The physical time never goes back; the count starts anew when it advances. -/
def referenceSend (clock : HlcGenerator) (now : Int) : Hlc × HlcGenerator :=
  let next : HlcGenerator :=
    if clock.physicalTime < now then ⟨now, 0, clock.nodeId⟩
    else ⟨clock.physicalTime, clock.logicalCount + 1, clock.nodeId⟩
  (next.stamp, next)

/-- The event with the greatest stamp up to `asOf`. -/
def latestEventAt (events : List AuditEvent) (asOf : Hlc) : Option AuditEvent :=
  events.foldl (fun latest e =>
    if asOf < e.hlc then latest
    else match latest with
      | none => some e
      | some l => if e.hlc < l.hlc then some l else some e) none

def hexDigit (c : Char) : Option Nat :=
  if '0' ≤ c ∧ c ≤ '9' then some (c.toNat - '0'.toNat)
  else if 'a' ≤ c ∧ c ≤ 'f' then some (c.toNat - 'a'.toNat + 10)
  else if 'A' ≤ c ∧ c ≤ 'F' then some (c.toNat - 'A'.toNat + 10)
  else none

/-- The hyphenated text of a UUID, in either case. -/
def referenceParseUuid (s : String) : Option Uuid := do
  let chars := s.toList.filter (· != '-')
  let digits ← chars.mapM hexDigit
  if digits.length = 32 then
    return BitVec.ofNat 128 (digits.foldl (fun acc d => acc * 16 + d) 0)
  else none

def packText (s : String) : Nat := s.toList.foldl (fun acc c => acc * 1114112 + c.toNat) 0

/-- The documented behaviour of the outside libraries on plain ASCII texts. -/
def referenceSubstrate : Substrate where
  basis := [
    .withValues .adjective 0 6 "state" [0, 1, 2, 3, 16, 17, 18, 19, 32, 33],
    .withValues .adjective 6 6 "sensitivity" [0, 16, 32, 48],
    .withValues .adjective 12 6 "exportability" [0, 32],
    .withValues .adjective 18 6 "trust" [0, 1, 2, 3, 4, 5, 6],
    .new .adjective 24 3 "flags"]
  gateAdmit := referenceAdmit
  contentId := fun _ row _ _ _ _ => row
  udcAnchor := fun udc => ⟨packText udc, 0⟩
  udcQidAnchor := fun udc qid => ⟨packText udc, packText qid⟩
  send := referenceSend
  projectStateAt := fun rowId events asOf =>
    (latestEventAt (events.filter (·.rowId == rowId)) asOf).map (·.afterBitmaps)
  parseUuid := referenceParseUuid
  hash32 := packText
  nfc := id
  toLowercase := fun s => String.ofList (s.toList.map Char.toLower)

def referenceUuidText (digit : String) : String :=
  "00000000-0000-0000-0000-00000000000" ++ digit

/-- A plain active drawer. -/
def referenceDrawer (digit : String) (lineageId : Uuid) (now : Int) : Drawer where
  id := referenceUuidText digit
  lineageId := lineageId
  content := "content"
  parentNodeId := "room"
  addedBy := "alice"
  filedAt := now
  eventTime := now
  embeddingModelId := "test-v1"
  tombstonedAt := none
  bitmaps := ⟨0, 0, 0⟩
  udcCode := "001"
  udcFacets := none
  wikidataQid := none
  wikidataQidsSecondary := none

end MootMemory
