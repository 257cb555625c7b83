import MootMemory.ReferenceSubstrate
import MootMemory.Vocabulary

namespace MootMemory

/-- What the write gate puts into the event of an admitted request. -/
structure LawfulGate (substrate : Substrate) : Prop where
  hlc : ∀ {request event}, substrate.gateAdmit request = .ok event → event.hlc = request.stamp
  rowId : ∀ {request event}, substrate.gateAdmit request = .ok event → event.rowId = request.rowId
  verb : ∀ {request event}, substrate.gateAdmit request = .ok event → event.verb = request.verb.text
  before : ∀ {request event}, substrate.gateAdmit request = .ok event →
    event.beforeBitmaps = request.prior
  after : ∀ {request event}, substrate.gateAdmit request = .ok event →
    event.afterBitmaps = (request.prior.getD .zero).applyWrites request.writes
  beforeAnchor : ∀ {request event}, substrate.gateAdmit request = .ok event →
    event.beforeLatticeAnchor = request.priorLatticeAnchor
  afterAnchor : ∀ {request event}, substrate.gateAdmit request = .ok event →
    event.afterLatticeAnchor = request.afterLatticeAnchor

/-- The clock never goes back, counts inside one instant and starts anew at the next. -/
def LawfulSend (substrate : Substrate) : Prop :=
  ∀ clock now, substrate.send clock now = referenceSend clock now

theorem referenceAdmit_eq_ok {request : AdmitRequest} {event : AuditEvent}
    (h : referenceAdmit request = .ok event) :
    event = request.event ((request.prior.getD .zero).applyWrites request.writes) := by
  rw [referenceAdmit] at h
  cases hprior : request.prior with
  | none =>
    simp only [hprior] at h
    split at h
    next => cases h; rfl
    next => cases h
  | some prior =>
    simp only [hprior] at h
    split at h
    next => cases h; rfl
    next => cases h

theorem lawfulGate_referenceSubstrate : LawfulGate referenceSubstrate where
  hlc h := by rw [referenceAdmit_eq_ok h]; rfl
  rowId h := by rw [referenceAdmit_eq_ok h]; rfl
  verb h := by rw [referenceAdmit_eq_ok h]; rfl
  before h := by rw [referenceAdmit_eq_ok h]; rfl
  after h := by rw [referenceAdmit_eq_ok h]; rfl
  beforeAnchor h := by rw [referenceAdmit_eq_ok h]; rfl
  afterAnchor h := by rw [referenceAdmit_eq_ok h]; rfl

theorem lawfulSend_referenceSubstrate : LawfulSend referenceSubstrate := fun _ _ => rfl

theorem lt_referenceSend (clock : HlcGenerator) (now : Int) :
    clock.stamp < (referenceSend clock now).1 := by
  rw [Hlc.lt_iff, referenceSend]
  split
  next h => exact Or.inl h
  next h => exact Or.inr ⟨rfl, Or.inl (Nat.lt_succ_self _)⟩

end MootMemory
