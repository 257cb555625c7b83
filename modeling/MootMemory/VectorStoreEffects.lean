import MootMemory.ResidentStoreEffects
import MootMemory.VectorStore

namespace MootMemory

open ResidentArrayStore

/-- What the building of the residents leaves alone: the flags and buffers of the deferred window,
and whether there is a sidecar. -/
structure DeferredWindow where
  active : Bool
  dirty : Bool
  liveKeys : Option (List VectorRecordKey)
  pendingRecords : List VectorRecord
  pendingLimit : Nat
  hasSidecar : Bool

def HotState.window (st : HotState) : DeferredWindow where
  active := st.deferredIndexActive
  dirty := st.deferredIndexDirty
  liveKeys := st.deferredLiveKeys
  pendingRecords := st.deferredPendingRecords
  pendingLimit := st.deferredPendingLimit
  hasSidecar := st.arrayStore.isSome

namespace VectorStore

/-- The table and the window. -/
def outside (s : VectorStore) : VectorTable × DeferredWindow := (s.table, s.state.window)

variable {s s' : VectorStore}

section Runs

theorem get_bind {α : Type} {f : VectorStore → EStateM Fault VectorStore α} :
    ((get : EStateM Fault VectorStore VectorStore) >>= f) s = f s s := rfl

theorem modifyState_bind {α : Type} {g : HotState → HotState}
    {f : Unit → EStateM Fault VectorStore α} :
    (modifyState g >>= f) s = f () { s with state := g s.state } := rfl

theorem modifyTable_bind {α : Type} {g : VectorTable → VectorTable}
    {f : Unit → EStateM Fault VectorStore α} :
    (modifyTable g >>= f) s = f () { s with table := g s.table } := rfl

section Peel

variable {α β : Type} {b : β}

theorem liftExcept_bind_ok {x : Except Fault α} {f : α → EStateM Fault VectorStore β}
    (h : (liftExcept x >>= f) s = .ok b s') : ∃ a, x = .ok a ∧ f a s = .ok b s' := by
  cases x with
  | error e => cases h
  | ok a => exact ⟨a, rfl, h⟩

theorem liftExcept_bind_eq {x : Except Fault α} {f : α → EStateM Fault VectorStore β} {a : α}
    (h : x = .ok a) : (liftExcept x >>= f) s = f a s := by
  rw [h]
  rfl

theorem runBrute_bind_ok {g : BruteForceIndex → Except Fault BruteForceIndex}
    {f : Unit → EStateM Fault VectorStore β} (h : (runBrute g >>= f) s = .ok b s') :
    ∃ idx, g s.state.bruteForceIndex = .ok idx ∧
      f () { s with state.bruteForceIndex := idx } = .ok b s' := by
  obtain ⟨_, s₁, hrun, hrest⟩ := estate_bind_ok.mp h
  unfold runBrute at hrun
  cases hg : g s.state.bruteForceIndex with
  | error e => simp [hg] at hrun
  | ok idx =>
    simp only [hg, EStateM.Result.ok.injEq] at hrun
    exact ⟨idx, rfl, hrun.2 ▸ hrest⟩

theorem runMih_bind_ok {g : MIHIndex → Except Fault MIHIndex}
    {f : Unit → EStateM Fault VectorStore β} (h : (runMih g >>= f) s = .ok b s') :
    ∃ mih, g s.state.mihIndex = .ok mih ∧ f () { s with state.mihIndex := mih } = .ok b s' := by
  obtain ⟨_, s₁, hrun, hrest⟩ := estate_bind_ok.mp h
  unfold runMih at hrun
  cases hg : g s.state.mihIndex with
  | error e => simp [hg] at hrun
  | ok mih =>
    simp only [hg, EStateM.Result.ok.injEq] at hrun
    exact ⟨mih, rfl, hrun.2 ▸ hrest⟩

theorem runStore_of_none {x : EStateM Fault ResidentArrayStore Unit}
    (h : s.state.arrayStore = none) : runStore x s = .ok () s := by
  simp only [runStore, h]

theorem runStore_ok {x : EStateM Fault ResidentArrayStore Unit} {u : Unit}
    {store : ResidentArrayStore} (h : s.state.arrayStore = some store)
    (hrun : runStore x s = .ok u s') :
    ∃ store', x store = .ok () store' ∧ s' = { s with state.arrayStore := some store' } := by
  unfold runStore at hrun
  rw [h] at hrun
  cases hx : x store with
  | error e store' => simp [hx] at hrun
  | ok _ store' =>
    simp only [hx, EStateM.Result.ok.injEq, true_and] at hrun
    exact ⟨store', rfl, hrun.symm⟩

theorem runStore_bind_ok {x : EStateM Fault ResidentArrayStore Unit}
    {f : Unit → EStateM Fault VectorStore β} {store : ResidentArrayStore}
    (h : s.state.arrayStore = some store) (hrun : (runStore x >>= f) s = .ok b s') :
    ∃ store', x store = .ok () store' ∧
      f () { s with state.arrayStore := some store' } = .ok b s' := by
  obtain ⟨_, s₁, hcall, hrest⟩ := estate_bind_ok.mp hrun
  obtain ⟨store', hx, hs⟩ := runStore_ok h hcall
  exact ⟨store', hx, hs ▸ hrest⟩

end Peel

theorem selectIndex_eq : selectIndex s = .ok ()
    { s with state.isMihActive := decide (s.state.mihThreshold ≤ s.state.liveBinaryCount) } := by
  simp only [selectIndex, modifyState]
  cases hmih : s.state.isMihActive <;>
    cases hle : decide (s.state.mihThreshold ≤ s.state.liveBinaryCount) <;>
    simp [← hmih]

end Runs

section Frames

/-- The table is only written by the call itself, not by what mirrors it. -/
abbrev KeepsTable {α : Type} (x : EStateM Fault VectorStore α) : Prop := Keeps table x

/-- The residents are built without a change of the table or the window. -/
abbrev KeepsOutside {α : Type} (x : EStateM Fault VectorStore α) : Prop := Keeps outside x

theorem keepsTable_of_outside {α : Type} {x : EStateM Fault VectorStore α} (h : KeepsOutside x) :
    KeepsTable x := Keeps.map h Prod.fst

theorem keepsOutside_modifyState {f : HotState → HotState} (h : ∀ st, (f st).window = st.window) :
    KeepsOutside (modifyState f) := fun s => congrArg (Prod.mk s.table) (h s.state)

theorem keepsOutside_liftExcept {α : Type} (x : Except Fault α) : KeepsOutside (liftExcept x) := by
  intro s
  cases x <;> rfl

theorem keepsOutside_runBrute (f : BruteForceIndex → Except Fault BruteForceIndex) :
    KeepsOutside (runBrute f) := by
  intro s
  unfold runBrute
  cases f s.state.bruteForceIndex <;> rfl

theorem keepsOutside_runMih (f : MIHIndex → Except Fault MIHIndex) : KeepsOutside (runMih f) := by
  intro s
  unfold runMih
  cases f s.state.mihIndex <;> rfl

theorem keepsOutside_buildMih (payloads : List VectorPayload) (keys : List VectorRecordKey) :
    KeepsOutside (buildMih payloads keys) := by
  intro s
  unfold buildMih
  cases MIHIndex.build payloads keys s.state.mihIndex <;> rfl

theorem keepsOutside_runStore (x : EStateM Fault ResidentArrayStore Unit) :
    KeepsOutside (runStore x) := by
  intro s
  unfold runStore
  cases hstore : s.state.arrayStore with
  | none => rfl
  | some store =>
    have hwindow : ∀ store', outside { s with state.arrayStore := some store' } = outside s := by
      simp [outside, HotState.window, hstore]
    cases hx : x store with
    | ok _ store' => simp only [hx, hwindow]
    | error _ store' => simp only [hx, hwindow]

theorem keepsOutside_selectIndex : KeepsOutside selectIndex := by
  intro s
  rw [selectIndex_eq]
  rfl

theorem keepsOutside_buildIndexes (payloads : List VectorPayload) (keys : List VectorRecordKey) :
    KeepsOutside (buildIndexes payloads keys) :=
  (keepsOutside_runBrute _).bind fun _ => keepsOutside_buildMih _ _

theorem keepsOutside_buildFromArray (arr : ResidentVectorArray) :
    KeepsOutside (buildFromArray arr) :=
  (keepsOutside_liftExcept _).bind fun _ => keepsOutside_buildIndexes _ _

theorem keepsOutside_buildFromStore : KeepsOutside buildFromStore := by
  refine keeps_get.bind fun s => ?_
  cases s.state.arrayStore with
  | none => exact keeps_pure ()
  | some store => exact keepsOutside_buildFromArray _

theorem keepsOutside_rebuildFromTable : KeepsOutside rebuildFromTable := by
  refine keeps_get.bind fun s => (keepsOutside_modifyState ?_).bind fun _ => .ite ?_ ?_
  · exact fun _ => rfl
  · exact (keepsOutside_runStore _).bind fun _ => keepsOutside_buildFromStore
  · exact keepsOutside_buildIndexes _ _

theorem keepsOutside_buildResidents : KeepsOutside buildResidents := by
  refine keeps_get.bind fun s => .ite ?_ keepsOutside_rebuildFromTable
  refine (keepsOutside_runStore _).bind fun _ => keeps_get.bind fun s => .ite ?_ ?_
  · refine (keepsOutside_modifyState ?_).bind fun _ => keepsOutside_buildFromStore
    exact fun _ => rfl
  · refine (keepsOutside_modifyState ?_).bind fun _ => keepsOutside_rebuildFromTable
    exact fun _ => rfl

theorem keepsOutside_ensureIndexBuiltLocked : KeepsOutside ensureIndexBuiltLocked := by
  refine keeps_get.bind fun s => .ite (keeps_pure ()) (keepsOutside_buildResidents.bind fun _ => ?_)
  refine (keepsOutside_modifyState ?_).bind fun _ => keepsOutside_selectIndex
  exact fun _ => rfl

theorem keepsOutside_mirrorBinary (key : VectorRecordKey) (payload : VectorPayload) :
    KeepsOutside (mirrorBinary key payload) := by
  refine keepsOutside_ensureIndexBuiltLocked.bind fun _ => keeps_get.bind fun s => ?_
  refine (keepsOutside_runStore _).bind fun _ => (keepsOutside_runStore _).bind fun _ => ?_
  refine (keepsOutside_runBrute _).bind fun _ => (keepsOutside_runMih _).bind fun _ => ?_
  refine (keepsOutside_modifyState ?_).bind fun _ => keepsOutside_selectIndex
  intro st
  split <;> rfl

theorem keepsOutside_rebuildWith (liveKeys : List VectorRecordKey) (records : List VectorRecord) :
    KeepsOutside (rebuildWith liveKeys records) := by
  refine keeps_get.bind fun s => .ite ?_ ?_
  · refine (keepsOutside_runStore _).bind fun _ => (keepsOutside_runStore _).bind fun _ => ?_
    exact keepsOutside_buildFromStore
  · exact (keepsOutside_liftExcept _).bind fun _ => keepsOutside_buildFromArray _

theorem keepsOutside_mirrorBatch (records : List VectorRecord) :
    KeepsOutside (mirrorBatch records) := by
  refine keeps_get.bind fun s => (keepsOutside_liftExcept _).bind fun _ => ?_
  refine (keepsOutside_liftExcept _).bind fun _ => (keepsOutside_rebuildWith _ _).bind fun _ => ?_
  refine (keepsOutside_modifyState ?_).bind fun _ => keepsOutside_selectIndex
  exact fun _ => rfl

theorem keepsTable_modifyState (f : HotState → HotState) : KeepsTable (modifyState f) :=
  fun _ => rfl

theorem keepsTable_flushDeferredPending : KeepsTable flushDeferredPending := by
  refine keeps_get.bind fun s => .ite (keeps_pure ()) ((keepsTable_modifyState _).bind fun _ => ?_)
  refine (keepsTable_of_outside (keepsOutside_liftExcept _)).bind fun _ => ?_
  refine (keepsTable_of_outside (keepsOutside_buildFromArray _)).bind fun _ => ?_
  refine (keepsTable_of_outside (keepsOutside_liftExcept _)).bind fun _ => ?_
  refine (keepsTable_of_outside (keepsOutside_liftExcept _)).bind fun _ => ?_
  exact keepsTable_modifyState _

theorem keepsTable_stageRecords (replaced : List VectorRecordKey) (records : List VectorRecord) :
    KeepsTable (stageRecords replaced records) := by
  refine keeps_get.bind fun s => .ite ?_ (keepsTable_modifyState _)
  refine (keepsTable_of_outside (keepsOutside_runStore _)).bind fun _ => ?_
  exact keepsTable_of_outside (keepsOutside_runStore _)

theorem keepsTable_stageDeferred (records : List VectorRecord) :
    KeepsTable (stageDeferred records) := by
  refine keeps_get.bind fun s => (keepsTable_modifyState _).bind fun _ => ?_
  refine (keepsTable_of_outside (keepsOutside_liftExcept _)).bind fun _ => ?_
  refine (keepsTable_stageRecords _ _).bind fun _ => (keepsTable_modifyState _).bind fun _ => ?_
  exact keeps_get.bind fun s => .ite keepsTable_flushDeferredPending (keeps_pure ())

theorem keepsTable_mirrorInputs (batch : List VectorPayloadInput) :
    KeepsTable (mirrorInputs batch) := by
  refine Keeps.ite (keeps_pure ()) ?_
  refine (keepsTable_of_outside keepsOutside_ensureIndexBuiltLocked).bind fun _ => ?_
  refine keeps_get.bind fun s => Keeps.ite (keepsTable_stageDeferred _) ?_
  exact keepsTable_of_outside (keepsOutside_mirrorBatch _)

end Frames

end VectorStore

end MootMemory
