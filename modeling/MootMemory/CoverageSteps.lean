import MootMemory.BitmapWrites
import MootMemory.ContainerFingerprints
import MootMemory.DestinationNames
import MootMemory.StoreCalls

namespace MootMemory

namespace DrawerStore

/-- Where the drawer is not tombstoned and lies in a room, an entry takes in the bitmaps. -/
def CoversRow (fingerprints : ContainerTable) (nodes : NodeTable) (row : Drawer)
    (bitmaps : BitmapFields) : Prop :=
  row.tombstonedAt = none → ∀ names, nodes.resolveNodeNames row.parentNodeId = some names →
    fingerprints.Covers names bitmaps

def AllCovered (fingerprints : ContainerTable) (nodes : NodeTable) (rows : List Drawer) : Prop :=
  ∀ row ∈ rows, CoversRow fingerprints nodes row row.bitmaps

/-- The gate lets no such write to the row pass, whatever the stamp. -/
def WriteRefused (substrate : Substrate) (s : DrawerStore) (row : Drawer) (verb : RowVerb)
    (writes : List FieldWrite) (anchor : AuditAnchor) (changedBy : String) : Prop :=
  ∀ rowUuid stamp event, substrate.parseUuid row.id = some rowUuid →
    substrate.gateAdmit (rowRequest substrate s rowUuid row verb writes anchor changedBy stamp) ≠
      .ok event

/-- The bitmaps of a row once the writes went into one of its columns. -/
def edited (row : Drawer) (column : AuditColumn) (writes : List FieldWrite) : BitmapFields :=
  row.bitmaps.set column ((row.bitmaps.applyWrites writes).get column)

/-- A write to the row sets no bit that the entry of its room lacks. -/
def EditFits (substrate : Substrate) (s : DrawerStore) (rowId : String) (verb : RowVerb)
    (column : AuditColumn) (writes : List FieldWrite) (changedBy : String) : Prop :=
  ∀ row ∈ s.drawers.rows, row.id = rowId →
    WriteRefused substrate s row verb writes (substrate.udcAnchor row.udcCode) changedBy ∨
      CoversRow s.fingerprints s.nodes row (edited row column writes)

section Rows

variable {fingerprints fingerprints' : ContainerTable} {nodes nodes' : NodeTable} {row : Drawer}
  {bitmaps : BitmapFields}

theorem CoversRow.mono (h : CoversRow fingerprints nodes row bitmaps)
    (hgrow : ∀ names, fingerprints.Covers names bitmaps → fingerprints'.Covers names bitmaps) :
    CoversRow fingerprints' nodes row bitmaps :=
  fun hlive names hnames => hgrow names (h hlive names hnames)

/-- A rewriting of the row that keeps its place and does not bring it back. -/
theorem CoversRow.transfer {row' : Drawer} (h : CoversRow fingerprints nodes row bitmaps)
    (hparent : row'.parentNodeId = row.parentNodeId)
    (hlive : row'.tombstonedAt = none → row.tombstonedAt = none) :
    CoversRow fingerprints nodes row' bitmaps :=
  fun hlive' names hnames => h (hlive hlive') names (hparent ▸ hnames)

theorem AllCovered.mono {rows : List Drawer} (h : AllCovered fingerprints nodes rows)
    (hgrow : ∀ names bitmaps, fingerprints.Covers names bitmaps →
      fingerprints'.Covers names bitmaps) : AllCovered fingerprints' nodes rows :=
  fun row hrow => (h row hrow).mono fun names => hgrow names _

theorem AllCovered.append {rows : List Drawer} (h : AllCovered fingerprints nodes rows)
    (hnew : CoversRow fingerprints nodes row row.bitmaps) :
    AllCovered fingerprints nodes (rows ++ [row]) := by
  intro row' hrow'
  rcases List.mem_append.mp hrow' with hold | hrow
  · exact h row' hold
  · rw [List.mem_singleton.mp hrow]
    exact hnew

theorem AllCovered.update {drawers : KeyedTable Drawer.id} (h : AllCovered fingerprints nodes drawers.rows)
    {rowId : String} (f : Drawer → Drawer) (hf : ∀ d, (f d).id = d.id)
    (hnew : ∀ row ∈ drawers.rows, row.id = rowId →
      CoversRow fingerprints nodes (f row) (f row).bitmaps) :
    AllCovered fingerprints nodes (drawers.update rowId f hf).rows := by
  intro row' hrow'
  rcases KeyedTable.mem_update.mp hrow' with ⟨old, hold, hid, rfl⟩ | ⟨hold, -⟩
  · exact hnew old hold hid
  · exact h row' hold

theorem AllCovered.grown {minted : List String} {rows : List Drawer}
    (h : AllCovered fingerprints nodes rows) (hgrown : nodes.Grown minted nodes')
    (hunused : nodes.Unused minted) (hparents : ∀ row ∈ rows, row.parentNodeId ∉ minted) :
    AllCovered fingerprints nodes' rows := by
  intro row hrow hlive names hnames
  rw [hgrown.resolveNodeNames_eq (hparents row hrow) fun n hn => (hunused n hn).2] at hnames
  exact h row hrow hlive names hnames

end Rows

section Steps

variable {substrate : Substrate} {s : DrawerStore} {now : Int} {fingerprints : ContainerTable}
  (hgate : LawfulGate substrate)

include hgate

theorem Admitted.edited {row : Drawer} {verb : RowVerb} {writes : List FieldWrite}
    {anchor : AuditAnchor} {changedBy : String} {event : AuditEvent}
    (hadm : Admitted substrate s now row verb writes anchor changedBy event)
    (column : AuditColumn) :
    (row.setColumn column (event.afterBitmaps.get column)).bitmaps =
      DrawerStore.edited row column writes := by
  obtain ⟨rowUuid, -, hok⟩ := hadm.gate
  rw [Drawer.setColumn, hgate.after hok]
  rfl

/-- An admitted write that fits keeps the rows covered. -/
theorem Admitted.covered {row : Drawer} {verb : RowVerb} {writes : List FieldWrite}
    {changedBy : String} {event : AuditEvent} (column : AuditColumn)
    (hadm : Admitted substrate s now row verb writes (substrate.udcAnchor row.udcCode) changedBy
      event)
    (h : AllCovered fingerprints s.nodes s.drawers.rows)
    (hfits : CoversRow fingerprints s.nodes row (DrawerStore.edited row column writes)) :
    AllCovered fingerprints s.nodes (s.drawers.update row.id
      (·.setColumn column (event.afterBitmaps.get column)) fun _ => rfl).rows := by
  refine h.update _ _ fun old hold hid => ?_
  have heq : old = row :=
    KeyedTable.eq_of_key_eq hold (KeyedTable.find?_eq_some_iff.mp hadm.found).1 hid
  subst heq
  rw [hadm.edited hgate]
  exact hfits.transfer rfl id

omit hgate in
theorem EditFits.covers {row : Drawer} {verb : RowVerb} {writes : List FieldWrite}
    {changedBy : String} {event : AuditEvent} {column : AuditColumn}
    (hfits : EditFits substrate s row.id verb column writes changedBy)
    (hadm : Admitted substrate s now row verb writes (substrate.udcAnchor row.udcCode) changedBy
      event) :
    CoversRow s.fingerprints s.nodes row (DrawerStore.edited row column writes) := by
  obtain ⟨rowUuid, hparse, hok⟩ := hadm.gate
  refine (hfits row (KeyedTable.find?_eq_some_iff.mp hadm.found).1 rfl).resolve_left ?_
  exact fun hrefused => hrefused _ _ _ hparse hok

omit hgate in
/-- The row that a cascade flips was there before the capture. -/
theorem predecessor_mem {drawer row : Drawer} {drawers : KeyedTable Drawer.id}
    (hprior : s.findActivePredecessor drawer.lineageId drawer.id = some row.id)
    (hinserted : s.drawers.insert? drawer = some drawers) (hrow : row ∈ drawers.rows) :
    row ∈ s.drawers.rows := by
  obtain ⟨old, hold, hid, -⟩ := findActivePredecessor_eq_some hprior
  have hmem : old ∈ drawers.rows := by
    rw [(KeyedTable.insert?_eq_some_iff.mp hinserted).2]
    exact List.mem_append_left _ hold
  rwa [← KeyedTable.eq_of_key_eq hmem hrow hid]

/-- A capture that went through, over its predecessor or alone, read against larger entries. -/
theorem InsertOutcome.covered {drawer : Drawer} {s' : DrawerStore}
    (hinsert : InsertOutcome substrate s drawer now (.ok () s'))
    (h : AllCovered fingerprints s.nodes s.drawers.rows)
    (hnew : CoversRow fingerprints s.nodes drawer drawer.bitmaps)
    (hflip : ∀ row ∈ s.drawers.rows,
      s.findActivePredecessor drawer.lineageId drawer.id = some row.id →
        WriteRefused substrate s row .supersede [⟨stateSlot, State.superseded.rawValue⟩]
          (substrate.udcAnchor row.udcCode) drawer.addedBy ∨
        CoversRow fingerprints s.nodes row
          (DrawerStore.edited row .adjective [⟨stateSlot, State.superseded.rawValue⟩])) :
    AllCovered fingerprints s'.nodes s'.drawers.rows ∧ s'.nodes = s.nodes ∧
      s'.fingerprints = s.fingerprints := by
  have hstored : ∀ drawers, s.drawers.insert? drawer = some drawers →
      AllCovered fingerprints s.nodes drawers.rows := by
    intro drawers hinserted
    rw [(KeyedTable.insert?_eq_some_iff.mp hinserted).2]
    exact h.append hnew
  cases hinsert with
  | refused hr => exact hr.not_ok.elim
  | captured _ hcaptured => exact ⟨hstored _ hcaptured.inserted, rfl, rfl⟩
  | cascade hprior hcascade =>
    cases hcascade with
    | refused hr => exact hr.not_ok.elim
    | @stored drawers event tunnels _ hcaptured hflipped =>
      cases hflipped with
      | refused hr => exact hr.not_ok.elim
      | @flipped row event' hid hadm =>
        subst hid
        refine ⟨hadm.covered hgate .adjective (hstored _ hcaptured.inserted) ?_, rfl,
          rfl⟩
        obtain ⟨rowUuid, hparse, hok⟩ := hadm.gate
        have hrow := (KeyedTable.find?_eq_some_iff.mp hadm.found).1
        have hrow : row ∈ s.drawers.rows := predecessor_mem hprior hcaptured.inserted hrow
        refine (hflip row hrow hprior).resolve_left fun hrefused => ?_
        exact hrefused _ _ _ hparse hok

end Steps

end DrawerStore

end MootMemory
