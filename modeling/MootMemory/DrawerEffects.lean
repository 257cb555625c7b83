import MootMemory.DrawerPlacement

namespace MootMemory

namespace DrawerStore

variable (substrate : Substrate) (s : DrawerStore)

/-- The store after a stamp was taken. -/
@[simps] def ticked (now : Int) : DrawerStore :=
  { s with clock := (substrate.send s.clock now).2 }

/-- The store after a row was rewritten. -/
@[simps] def rewritten (rowId : String) (f : Drawer → Drawer) (hf : ∀ d, (f d).id = d.id) :
    DrawerStore := { s with drawers := s.drawers.update rowId f hf }

/-- The store after an event was appended. -/
@[simps] def logged (event : AuditEvent) : DrawerStore :=
  { s with auditLog := s.auditLog ++ [event] }

/-- The store after a row was entered into the erasure ledger. -/
@[simps] def entered (rowId : String) (stamp : Hlc) : DrawerStore :=
  { s with erasureLedger := (s.erasureLedger.insert? ⟨rowId, stamp⟩).getD s.erasureLedger }

/-- The store with other rows in the table of drawers. -/
@[simps] def withDrawers (drawers : KeyedTable Drawer.id) : DrawerStore :=
  { s with drawers := drawers }

@[simps] def withTunnels (tunnels : KeyedTable Tunnel.id) : DrawerStore :=
  { s with tunnels := tunnels }

@[simps] def withNodes (nodes : NodeTable) : DrawerStore := { s with nodes := nodes }

/-- The gate admits a write to a stored row. -/
structure Admitted (now : Int) (row : Drawer) (verb : RowVerb) (writes : List FieldWrite)
    (afterAnchor : AuditAnchor) (changedBy : String) (event : AuditEvent) : Prop where
  found : s.drawers.find? row.id = some row
  gate : ∃ rowUuid, substrate.parseUuid row.id = some rowUuid ∧
    substrate.gateAdmit (rowRequest substrate s rowUuid row verb writes afterAnchor changedBy
      (s.nextStamp substrate now)) = .ok event

/-- The gate admits a capture, and the id is free. -/
structure Captured (now : Int) (drawer : Drawer) (drawers : KeyedTable Drawer.id)
    (event : AuditEvent) : Prop where
  inserted : s.drawers.insert? drawer = some drawers
  gate : ∃ rowUuid, substrate.parseUuid drawer.id = some rowUuid ∧
    substrate.gateAdmit (captureRequest substrate s rowUuid drawer (s.nextStamp substrate now)) =
      .ok event

/-- A call that failed and wrote nothing; it may have taken a stamp. -/
def Refused {α : Type} (now : Int) (r : EStateM.Result LocusKitError DrawerStore α) : Prop :=
  ∃ e, r = .error e s ∨ r = .error e (s.ticked substrate now)

/-- The rows of a table in which one was rewritten. -/
theorem mem_rewritten {rows : List Drawer} {rowId : String} {f : Drawer → Drawer} {row : Drawer} :
    (row ∈ rows.map fun d => if d.id = rowId then f d else d) ↔
      (∃ old ∈ rows, old.id = rowId ∧ row = f old) ∨ (row ∈ rows ∧ row.id ≠ rowId) :=
  KeyedTable.mem_map_rewrite

section Peel

variable {substrate s} {α β : Type} {r : EStateM.Result LocusKitError DrawerStore β}

theorem ofExcept_bind_cases {x : Except LocusKitError α} {f : α → StoreM β}
    (h : (StoreM.ofExcept x >>= f) s = r) :
    (∃ e, x = .error e ∧ r = .error e s) ∨ ∃ a, x = .ok a ∧ f a s = r := by
  cases x with
  | error e => exact Or.inl ⟨e, rfl, h.symm⟩
  | ok a => exact Or.inr ⟨a, rfl, h⟩

theorem readDrawer_bind_cases {drawerId : String} {f : Drawer → StoreM β}
    (h : (readDrawer drawerId >>= f) s = r) :
    (s.drawers.find? drawerId = none ∧ r = .error (.drawerNotFound drawerId) s) ∨
      ∃ row, s.drawers.find? drawerId = some row ∧ row.id = drawerId ∧ f row s = r := by
  cases hfind : s.drawers.find? drawerId with
  | none =>
    refine Or.inl ⟨rfl, ?_⟩
    simp only [readDrawer, bind, EStateM.bind, get_eq,
      hfind] at h
    exact h.symm
  | some row =>
    refine Or.inr ⟨row, rfl, (KeyedTable.find?_eq_some_iff.mp hfind).2, ?_⟩
    simp only [readDrawer, bind, EStateM.bind, get_eq,
      hfind] at h
    exact h

theorem admitWrite_bind_cases {request : Hlc → AdmitRequest} {refused : String} {now : Int}
    {f : AuditEvent → StoreM β} (h : (admitWrite substrate request refused now >>= f) s = r) :
    (∃ violation, substrate.gateAdmit (request (s.nextStamp substrate now)) = .error violation ∧
        r = .error (.invalidContent (refused ++ violation)) (s.ticked substrate now)) ∨
      ∃ event, substrate.gateAdmit (request (s.nextStamp substrate now)) = .ok event ∧
        f event (s.ticked substrate now) = r := by
  cases hadm : substrate.gateAdmit (request (s.nextStamp substrate now)) with
  | error violation =>
    refine Or.inl ⟨violation, rfl, ?_⟩
    rw [nextStamp] at hadm
    simp only [admitWrite, sendStamp, bind, EStateM.bind, get_eq, modify_eq, pure, EStateM.pure,
      hadm] at h
    exact h.symm
  | ok event =>
    refine Or.inr ⟨event, rfl, ?_⟩
    rw [nextStamp] at hadm
    simp only [admitWrite, sendStamp, bind, EStateM.bind, get_eq, modify_eq, pure, EStateM.pure,
      hadm] at h
    exact h

end Peel

end DrawerStore

end MootMemory
