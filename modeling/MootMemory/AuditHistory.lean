import MootMemory.BitmapWrites
import MootMemory.DrawerEffects
import Mathlib.Data.List.Chain

namespace MootMemory

/-- An event starts where the one before it ended. -/
def AuditEvent.Follows (e next : AuditEvent) : Prop :=
  next.beforeBitmaps = some e.afterBitmaps ∧ next.beforeLatticeAnchor = some e.afterLatticeAnchor

instance : DecidableRel AuditEvent.Follows := fun _ _ =>
  inferInstanceAs (Decidable (_ ∧ _))

/-- The events about a row, in the order of sealing. -/
def eventsOf (log : List AuditEvent) (rowUuid : Uuid) : List AuditEvent :=
  log.filter (·.rowId == rowUuid)

/-- The drawer's Q-ID changes nothing in its anchor. -/
def Drawer.Unpointed (substrate : Substrate) (drawer : Drawer) : Prop :=
  substrate.udcQidAnchor drawer.udcCode (drawer.wikidataQid.getD "") =
    substrate.udcAnchor drawer.udcCode

instance (substrate : Substrate) (drawer : Drawer) : Decidable (drawer.Unpointed substrate) :=
  inferInstanceAs (Decidable (_ = _))

/-- The row was written after its capture, or its capture sealed no Q-ID. -/
def QidSettled (substrate : Substrate) (log : List AuditEvent) (row : Drawer) : Prop :=
  (∃ rowUuid, substrate.parseUuid row.id = some rowUuid ∧ 1 < (eventsOf log rowUuid).length) ∨
    row.Unpointed substrate

/-- The last event about a row tells the row; only a capture may have sealed a Q-ID. -/
structure LastSealed (substrate : Substrate) (row : Drawer) (events : List AuditEvent)
    (last : AuditEvent) : Prop where
  sealed : events.getLast? = some last
  bitmaps : row.bitmaps = last.afterBitmaps
  anchor : last.afterLatticeAnchor = substrate.udcAnchor row.udcCode ∨ events.length = 1 ∧
    last.afterLatticeAnchor = substrate.udcQidAnchor row.udcCode (row.wikidataQid.getD "")

/-- The log tells every row, and under one UUID there is one row. -/
structure Projected (substrate : Substrate) (drawers : KeyedTable Drawer.id)
    (log : List AuditEvent) : Prop where
  stored : ∀ row ∈ drawers.rows, ∃ rowUuid last, substrate.parseUuid row.id = some rowUuid ∧
    LastSealed substrate row (eventsOf log rowUuid) last
  chained : ∀ rowUuid, (eventsOf log rowUuid).IsChain AuditEvent.Follows
  apart : ∀ a ∈ drawers.rows.map Drawer.id, ∀ b ∈ drawers.rows.map Drawer.id, ∀ rowUuid,
    substrate.parseUuid a = some rowUuid → substrate.parseUuid b = some rowUuid → a = b
  known : ∀ rowUuid, eventsOf log rowUuid ≠ [] →
    ∃ id ∈ drawers.rows.map Drawer.id, substrate.parseUuid id = some rowUuid

variable {substrate : Substrate} {drawers drawers' : KeyedTable Drawer.id}
  {log log' : List AuditEvent} {row : Drawer} {event : AuditEvent} {rowUuid : Uuid}

theorem eventsOf_append : eventsOf (log ++ log') rowUuid =
    eventsOf log rowUuid ++ eventsOf log' rowUuid := List.filter_append _ _

theorem eventsOf_concat_self (h : event.rowId = rowUuid) :
    eventsOf (log ++ [event]) rowUuid = eventsOf log rowUuid ++ [event] := by
  rw [eventsOf_append, eventsOf, eventsOf, List.filter_singleton, h]
  simp

theorem eventsOf_concat_of_ne (h : event.rowId ≠ rowUuid) :
    eventsOf (log ++ [event]) rowUuid = eventsOf log rowUuid := by
  rw [eventsOf_append, eventsOf, eventsOf, List.filter_singleton, beq_false_of_ne h]
  exact List.append_nil _

/-- Events about different rows may trade places. -/
theorem eventsOf_swap {a b : AuditEvent} (h : a.rowId ≠ b.rowId) :
    eventsOf (log ++ [a] ++ [b]) rowUuid = eventsOf (log ++ [b] ++ [a]) rowUuid := by
  by_cases ha : a.rowId = rowUuid
  · have hb : b.rowId ≠ rowUuid := fun hb => h (ha.trans hb.symm)
    rw [eventsOf_concat_of_ne hb, eventsOf_concat_self ha, eventsOf_concat_self ha,
      eventsOf_concat_of_ne hb]
  · rw [eventsOf_concat_of_ne ha, eventsOf_append, eventsOf_concat_of_ne ha, ← eventsOf_append]

theorem QidSettled.mono (h : QidSettled substrate log row) (hlog : log.Sublist log') :
    QidSettled substrate log' row := by
  rcases h with ⟨rowUuid, hparse, hlen⟩ | h
  · exact Or.inl ⟨rowUuid, hparse, hlen.trans_le (hlog.filter _).length_le⟩
  · exact Or.inr h

theorem QidSettled.transfer {row' : Drawer} (h : QidSettled substrate log row)
    (hid : row'.id = row.id) (hudc : row'.udcCode = row.udcCode)
    (hqid : row'.wikidataQid = row.wikidataQid) : QidSettled substrate log row' := by
  rw [QidSettled, Drawer.Unpointed, hid, hudc, hqid]
  exact h

/-- Where the Q-ID is settled, the last event has the anchor that the next write takes. -/
theorem LastSealed.anchor_eq {last : AuditEvent}
    (h : LastSealed substrate row (eventsOf log rowUuid) last)
    (hparse : substrate.parseUuid row.id = some rowUuid) (hsettled : QidSettled substrate log row) :
    last.afterLatticeAnchor = substrate.udcAnchor row.udcCode := by
  rcases h.anchor with hanchor | ⟨hone, hanchor⟩
  · exact hanchor
  rcases hsettled with ⟨uuid, huuid, hlen⟩ | hplain
  · rw [hparse, Option.some.injEq] at huuid
    rw [← huuid] at hlen
    omega
  · exact hanchor.trans hplain

namespace Projected

theorem congr (h : Projected substrate drawers log)
    (hevents : ∀ rowUuid, eventsOf log' rowUuid = eventsOf log rowUuid) :
    Projected substrate drawers log' := by
  constructor
  · simpa only [hevents] using h.stored
  · simpa only [hevents] using h.chained
  · exact h.apart
  · simpa only [hevents] using h.known

/-- A rewriting that the log does not tell about. -/
theorem silent (h : Projected substrate drawers log) {rowId : String} (f : Drawer → Drawer)
    (hf : ∀ d, (f d).id = d.id) (hbitmaps : ∀ d, (f d).bitmaps = d.bitmaps)
    (hudc : ∀ d, (f d).udcCode = d.udcCode) (hqid : ∀ d, (f d).wikidataQid = d.wikidataQid) :
    Projected substrate (drawers.update rowId f hf) log := by
  refine ⟨fun row hrow => ?_, h.chained, ?_, ?_⟩
  · rcases KeyedTable.mem_update.mp hrow with ⟨old, hold, -, rfl⟩ | ⟨hold, -⟩
    · obtain ⟨rowUuid, last, hparse, hlast⟩ := h.stored old hold
      refine ⟨rowUuid, last, (hf old).symm ▸ hparse, hlast.sealed, ?_, ?_⟩
      · rw [hbitmaps]; exact hlast.bitmaps
      · rw [hudc, hqid]; exact hlast.anchor
    · exact h.stored row hold
  · rw [KeyedTable.update, KeyedTable.map_key_rewrite hf]; exact h.apart
  · rw [KeyedTable.update, KeyedTable.map_key_rewrite hf]; exact h.known

/-- A write to a row and the event about it. -/
theorem write (h : Projected substrate drawers log) (hrow : drawers.find? row.id = some row)
    (hparse : substrate.parseUuid row.id = some event.rowId)
    (hbefore : event.beforeBitmaps = some row.bitmaps)
    (hbeforeAnchor : event.beforeLatticeAnchor = some (substrate.udcAnchor row.udcCode))
    (hsettled : QidSettled substrate log row) (f : Drawer → Drawer) (hf : ∀ d, (f d).id = d.id)
    (hbitmaps : (f row).bitmaps = event.afterBitmaps)
    (hanchor : event.afterLatticeAnchor = substrate.udcAnchor (f row).udcCode) :
    Projected substrate (drawers.update row.id f hf) (log ++ [event]) := by
  have hmem := (KeyedTable.find?_eq_some_iff.mp hrow).1
  obtain ⟨uuid, last, huuid, hlast⟩ := h.stored row hmem
  rw [hparse, Option.some.injEq] at huuid
  subst huuid
  refine ⟨fun row' hrow' => ?_, fun u => ?_, ?_, fun u hu => ?_⟩
  · rcases (KeyedTable.mem_update_of_find? hrow).mp hrow' with rfl | ⟨hold, hne⟩
    · refine ⟨event.rowId, event, (hf row).symm ▸ hparse, ?_, hbitmaps, Or.inl hanchor⟩
      rw [eventsOf_concat_self rfl, List.getLast?_concat]
    · obtain ⟨u, last', hu, hlast'⟩ := h.stored row' hold
      refine ⟨u, last', hu, ?_⟩
      rw [eventsOf_concat_of_ne]
      · exact hlast'
      · rintro rfl
        exact hne (h.apart _ (List.mem_map_of_mem hold) _ (List.mem_map_of_mem hmem) _ hu hparse)
  · by_cases hu : event.rowId = u
    · subst hu
      rw [eventsOf_concat_self rfl]
      refine (h.chained _).append (List.isChain_singleton _) fun e he next hnext => ?_
      cases hnext
      rw [hlast.sealed] at he
      cases he
      exact ⟨by rw [hbefore, hlast.bitmaps], by
        rw [hbeforeAnchor, hlast.anchor_eq hparse hsettled]⟩
    · rw [eventsOf_concat_of_ne hu]
      exact h.chained u
  · rw [KeyedTable.update, KeyedTable.map_key_rewrite hf]; exact h.apart
  · rw [KeyedTable.update, KeyedTable.map_key_rewrite hf]
    by_cases heq : event.rowId = u
    · exact ⟨row.id, List.mem_map_of_mem hmem, heq ▸ hparse⟩
    · rw [eventsOf_concat_of_ne heq] at hu
      exact h.known u hu

/-- A new row and its genesis event. -/
theorem insert (h : Projected substrate drawers log) (hrows : drawers'.rows = drawers.rows ++ [row])
    (hfree : ∀ old ∈ drawers.rows, substrate.parseUuid old.id ≠ substrate.parseUuid row.id)
    (hparse : substrate.parseUuid row.id = some event.rowId)
    (hbitmaps : row.bitmaps = event.afterBitmaps)
    (hanchor : event.afterLatticeAnchor =
      substrate.udcQidAnchor row.udcCode (row.wikidataQid.getD "")) :
    Projected substrate drawers' (log ++ [event]) := by
  have hids : drawers'.rows.map Drawer.id = drawers.rows.map Drawer.id ++ [row.id] := by
    rw [hrows, List.map_append, List.map_singleton]
  have hfreeId : ∀ id ∈ drawers.rows.map Drawer.id, substrate.parseUuid id ≠ some event.rowId := by
    intro id hid
    obtain ⟨old, hold, rfl⟩ := List.mem_map.mp hid
    rw [← hparse]
    exact hfree old hold
  have hnew : eventsOf log event.rowId = [] := by
    by_contra hsome
    obtain ⟨id, hid, heq⟩ := h.known _ hsome
    exact hfreeId id hid heq
  refine ⟨fun row' hrow' => ?_, fun u => ?_, ?_, fun u hu => ?_⟩
  · rw [hrows, List.mem_append, List.mem_singleton] at hrow'
    rcases hrow' with hold | rfl
    · obtain ⟨u, last, hu, hlast⟩ := h.stored row' hold
      refine ⟨u, last, hu, ?_⟩
      rw [eventsOf_concat_of_ne]
      · exact hlast
      · rintro rfl
        exact hfreeId _ (List.mem_map_of_mem hold) hu
    · refine ⟨event.rowId, event, hparse, ?_⟩
      rw [eventsOf_concat_self rfl, hnew]
      exact ⟨rfl, hbitmaps, Or.inr ⟨rfl, hanchor⟩⟩
  · by_cases hu : event.rowId = u
    · subst hu
      rw [eventsOf_concat_self rfl, hnew]
      exact List.isChain_singleton _
    · rw [eventsOf_concat_of_ne hu]
      exact h.chained u
  · intro a ha b hb u hua hub
    rw [hids, List.mem_append, List.mem_singleton] at ha hb
    rcases ha with ha | rfl <;> rcases hb with hb | rfl
    · exact h.apart a ha b hb u hua hub
    · exact absurd (hua.trans (hub.symm.trans hparse)) (hfreeId a ha)
    · exact absurd (hub.trans (hua.symm.trans hparse)) (hfreeId b hb)
    · rfl
  · rw [hids]
    by_cases heq : event.rowId = u
    · exact ⟨row.id, List.mem_append_right _ (List.mem_singleton_self _), heq ▸ hparse⟩
    · rw [eventsOf_concat_of_ne heq] at hu
      obtain ⟨id, hid, hparse'⟩ := h.known u hu
      exact ⟨id, List.mem_append_left _ hid, hparse'⟩

end Projected

end MootMemory
