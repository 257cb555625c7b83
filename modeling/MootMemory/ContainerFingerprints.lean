import MootMemory.DrawerTypes
import MootMemory.KeyedTable
import Mathlib.Data.List.Dedup
import Mathlib.Order.Lattice

namespace MootMemory

/-- The OR of the bitmaps of a container; an empty room stands for the whole wing. -/
structure ContainerRow where
  wing : String
  room : String
  fingerprint : BitmapFields
deriving DecidableEq, Repr

def ContainerRow.key (row : ContainerRow) : String × String := (row.wing, row.room)

abbrev ContainerTable := KeyedTable ContainerRow.key

def BitmapFields.zero : BitmapFields := ⟨0, 0, 0⟩

def BitmapFields.merging (a b : BitmapFields) : BitmapFields :=
  ⟨a.adjective ||| b.adjective, a.operational ||| b.operational, a.provenance ||| b.provenance⟩

def wingRollupRoom : String := ""

namespace ContainerTable

def get (table : ContainerTable) (wing room : String) : Option BitmapFields :=
  (table.find? (wing, room)).map (·.fingerprint)

/-- The containers that are rooms, by wing. -/
def roomLevelEntries (table : ContainerTable) : List ContainerRow :=
  (table.rows.filter fun row => row.room != wingRollupRoom).mergeSort fun a b => a.wing ≤ b.wing

def orInto (table : ContainerTable) (wing room : String) (delta : BitmapFields) : ContainerTable :=
  table.put ⟨wing, room, ((table.get wing room).getD .zero).merging delta⟩

/-- Adds the bitmaps of a drawer to its room and to its wing. -/
def orIn (table : ContainerTable) (wing room : String) (bitmaps : BitmapFields) : ContainerTable :=
  (table.orInto wing room bitmaps).orInto wing wingRollupRoom bitmaps

def mergeAll (fields : List BitmapFields) : BitmapFields := fields.foldl .merging .zero

def rebuildRoom (table : ContainerTable) (wing room : String) (activeDrawers : List Drawer) :
    ContainerTable :=
  table.put ⟨wing, room, mergeAll (activeDrawers.map (·.bitmaps))⟩

def rollUpWing (table : ContainerTable) (wing : String) : ContainerTable :=
  let rooms := table.rows.filter fun row => row.wing == wing && row.room != wingRollupRoom
  table.put ⟨wing, wingRollupRoom, mergeAll (rooms.map (·.fingerprint))⟩

/-- Distinct names in ascending order, as the keys of an ordered map. -/
def sortedNames (names : List String) : List String := names.dedup.mergeSort fun a b => a ≤ b

def rebuildWing (located : List ((String × String) × Drawer)) (table : ContainerTable)
    (wing : String) : ContainerTable :=
  let inWing := located.filter fun p => p.1.1 == wing
  let rebuilt := (sortedNames (inWing.map (·.1.2))).foldl (fun table room =>
    table.rebuildRoom wing room ((inWing.filter fun p => p.1.2 == room).map (·.2))) table
  rebuilt.rollUpWing wing

/-- Rebuilds every container with active drawers; drawers without a node are skipped. -/
def rebuildAll (table : ContainerTable) (activeDrawers : List Drawer)
    (nodeNames : String → Option (String × String)) : ContainerTable :=
  let located := activeDrawers.filterMap fun d =>
    (nodeNames d.parentNodeId).map fun names => (names, d)
  (sortedNames (located.map (·.1.1))).foldl (rebuildWing located) table

end ContainerTable

theorem BitmapFields.merging_comm (a b : BitmapFields) : a.merging b = b.merging a := by
  rw [merging, merging, BitVec.or_comm a.adjective, BitVec.or_comm a.operational,
    BitVec.or_comm a.provenance]

theorem BitmapFields.merging_assoc (a b c : BitmapFields) :
    (a.merging b).merging c = a.merging (b.merging c) := by
  simp only [merging, BitVec.or_assoc]

theorem BitmapFields.merging_self (a : BitmapFields) : a.merging a = a := by
  simp only [merging, BitVec.or_self]

instance : Max BitmapFields := ⟨BitmapFields.merging⟩

/-- The order of the OR: all bits of the one are bits of the other. -/
instance : SemilatticeSup BitmapFields :=
  SemilatticeSup.mk' BitmapFields.merging_comm BitmapFields.merging_assoc BitmapFields.merging_self

theorem BitmapFields.le_iff {a b : BitmapFields} : a ≤ b ↔ a.merging b = b := sup_eq_right.symm

instance : DecidableLE BitmapFields := fun _ _ => decidable_of_iff _ BitmapFields.le_iff.symm

theorem BitmapFields.zero_le (a : BitmapFields) : zero ≤ a := by
  rw [le_iff, merging, zero]
  simp

namespace ContainerTable

/-- A room-level entry takes in all bits of the bitmaps. -/
def Covers (table : ContainerTable) (names : String × String) (bitmaps : BitmapFields) : Prop :=
  ∃ entry ∈ table.roomLevelEntries, (entry.wing, entry.room) = names ∧ bitmaps ≤ entry.fingerprint

/-- Every wing with a room has a roll-up, and it takes in the wing's rooms. -/
def RolledUp (table : ContainerTable) : Prop :=
  ∀ entry ∈ table.roomLevelEntries, ∃ rollup, table.get entry.wing wingRollupRoom = some rollup ∧
    entry.fingerprint ≤ rollup

variable {table : ContainerTable} {wing room w r : String} {bitmaps delta : BitmapFields}

theorem get_put_self (row : ContainerRow) :
    get (table.put row) row.wing row.room = some row.fingerprint :=
  congrArg (Option.map _) KeyedTable.find?_put_self

theorem get_put_of_ne {row : ContainerRow} (h : (w, r) ≠ (row.wing, row.room)) :
    get (table.put row) w r = get table w r :=
  congrArg (Option.map _) (KeyedTable.find?_put_of_ne h)

theorem get_eq_some {fingerprint : BitmapFields} : table.get w r = some fingerprint ↔
    (⟨w, r, fingerprint⟩ : ContainerRow) ∈ table.rows := by
  rw [get, Option.map_eq_some_iff]
  constructor
  · rintro ⟨row, hfind, rfl⟩
    obtain ⟨hmem, hkey⟩ := KeyedTable.find?_eq_some_iff.mp hfind
    cases hkey
    exact hmem
  · exact fun hmem => ⟨_, KeyedTable.find?_eq_some_iff.mpr ⟨hmem, rfl⟩, rfl⟩

theorem mem_roomLevelEntries {entry : ContainerRow} : entry ∈ table.roomLevelEntries ↔
    entry.room ≠ wingRollupRoom ∧ table.get entry.wing entry.room = some entry.fingerprint := by
  rw [roomLevelEntries, List.mem_mergeSort, List.mem_filter, bne_iff_ne, get_eq_some, and_comm]

theorem covers_iff : table.Covers (w, r) bitmaps ↔ r ≠ wingRollupRoom ∧
    ∃ fingerprint, table.get w r = some fingerprint ∧ bitmaps ≤ fingerprint := by
  constructor
  · rintro ⟨entry, hentry, heq, hle⟩
    cases heq
    obtain ⟨hroom, hget⟩ := mem_roomLevelEntries.mp hentry
    exact ⟨hroom, _, hget, hle⟩
  · rintro ⟨hroom, fingerprint, hget, hle⟩
    exact ⟨⟨w, r, fingerprint⟩, mem_roomLevelEntries.mpr ⟨hroom, hget⟩, rfl, hle⟩

theorem rolledUp_iff : table.RolledUp ↔ ∀ w r fingerprint, r ≠ wingRollupRoom →
    table.get w r = some fingerprint →
      ∃ rollup, table.get w wingRollupRoom = some rollup ∧ fingerprint ≤ rollup := by
  constructor
  · exact fun h w r fingerprint hroom hget => h ⟨w, r, fingerprint⟩
      (mem_roomLevelEntries.mpr ⟨hroom, hget⟩)
  · intro h entry hentry
    obtain ⟨hroom, hget⟩ := mem_roomLevelEntries.mp hentry
    exact h _ _ _ hroom hget

theorem get_orInto_self : get (table.orInto wing room delta) wing room =
    some ((table.get wing room).getD .zero ⊔ delta) := get_put_self _

theorem get_orInto_of_ne (h : (w, r) ≠ (wing, room)) :
    get (table.orInto wing room delta) w r = table.get w r := get_put_of_ne h

/-- No entry loses a bit. -/
theorem get_orInto_of_some (wing room : String) (delta : BitmapFields) {fingerprint : BitmapFields}
    (h : table.get w r = some fingerprint) :
    ∃ grown, get (table.orInto wing room delta) w r = some grown ∧ fingerprint ≤ grown := by
  by_cases hkey : (w, r) = (wing, room)
  · cases hkey
    exact ⟨_, get_orInto_self, by rw [h]; exact le_sup_left⟩
  · exact ⟨fingerprint, by rw [get_orInto_of_ne hkey, h], le_rfl⟩

theorem Covers.orInto {names : String × String} (h : table.Covers names bitmaps) :
    Covers (table.orInto wing room delta) names bitmaps := by
  obtain ⟨hroom, fingerprint, hget, hle⟩ := covers_iff.mp h
  obtain ⟨grown, hgrown, hle'⟩ := get_orInto_of_some wing room delta hget
  exact covers_iff.mpr ⟨hroom, grown, hgrown, hle.trans hle'⟩

theorem Covers.orIn {names : String × String} (h : table.Covers names bitmaps) :
    Covers (table.orIn wing room delta) names bitmaps := h.orInto.orInto

theorem covers_orIn (hroom : room ≠ wingRollupRoom) :
    Covers (table.orIn wing room delta) (wing, room) delta := by
  obtain ⟨f, hget, hle⟩ := get_orInto_of_some wing wingRollupRoom delta
    (get_orInto_self : get (table.orInto wing room delta) wing room = _)
  exact covers_iff.mpr ⟨hroom, f, hget, le_sup_right.trans hle⟩

/-- A room that gets no bit it lacked stays within the roll-up of its wing. -/
theorem RolledUp.orInto (h : table.RolledUp)
    (hbits : room = wingRollupRoom ∨ table.Covers (wing, room) delta) :
    RolledUp (table.orInto wing room delta) := by
  rw [rolledUp_iff] at h ⊢
  intro w r fingerprint hroom hget
  by_cases hkey : (w, r) = (wing, room)
  · cases hkey
    obtain ⟨-, old, hold, hle⟩ := covers_iff.mp (hbits.resolve_left hroom)
    have hrollup : (wing, wingRollupRoom) ≠ (wing, room) :=
      fun heq => hroom (Prod.ext_iff.mp heq).2.symm
    rw [get_orInto_self, hold, Option.getD_some, sup_eq_left.mpr hle, Option.some.injEq] at hget
    rw [get_orInto_of_ne hrollup, ← hget]
    exact h wing room old hroom hold
  · rw [get_orInto_of_ne hkey] at hget
    obtain ⟨rollup, hrollup, hle⟩ := h w r fingerprint hroom hget
    obtain ⟨grown, hgrown, hle'⟩ := get_orInto_of_some wing room delta hrollup
    exact ⟨grown, hgrown, hle.trans hle'⟩

theorem RolledUp.orIn (h : table.RolledUp) : RolledUp (table.orIn wing room delta) := by
  rw [rolledUp_iff] at h ⊢
  intro w r fingerprint hroom hget
  have hother : (w, r) ≠ (wing, wingRollupRoom) := fun heq => hroom (Prod.ext_iff.mp heq).2
  rw [ContainerTable.orIn, get_orInto_of_ne hother] at hget
  by_cases hkey : (w, r) = (wing, room)
  · cases hkey
    have hrollup : (wing, wingRollupRoom) ≠ (wing, room) :=
      fun heq => hroom (Prod.ext_iff.mp heq).2.symm
    rw [get_orInto_self, Option.some.injEq] at hget
    refine ⟨_, get_orInto_self, ?_⟩
    rw [get_orInto_of_ne hrollup, ← hget]
    refine sup_le_sup_right ?_ _
    cases hold : table.get wing room with
    | none => exact BitmapFields.zero_le _
    | some old =>
      obtain ⟨rollup, hrollup, hle⟩ := h wing room old hroom hold
      rw [hrollup]
      exact hle
  · rw [get_orInto_of_ne hkey] at hget
    obtain ⟨rollup, hrollup, hle⟩ := h w r fingerprint hroom hget
    obtain ⟨f₁, hget₁, hle₁⟩ := get_orInto_of_some wing room delta hrollup
    obtain ⟨f₂, hget₂, hle₂⟩ := get_orInto_of_some wing wingRollupRoom delta hget₁
    exact ⟨f₂, hget₂, hle.trans (hle₁.trans hle₂)⟩

section Rebuild

theorem le_foldl_merging {fields : List BitmapFields} {acc a : BitmapFields}
    (h : a ≤ acc ∨ a ∈ fields) : a ≤ fields.foldl .merging acc := by
  induction fields generalizing acc with
  | nil => exact h.resolve_right List.not_mem_nil
  | cons b bs ih =>
    refine ih ?_
    rcases h with h | h
    · exact Or.inl (h.trans le_sup_left)
    · rcases List.mem_cons.mp h with rfl | h
      · exact Or.inl le_sup_right
      · exact Or.inr h

theorem le_mergeAll {fields : List BitmapFields} {a : BitmapFields} (h : a ∈ fields) :
    a ≤ mergeAll fields := le_foldl_merging (Or.inr h)

theorem mem_sortedNames {names : List String} {name : String} :
    name ∈ sortedNames names ↔ name ∈ names := by
  rw [sortedNames, List.mem_mergeSort, List.mem_dedup]

/-- The rooms of a wing are replaced one by one. -/
theorem get_rebuildRooms {rooms : List String} {drawersOf : String → List Drawer} :
    get (rooms.foldl (fun table room => table.rebuildRoom wing room (drawersOf room)) table) w r =
      if w = wing ∧ r ∈ rooms then some (mergeAll ((drawersOf r).map (·.bitmaps)))
      else table.get w r := by
  induction rooms generalizing table with
  | nil => simp
  | cons room rooms ih =>
    rw [List.foldl_cons, ih]
    by_cases hrest : w = wing ∧ r ∈ rooms
    · rw [if_pos hrest, if_pos ⟨hrest.1, List.mem_cons_of_mem _ hrest.2⟩]
    · rw [if_neg hrest]
      by_cases hkey : (w, r) = (wing, room)
      · cases hkey
        rw [if_pos ⟨rfl, List.mem_cons_self⟩]
        exact get_put_self _
      · rw [if_neg, rebuildRoom, get_put_of_ne hkey]
        rintro ⟨rfl, hmem⟩
        rcases List.mem_cons.mp hmem with rfl | hmem
        · exact hkey rfl
        · exact hrest ⟨rfl, hmem⟩

theorem get_rollUpWing_of_ne (h : (w, r) ≠ (wing, wingRollupRoom)) :
    get (table.rollUpWing wing) w r = table.get w r := get_put_of_ne h

theorem get_rollUpWing {fingerprint : BitmapFields} (hroom : r ≠ wingRollupRoom)
    (hget : table.get wing r = some fingerprint) :
    ∃ rollup, get (table.rollUpWing wing) wing wingRollupRoom = some rollup ∧
      fingerprint ≤ rollup := by
  refine ⟨_, get_put_self _, le_mergeAll (List.mem_map.mpr ⟨⟨wing, r, fingerprint⟩, ?_, rfl⟩)⟩
  rw [List.mem_filter]
  exact ⟨get_eq_some.mp hget, by simpa using hroom⟩

variable {located : List ((String × String) × Drawer)} {drawer : Drawer}

theorem get_rebuildWing_of_ne (h : w ≠ wing) :
    get (rebuildWing located table wing) w r = table.get w r := by
  rw [rebuildWing, get_rollUpWing_of_ne fun heq => h (Prod.ext_iff.mp heq).1, get_rebuildRooms,
    if_neg fun hin => h hin.1]

theorem RolledUp.rebuildWing (h : table.RolledUp) :
    RolledUp (ContainerTable.rebuildWing located table wing) := by
  rw [rolledUp_iff] at h ⊢
  intro w r fingerprint hroom hget
  by_cases hwing : w = wing
  · subst hwing
    refine get_rollUpWing hroom ?_
    rwa [ContainerTable.rebuildWing, get_rollUpWing_of_ne
      fun heq => hroom (Prod.ext_iff.mp heq).2] at hget
  · rw [get_rebuildWing_of_ne hwing] at hget ⊢
    exact h w r fingerprint hroom hget

theorem covers_rebuildWing (hmem : ((w, r), drawer) ∈ located) (hroom : r ≠ wingRollupRoom) :
    Covers (rebuildWing located table w) (w, r) drawer.bitmaps := by
  have hin : ((w, r), drawer) ∈ located.filter fun p => p.1.1 == w :=
    List.mem_filter.mpr ⟨hmem, beq_self_eq_true _⟩
  refine covers_iff.mpr ⟨hroom, mergeAll ((((located.filter fun p => p.1.1 == w).filter
    fun p => p.1.2 == r).map (·.2)).map (·.bitmaps)), ?_, ?_⟩
  · rw [rebuildWing, get_rollUpWing_of_ne fun heq => hroom (Prod.ext_iff.mp heq).2,
      get_rebuildRooms, if_pos]
    exact ⟨rfl, mem_sortedNames.mpr (List.mem_map.mpr ⟨_, hin, rfl⟩)⟩
  · refine le_mergeAll (List.mem_map_of_mem (List.mem_map.mpr ⟨_, List.mem_filter.mpr
      ⟨hin, beq_self_eq_true _⟩, rfl⟩))

theorem Covers.rebuildWing_of_ne (h : table.Covers (w, r) bitmaps) (hne : w ≠ wing) :
    Covers (rebuildWing located table wing) (w, r) bitmaps := by
  rw [covers_iff] at h ⊢
  rwa [get_rebuildWing_of_ne hne]

/-- Once its wing was rebuilt, the bitmaps of a drawer stay covered. -/
theorem covers_rebuildWings {wings : List String} (hmem : ((w, r), drawer) ∈ located)
    (hroom : r ≠ wingRollupRoom) (h : w ∈ wings ∨ table.Covers (w, r) drawer.bitmaps) :
    Covers (wings.foldl (rebuildWing located) table) (w, r) drawer.bitmaps := by
  induction wings generalizing table with
  | nil => exact h.resolve_left List.not_mem_nil
  | cons wing wings ih =>
    refine ih (h.elim (fun hin => ?_) fun hcov => ?_)
    · rcases List.mem_cons.mp hin with rfl | hin
      · exact Or.inr (covers_rebuildWing hmem hroom)
      · exact Or.inl hin
    · by_cases hne : w = wing
      · exact Or.inr (hne ▸ covers_rebuildWing hmem hroom)
      · exact Or.inr (hcov.rebuildWing_of_ne hne)

variable {activeDrawers : List Drawer} {nodeNames : String → Option (String × String)}

theorem covers_rebuildAll {names : String × String} (hmem : drawer ∈ activeDrawers)
    (hnames : nodeNames drawer.parentNodeId = some names) (hroom : names.2 ≠ wingRollupRoom) :
    Covers (table.rebuildAll activeDrawers nodeNames) names drawer.bitmaps := by
  have hlocated : (names, drawer) ∈ activeDrawers.filterMap fun d =>
      (nodeNames d.parentNodeId).map fun names => (names, d) :=
    List.mem_filterMap.mpr ⟨drawer, hmem, by rw [hnames]; rfl⟩
  refine covers_rebuildWings hlocated hroom (Or.inl ?_)
  exact mem_sortedNames.mpr (List.mem_map.mpr ⟨_, hlocated, rfl⟩)

theorem RolledUp.rebuildAll (h : table.RolledUp) :
    RolledUp (table.rebuildAll activeDrawers nodeNames) :=
  List.foldlRecOn _ _ h fun _ h _ _ => h.rebuildWing

end Rebuild

end ContainerTable

end MootMemory
