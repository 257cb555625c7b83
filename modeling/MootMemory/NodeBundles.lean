import MootMemory.ByteCodec
import MootMemory.ContainerFingerprints
import MootMemory.EffectRun
import MootMemory.StableSort
import MootMemory.StoredFingerprints
import Mathlib.Data.String.Basic

namespace MootMemory

section Blocks

variable {α : Type*} {enc : α → List UInt8} {k : Nat}

theorem length_flatMap_of_width (henc : ∀ a, (enc a).length = k) (l : List α) :
    (l.flatMap enc).length = l.length * k := by
  induction l with
  | nil => simp
  | cons a l ih => rw [List.flatMap_cons, List.length_append, henc, ih, List.length_cons,
      Nat.succ_mul, Nat.add_comm]

/-- Codes of one width stand one behind the other. -/
theorem sliceAt_flatMap (henc : ∀ a, (enc a).length = k) {l : List α} {j : Nat}
    (hj : j < l.length) : sliceAt (l.flatMap enc) (j * k) k = enc l[j] := by
  induction l generalizing j with
  | nil => exact absurd hj (Nat.not_lt_zero _)
  | cons a l ih =>
    rw [List.flatMap_cons, sliceAt]
    cases j with
    | zero =>
      rw [Nat.zero_mul, List.drop_zero, List.take_append_of_le_length (henc a).ge,
        List.take_of_length_le (henc a).le]
      rfl
    | succ j =>
      have hdrop : (enc a ++ l.flatMap enc).drop ((j + 1) * k) = (l.flatMap enc).drop (j * k) := by
        rw [Nat.succ_mul, Nat.add_comm, ← List.drop_drop, List.drop_left' (henc a)]
      rw [hdrop, List.getElem_cons_succ]
      exact ih (Nat.succ_lt_succ_iff.mp hj)

/-- The blocks of a width make up the bytes they are cut from. -/
theorem flatMap_sliceAt (data : List UInt8) (n : Nat) :
    ((List.range n).flatMap fun j => sliceAt data (j * k) k) = data.take (n * k) := by
  induction n with
  | zero => simp
  | succ n ih =>
    rw [List.range_succ, List.flatMap_append, ih, Nat.succ_mul, List.take_add]
    simp [sliceAt]

end Blocks

/-- How many members have each bit, and how many members there are. -/
structure CountVector256 where
  counts : List (BitVec 32)
  length_counts : counts.length = 256
  n : BitVec 32
deriving DecidableEq

inductive BundleKind where
  | activeA
  | departedB
deriving DecidableEq, Repr

def BundleKind.asStr : BundleKind → String
  | .activeA => "A"
  | .departedB => "B"

def BundleKind.fromStr (s : String) : Option BundleKind :=
  if s = "A" then some .activeA
  else if s = "B" then some .departedB
  else none

theorem BundleKind.fromStr_eq_some {s : String} {kind : BundleKind} :
    fromStr s = some kind ↔ s = kind.asStr := by
  rw [fromStr]
  cases kind with
  | activeA => by_cases hA : s = "A" <;> by_cases hB : s = "B" <;> simp [hA, hB, asStr]
  | departedB =>
    by_cases hA : s = "A"
    · simp [hA, asStr]
    · by_cases hB : s = "B" <;> simp [hA, hB, asStr]

theorem BundleKind.asStr_inj {kind kind' : BundleKind} : kind.asStr = kind'.asStr ↔ kind = kind' := by
  cases kind <;> cases kind' <;> simp [asStr]

structure RoomBundle where
  room : String
  bundle : CountVector256
deriving DecidableEq

/-- A row of the table, with the columns as stored. -/
structure BundleRow where
  wing : String
  room : String
  bundleKind : String
  n : Int
  counts : List UInt8
  updatedAt : Int
deriving DecidableEq

def BundleRow.key (row : BundleRow) : String × String × String :=
  (row.wing, row.room, row.bundleKind)

abbrev NodeBundleStore := KeyedTable BundleRow.key

namespace NodeBundleStore

/-- Each count as four bytes, the least significant first. -/
def encodeCounts (cv : CountVector256) : List UInt8 := cv.counts.flatMap fun c => leBytes 4 c.toNat

def decodeCounts (data : List UInt8) (n : BitVec 32) : Except LocusKitError CountVector256 :=
  if data.length = 256 * 4 then
    .ok ⟨(List.range 256).map fun j => BitVec.ofNat 32 (leNat (sliceAt data (j * 4) 4)),
      (List.length_map _).trans List.length_range, n⟩
  else .error (.invalidContent ("node_bundles counts blob must be exactly 1024 bytes, got " ++
    toString data.length))

/-- The member count is cut to its low bits. -/
def bundleFromRow (row : BundleRow) : Except LocusKitError CountVector256 :=
  decodeCounts row.counts (BitVec.ofInt 32 row.n)

def bundleRow (wing room : String) (kind : BundleKind) (cv : CountVector256) (now : Int) :
    BundleRow :=
  ⟨wing, room, kind.asStr, cv.n.toNat, encodeCounts cv, now⟩

def put (store : NodeBundleStore) (wing room : String) (kind : BundleKind) (cv : CountVector256)
    (now : Int) : NodeBundleStore :=
  KeyedTable.put store (bundleRow wing room kind cv now)

def get (store : NodeBundleStore) (wing room : String) (kind : BundleKind) :
    Except LocusKitError (Option CountVector256) :=
  match store.find? (wing, room, kind.asStr) with
  | none => .ok none
  | some row => (bundleFromRow row).map some

/-- The rooms of a wing by name, without the row of the wing itself. -/
def roomRows (store : NodeBundleStore) (wing : String) (kind : BundleKind) : List BundleRow :=
  stableSort (·.room) (store.rows.filter fun row =>
    row.wing == wing && row.bundleKind == kind.asStr && !(row.room == wingRollupRoom))

def rooms (store : NodeBundleStore) (wing : String) (kind : BundleKind) :
    Except LocusKitError (List RoomBundle) :=
  (store.roomRows wing kind).mapM fun row =>
    (bundleFromRow row).map fun bundle => ⟨row.room, bundle⟩

theorem length_encodeCounts (cv : CountVector256) : (encodeCounts cv).length = 256 * 4 := by
  have hwidth : ∀ c : BitVec 32, (leBytes 4 c.toNat).length = 4 := fun c => length_leBytes _ _
  rw [encodeCounts, length_flatMap_of_width hwidth, cv.length_counts]

/-- A blob is the code of a vector exactly if reading it gives that vector; no other is read. -/
theorem decodeCounts_eq_ok {data : List UInt8} {n : BitVec 32} {cv : CountVector256} :
    decodeCounts data n = .ok cv ↔ data = encodeCounts cv ∧ n = cv.n := by
  have hwidth : ∀ c : BitVec 32, (leBytes 4 c.toNat).length = 4 := fun c => length_leBytes _ _
  rw [decodeCounts]
  constructor
  · intro h
    split at h
    next hlength =>
      obtain rfl := Except.ok.inj h
      refine ⟨?_, rfl⟩
      have hblock : ∀ j ∈ List.range 256,
          leBytes 4 (BitVec.ofNat 32 (leNat (sliceAt data (j * 4) 4))).toNat =
            sliceAt data (j * 4) 4 := by
        intro j hj
        have hinside : j * 4 + 4 ≤ data.length := by
          have := List.mem_range.mp hj
          omega
        have hcut := leBytes_mod 4 (leNat (sliceAt data (j * 4) 4))
        have hback := leBytes_leNat (sliceAt data (j * 4) 4)
        rw [length_sliceAt hinside] at hback
        rw [BitVec.toNat_ofNat]
        exact hcut.trans hback
      rw [encodeCounts, List.flatMap_map, List.flatMap_congr hblock, flatMap_sliceAt, ← hlength,
        List.take_length]
    next => cases h
  · rintro ⟨rfl, rfl⟩
    rw [if_pos (length_encodeCounts cv)]
    have hcounts : (List.range 256).map (fun j =>
        BitVec.ofNat 32 (leNat (sliceAt (encodeCounts cv) (j * 4) 4))) = cv.counts := by
      refine List.ext_getElem (by simp [cv.length_counts]) fun j hj hj' => ?_
      rw [List.getElem_map, List.getElem_range, encodeCounts, sliceAt_flatMap hwidth hj',
        leNat_leBytes]
      have hlt := cv.counts[j].isLt
      rw [Nat.mod_eq_of_lt (by omega), BitVec.ofNat_toNat, BitVec.setWidth_eq]
    cases cv
    simp only [Except.ok.injEq, CountVector256.mk.injEq, and_true]
    exact hcounts

variable {store : NodeBundleStore} {wing room w r : String} {kind kind' : BundleKind}
  {cv : CountVector256} {now : Int}

theorem bundleFromRow_bundleRow : bundleFromRow (bundleRow wing room kind cv now) = .ok cv := by
  refine decodeCounts_eq_ok.mpr ⟨rfl, ?_⟩
  rw [bundleRow, BitVec.ofInt_natCast, BitVec.ofNat_toNat, BitVec.setWidth_eq]

theorem get_put_self : (store.put wing room kind cv now).get wing room kind = .ok (some cv) := by
  have hkey : (wing, room, kind.asStr) = (bundleRow wing room kind cv now).key := rfl
  have hfind : (KeyedTable.put store (bundleRow wing room kind cv now)).find?
      (bundleRow wing room kind cv now).key = some (bundleRow wing room kind cv now) :=
    KeyedTable.find?_put_self
  rw [get, put, hkey, hfind]
  show Except.map some (bundleFromRow (bundleRow wing room kind cv now)) = _
  rw [bundleFromRow_bundleRow]
  rfl

theorem get_put_of_ne (h : ¬(w = wing ∧ r = room ∧ kind' = kind)) :
    (store.put wing room kind cv now).get w r kind' = store.get w r kind' := by
  have hkey : (w, r, kind'.asStr) ≠ (bundleRow wing room kind cv now).key := by
    intro heq
    simp only [BundleRow.key, bundleRow, Prod.mk.injEq, BundleKind.asStr_inj] at heq
    exact h heq
  rw [get, put, KeyedTable.find?_put_of_ne hkey, get]

theorem get_put : (store.put wing room kind cv now).get w r kind' =
    if w = wing ∧ r = room ∧ kind' = kind then .ok (some cv) else store.get w r kind' := by
  by_cases h : w = wing ∧ r = room ∧ kind' = kind
  · rw [if_pos h]
    obtain ⟨rfl, rfl, rfl⟩ := h
    exact get_put_self
  · rw [if_neg h, get_put_of_ne h]

theorem mem_roomRows {row : BundleRow} : row ∈ store.roomRows wing kind ↔
    row ∈ store.rows ∧ row.wing = wing ∧ row.bundleKind = kind.asStr ∧ row.room ≠ wingRollupRoom := by
  rw [roomRows, (stableSort_perm _ _).mem_iff, List.mem_filter]
  simp [and_assoc]

theorem nodup_roomRows : ((store.roomRows wing kind).map (·.room)).Nodup := by
  have hfilter : ((store.rows.filter fun row => row.wing == wing &&
      row.bundleKind == kind.asStr && !(row.room == wingRollupRoom)).map (·.room)).Nodup := by
    refine List.Nodup.map_on ?_ (List.Nodup.filter _ (List.Nodup.of_map _ store.nodup))
    intro a ha b hb hroom
    simp only [List.mem_filter, Bool.and_eq_true, beq_iff_eq] at ha hb
    refine KeyedTable.eq_of_key_eq ha.1 hb.1 ?_
    rw [BundleRow.key, BundleRow.key, ha.2.1.1, hb.2.1.1, ha.2.1.2, hb.2.1.2, hroom]
  rw [roomRows, ((stableSort_perm _ _).map _).nodup_iff]
  exact hfilter

/-- What the rooms of a wing hold, by name, once each of them can be read. -/
theorem rooms_eq {names : List String} {value : String → CountVector256}
    (hget : ∀ room ≠ wingRollupRoom, store.get wing room kind =
      .ok (if room ∈ names then some (value room) else none))
    (hnames : wingRollupRoom ∉ names) :
    store.rooms wing kind = .ok ((ContainerTable.sortedNames names).map fun room => ⟨room, value room⟩) := by
  have hfind : ∀ row ∈ store.roomRows wing kind,
      store.find? (wing, row.room, kind.asStr) = some row := by
    intro row hrow
    obtain ⟨hmem, hwing, hkind, -⟩ := mem_roomRows.mp hrow
    rw [KeyedTable.find?_eq_some_iff]
    exact ⟨hmem, by rw [BundleRow.key, hwing, hkind]⟩
  have hread : ∀ row ∈ store.roomRows wing kind,
      row.room ∈ names ∧ bundleFromRow row = .ok (value row.room) := by
    intro row hrow
    have hrooms := hget row.room (mem_roomRows.mp hrow).2.2.2
    rw [get, hfind row hrow] at hrooms
    show row.room ∈ names ∧ _
    cases hdecode : bundleFromRow row with
    | error e => simp [hdecode, Except.map] at hrooms
    | ok cv =>
      by_cases hin : row.room ∈ names
      · simp only [hdecode, Except.map, if_pos hin, Except.ok.injEq, Option.some.injEq] at hrooms
        exact ⟨hin, by rw [hrooms]⟩
      · simp [hdecode, Except.map, hin] at hrooms
  have hsame : (store.roomRows wing kind).map (·.room) = ContainerTable.sortedNames names := by
    have hmem : ∀ room, room ∈ (store.roomRows wing kind).map (·.room) ↔
        room ∈ ContainerTable.sortedNames names := by
      intro room
      rw [ContainerTable.mem_sortedNames]
      constructor
      · intro h
        obtain ⟨row, hrow, rfl⟩ := List.mem_map.mp h
        exact (hread row hrow).1
      · intro h
        have hroom : room ≠ wingRollupRoom := fun heq => hnames (heq ▸ h)
        have hrooms := hget room hroom
        rw [get, if_pos h] at hrooms
        split at hrooms
        next => simp at hrooms
        next row hrow =>
          obtain ⟨hmem, hkey⟩ := KeyedTable.find?_eq_some_iff.mp hrow
          simp only [BundleRow.key, Prod.mk.injEq] at hkey
          refine List.mem_map.mpr ⟨row, mem_roomRows.mpr ⟨hmem, hkey.1, hkey.2.2, ?_⟩, hkey.2.1⟩
          rw [hkey.2.1]
          exact hroom
    have hperm : ((store.roomRows wing kind).map (·.room)).Perm (ContainerTable.sortedNames names) := by
      refine (List.perm_ext_iff_of_nodup nodup_roomRows ?_).mpr hmem
      rw [ContainerTable.sortedNames, (List.mergeSort_perm _ _).nodup_iff]
      exact names.nodup_dedup
    have hsorted : ((store.roomRows wing kind).map (·.room)).Pairwise (· ≤ ·) := by
      rw [List.pairwise_map, roomRows]
      exact stableSort_pairwise _ _
    have hnamesSorted : (ContainerTable.sortedNames names).Pairwise (· ≤ ·) := by
      have hsort := stableSort_pairwise (fun name : String => name) names.dedup
      rw [stableSort] at hsort
      rw [ContainerTable.sortedNames]
      exact hsort
    exact hperm.eq_of_pairwise (fun a b _ _ => le_antisymm) hsorted hnamesSorted
  rw [rooms, mapM_ok (g := fun row => ⟨row.room, value row.room⟩) fun row hrow => by
    rw [(hread row hrow).2]; rfl]
  rw [← hsame, List.map_map]
  rfl

end NodeBundleStore

/-- The counting of the outside libraries. -/
structure CountKernel where
  zero : CountVector256
  merge : CountVector256 → CountVector256 → CountVector256
  countFold256 : List Fingerprint256 → CountVector256

/-- Counting starts at zero, and parts may be counted apart and merged. -/
structure CountKernel.Counts (kernel : CountKernel) : Prop where
  fold_nil : kernel.countFold256 [] = kernel.zero
  fold_append : ∀ xs ys, kernel.countFold256 (xs ++ ys) =
    kernel.merge (kernel.countFold256 xs) (kernel.countFold256 ys)

theorem CountKernel.Counts.foldl_merge {kernel : CountKernel} (h : kernel.Counts)
    (parts : List (List Fingerprint256)) (xs : List Fingerprint256) :
    parts.foldl (fun acc part => kernel.merge acc (kernel.countFold256 part))
      (kernel.countFold256 xs) = kernel.countFold256 (xs ++ parts.flatten) := by
  induction parts generalizing xs with
  | nil => simp
  | cons part parts ih =>
    rw [List.foldl_cons, ← h.fold_append, ih, List.flatten_cons, List.append_assoc]

structure BundleMaterializer (library : FingerprintLibrary) where
  families : EstateFingerprintFamilies library
  kernel : CountKernel

inductive BundleCall where
  | materializeRoom (wing room : String) (activeDrawers : List Drawer) (now : Int)
  | rollUpWing (wing : String) (now : Int)
  | putDeparted (wing room : String) (cv : CountVector256) (now : Int)
deriving DecidableEq

namespace BundleMaterializer

variable {library : FingerprintLibrary} (m : BundleMaterializer library)

def countFold (drawers : List Drawer) : CountVector256 :=
  m.kernel.countFold256 (drawers.map m.families.fingerprint)

/-- Counts the drawers of a room anew. -/
def materializeRoom (store : NodeBundleStore) (wing room : String) (activeDrawers : List Drawer)
    (now : Int) : CountVector256 × NodeBundleStore :=
  let cv := m.countFold activeDrawers
  (cv, store.put wing room .activeA cv now)

/-- Merges the rooms of a wing. -/
def rollUpWing (store : NodeBundleStore) (wing : String) (now : Int) :
    Except LocusKitError (CountVector256 × NodeBundleStore) := do
  let rooms ← store.rooms wing .activeA
  let acc := rooms.foldl (fun acc entry => m.kernel.merge acc entry.bundle) m.kernel.zero
  return (acc, store.put wing wingRollupRoom .activeA acc now)

def call (store : NodeBundleStore) : BundleCall → Except LocusKitError NodeBundleStore
  | .materializeRoom wing room activeDrawers now =>
    .ok (m.materializeRoom store wing room activeDrawers now).2
  | .rollUpWing wing now => (m.rollUpWing store wing now).map (·.2)
  | .putDeparted wing room cv now => .ok (store.put wing room .departedB cv now)

def run (calls : List BundleCall) : Except LocusKitError NodeBundleStore :=
  calls.foldlM m.call KeyedTable.empty

end BundleMaterializer

/-- The drawers a call counts for a room. -/
def BundleCall.drawers (wing room : String) : BundleCall → Option (List Drawer)
  | .materializeRoom w r activeDrawers _ =>
    if w = wing ∧ r = room then some activeDrawers else none
  | .rollUpWing _ _ => none
  | .putDeparted _ _ _ _ => none

def BundleCall.departed (wing room : String) : BundleCall → Option CountVector256
  | .materializeRoom _ _ _ _ => none
  | .rollUpWing _ _ => none
  | .putDeparted w r cv _ => if w = wing ∧ r = room then some cv else none

/-- The drawers a room was last counted with. -/
def lastDrawers (calls : List BundleCall) (wing room : String) : Option (List Drawer) :=
  calls.reverse.findSome? (·.drawers wing room)

def lastDeparted (calls : List BundleCall) (wing room : String) : Option CountVector256 :=
  calls.reverse.findSome? (·.departed wing room)

def BundleCall.room? (wing : String) : BundleCall → Option String
  | .materializeRoom w r _ _ => if w = wing ∧ r ≠ wingRollupRoom then some r else none
  | .rollUpWing _ _ => none
  | .putDeparted _ _ _ _ => none

/-- The rooms of a wing that were counted. -/
def countedRooms (calls : List BundleCall) (wing : String) : List String :=
  calls.filterMap (·.room? wing)

/-- The drawers of a wing, room by room. -/
def wingDrawers (calls : List BundleCall) (wing : String) : List Drawer :=
  (ContainerTable.sortedNames (countedRooms calls wing)).flatMap fun room =>
    (lastDrawers calls wing room).getD []

section History

variable {calls : List BundleCall} {call : BundleCall} {wing room : String}

theorem lastDrawers_append : lastDrawers (calls ++ [call]) wing room =
    (call.drawers wing room).or (lastDrawers calls wing room) := by
  rw [lastDrawers, List.reverse_append, List.reverse_singleton, List.singleton_append,
    List.findSome?_cons]
  cases call.drawers wing room with
  | none => rfl
  | some drawers => rfl

theorem lastDeparted_append : lastDeparted (calls ++ [call]) wing room =
    (call.departed wing room).or (lastDeparted calls wing room) := by
  rw [lastDeparted, List.reverse_append, List.reverse_singleton, List.singleton_append,
    List.findSome?_cons]
  cases call.departed wing room with
  | none => rfl
  | some cv => rfl

theorem room?_eq_some : call.room? wing = some room ↔
    room ≠ wingRollupRoom ∧ (call.drawers wing room).isSome := by
  cases call with
  | materializeRoom w r activeDrawers now =>
    rw [BundleCall.room?, BundleCall.drawers]
    constructor
    · intro h
      split at h
      next hw =>
        obtain rfl := Option.some.inj h
        exact ⟨hw.2, by rw [if_pos ⟨hw.1, rfl⟩]; rfl⟩
      next => cases h
    · rintro ⟨hroom, hsome⟩
      split at hsome
      next hw => rw [if_pos ⟨hw.1, hw.2 ▸ hroom⟩, hw.2]
      next => cases hsome
  | rollUpWing w now => simp [BundleCall.room?, BundleCall.drawers]
  | putDeparted w r cv now => simp [BundleCall.room?, BundleCall.drawers]

theorem mem_countedRooms : room ∈ countedRooms calls wing ↔
    room ≠ wingRollupRoom ∧ (lastDrawers calls wing room).isSome := by
  rw [countedRooms, lastDrawers, List.mem_filterMap, List.findSome?_isSome_iff]
  constructor
  · rintro ⟨call, hcall, hroom⟩
    obtain ⟨hne, hsome⟩ := room?_eq_some.mp hroom
    exact ⟨hne, call, List.mem_reverse.mpr hcall, hsome⟩
  · rintro ⟨hne, call, hcall, hsome⟩
    exact ⟨call, List.mem_reverse.mp hcall, room?_eq_some.mpr ⟨hne, hsome⟩⟩

end History

namespace BundleMaterializer

variable {library : FingerprintLibrary} {m : BundleMaterializer library} {store : NodeBundleStore}
  {calls : List BundleCall}

/-- Each room has the count of the drawers it was last counted with, and the departed as put. -/
structure Tracks (m : BundleMaterializer library) (calls : List BundleCall)
    (store : NodeBundleStore) : Prop where
  active : ∀ wing room, room ≠ wingRollupRoom →
    store.get wing room .activeA = .ok ((lastDrawers calls wing room).map m.countFold)
  departed : ∀ wing room, store.get wing room .departedB = .ok (lastDeparted calls wing room)

theorem tracks_empty : m.Tracks [] KeyedTable.empty where
  active _ _ _ := rfl
  departed _ _ := rfl

/-- The merged rooms are the count of all their drawers. -/
theorem Tracks.rollUpWing (h : m.Tracks calls store) (hkernel : m.kernel.Counts) (wing : String)
    (now : Int) : m.rollUpWing store wing now = .ok (m.countFold (wingDrawers calls wing),
      store.put wing wingRollupRoom .activeA (m.countFold (wingDrawers calls wing)) now) := by
  have hrooms : store.rooms wing .activeA =
      .ok ((ContainerTable.sortedNames (countedRooms calls wing)).map fun room =>
        ⟨room, m.countFold ((lastDrawers calls wing room).getD [])⟩) := by
    refine NodeBundleStore.rooms_eq (fun room hroom => ?_) fun hin =>
      (mem_countedRooms.mp hin).1 rfl
    rw [h.active wing room hroom]
    by_cases hin : room ∈ countedRooms calls wing
    · obtain ⟨drawers, hdrawers⟩ := Option.isSome_iff_exists.mp (mem_countedRooms.mp hin).2
      rw [if_pos hin, hdrawers]
      rfl
    · have hnone : lastDrawers calls wing room = none := by
        rw [← Option.not_isSome_iff_eq_none]
        exact fun hsome => hin (mem_countedRooms.mpr ⟨hroom, hsome⟩)
      rw [if_neg hin, hnone]
      rfl
  have hmerge := hkernel.foldl_merge ((ContainerTable.sortedNames (countedRooms calls wing)).map
    fun room => ((lastDrawers calls wing room).getD []).map m.families.fingerprint) []
  rw [hkernel.fold_nil, List.nil_append, List.foldl_map] at hmerge
  have hall : ((ContainerTable.sortedNames (countedRooms calls wing)).map fun room =>
      ((lastDrawers calls wing room).getD []).map m.families.fingerprint).flatten =
        (wingDrawers calls wing).map m.families.fingerprint := by
    rw [wingDrawers, List.map_flatMap, List.flatMap_def]
  rw [hall] at hmerge
  rw [BundleMaterializer.rollUpWing, hrooms, except_ok_bind, List.foldl_map]
  show Except.ok (_, store.put wing wingRollupRoom .activeA _ now) = _
  simp only [countFold]
  rw [hmerge]

/-- What one call leaves. -/
theorem Tracks.call (h : m.Tracks calls store) (hkernel : m.kernel.Counts) (call : BundleCall) :
    ∃ after, m.call store call = .ok after ∧ m.Tracks (calls ++ [call]) after := by
  cases call with
  | materializeRoom wing room activeDrawers now =>
    refine ⟨_, rfl, fun w r hroom => ?_, fun w r => ?_⟩
    · rw [materializeRoom, NodeBundleStore.get_put, lastDrawers_append, BundleCall.drawers,
        h.active w r hroom]
      by_cases heq : wing = w ∧ room = r
      · rw [if_pos ⟨heq.1.symm, heq.2.symm, rfl⟩, if_pos heq]
        rfl
      · rw [if_neg fun hsame => heq ⟨hsame.1.symm, hsame.2.1.symm⟩, if_neg heq]
        rfl
    · rw [materializeRoom, NodeBundleStore.get_put_of_ne (by simp), lastDeparted_append,
        h.departed w r]
      rfl
  | rollUpWing wing now =>
    refine ⟨_, by rw [BundleMaterializer.call, h.rollUpWing hkernel]; rfl, fun w r hroom => ?_,
      fun w r => ?_⟩
    · rw [NodeBundleStore.get_put_of_ne fun hsame => hroom hsame.2.1, lastDrawers_append,
        h.active w r hroom]
      rfl
    · rw [NodeBundleStore.get_put_of_ne (by simp), lastDeparted_append, h.departed w r]
      rfl
  | putDeparted wing room cv now =>
    refine ⟨_, rfl, fun w r hroom => ?_, fun w r => ?_⟩
    · rw [NodeBundleStore.get_put_of_ne (by simp), lastDrawers_append, h.active w r hroom]
      rfl
    · rw [NodeBundleStore.get_put, lastDeparted_append, BundleCall.departed, h.departed w r]
      by_cases heq : wing = w ∧ room = r
      · rw [if_pos ⟨heq.1.symm, heq.2.symm, rfl⟩, if_pos heq]
        rfl
      · rw [if_neg fun hsame => heq ⟨hsame.1.symm, hsame.2.1.symm⟩, if_neg heq]
        rfl

theorem tracks_run (hkernel : m.kernel.Counts) (calls : List BundleCall) :
    ∃ store, m.run calls = .ok store ∧ m.Tracks calls store := by
  induction calls using List.reverseRecOn with
  | nil => exact ⟨_, rfl, tracks_empty⟩
  | append_singleton calls call ih =>
    obtain ⟨store, hrun, htracks⟩ := ih
    obtain ⟨after, hcall, hafter⟩ := htracks.call hkernel call
    refine ⟨after, ?_, hafter⟩
    rw [run] at hrun ⊢
    rw [List.foldlM_append, hrun, except_ok_bind, List.foldlM_cons, hcall, except_ok_bind,
      List.foldlM_nil]
    rfl

/-- After any calls, in any order, rolling a wing up counts the drawers its rooms were last counted
with, without an error, and changes no other bundle. -/
theorem rollUpWing_run (hkernel : m.kernel.Counts) (calls : List BundleCall) (wing : String)
    (now : Int) :
    ∃ store after, m.run calls = .ok store ∧
      m.rollUpWing store wing now = .ok (m.countFold (wingDrawers calls wing), after) ∧
      after.get wing wingRollupRoom .activeA = .ok (some (m.countFold (wingDrawers calls wing))) ∧
      (∀ w r, r ≠ wingRollupRoom →
        after.get w r .activeA = .ok ((lastDrawers calls w r).map m.countFold)) ∧
      (∀ w, w ≠ wing → after.get w wingRollupRoom .activeA = store.get w wingRollupRoom .activeA) ∧
      ∀ w r, after.get w r .departedB = .ok (lastDeparted calls w r) := by
  obtain ⟨store, hrun, htracks⟩ := tracks_run hkernel calls
  have hroll := htracks.rollUpWing hkernel wing now
  refine ⟨store, _, hrun, hroll, NodeBundleStore.get_put_self, fun w r hroom => ?_,
    fun w hw => ?_, fun w r => ?_⟩
  · rw [NodeBundleStore.get_put_of_ne fun hsame => hroom hsame.2.1, htracks.active w r hroom]
  · rw [NodeBundleStore.get_put_of_ne fun hsame => hw hsame.1]
  · rw [NodeBundleStore.get_put_of_ne (by simp), htracks.departed w r]

end BundleMaterializer

/-- Counts that wrap around. -/
def CountKernel.wrapping : CountKernel where
  zero := ⟨List.replicate 256 0, List.length_replicate, 0⟩
  merge a b := ⟨List.zipWith (· + ·) a.counts b.counts, by
    rw [List.length_zipWith, a.length_counts, b.length_counts, Nat.min_self], a.n + b.n⟩
  countFold256 prints := ⟨(List.range 256).map fun j =>
    BitVec.ofNat 32 (prints.countP fun print => print.getLsbD j),
      (List.length_map _).trans List.length_range, BitVec.ofNat 32 prints.length⟩

theorem CountKernel.counts_wrapping : CountKernel.wrapping.Counts where
  fold_nil := by
    have hcounts : (List.range 256).map (fun j =>
        BitVec.ofNat 32 (([] : List Fingerprint256).countP fun print => print.getLsbD j)) =
          List.replicate 256 0 := by
      refine List.eq_replicate_iff.mpr ⟨(List.length_map _).trans List.length_range, fun c hc => ?_⟩
      obtain ⟨j, -, rfl⟩ := List.mem_map.mp hc
      rfl
    simp only [wrapping, hcounts]
    rfl
  fold_append xs ys := by
    simp only [wrapping, CountVector256.mk.injEq]
    refine ⟨?_, ?_⟩
    · rw [List.zipWith_map, List.zipWith_self]
      refine List.map_congr_left fun j _ => ?_
      rw [List.countP_append, BitVec.ofNat_add]
    · rw [List.length_append, BitVec.ofNat_add]

namespace BundleMaterializer

def referenceMaterializer : BundleMaterializer PrintedStore.referenceFingerprintLibrary where
  families := .new PrintedStore.referenceFingerprintLibrary (referenceUuidText "a")
  kernel := .wrapping

/-- A room counted twice, another room, the wing in between, and departed members. -/
def countingCalls : List BundleCall :=
  [.materializeRoom "w" "b" [referenceDrawer "1" 1 5] 6, .rollUpWing "w" 7,
    .materializeRoom "w" "a" [referenceDrawer "2" 2 5] 8,
    .putDeparted "w" "a" (referenceMaterializer.countFold []) 9,
    .materializeRoom "w" "b" [referenceDrawer "1" 1 5, referenceDrawer "3" 3 5] 10]

theorem rollUpWing_run_countingCalls :
    wingDrawers countingCalls "w" =
      [referenceDrawer "2" 2 5, referenceDrawer "1" 1 5, referenceDrawer "3" 3 5] ∧
    ∃ store after, referenceMaterializer.run countingCalls = .ok store ∧
      referenceMaterializer.rollUpWing store "w" 11 =
        .ok (referenceMaterializer.countFold (wingDrawers countingCalls "w"), after) := by
  obtain ⟨store, after, hrun, hroll, -⟩ := @rollUpWing_run _ referenceMaterializer
    CountKernel.counts_wrapping countingCalls "w" 11
  have hrooms : (countedRooms countingCalls "w").dedup = ["a", "b"] := by decide
  have hnames : ContainerTable.sortedNames (countedRooms countingCalls "w") = ["a", "b"] := by
    rw [ContainerTable.sortedNames, hrooms, List.mergeSort_of_pairwise (by decide)]
  have hdrawers : wingDrawers countingCalls "w" =
      [referenceDrawer "2" 2 5, referenceDrawer "1" 1 5, referenceDrawer "3" 3 5] := by
    rw [wingDrawers, hnames]
    rfl
  exact ⟨hdrawers, store, after, hrun, hroll⟩

end BundleMaterializer

end MootMemory
