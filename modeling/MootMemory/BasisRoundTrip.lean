import MootMemory.BasisCodec

namespace MootMemory

/-- Where the bytes stand, the read returns the value and moves behind them. -/
def Decodes {α : Type} (read : BasisRead α) (bytes : List UInt8) (x : α) : Prop :=
  ∀ data pos, HasAt data pos bytes → read ⟨data, pos⟩ = .ok (x, ⟨data, pos + bytes.length⟩)

/-- No input makes the read go out of bounds. -/
def BasisRead.Guarded {α : Type} (read : BasisRead α) : Prop := ∀ r, read r ≠ .error .panic

section Combinators

variable {α β : Type} {read : BasisRead α} {next : α → BasisRead β} {bytes bytes' : List UInt8}
  {x : α} {y : β}

theorem decodes_pure (x : α) : Decodes (pure x) [] x := by
  intro data pos _
  rfl

theorem Decodes.bind (h : Decodes read bytes x) (hnext : Decodes (next x) bytes' y) :
    Decodes (read >>= next) (bytes ++ bytes') y := by
  intro data pos hat
  obtain ⟨hleft, hright⟩ := hasAt_append.mp hat
  show (read ⟨data, pos⟩ >>= fun p => next p.1 p.2) = _
  rw [h data pos hleft]
  show next x ⟨data, pos + bytes.length⟩ = _
  rw [hnext data _ hright, List.length_append, Nat.add_assoc]

/-- The last read of a decoder: what follows only builds the value. -/
theorem Decodes.map (h : Decodes read bytes x) (f : α → β) :
    Decodes (read >>= fun a => pure (f a)) bytes (f x) := by
  have hbind : Decodes (read >>= fun a => pure (f a)) (bytes ++ []) (f x) :=
    h.bind (decodes_pure (f x))
  rwa [List.append_nil] at hbind

theorem Decodes.over (h : Decodes read bytes x) : read.over bytes = .ok x := by
  have hat : HasAt bytes 0 bytes := by simp [HasAt, sliceAt]
  rw [BasisRead.over, h bytes 0 hat]
  rfl

theorem guarded_pure (x : α) : (pure x : BasisRead α).Guarded := by
  intro r h
  cases h

theorem guarded_fail (e : BasisCodecError) : (BasisRead.fail e : BasisRead α).Guarded := by
  intro r h
  cases h

theorem BasisRead.Guarded.bind (h : read.Guarded) (hnext : ∀ x, (next x).Guarded) :
    (read >>= next).Guarded := by
  intro r
  show (read r >>= fun p => next p.1 p.2) ≠ _
  cases hread : read r with
  | error e =>
    intro heq
    cases heq
    exact h r hread
  | ok p => exact hnext p.1 p.2

theorem BasisRead.Guarded.over (h : read.Guarded) : read.over bytes ≠ .error .panic := by
  rw [BasisRead.over]
  cases hread : read ⟨bytes, 0⟩ with
  | error e =>
    intro heq
    cases heq
    exact h _ hread
  | ok p =>
    intro heq
    cases heq

end Combinators

section Primitives

variable {k n : Nat} {reading : Nat → String}

theorem decodes_takeBytes {bs : List UInt8} (h : bs.length = k) : Decodes (takeBytes k) bs bs := by
  rintro data pos ⟨hle, hslice⟩
  subst h
  rw [takeBytes, if_pos hle, hslice]

/-- A guarded slice is the bytes that stand there. -/
theorem decodes_slice {α : Type} {next : List UInt8 → BasisRead α} {bs bytes : List UInt8} {y : α}
    (h : bs.length = k) (hnext : Decodes (next bs) bytes y) :
    Decodes (do guardLeft k reading; let got ← takeBytes k; next got) (bs ++ bytes) y := by
  intro data pos hat
  show (guardLeft k reading ⟨data, pos⟩ >>= fun p => (takeBytes k >>= next) p.2) = _
  have hleft : ¬ data.length < pos + k := by
    have hle := (hasAt_append.mp hat).1.1
    omega
  rw [guardLeft, if_neg hleft]
  exact (decodes_takeBytes h).bind hnext data pos hat

/-- Behind the guard the slice is there. -/
theorem guarded_slice {α : Type} {next : List UInt8 → BasisRead α}
    (hnext : ∀ bs, (next bs).Guarded) :
    (do guardLeft k reading; let got ← takeBytes k; next got : BasisRead α).Guarded := by
  intro r
  show (guardLeft k reading r >>= fun p => (takeBytes k >>= next) p.2) ≠ _
  rw [guardLeft]
  split
  next =>
    intro heq
    cases heq
  next hleft =>
    show (takeBytes k r >>= fun p => next p.1 p.2) ≠ _
    rw [takeBytes, if_pos (by omega)]
    exact hnext _ _

theorem decodes_readLE (h : n < 256 ^ k) : Decodes (readLE k reading) (leBytes k n) n := by
  have hslice : Decodes (readLE k reading) (leBytes k n ++ []) (leNat (leBytes k n)) :=
    decodes_slice (length_leBytes k n) (decodes_pure _)
  rwa [List.append_nil, leNat_leBytes, Nat.mod_eq_of_lt h] at hslice

theorem guarded_readLE : (readLE k reading).Guarded := guarded_slice fun _ => guarded_pure _

theorem decodes_readU32 (h : n < 2 ^ 32) : Decodes readU32 (writeU32 n) n := decodes_readLE h

/-- A number that does not fit comes back as its low 32 bits. -/
theorem decodes_readU32_mod (n : Nat) : Decodes readU32 (writeU32 n) (n % 2 ^ 32) := by
  rw [writeU32, ← leBytes_mod 4 n]
  exact decodes_readU32 (Nat.mod_lt n (by decide))

theorem guarded_readU32 : readU32.Guarded := guarded_readLE

theorem decodes_readU64 (v : UInt64) : Decodes readU64 (writeU64 v) v := by
  have h : Decodes readU64 (writeU64 v) (UInt64.ofNat v.toNat) :=
    (decodes_readLE v.toNat_lt).map UInt64.ofNat
  rwa [UInt64.ofNat_toNat] at h

theorem guarded_readU64 : readU64.Guarded := guarded_readLE.bind fun _ => guarded_pure _

theorem decodes_readF32 (v : F32) : Decodes readF32 (writeF32 v) v := by
  have h := (decodes_readU32 v.toNat_lt).map UInt32.ofNat
  rwa [UInt32.ofNat_toNat] at h

theorem guarded_readF32 : readF32.Guarded := guarded_readU32.bind fun _ => guarded_pure _

theorem decodes_readByte (b : UInt8) : Decodes readByte [b] b := by
  rintro data pos ⟨hle, hslice⟩
  rw [List.length_singleton] at hle hslice
  have hb : data[pos]? = some b := by
    rw [sliceAt] at hslice
    have hhead := congrArg List.head? hslice
    simpa [List.head?_take, List.head?_drop] using hhead
  show (guardLeft 1 _ ⟨data, pos⟩ >>= fun p => byteAtCursor p.2) = _
  rw [guardLeft, if_neg (by simpa using hle)]
  show (orPanic data[pos]? >>= _) = _
  rw [hb]
  rfl

theorem guarded_readByte : readByte.Guarded := by
  intro r
  show (guardLeft 1 _ r >>= fun p => byteAtCursor p.2) ≠ _
  rw [guardLeft]
  split
  next =>
    intro heq
    cases heq
  next hleft =>
    show (orPanic r.bytes[r.cursor]? >>= _) ≠ _
    rw [List.getElem?_eq_getElem (by omega)]
    intro heq
    cases heq

theorem decodes_expectMagic {magic : List UInt8} (h : magic.length = 4) :
    Decodes (expectMagic magic) magic () := by
  have hslice : Decodes (expectMagic magic) (magic ++ []) () :=
    decodes_slice h (by rw [if_neg (by simp)]; exact decodes_pure ())
  rwa [List.append_nil] at hslice

theorem guarded_expectMagic (magic : List UInt8) : (expectMagic magic).Guarded := by
  refine guarded_slice fun got => ?_
  split
  · exact guarded_fail _
  · exact guarded_pure _

/-- Another magic is refused. -/
theorem refused_magic {α : Type} {magic other rest : List UInt8} (hother : other.length = 4)
    (hne : other ≠ magic) (next : Unit → BasisRead α) :
    ∃ e, (expectMagic magic >>= next).over (other ++ rest) = .error (.err e) := by
  have hslice : sliceAt (other ++ rest) 0 4 = other := by
    rw [sliceAt, List.drop_zero, ← hother, List.take_left']
    rfl
  have hread : expectMagic magic ⟨other ++ rest, 0⟩ =
      .error (.err (.magicMismatch
        s!"expected {debugBytes magic}, got {debugBytes other}")) := by
    show (guardLeft 4 _ ⟨other ++ rest, 0⟩ >>= _) = _
    rw [guardLeft, if_neg (by rw [List.length_append]; simp only [hother]; omega)]
    show (takeBytes 4 ⟨other ++ rest, 0⟩ >>= _) = _
    rw [takeBytes, if_pos (by rw [List.length_append]; simp only [hother]; omega)]
    show (if sliceAt (other ++ rest) 0 4 ≠ magic then
      BasisRead.fail (.magicMismatch _) else pure () : BasisRead Unit) _ = _
    rw [hslice, if_pos hne]
    rfl
  refine ⟨.magicMismatch s!"expected {debugBytes magic}, got {debugBytes other}", ?_⟩
  rw [BasisRead.over]
  show ((expectMagic magic ⟨other ++ rest, 0⟩ >>= fun r => next r.1 r.2).map _) = _
  rw [hread]
  rfl

theorem decodes_expectVersion (v : UInt8) : Decodes (expectVersion v) [v] () := by
  have h : Decodes (expectVersion v) ([v] ++ []) () :=
    (decodes_readByte v).bind (by rw [if_neg (by simp)]; exact decodes_pure ())
  exact h

theorem guarded_expectVersion (v : UInt8) : (expectVersion v).Guarded := by
  refine guarded_readByte.bind fun v' => ?_
  split
  · exact guarded_fail _
  · exact guarded_pure _

end Primitives

section Strings

def StringFits (s : String) : Prop := (strBytes s).length < 2 ^ 32

instance (s : String) : Decidable (StringFits s) :=
  inferInstanceAs (Decidable ((strBytes s).length < 2 ^ 32))

theorem decodes_readString {s : String} (h : StringFits s) :
    Decodes readString (writeString s) s := by
  have hbody : Decodes readString (writeU32 (strBytes s).length ++ (strBytes s ++ [])) s :=
    (decodes_readU32 h).bind (decodes_slice rfl (by
      rw [strOfBytes_ok.mpr rfl]
      exact decodes_pure s))
  rwa [List.append_nil] at hbody

theorem guarded_readString : readString.Guarded := by
  refine guarded_readU32.bind fun len => guarded_slice fun slice => ?_
  split
  · exact guarded_pure _
  · exact guarded_fail _

end Strings

section Loops

variable {α β : Type} {step : α → BasisRead α}

theorem decodes_readTimes {write : β → List UInt8} {f : α → β → α} {items : List β}
    (h : ∀ out, ∀ x ∈ items, Decodes (step out) (write x) (f out x)) (out : α) :
    Decodes (readTimes step items.length out) (items.flatMap write) (items.foldl f out) := by
  induction items generalizing out with
  | nil => exact decodes_pure out
  | cons x items ih =>
    rw [List.flatMap_cons]
    exact (h out x List.mem_cons_self).bind
      (ih (fun out y hy => h out y (List.mem_cons_of_mem _ hy)) (f out x))

theorem decodes_readCounted {write : β → List UInt8} {f : α → β → α} {items : List β} {out : α}
    (hlen : items.length < 2 ^ 32)
    (h : ∀ out, ∀ x ∈ items, Decodes (step out) (write x) (f out x)) :
    Decodes (readCounted step out) (writeMany write items) (items.foldl f out) :=
  (decodes_readU32 hlen).bind (decodes_readTimes h out)

theorem guarded_readTimes (h : ∀ out, (step out).Guarded) (n : Nat) (out : α) :
    (readTimes step n out).Guarded := by
  induction n generalizing out with
  | zero => exact guarded_pure out
  | succ n ih => exact (h out).bind ih

theorem guarded_readCounted (h : ∀ out, (step out).Guarded) (out : α) :
    (readCounted step out).Guarded :=
  guarded_readU32.bind fun n => guarded_readTimes h n out

theorem foldl_concat (items out : List β) :
    items.foldl (fun out x => out ++ [x]) out = out ++ items := by
  induction items generalizing out with
  | nil => simp
  | cons x items ih => simp [ih]

/-- A counted list whose items the reader appends one by one. -/
theorem decodes_list {write : β → List UInt8} {read : BasisRead β} {items : List β}
    (hlen : items.length < 2 ^ 32) (h : ∀ x ∈ items, Decodes read (write x) x) :
    Decodes (readCounted (fun out => do pure (out ++ [← read])) []) (writeMany write items)
      items := by
  have hall : Decodes (readCounted (fun out => do pure (out ++ [← read])) [])
      (writeMany write items) (items.foldl (fun out x => out ++ [x]) []) :=
    decodes_readCounted hlen fun out x hx => (h x hx).map fun x => out ++ [x]
  rwa [foldl_concat, List.nil_append] at hall

end Loops

section Fields

variable {ν : Type}

def ArrayFits (a : List F32) : Prop := a.length < 2 ^ 32

instance (a : List F32) : Decidable (ArrayFits a) := inferInstanceAs (Decidable (_ < 2 ^ 32))

def MatrixFits (m : List (List F32)) : Prop := m.length < 2 ^ 32 ∧ ∀ row ∈ m, ArrayFits row

instance (m : List (List F32)) : Decidable (MatrixFits m) :=
  inferInstanceAs (Decidable (m.length < 2 ^ 32 ∧ ∀ row ∈ m, ArrayFits row))

/-- The count, the keys and the values of a map fit the format. -/
def MapFits (fits : ν → Prop) (map : TermMap ν) : Prop :=
  map.size < 2 ^ 32 ∧ ∀ entry ∈ map.entries, StringFits entry.1 ∧ fits entry.2

/-- A number that is written in 32 bits. -/
def U32Fits (n : Nat) : Prop := n < 2 ^ 32

instance (n : Nat) : Decidable (U32Fits n) := inferInstanceAs (Decidable (n < 2 ^ 32))

instance (fits : ν → Prop) [DecidablePred fits] (map : TermMap ν) :
    Decidable (MapFits fits map) :=
  inferInstanceAs (Decidable (map.size < 2 ^ 32 ∧ ∀ entry ∈ map.entries, _ ∧ _))

theorem decodes_readF32Array {a : List F32} (h : ArrayFits a) :
    Decodes readF32Array (writeF32Array a) a :=
  decodes_list h fun v _ => decodes_readF32 v

theorem guarded_readF32Array : readF32Array.Guarded :=
  guarded_readCounted (fun _ => guarded_readF32.bind fun _ => guarded_pure _) _

theorem decodes_readF32Matrix {m : List (List F32)} (h : MatrixFits m) :
    Decodes readF32Matrix (writeF32Matrix m) m :=
  decodes_list h.1 fun row hrow => decodes_readF32Array (h.2 row hrow)

theorem guarded_readF32Matrix : readF32Matrix.Guarded :=
  guarded_readCounted (fun _ => guarded_readF32Array.bind fun _ => guarded_pure _) _

/-- Entries that come back in their order build the map they were taken from. -/
theorem decodes_readMap {fits : ν → Prop} {write : ν → List UInt8} {read : BasisRead ν}
    (hread : ∀ v, fits v → Decodes read (write v) v) {map : TermMap ν} (h : MapFits fits map) :
    Decodes (readMap read) (writeMap write map) map := by
  have hall : Decodes (readMap read) (writeMap write map)
      (map.entries.foldl (fun out entry => out.insert entry.1 entry.2) .empty) :=
    decodes_readCounted h.1 fun out entry hentry =>
      (decodes_readString (h.2 entry hentry).1).bind
        ((hread entry.2 (h.2 entry hentry).2).map fun value => out.insert entry.1 value)
  rwa [OrderedMap.foldl_insert_entries] at hall

theorem guarded_readMap {read : BasisRead ν} (h : read.Guarded) : (readMap read).Guarded :=
  guarded_readCounted (fun _ => guarded_readString.bind fun _ =>
    h.bind fun _ => guarded_pure _) _

theorem decodes_readStringF32VectorMap {map : TermMap (List F32)} (h : MapFits ArrayFits map) :
    Decodes readStringF32VectorMap (writeStringF32VectorMap map) map :=
  decodes_readMap (fun _ => decodes_readF32Array) h

theorem guarded_readStringF32VectorMap : readStringF32VectorMap.Guarded :=
  guarded_readMap guarded_readF32Array

theorem decodes_readStringU32Map {map : TermMap Nat} (h : MapFits U32Fits map) :
    Decodes readStringU32Map (writeStringU32Map map) map :=
  decodes_readMap (fun _ => decodes_readU32) h

theorem guarded_readStringU32Map : readStringU32Map.Guarded := guarded_readMap guarded_readU32

end Fields

/-- What both dense providers keep in their counts blob. -/
structure CountsAnchor where
  modelId : String
  modelVersion : String
  projectionSeed : UInt64
  documentCount : Nat
  vocab : TermMap Nat

namespace CountsAnchor

def serialize (magic : List UInt8) (anchor : CountsAnchor) : List UInt8 :=
  magic ++ ([basisFormatVersion] ++ (writeString anchor.modelId ++
    (writeString anchor.modelVersion ++ (writeU64 anchor.projectionSeed ++
    (writeU32 anchor.documentCount ++ writeStringU32Map anchor.vocab)))))

def read (magic : List UInt8) : BasisRead CountsAnchor := do
  expectMagic magic
  expectVersion basisFormatVersion
  let modelId ← readString
  let modelVersion ← readString
  let projectionSeed ← readU64
  let documentCount ← readU32
  let vocab ← readStringU32Map
  pure { modelId, modelVersion, projectionSeed, documentCount, vocab }

/-- What the blob writes in 32 bits fits them. -/
def Fits (anchor : CountsAnchor) : Prop :=
  StringFits anchor.modelId ∧ StringFits anchor.modelVersion ∧ U32Fits anchor.documentCount ∧
    MapFits U32Fits anchor.vocab

theorem decodes_read {magic : List UInt8} (hmagic : magic.length = 4) {anchor : CountsAnchor}
    (h : anchor.Fits) : Decodes (read magic) (anchor.serialize magic) anchor :=
  (decodes_expectMagic hmagic).bind <| (decodes_expectVersion _).bind <|
    (decodes_readString h.1).bind <| (decodes_readString h.2.1).bind <|
    (decodes_readU64 _).bind <| (decodes_readU32 h.2.2.1).bind <|
    (decodes_readStringU32Map h.2.2.2).map _

theorem guarded_read (magic : List UInt8) : (read magic).Guarded :=
  (guarded_expectMagic magic).bind fun _ => (guarded_expectVersion _).bind fun _ =>
    guarded_readString.bind fun _ => guarded_readString.bind fun _ =>
    guarded_readU64.bind fun _ => guarded_readU32.bind fun _ =>
    guarded_readStringU32Map.bind fun _ => guarded_pure _

end CountsAnchor

end MootMemory
