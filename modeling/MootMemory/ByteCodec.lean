import Mathlib.Data.List.Basic
import Mathlib.Algebra.Order.Ring.Nat
import Mathlib.Tactic.Ring

namespace MootMemory

/-- The `k` low bytes of `n`, least significant first. -/
def leBytes : Nat → Nat → List UInt8
  | 0, _ => []
  | k + 1, n => UInt8.ofNat n :: leBytes k (n / 256)

/-- The number whose little-endian bytes are given. -/
def leNat : List UInt8 → Nat
  | [] => 0
  | b :: bs => b.toNat + 256 * leNat bs

@[simp] theorem length_leBytes (k n : Nat) : (leBytes k n).length = k := by
  induction k generalizing n with
  | zero => rfl
  | succ k ih => simp [leBytes, ih]

theorem leNat_leBytes (k n : Nat) : leNat (leBytes k n) = n % 256 ^ k := by
  induction k generalizing n with
  | zero => simp [leBytes, leNat, Nat.mod_one]
  | succ k ih =>
    rw [leBytes, leNat, ih, UInt8.toNat_ofNat', show (2 : Nat) ^ 8 = 256 by rfl, pow_succ',
      Nat.mod_mul]

theorem leNat_lt (bs : List UInt8) : leNat bs < 256 ^ bs.length := by
  induction bs with
  | nil => simp [leNat]
  | cons b bs ih =>
    have hb := b.toNat_lt
    rw [leNat, List.length_cons, pow_succ']
    omega

theorem leBytes_leNat (bs : List UInt8) : leBytes bs.length (leNat bs) = bs := by
  induction bs with
  | nil => rfl
  | cons b bs ih =>
    have hb := b.toNat_lt
    have hdiv : (b.toNat + 256 * leNat bs) / 256 = leNat bs := by omega
    have hlow : UInt8.ofNat (b.toNat + 256 * leNat bs) = b := by
      apply UInt8.toNat_inj.mp
      rw [UInt8.toNat_ofNat']
      omega
    rw [List.length_cons, leBytes, leNat, hdiv, ih, hlow]

theorem leBytes_mod (k n : Nat) : leBytes k (n % 256 ^ k) = leBytes k n := by
  have h := leBytes_leNat (leBytes k n)
  rwa [length_leBytes, leNat_leBytes] at h

/-- The `len` bytes of `data` from `pos` on, fewer if the data ends before. -/
def sliceAt (data : List UInt8) (pos len : Nat) : List UInt8 := (data.drop pos).take len

/-- The bytes `bs` stand in `data` at position `pos`. -/
def HasAt (data : List UInt8) (pos : Nat) (bs : List UInt8) : Prop :=
  pos + bs.length ≤ data.length ∧ sliceAt data pos bs.length = bs

theorem hasAt_append {data : List UInt8} {pos : Nat} {as bs : List UInt8} :
    HasAt data pos (as ++ bs) ↔ HasAt data pos as ∧ HasAt data (pos + as.length) bs := by
  simp only [HasAt, sliceAt, List.length_append, List.take_add, List.drop_drop]
  constructor
  · rintro ⟨hle, heq⟩
    obtain ⟨ha, hb⟩ := List.append_inj heq (by simp; omega)
    exact ⟨⟨by omega, ha⟩, by omega, hb⟩
  · rintro ⟨⟨_, ha⟩, hle, hb⟩
    exact ⟨by omega, by rw [ha, hb]⟩

theorem hasAt_mid (pre bs post : List UInt8) : HasAt (pre ++ (bs ++ post)) pre.length bs := by
  simp [HasAt, sliceAt]

theorem hasAt_nil {data : List UInt8} {pos : Nat} : HasAt data pos [] ↔ pos ≤ data.length := by
  simp [HasAt, sliceAt]

theorem hasAt_sliceAt {data : List UInt8} {pos len : Nat} (h : pos + len ≤ data.length) :
    HasAt data pos (sliceAt data pos len) := by
  have hlen : (sliceAt data pos len).length = len := by simp [sliceAt]; omega
  exact ⟨by rwa [hlen], by rw [hlen]⟩

theorem length_sliceAt {data : List UInt8} {pos len : Nat} (h : pos + len ≤ data.length) :
    (sliceAt data pos len).length = len := by
  simp [sliceAt]; omega

/-- A little-endian number at a position is what a read of its bytes returns. -/
theorem hasAt_leBytes {data : List UInt8} {pos k n : Nat} :
    n < 256 ^ k ∧ HasAt data pos (leBytes k n) ↔
      pos + k ≤ data.length ∧ leNat (sliceAt data pos k) = n := by
  constructor
  · rintro ⟨hn, hle, heq⟩
    rw [length_leBytes] at hle heq
    exact ⟨hle, by rw [heq, leNat_leBytes, Nat.mod_eq_of_lt hn]⟩
  · rintro ⟨hle, rfl⟩
    have hlen := length_sliceAt hle
    have hbytes := leBytes_leNat (sliceAt data pos k)
    have hlt := leNat_lt (sliceAt data pos k)
    rw [hlen] at hbytes hlt
    exact ⟨hlt, by rw [hbytes]; exact hasAt_sliceAt hle⟩

/-- Items laid out one behind the other are found by going on from each to the next. -/
theorem hasAt_flatMap {α : Type*} {data : List UInt8} {enc : α → List UInt8} {next : Nat → Nat}
    {xs : List α} {pos : Nat}
    (hnext : ∀ x ∈ xs, ∀ pos, HasAt data pos (enc x) → next pos = pos + (enc x).length)
    (h : HasAt data pos (xs.flatMap enc)) :
    (∀ i x, xs[i]? = some x → HasAt data (next^[i] pos) (enc x)) ∧
      next^[xs.length] pos = pos + (xs.flatMap enc).length := by
  induction xs generalizing pos with
  | nil => exact ⟨fun i x hx => by simp at hx, rfl⟩
  | cons x xs ih =>
    rw [List.flatMap_cons, hasAt_append] at h
    have hpos := hnext x List.mem_cons_self pos h.1
    obtain ⟨hitems, hend⟩ := ih (fun y hy => hnext y (List.mem_cons_of_mem _ hy)) h.2
    constructor
    · intro i y hy
      cases i with
      | zero =>
        rw [List.getElem?_cons_zero] at hy
        obtain rfl := Option.some.inj hy
        exact h.1
      | succ i =>
        rw [List.getElem?_cons_succ] at hy
        rw [Function.iterate_succ_apply, hpos]
        exact hitems i y hy
    · rw [List.length_cons, Function.iterate_succ_apply, hpos, hend, List.flatMap_cons,
        List.length_append, Nat.add_assoc]

section Reader

variable {ε α : Type*}

/-- A read of one item at a position: its value and the number of bytes it takes. -/
abbrev Reader (ε α : Type*) := Nat → Except ε (α × Nat)

/-- `reader` succeeds exactly on the encodings of the values that fit the format. -/
def Reads (data : List UInt8) (enc : α → List UInt8) (fits : α → Prop)
    (reader : Reader ε α) : Prop :=
  ∀ pos x c, reader pos = .ok (x, c) ↔ fits x ∧ HasAt data pos (enc x) ∧ c = (enc x).length

/-- Read `n` items one after another, and return them with the position behind them. -/
def readMany (reader : Reader ε α) : Nat → Nat → Except ε (List α × Nat)
  | 0, pos => .ok ([], pos)
  | n + 1, pos => do
    let (x, c) ← reader pos
    let (xs, pos) ← readMany reader n (pos + c)
    .ok (x :: xs, pos)

theorem readMany_succ_ok {reader : Reader ε α} {n pos pos' : Nat} {xs : List α} :
    readMany reader (n + 1) pos = .ok (xs, pos') ↔
      ∃ x c ys, reader pos = .ok (x, c) ∧ readMany reader n (pos + c) = .ok (ys, pos') ∧
        xs = x :: ys := by
  cases hx : reader pos with
  | error e => simp [readMany, hx, bind, Except.bind]
  | ok p =>
    obtain ⟨x, c⟩ := p
    cases hy : readMany reader n (pos + c) with
    | error e =>
      simp only [readMany, hx, hy, bind, Except.bind, reduceCtorEq, false_iff]
      rintro ⟨x', c', ys, heq, hys, _⟩
      obtain ⟨rfl, rfl⟩ := Prod.mk.inj (Except.ok.inj heq)
      rw [hy] at hys
      cases hys
    | ok q =>
      obtain ⟨ys, p'⟩ := q
      simp only [readMany, hx, hy, bind, Except.bind]
      constructor
      · intro h
        obtain ⟨rfl, rfl⟩ := Prod.mk.inj (Except.ok.inj h)
        exact ⟨x, c, ys, rfl, hy, rfl⟩
      · rintro ⟨x', c', ys', heq, hys, rfl⟩
        obtain ⟨rfl, rfl⟩ := Prod.mk.inj (Except.ok.inj heq)
        rw [hy] at hys
        obtain ⟨rfl, rfl⟩ := Prod.mk.inj (Except.ok.inj hys)
        rfl

/-- Reading `n` items succeeds exactly on `n` encodings laid out back to back. -/
theorem readMany_iff {data : List UInt8} {enc : α → List UInt8} {fits : α → Prop}
    {reader : Reader ε α} (h : Reads data enc fits reader) {n pos pos' : Nat} {xs : List α}
    (hpos : pos ≤ data.length) :
    readMany reader n pos = .ok (xs, pos') ↔
      xs.length = n ∧ (∀ x ∈ xs, fits x) ∧ HasAt data pos (xs.flatMap enc) ∧
        pos' = pos + (xs.flatMap enc).length := by
  induction n generalizing pos xs with
  | zero =>
    simp only [readMany, List.length_eq_zero_iff, Except.ok.injEq, Prod.mk.injEq]
    constructor
    · rintro ⟨rfl, rfl⟩
      simpa [hasAt_nil] using hpos
    · rintro ⟨rfl, _, _, rfl⟩
      simp
  | succ n ih =>
    rw [readMany_succ_ok]
    constructor
    · rintro ⟨x, c, ys, hx, hys, rfl⟩
      obtain ⟨hfit, hat, rfl⟩ := (h pos x c).mp hx
      obtain ⟨hlen, hfits, hats, rfl⟩ := (ih hat.1).mp hys
      refine ⟨by simp [hlen], by simpa using ⟨hfit, hfits⟩, ?_, by simp; omega⟩
      rw [List.flatMap_cons, hasAt_append]
      exact ⟨hat, hats⟩
    · rintro ⟨hlen, hfits, hat, rfl⟩
      obtain ⟨x, ys, rfl⟩ := List.exists_cons_of_length_eq_add_one hlen
      rw [List.flatMap_cons, hasAt_append] at hat
      refine ⟨x, (enc x).length, ys, (h pos x _).mpr ⟨hfits x (by simp), hat.1, rfl⟩, ?_, rfl⟩
      apply (ih hat.1.1).mpr
      refine ⟨by simpa using hlen, fun y hy => hfits y (by simp [hy]), hat.2, by simp; omega⟩

theorem readMany_succ_error {reader : Reader ε α} {n pos : Nat} {e : ε} :
    readMany reader (n + 1) pos = .error e ↔ reader pos = .error e ∨
      ∃ x c, reader pos = .ok (x, c) ∧ readMany reader n (pos + c) = .error e := by
  cases hx : reader pos with
  | error e' => simp [readMany, hx, bind, Except.bind]
  | ok p =>
    obtain ⟨x, c⟩ := p
    cases hy : readMany reader n (pos + c) with
    | error e' => simp [readMany, hx, hy, bind, Except.bind]
    | ok q => simp [readMany, hx, hy, bind, Except.bind]

/-- Reading fails behind the first items, where the reader does. -/
theorem readMany_error_iff {data : List UInt8} {enc : α → List UInt8} {fits : α → Prop}
    {reader : Reader ε α} (h : Reads data enc fits reader) {n pos : Nat} {e : ε}
    (hpos : pos ≤ data.length) :
    readMany reader n pos = .error e ↔
      ∃ xs : List α, xs.length < n ∧ (∀ x ∈ xs, fits x) ∧ HasAt data pos (xs.flatMap enc) ∧
        reader (pos + (xs.flatMap enc).length) = .error e := by
  induction n generalizing pos with
  | zero => simp [readMany]
  | succ n ih =>
    rw [readMany_succ_error]
    constructor
    · rintro (hx | ⟨x, c, hx, hrest⟩)
      · exact ⟨[], by simp, by simp, hasAt_nil.mpr hpos, by simpa using hx⟩
      · obtain ⟨hfit, hat, rfl⟩ := (h pos x c).mp hx
        obtain ⟨xs, hlen, hfits, hats, herr⟩ := (ih hat.1).mp hrest
        refine ⟨x :: xs, by simpa using hlen, by simpa using ⟨hfit, hfits⟩, ?_, ?_⟩
        · rw [List.flatMap_cons, hasAt_append]
          exact ⟨hat, hats⟩
        · rw [List.flatMap_cons, List.length_append, ← Nat.add_assoc]
          exact herr
    · rintro ⟨xs, hlen, hfits, hats, herr⟩
      cases xs with
      | nil => exact Or.inl (by simpa using herr)
      | cons x xs =>
        rw [List.flatMap_cons, hasAt_append] at hats
        rw [List.flatMap_cons, List.length_append, ← Nat.add_assoc] at herr
        refine Or.inr ⟨x, _, (h pos x _).mpr ⟨hfits x (by simp), hats.1, rfl⟩, ?_⟩
        exact (ih hats.1.1).mpr
          ⟨xs, by simpa using hlen, fun y hy => hfits y (by simp [hy]), hats.2, herr⟩

end Reader

end MootMemory
