import MootMemory.GosperStep

namespace MootMemory

/-- The bits of a `u64`. -/
def wordSize : Nat := 2 ^ 64

/-- The next word with as many set bits, or `none` if the addition overflows 64 bits. -/
def gosperNext (mask : Nat) : Option Nat :=
  let c := mask &&& ((wordSize - mask) % wordSize)
  let r := mask + c
  if wordSize ≤ r then none else some (((r ^^^ mask) >>> 2) / c ||| r)

theorem runMask_pos {a t s : Nat} (hs : 1 ≤ s) : 0 < runMask a t s := by
  rw [runMask_eq_two_pow_mul hs]
  exact Nat.mul_pos (Nat.two_pow_pos t) (Nat.succ_pos _)

theorem gosperNext_runMask {a t s : Nat} (hs : 1 ≤ s) (hlt : runMask a t s < wordSize) :
    gosperNext (runMask a t s) =
      if wordSize ≤ 2 ^ (t + s) * (2 * a + 1) then none else some (runNext a t s) := by
  have hpos := runMask_pos (a := a) (t := t) hs
  have hneg : (wordSize - runMask a t s) % wordSize = wordSize - runMask a t s :=
    Nat.mod_eq_of_lt (by omega)
  have hlow : runMask a t s &&& (wordSize - runMask a t s) = 2 ^ t := by
    have h := and_two_pow_sub_self (w := 64) (t := t) (q := 2 ^ s * a + (2 ^ (s - 1) - 1))
      (by rw [← runMask_eq_two_pow_mul hs]; exact hlt)
    rwa [← runMask_eq_two_pow_mul hs] at h
  rw [gosperNext, hneg, hlow, runMask_add_lowBit, gosper_step_eq hs]

theorem lt_gosperNext {mask next : Nat} (hm : 0 < mask) (h : gosperNext mask = some next) :
    mask < next ∧ mask < wordSize := by
  by_cases hlt : mask < wordSize
  · obtain ⟨a, t, s, hs, rfl⟩ := exists_runMask hm
    rw [gosperNext_runMask hs hlt] at h
    split at h
    next => cases h
    next =>
      cases h
      exact ⟨runMask_lt_runNext, hlt⟩
  · simp only [gosperNext] at h
    rw [if_pos (by omega)] at h
    cases h

section Loop

variable {σ : Type*}

/-- The loop over the masks of one weight, from `mask` on. -/
def gosperLoop (f : Nat → σ → σ) (n mask : Nat) (hm : 0 < mask) (s : σ) : σ :=
  if n < 64 ∧ 2 ^ n ≤ mask then s
  else
    match h : gosperNext mask with
    | none => f mask s
    | some next =>
      if n = 64 ∧ next ≤ mask then f mask s
      else gosperLoop f n next (hm.trans (lt_gosperNext hm h).1) (f mask s)
termination_by wordSize - mask
decreasing_by
  have := lt_gosperNext hm h
  omega

/-- Call `f` on every mask of `subBits` bits with at most `maxHamming` set bits. -/
def colexFlipMasks (subBits maxHamming : Nat) (f : Nat → σ → σ) (s : σ) : σ :=
  if subBits = 0 ∨ 64 < subBits then s
  else
    (List.range (maxHamming + 1)).foldl (fun s d =>
      if h : d = 0 then f 0 s
      -- the source leaves the loop here; every later weight is too large as well
      else if subBits < d then s
      else gosperLoop f subBits (2 ^ d - 1) (Nat.sub_pos_of_lt (Nat.one_lt_two_pow h)) s) s

end Loop

/-- The masks the loop visits, in order. -/
def gosperRun (n mask : Nat) (hm : 0 < mask) : List Nat :=
  gosperLoop (fun m ms => ms ++ [m]) n mask hm []

theorem gosperLoop_append (n mask : Nat) (hm : 0 < mask) (ms : List Nat) :
    gosperLoop (fun m ms => ms ++ [m]) n mask hm ms = ms ++ gosperRun n mask hm := by
  induction hk : wordSize - mask using Nat.strongRecOn generalizing mask ms with
  | ind k ih =>
    rw [gosperRun, gosperLoop, gosperLoop]
    split
    next => simp
    next =>
      split
      next => simp
      next next hnext =>
        have := lt_gosperNext hm hnext
        split
        next => simp
        next =>
          rw [ih _ (by omega) next _ _ rfl, ih _ (by omega) next _ ([] ++ [mask]) rfl]
          simp

theorem gosperRun_eq (n mask : Nat) (hm : 0 < mask) : gosperRun n mask hm =
    if n < 64 ∧ 2 ^ n ≤ mask then []
    else match h : gosperNext mask with
      | none => [mask]
      | some next =>
        if n = 64 ∧ next ≤ mask then [mask]
        else mask :: gosperRun n next (hm.trans (lt_gosperNext hm h).1) := by
  rw [gosperRun, gosperLoop]
  split
  next => rfl
  next =>
    split
    next => rfl
    next =>
      split
      next => rfl
      next => rw [gosperLoop_append]; rfl

/-- The loop folds its body over the masks it visits. -/
theorem gosperLoop_eq_foldl {σ : Type*} (f : Nat → σ → σ) (n mask : Nat) (hm : 0 < mask) (s : σ) :
    gosperLoop f n mask hm s = (gosperRun n mask hm).foldl (fun s m => f m s) s := by
  induction hk : wordSize - mask using Nat.strongRecOn generalizing mask s with
  | ind k ih =>
    rw [gosperRun_eq, gosperLoop]
    split
    next => rfl
    next =>
      split
      next => rfl
      next next hnext =>
        have := lt_gosperNext hm hnext
        split
        next => rfl
        next => rw [ih _ (by omega) next _ _ rfl]; rfl

/-- Every mask the loop visits is at least the first one. -/
theorem le_of_mem_gosperRun {n mask : Nat} {hm : 0 < mask} {x : Nat}
    (hx : x ∈ gosperRun n mask hm) : mask ≤ x := by
  induction hk : wordSize - mask using Nat.strongRecOn generalizing mask with
  | ind k ih =>
    rw [gosperRun_eq] at hx
    split at hx
    next => simp at hx
    next =>
      split at hx
      next => rw [List.mem_singleton.mp hx]
      next next hnext =>
        have hlt := lt_gosperNext hm hnext
        split at hx
        next => rw [List.mem_singleton.mp hx]
        next =>
          rcases List.mem_cons.mp hx with rfl | hx
          · exact le_rfl
          · have := ih _ (by omega) hx rfl
            omega

theorem gosperRun_sorted (n mask : Nat) (hm : 0 < mask) :
    (gosperRun n mask hm).Pairwise (· < ·) := by
  induction hk : wordSize - mask using Nat.strongRecOn generalizing mask with
  | ind k ih =>
    rw [gosperRun_eq]
    split
    next => exact List.Pairwise.nil
    next =>
      split
      next => exact List.pairwise_singleton _ _
      next next hnext =>
        have hlt := lt_gosperNext hm hnext
        split
        next => exact List.pairwise_singleton _ _
        next =>
          refine List.pairwise_cons.mpr ⟨fun x hx => ?_, ih _ (by omega) next _ rfl⟩
          have := le_of_mem_gosperRun hx
          omega

theorem runNext_lt_wordSize {a t s : Nat} (h : 2 ^ (t + s) * (2 * a + 1) < wordSize) :
    runNext a t s < wordSize := by
  have hlow := runNext_low_lt (t := t) (s := s)
  have hts : t + s < 64 := by
    apply (Nat.pow_lt_pow_iff_right (by decide : 1 < 2)).mp
    calc 2 ^ (t + s) = 2 ^ (t + s) * 1 := (Nat.mul_one _).symm
      _ ≤ 2 ^ (t + s) * (2 * a + 1) := Nat.mul_le_mul_left _ (by omega)
      _ < 2 ^ 64 := h
  have hword : wordSize = 2 ^ (t + s) * 2 ^ (64 - (t + s)) := by
    rw [← pow_add, show t + s + (64 - (t + s)) = 64 by omega, wordSize]
  rw [hword] at h ⊢
  have hq := Nat.mul_le_mul_left (2 ^ (t + s)) (Nat.succ_le_of_lt (lt_of_mul_lt_mul_left h (Nat.zero_le _)))
  rw [Nat.succ_eq_add_one, Nat.mul_add (2 ^ (t + s)) (2 * a + 1) 1, Nat.mul_one] at hq
  rw [runNext]
  omega

theorem bitCount_widen {t s x : Nat} (hx : x < wordSize) :
    bitCount (t + s + 1 + 64) x = bitCount 64 x := by
  rw [show t + s + 1 + 64 = 64 + (t + s + 1) by omega]
  exact bitCount_of_lt _ hx

/-- The next word is the least one above with as many set bits, if a `u64` holds it. -/
theorem gosperNext_spec {mask : Nat} (hm : 0 < mask) (hlt : mask < wordSize) :
    match gosperNext mask with
    | none => ∀ x, x < wordSize → bitCount 64 x = bitCount 64 mask → x ≤ mask
    | some next => mask < next ∧ next < wordSize ∧ bitCount 64 next = bitCount 64 mask ∧
        ∀ x, mask < x → x < wordSize → bitCount 64 x = bitCount 64 mask → next ≤ x := by
  obtain ⟨a, t, s, hs, rfl⟩ := exists_runMask hm
  have hleast : ∀ x, runMask a t s < x → x < wordSize →
      bitCount 64 x = bitCount 64 (runMask a t s) → runNext a t s ≤ x := by
    intro x hx hxlt hcount
    apply runNext_le_of_bitCount_eq (b := 64) hx
    rw [bitCount_widen hxlt, bitCount_widen hlt, hcount]
  rw [gosperNext_runMask hs hlt]
  split
  next heq =>
    split at heq
    next hover =>
      intro x hxlt hcount
      by_contra hx
      have := hleast x (by omega) hxlt hcount
      rw [runNext] at this
      omega
    next => cases heq
  next next heq =>
    split at heq
    next => cases heq
    next hover =>
      cases heq
      have hnext := runNext_lt_wordSize (not_le.mp hover)
      refine ⟨runMask_lt_runNext, hnext, ?_, hleast⟩
      rw [← bitCount_widen (t := t) (s := s) hnext, ← bitCount_widen (t := t) (s := s) hlt,
        bitCount_runNext 64 hs, bitCount_runMask]

/-- From a mask on, the loop visits exactly the masks below the limit of the same weight. -/
theorem mem_gosperRun {n mask : Nat} (hn : n ≤ 64) (hm : 0 < mask) (hlt : mask < wordSize)
    {x : Nat} : x ∈ gosperRun n mask hm ↔
      mask ≤ x ∧ x < 2 ^ n ∧ bitCount 64 x = bitCount 64 mask := by
  have hword : 2 ^ n ≤ wordSize := Nat.pow_le_pow_right (by decide) hn
  induction hk : wordSize - mask using Nat.strongRecOn generalizing mask with
  | ind k ih =>
    have hspec := gosperNext_spec hm hlt
    rw [gosperRun_eq]
    split
    next hlimit =>
      simp only [List.not_mem_nil, false_iff]
      omega
    next hlimit =>
      have hbelow : mask < 2 ^ n := by
        by_cases h64 : n = 64
        · rw [h64]; exact hlt
        · omega
      split
      next hnone =>
        rw [hnone] at hspec
        rw [List.mem_singleton]
        constructor
        · rintro rfl
          exact ⟨le_rfl, hbelow, rfl⟩
        · rintro ⟨hle, hx, hcount⟩
          have := hspec x (by omega) hcount
          omega
      next next hnext =>
        rw [hnext] at hspec
        obtain ⟨hgt, hnlt, hcount, hleast⟩ := hspec
        have hrec : x ∈ gosperRun n next (hm.trans hgt) ↔
            next ≤ x ∧ x < 2 ^ n ∧ bitCount 64 x = bitCount 64 next :=
          ih (wordSize - next) (by omega) _ hnlt rfl
        rw [if_neg (by omega), List.mem_cons, hrec, hcount]
        constructor
        · rintro (rfl | ⟨hle, hx, hc⟩)
          · exact ⟨le_rfl, hbelow, rfl⟩
          · exact ⟨by omega, hx, hc⟩
        · rintro ⟨hle, hx, hc⟩
          rcases Nat.lt_or_eq_of_le hle with hlt' | rfl
          · exact Or.inr ⟨hleast x hlt' (by omega) hc, hx, hc⟩
          · exact Or.inl rfl

/-- The masks of one weight, in the order in which they are visited. -/
def masksOfWeight (n d : Nat) : List Nat :=
  if h : d = 0 then [0]
  else if n < d then []
  else gosperRun n (2 ^ d - 1) (Nat.sub_pos_of_lt (Nat.one_lt_two_pow h))

/-- The masks that the enumeration visits, in order. -/
def flipMasks (subBits maxHamming : Nat) : List Nat :=
  if subBits = 0 ∨ 64 < subBits then []
  else (List.range (maxHamming + 1)).flatMap (masksOfWeight subBits)

theorem colexFlipMasks_eq_foldl {σ : Type*} (subBits maxHamming : Nat) (f : Nat → σ → σ) (s : σ) :
    colexFlipMasks subBits maxHamming f s =
      (flipMasks subBits maxHamming).foldl (fun s m => f m s) s := by
  rw [colexFlipMasks, flipMasks]
  split
  next => rfl
  next =>
    rw [List.foldl_flatMap]
    congr 1
    funext s d
    rw [masksOfWeight]
    split
    next => rfl
    next =>
      split
      next => rfl
      next => exact gosperLoop_eq_foldl ..

theorem mem_masksOfWeight {n d : Nat} (hn : n ≤ 64) {x : Nat} :
    x ∈ masksOfWeight n d ↔ x < 2 ^ n ∧ bitCount 64 x = d := by
  have hword : 2 ^ n ≤ wordSize := Nat.pow_le_pow_right (by decide) hn
  rw [masksOfWeight]
  split
  next h0 =>
    subst h0
    rw [List.mem_singleton]
    constructor
    · rintro rfl
      exact ⟨Nat.two_pow_pos n, by decide⟩
    · rintro ⟨hx, hcount⟩
      have := add_two_pow_sub_bitCount_le (show x < 2 ^ 64 from lt_of_lt_of_le hx hword)
      rw [hcount, Nat.sub_zero] at this
      omega
  next h0 =>
    have hle : 2 ^ bitCount 64 x - 1 ≤ x := two_pow_bitCount_sub_one_le 64 x
    have hwidth : x < 2 ^ n → bitCount 64 x ≤ n := by
      intro hx
      have h := bitCount_of_lt (64 - n) hx
      rw [show n + (64 - n) = 64 by omega] at h
      rw [h]
      exact bitCount_le_width n x
    split
    next hd =>
      simp only [List.not_mem_nil, false_iff, not_and]
      intro hx hcount
      have := hwidth hx
      omega
    next hd =>
      have hd64 : 2 ^ d ≤ 2 ^ n := Nat.pow_le_pow_right (by decide) (by omega)
      have hpos := Nat.two_pow_pos d
      have hstart : bitCount 64 (2 ^ d - 1) = d := by
        have h := bitCount_of_lt (w := d) (64 - d) (Nat.sub_lt hpos Nat.one_pos)
        rwa [show d + (64 - d) = 64 by omega, bitCount_two_pow_sub_one] at h
      rw [mem_gosperRun hn _ (by omega), hstart]
      constructor
      · rintro ⟨_, hx, hcount⟩
        exact ⟨hx, hcount⟩
      · rintro ⟨hx, hcount⟩
        exact ⟨by rwa [hcount] at hle, hx, hcount⟩

/-- The enumeration visits exactly the masks of the given width and weight. -/
theorem mem_flipMasks {n rho : Nat} (h0 : 0 < n) (hn : n ≤ 64) {x : Nat} :
    x ∈ flipMasks n rho ↔ x < 2 ^ n ∧ bitCount 64 x ≤ rho := by
  rw [flipMasks, if_neg (by omega), List.mem_flatMap]
  simp only [List.mem_range, mem_masksOfWeight hn]
  constructor
  · rintro ⟨d, hd, hx, rfl⟩
    exact ⟨hx, by omega⟩
  · rintro ⟨hx, hle⟩
    exact ⟨_, by omega, hx, rfl⟩

end MootMemory
