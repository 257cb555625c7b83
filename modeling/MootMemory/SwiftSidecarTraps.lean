import MootMemory.SidecarFormat
import MootMemory.SwiftSidecar

namespace MootMemory.Swift

/-- More bytes than this have no address. -/
abbrev SwiftData := { data : List UInt8 // data.length < 2 ^ 62 }

theorem add_ok {a b c : Nat} : add a b = .ok c ↔ a + b ≤ intMax ∧ c = a + b := by
  unfold add
  split
  next h => simp; omega
  next h => simp only [Except.ok.injEq]; omega

theorem add_panic {a b : Nat} : add a b = .error .panic ↔ intMax < a + b := by
  unfold add
  split
  next h => simp [h]
  next h => simp [h]

section Read

variable (data : SwiftData)

theorem sliceAt_eq_map {bytes : List UInt8} {offset k : Nat} (h : offset + k ≤ bytes.length) :
    (List.range k).map (fun i => bytes[offset + i]?.getD 0) = sliceAt bytes offset k := by
  apply List.ext_getElem?
  intro i
  by_cases hi : i < k
  · have hget := List.getElem?_eq_getElem (show offset + i < bytes.length by omega)
    simp [sliceAt, hi, hget]
  · simp [sliceAt, hi]

theorem readLE_eq {k offset : Nat} (h : offset + k ≤ data.1.length) :
    readLE data.1 k offset = .ok (leNat (sliceAt data.1 offset k)) := by
  have hdata := data.2
  have hbytes : (List.range k).mapM (fun i => do byteAt data.1 (← add offset i)) =
      Except.ok ((List.range k).map fun i => data.1[offset + i]?.getD 0) := by
    apply mapM_ok
    intro i hi
    have hi : i < k := List.mem_range.mp hi
    have hget := List.getElem?_eq_getElem (show offset + i < data.1.length by omega)
    have hadd : add offset i = .ok (offset + i) := add_ok.mpr ⟨by unfold intMax; omega, rfl⟩
    refine except_bind_ok.mpr ⟨_, hadd, ?_⟩
    rw [byteAt, hget]
    rfl
  rw [readLE, hbytes, sliceAt_eq_map h]
  rfl

theorem guardEnd_ok {offset len : Nat} {failure : String} {u : Unit} :
    guardEnd data.1 offset len failure = .ok u ↔ offset + len ≤ data.1.length := by
  have hdata := data.2
  simp only [guardEnd, except_bind_ok, add_ok]
  constructor
  · rintro ⟨_, ⟨_, rfl⟩, h⟩
    split at h
    next => cases h
    next hle => omega
  · intro h
    exact ⟨_, ⟨by unfold intMax; omega, rfl⟩, by rw [if_neg (by omega)]⟩

theorem guardEnd_panic {offset len : Nat} {failure : String} :
    guardEnd data.1 offset len failure = .error .panic ↔ intMax < offset + len := by
  simp only [guardEnd, except_bind_error, add_panic, add_ok]
  constructor
  · rintro (h | ⟨_, _, h⟩)
    · exact h
    · split at h <;> cases h
  · exact Or.inl

theorem guardedLE_ok {k offset n : Nat} (failure : String) :
    guardedLE data.1 k offset failure = .ok n ↔
      n < 256 ^ k ∧ HasAt data.1 offset (leBytes k n) := by
  rw [hasAt_leBytes]
  simp only [guardedLE, except_bind_ok, guardEnd_ok]
  constructor
  · rintro ⟨_, hle, h⟩
    rw [readLE_eq data hle] at h
    exact ⟨hle, Except.ok.inj h⟩
  · rintro ⟨hle, rfl⟩
    exact ⟨(), hle, readLE_eq data hle⟩

/-- A number behind its guard is read without a trap. -/
theorem guardedLE_ne_panic {k offset : Nat} {failure : String} (h : offset + k ≤ intMax) :
    guardedLE data.1 k offset failure ≠ .error .panic := by
  simp only [guardedLE, ne_eq, except_bind_error, guardEnd_panic, guardEnd_ok]
  rintro (hover | ⟨_, hle, hread⟩)
  · omega
  · rw [readLE_eq data hle] at hread
    cases hread

theorem slice_eq {lo hi : Nat} (hlo : lo ≤ hi) (hhi : hi ≤ data.1.length) :
    slice data.1 lo hi = .ok (sliceAt data.1 lo (hi - lo)) := by
  rw [slice, if_neg (by omega)]

variable {lenFailure utf8Failure : Nat → String} {bodyFailure : Nat → Nat → String}

/-- What is left of `readString` once the length is read and the text is known to be there. -/
theorem readString_body {pos len : Nat} (hle : pos + 4 + len ≤ data.1.length)
    (hlen : guardedLE data.1 4 pos (lenFailure pos) = .ok len) :
    readString data.1 lenFailure bodyFailure utf8Failure pos =
      match strOfBytes (sliceAt data.1 (pos + 4) len) with
      | .error _ => .error (decodingFailure (utf8Failure (pos + 4)))
      | .ok s => .ok (s, pos + 4 + len) := by
  have hdata := data.2
  have hfour : add pos 4 = .ok (pos + 4) := add_ok.mpr ⟨by unfold intMax; omega, rfl⟩
  have hstop : add (pos + 4) len = .ok (pos + 4 + len) := add_ok.mpr ⟨by unfold intMax; omega, rfl⟩
  have hguard : guardEnd data.1 (pos + 4) len (bodyFailure len (pos + 4)) = .ok () :=
    (guardEnd_ok data).mpr hle
  have hslice := slice_eq data (show pos + 4 ≤ pos + 4 + len by omega) hle
  rw [Nat.add_sub_cancel_left] at hslice
  cases hstr : strOfBytes (sliceAt data.1 (pos + 4) len) with
  | error _ => simp only [readString, hlen, hfour, hguard, hstop, hslice, hstr, bind, Except.bind]
  | ok _ => simp only [readString, hlen, hfour, hguard, hstop, hslice, hstr, bind, Except.bind]

theorem readString_ok {pos p : Nat} {s : String} :
    readString data.1 lenFailure bodyFailure utf8Failure pos = .ok (s, p) ↔
      StrFits s ∧ HasAt data.1 pos (encodeStr s) ∧ p = pos + (encodeStr s).length := by
  rw [encodeStr, hasAt_append, length_leBytes, List.length_append, length_leBytes]
  constructor
  · intro h
    have hrun := h
    simp only [readString, except_bind_ok, add_ok, guardEnd_ok] at h
    obtain ⟨len, hlen, _, ⟨_, rfl⟩, _, hle, _⟩ := h
    obtain ⟨hlt, hat⟩ := (guardedLE_ok data _).mp hlen
    rw [readString_body data hle hlen] at hrun
    cases hstr : strOfBytes (sliceAt data.1 (pos + 4) len) with
    | error e => rw [hstr] at hrun; cases hrun
    | ok s' =>
      rw [hstr] at hrun
      obtain ⟨rfl, rfl⟩ := Prod.mk.inj (Except.ok.inj hrun)
      have hbytes := strOfBytes_ok.mp hstr
      have hbody := hasAt_sliceAt hle
      have hcount := length_sliceAt hle
      rw [← hbytes] at hbody hcount
      exact ⟨by rw [StrFits, hcount]; exact hlt, ⟨by rw [hcount]; exact hat, hbody⟩,
        by rw [hcount, Nat.add_assoc]⟩
  · rintro ⟨hfits, ⟨hat, hbody⟩, rfl⟩
    have hlen := (guardedLE_ok data (lenFailure pos)).mpr ⟨hfits, hat⟩
    rw [readString_body data hbody.1 hlen, hbody.2, strOfBytes_ok.mpr rfl, Nat.add_assoc]

theorem readString_ne_panic {pos : Nat} (hpos : pos ≤ data.1.length) :
    readString data.1 lenFailure bodyFailure utf8Failure pos ≠ .error .panic := by
  have hdata := data.2
  intro h
  have hrun := h
  simp only [readString, except_bind_error, add_panic, add_ok, guardEnd_panic, guardEnd_ok] at h
  rcases h with hlen | ⟨len, hlen, hfour | ⟨_, ⟨_, rfl⟩, hbody | ⟨_, hle, _⟩⟩⟩
  · exact guardedLE_ne_panic data (by unfold intMax; omega) hlen
  · unfold intMax at hfour; omega
  · have hlt := ((guardedLE_ok data _).mp hlen).1
    unfold intMax at hbody
    omega
  · rw [readString_body data hle hlen] at hrun
    split at hrun <;> cases hrun

theorem reads_decodeKey : Reads data.1 encodeKey KeyFits (decodeKey data.1) := by
  intro pos key c
  simp only [decodeKey, except_bind_ok, Prod.exists, readKeyString, readString_ok, guardedLE_ok,
    add_ok, Except.ok.injEq, Prod.mk.injEq]
  rw [length_encodeKey, encodeKey]
  simp only [hasAt_append, List.length_append, length_leBytes, length_encodeStr]
  constructor
  · rintro ⟨item, _, ⟨hitem, hitemAt, rfl⟩, index, ⟨hindex, hindexAt⟩, _, ⟨_, rfl⟩, model, _,
      ⟨hmodel, hmodelAt, rfl⟩, version, _, ⟨hversion, hversionAt, rfl⟩, rfl, rfl⟩
    have htoNat : (UInt32.ofNat index).toNat = index := UInt32.toNat_ofNat_of_lt hindex
    refine ⟨⟨hitem, hmodel, hversion⟩, ⟨⟨⟨hitemAt, ?_⟩, ?_⟩, ?_⟩, by dsimp only; omega⟩
    · rw [htoNat]; exact hindexAt
    · simpa only [Nat.add_assoc] using hmodelAt
    · simpa only [Nat.add_assoc] using hversionAt
  · rintro ⟨⟨hitem, hmodel, hversion⟩, ⟨⟨⟨hitemAt, hindexAt⟩, hmodelAt⟩, hversionAt⟩, rfl⟩
    have hdata := data.2
    have hend := hmodelAt.1
    refine ⟨key.itemId, _, ⟨hitem, hitemAt, rfl⟩, key.vectorIndex.toNat,
      ⟨key.vectorIndex.toNat_lt, hindexAt⟩, _, ⟨?_, rfl⟩, key.modelId, _, ⟨hmodel, ?_, rfl⟩,
      key.modelVersion, _, ⟨hversion, ?_, rfl⟩, by rw [UInt32.ofNat_toNat], by omega⟩
    · unfold intMax; omega
    · simpa only [Nat.add_assoc] using hmodelAt
    · simpa only [Nat.add_assoc] using hversionAt

theorem decodeKey_ne_panic {pos : Nat} (hpos : pos ≤ data.1.length) :
    decodeKey data.1 pos ≠ .error .panic := by
  have hdata := data.2
  intro h
  simp only [decodeKey, except_bind_error, Prod.exists, readKeyString, readString_ok, guardedLE_ok,
    add_ok, add_panic] at h
  rcases h with h | ⟨item, _, ⟨_, hitem, rfl⟩, h | ⟨index, ⟨_, hindex⟩, h | ⟨_, ⟨_, rfl⟩,
    h | ⟨model, _, ⟨_, hmodel, rfl⟩, h | ⟨version, _, _, h⟩⟩⟩⟩⟩
  · exact readString_ne_panic data hpos h
  · have := hitem.1
    exact guardedLE_ne_panic data (by unfold intMax; omega) h
  · have := hindex.1
    unfold intMax at h
    rw [length_leBytes] at this
    omega
  · exact readString_ne_panic data (by simpa using hindex.1) h
  · exact readString_ne_panic data hmodel.1 h
  · cases h

end Read

end MootMemory.Swift
