import Mathlib

namespace MootMemory

section IntervalBuckets

variable {α : Type*} [LinearOrder α] {edge : Nat → α} {count : Nat} {i j : Nat} {t : α}

/-- Bucket `i` of the `count` buckets between the edges: it has its lower edge, and of the upper
edges only the last bucket has its own. -/
def InBucket (edge : Nat → α) (count i : Nat) (t : α) : Prop :=
  edge i ≤ t ∧ if i + 1 = count then t ≤ edge count else t < edge (i + 1)

instance : Decidable (InBucket edge count i t) := by
  unfold InBucket
  infer_instance

/-- The bucket of an instant is the last one that starts no later. -/
theorem exists_inBucket (hcount : 0 < count) (hlower : edge 0 ≤ t) (hupper : t ≤ edge count) :
    ∃ i < count, InBucket edge count i t := by
  have hstarts : edge (Nat.findGreatest (edge · ≤ t) (count - 1)) ≤ t :=
    Nat.findGreatest_spec (P := (edge · ≤ t)) (Nat.zero_le _) hlower
  have hbound : Nat.findGreatest (edge · ≤ t) (count - 1) ≤ count - 1 := Nat.findGreatest_le _
  refine ⟨_, by omega, hstarts, ?_⟩
  split
  · exact hupper
  · rename_i hinner
    have hnext : ¬edge (Nat.findGreatest (edge · ≤ t) (count - 1) + 1) ≤ t :=
      Nat.findGreatest_is_greatest (P := (edge · ≤ t)) (Nat.lt_succ_self _) (by omega)
    exact lt_of_not_ge hnext

theorem InBucket.lt_of_lt (hmono : Monotone edge) (hi : InBucket edge count i t)
    (hij : i < j) (hj : j < count) : t < edge j := by
  have hupper := hi.2
  rw [if_neg (by omega)] at hupper
  exact hupper.trans_le (hmono hij)

/-- No instant lies in two buckets. -/
theorem InBucket.unique (hmono : Monotone edge) (hicount : i < count) (hjcount : j < count)
    (hi : InBucket edge count i t) (hj : InBucket edge count j t) : i = j := by
  rcases Nat.lt_trichotomy i j with hlt | heq | hgt
  · exact absurd hj.1 (hi.lt_of_lt hmono hlt hjcount).not_ge
  · exact heq
  · exact absurd hi.1 (hj.lt_of_lt hmono hgt hicount).not_ge

/-- The buckets reach no further than from the first edge to the last. -/
theorem InBucket.mem_window (hmono : Monotone edge) (hcount : i < count)
    (h : InBucket edge count i t) : edge 0 ≤ t ∧ t ≤ edge count := by
  refine ⟨(hmono (Nat.zero_le i)).trans h.1, ?_⟩
  have hupper := h.2
  split at hupper
  · exact hupper
  · exact hupper.le.trans (hmono hcount)

/-- The buckets partition the interval between the first edge and the last. -/
theorem existsUnique_inBucket (hmono : Monotone edge) (hcount : 0 < count) (hlower : edge 0 ≤ t)
    (hupper : t ≤ edge count) : ∃! i, i < count ∧ InBucket edge count i t := by
  obtain ⟨i, hicount, hi⟩ := exists_inBucket hcount hlower hupper
  exact ⟨i, ⟨hicount, hi⟩, fun j hj => hj.2.unique hmono hj.1 hicount hi⟩

end IntervalBuckets

section EvenEdges

/-- The edges of `count` buckets of one width that end at `stop`. -/
def evenEdge (stop width : Int) (count i : Nat) : Int := stop - ((count : Int) - i) * width

theorem evenEdge_zero (stop width : Int) (count : Nat) :
    evenEdge stop width count 0 = stop - count * width := by
  simp [evenEdge]

theorem evenEdge_last (stop width : Int) (count : Nat) : evenEdge stop width count count = stop := by
  simp [evenEdge]

theorem monotone_evenEdge (stop : Int) {width : Int} (hwidth : 0 ≤ width) (count : Nat) :
    Monotone (evenEdge stop width count) := by
  intro i j hij
  have hle : ((count : Int) - j) * width ≤ (count - i) * width :=
    Int.mul_le_mul_of_nonneg_right (by omega) hwidth
  unfold evenEdge
  omega

end EvenEdges

end MootMemory
