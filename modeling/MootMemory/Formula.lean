import Mathlib.Data.List.Basic

namespace MootMemory

/-- Formulas with conjunctions and disjunctions of any number of parts. -/
inductive Formula (α : Type) where
  | leaf (a : α)
  | all (fs : List (Formula α))
  | any (fs : List (Formula α))
  | not (f : Formula α)
deriving Repr

namespace Formula

variable {α : Type}

@[induction_eliminator, elab_as_elim]
theorem induction {motive : Formula α → Prop} (leaf : ∀ a, motive (leaf a))
    (all : ∀ fs, (∀ f ∈ fs, motive f) → motive (all fs))
    (any : ∀ fs, (∀ f ∈ fs, motive f) → motive (any fs))
    (not : ∀ f, motive f → motive (not f)) (f : Formula α) : motive f := by
  refine @Formula.rec α motive (fun fs => ∀ f ∈ fs, motive f) leaf all any not ?_ ?_ f
  · intro f hf
    cases hf
  · intro f fs hf hfs g hg
    rcases List.mem_cons.mp hg with rfl | hg
    · exact hf
    · exact hfs g hg

mutual

/-- Some leaf is of the kind. -/
def mentions (kind : α → Bool) : Formula α → Bool
  | leaf a => kind a
  | all fs => mentionsSome kind fs
  | any fs => mentionsSome kind fs
  | not f => mentions kind f

def mentionsSome (kind : α → Bool) : List (Formula α) → Bool
  | [] => false
  | f :: fs => mentions kind f || mentionsSome kind fs

end

mutual

/-- The boolean reading, each leaf decided by `v`. -/
def holds (v : α → Bool) : Formula α → Bool
  | leaf a => v a
  | all fs => holdsAll v fs
  | any fs => holdsAny v fs
  | not f => !holds v f

def holdsAll (v : α → Bool) : List (Formula α) → Bool
  | [] => true
  | f :: fs => holds v f && holdsAll v fs

def holdsAny (v : α → Bool) : List (Formula α) → Bool
  | [] => false
  | f :: fs => holds v f || holdsAny v fs

end

mutual

/-- The reading of one kind: parts in which no leaf of the kind occurs are left out. -/
def holdsOf (kind v : α → Bool) : Formula α → Bool
  | leaf a => !kind a || v a
  | all fs => holdsOfAll kind v fs
  | any fs => !mentionsSome kind fs || holdsOfAny kind v fs
  | not f => !mentions kind f || !holdsOf kind v f

def holdsOfAll (kind v : α → Bool) : List (Formula α) → Bool
  | [] => true
  | f :: fs => (!mentions kind f || holdsOf kind v f) && holdsOfAll kind v fs

def holdsOfAny (kind v : α → Bool) : List (Formula α) → Bool
  | [] => false
  | f :: fs => (mentions kind f && holdsOf kind v f) || holdsOfAny kind v fs

end

variable {kind v : α → Bool} {fs : List (Formula α)} {f : Formula α} {a : α}

theorem mentionsSome_eq : mentionsSome kind fs = fs.any (mentions kind) := by
  induction fs with
  | nil => rfl
  | cons f fs ih => rw [List.any_cons, ← ih]; rfl

theorem holdsAll_eq : holdsAll v fs = fs.all (holds v) := by
  induction fs with
  | nil => rfl
  | cons f fs ih => rw [List.all_cons, ← ih]; rfl

theorem holdsAny_eq : holdsAny v fs = fs.any (holds v) := by
  induction fs with
  | nil => rfl
  | cons f fs ih => rw [List.any_cons, ← ih]; rfl

theorem holdsOfAll_eq :
    holdsOfAll kind v fs = (fs.filter (mentions kind)).all (holdsOf kind v) := by
  induction fs with
  | nil => rfl
  | cons f fs ih =>
    show ((!mentions kind f || holdsOf kind v f) && holdsOfAll kind v fs) = _
    rw [ih, List.filter_cons]
    cases mentions kind f <;> simp

theorem holdsOfAny_eq :
    holdsOfAny kind v fs = (fs.filter (mentions kind)).any (holdsOf kind v) := by
  induction fs with
  | nil => rfl
  | cons f fs ih =>
    show (mentions kind f && holdsOf kind v f || holdsOfAny kind v fs) = _
    rw [ih, List.filter_cons]
    cases mentions kind f <;> simp

@[simp] theorem mentions_leaf : mentions kind (leaf a) = kind a := rfl

@[simp] theorem mentions_all : mentions kind (all fs) = fs.any (mentions kind) :=
  mentionsSome_eq

@[simp] theorem mentions_any : mentions kind (any fs) = fs.any (mentions kind) :=
  mentionsSome_eq

@[simp] theorem mentions_not : mentions kind (not f) = mentions kind f := rfl

@[simp] theorem holds_leaf : holds v (leaf a) = v a := rfl

@[simp] theorem holds_all : holds v (all fs) = fs.all (holds v) := holdsAll_eq

@[simp] theorem holds_any : holds v (any fs) = fs.any (holds v) := holdsAny_eq

@[simp] theorem holds_not : holds v (not f) = !holds v f := rfl

theorem holdsOf_leaf : holdsOf kind v (leaf a) = (!kind a || v a) := rfl

theorem holdsOf_all :
    holdsOf kind v (all fs) = (fs.filter (mentions kind)).all (holdsOf kind v) :=
  holdsOfAll_eq

theorem holdsOf_any : holdsOf kind v (any fs) =
    (!fs.any (mentions kind) || (fs.filter (mentions kind)).any (holdsOf kind v)) := by
  rw [← mentionsSome_eq, ← holdsOfAny_eq]
  rfl

theorem holdsOf_not : holdsOf kind v (not f) = (!mentions kind f || !holdsOf kind v f) :=
  rfl

theorem holdsOf_of_not_mentions (h : mentions kind f = false) : holdsOf kind v f = true := by
  induction f with
  | leaf a =>
    rw [mentions_leaf] at h
    rw [holdsOf_leaf, h, Bool.not_false, Bool.true_or]
  | all fs ih =>
    rw [mentions_all, List.any_eq_false] at h
    have hnone : fs.filter (mentions kind) = [] := List.filter_eq_nil_iff.mpr h
    rw [holdsOf_all, hnone, List.all_nil]
  | any fs ih =>
    rw [mentions_any] at h
    rw [holdsOf_any, h, Bool.not_false, Bool.true_or]
  | not f ih =>
    rw [mentions_not] at h
    rw [holdsOf_not, h, Bool.not_false, Bool.true_or]

/-- Left-out parts pass, so all the parts may be asked. -/
theorem holdsOf_all_eq_all : holdsOf kind v (all fs) = fs.all (holdsOf kind v) := by
  rw [holdsOf_all, Bool.eq_iff_iff, List.all_eq_true, List.all_eq_true]
  constructor
  · intro h f hf
    cases hm : mentions kind f with
    | false => exact holdsOf_of_not_mentions hm
    | true => exact h f (List.mem_filter.mpr ⟨hf, hm⟩)
  · intro h f hf
    exact h f (List.mem_of_mem_filter hf)

theorem holds_congr {w : α → Bool} (h : ∀ a, v a = w a) : holds v f = holds w f := by
  rw [show v = w from funext h]

end Formula

end MootMemory
