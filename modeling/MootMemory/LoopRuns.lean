import Mathlib.Logic.Relation

namespace MootMemory

section Runs

variable {σ γ : Type}

/-- The states a machine comes to by steps that are allowed where they are taken. -/
inductive GuardedRun (step : σ → γ → σ) (allowed : σ → γ → Prop) (start : σ) : σ → Prop
  | start : GuardedRun step allowed start start
  | next {s : σ} (call : γ) (h : GuardedRun step allowed start s) (hcall : allowed s call) :
      GuardedRun step allowed start (step s call)

variable {step : σ → γ → σ} {allowed allowed' : σ → γ → Prop} {start s : σ}

/-- What holds at the start and is kept by every allowed step holds all along. -/
theorem GuardedRun.invariant {P : σ → Prop} (h : GuardedRun step allowed start s) (hstart : P start)
    (hstep : ∀ s call, P s → allowed s call → P (step s call)) : P s := by
  induction h with
  | start => exact hstart
  | next call _ hcall ih => exact hstep _ call ih hcall

theorem GuardedRun.mono (h : GuardedRun step allowed start s)
    (hallowed : ∀ s call, allowed s call → allowed' s call) :
    GuardedRun step allowed' start s := by
  induction h with
  | start => exact .start
  | next call _ hcall ih => exact .next call ih (hallowed _ call hcall)

theorem GuardedRun.foldl {calls : List γ} (h : GuardedRun step allowed start s)
    (hcalls : ∀ pre call post, calls = pre ++ call :: post → allowed (pre.foldl step s) call) :
    GuardedRun step allowed start (calls.foldl step s) := by
  induction calls generalizing s with
  | nil => exact h
  | cons call calls ih =>
    refine ih (.next call h (hcalls [] call calls rfl)) fun pre c post heq => ?_
    exact hcalls (call :: pre) c post (by rw [heq, List.cons_append])

end Runs

section LoopFuel

variable {σ : Type} {step : σ → Option σ} {s s' final : σ}

/-- Steps until the loop breaks; without fuel there is no answer. -/
def loopFuel (step : σ → Option σ) : Nat → σ → Option σ
  | 0, _ => none
  | n + 1, s =>
    match step s with
    | none => some s
    | some s' => loopFuel step n s'

/-- The states that the loop goes through. -/
def Reached (step : σ → Option σ) : σ → σ → Prop :=
  Relation.ReflTransGen fun s s' => step s = some s'

theorem Reached.invariant {P : σ → Prop} (h : Reached step s s') (hs : P s)
    (hstep : ∀ a b, Reached step s a → P a → step a = some b → P b) : P s' := by
  induction h with
  | refl => exact hs
  | tail hprev hnext ih => exact hstep _ _ hprev ih hnext

/-- Of two states that a loop goes through, one comes after the other. -/
theorem Reached.total {a b : σ} (ha : Reached step s a) (hb : Reached step s b) :
    Reached step a b ∨ Reached step b a :=
  Relation.ReflTransGen.total_of_right_unique
    (fun _ _ _ h h' => Option.some.inj (h.symm.trans h')) ha hb

end LoopFuel

end MootMemory
