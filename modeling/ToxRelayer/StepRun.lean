import Mathlib.Tactic

/-!
# Runs of a step function

A system that takes one operation after another, and conditions on the state
before every operation of a run.  This file names nothing of the relay.
-/

namespace StepRun

section

variable {State Op : Type} (step : State → Op → State)

/-- Before every operation of the run, the state and the operation satisfy `p`. -/
def Along (p : State → Op → Prop) : State → List Op → Prop
  | _, [] => True
  | s, op :: ops => p s op ∧ Along p (step s op) ops

variable {step} {I : State → Prop} {p q : State → Op → Prop} {s : State}

/-- What an invariant says about every operation holds along a run whose operations
preserve it. -/
theorem Along.of_invariant (hstep : ∀ s op, I s → p s op → I (step s op))
    (himplies : ∀ s op, I s → p s op → q s op) (hs : I s) {ops : List Op}
    (halong : Along step p s ops) : Along step q s ops := by
  induction ops generalizing s with
  | nil => trivial
  | cons op ops ih =>
      refine ⟨himplies s op hs halong.1, ?_⟩
      apply ih
      · exact hstep s op hs halong.1
      · exact halong.2

/-- An invariant that the operations of a run preserve holds in its last state. -/
theorem Along.last (hstep : ∀ s op, I s → p s op → I (step s op)) (hs : I s)
    {ops : List Op} (halong : Along step p s ops) : I (ops.foldl step s) := by
  induction ops generalizing s with
  | nil => exact hs
  | cons op ops ih => exact ih (hstep s op hs halong.1) halong.2

/-- A condition on the operations alone. -/
theorem Along.of_forall {allowed : Op → Prop} {ops : List Op} (hallowed : ∀ op ∈ ops, allowed op)
    (s : State) : Along step (fun _ op => allowed op) s ops := by
  induction ops generalizing s with
  | nil => trivial
  | cons op ops ih =>
      obtain ⟨hop, hrest⟩ := List.forall_mem_cons.mp hallowed
      exact ⟨hop, ih hrest _⟩

theorem Along.of_append {earlier later : List Op} (halong : Along step p s (earlier ++ later)) :
    Along step p s earlier := by
  induction earlier generalizing s with
  | nil => trivial
  | cons op earlier ih => exact ⟨halong.1, ih halong.2⟩

theorem Along.concat {ops : List Op} (halong : Along step p s ops) {op : Op}
    (hlast : p (ops.foldl step s) op) : Along step p s (ops ++ [op]) := by
  induction ops generalizing s with
  | nil => exact ⟨hlast, trivial⟩
  | cons first ops ih => exact ⟨halong.1, ih halong.2 hlast⟩

/-- A copy that some operations bring up to date and the others leave alone holds what
there was to copy after the last of those operations. -/
theorem Along.exists_lastCopied {Value : Type} (copy original : State → Value)
    {copies : State → Op → Prop} (hstep : ∀ s op, I s → p s op → I (step s op))
    (hkept : ∀ s op, I s → ¬ copies s op → copy (step s op) = copy s)
    (hcopied : ∀ s op, I s → copies s op → copy (step s op) = original (step s op))
    (hs : I s) (hbegin : copy s = original s) {ops : List Op} (halong : Along step p s ops) :
    ∃ before after, ops = before ++ after ∧
      copy (ops.foldl step s) = original (before.foldl step s) ∧
      Along step (fun s op => ¬ copies s op) (before.foldl step s) after := by
  induction ops using List.reverseRecOn with
  | nil => exact ⟨[], [], rfl, hbegin, trivial⟩
  | append_singleton ops op ih =>
      have hearlier := halong.of_append
      obtain ⟨before, after, rfl, hcopy, hsince⟩ := ih hearlier
      have hinv := hearlier.last hstep hs
      by_cases hnow : copies ((before ++ after).foldl step s) op
      · refine ⟨before ++ after ++ [op], [], by rw [List.append_nil], ?_, trivial⟩
        rw [List.foldl_append]
        exact hcopied _ op hinv hnow
      · refine ⟨before, after ++ [op], by rw [List.append_assoc], ?_, ?_⟩
        · rw [List.foldl_append, ← hcopy]
          exact hkept _ op hinv hnow
        · apply hsince.concat
          rw [← List.foldl_append]
          exact hnow

/-- The states a run goes through, the first and the last included, satisfy `p`. -/
def Throughout (step : State → Op → State) (p : State → Prop) : State → List Op → Prop
  | s, [] => p s
  | s, op :: ops => p s ∧ Throughout step p (step s op) ops

theorem Throughout.first {p : State → Prop} {ops : List Op} (hall : Throughout step p s ops) :
    p s := by
  cases ops with
  | nil => exact hall
  | cons op ops => exact hall.1

theorem Throughout.last {p : State → Prop} {ops : List Op} (hall : Throughout step p s ops) :
    p (ops.foldl step s) := by
  induction ops generalizing s with
  | nil => exact hall
  | cons op ops ih => exact ih hall.2

/-- A property that an operation keeps exactly under a condition holds in all states
of a run exactly when all its operations meet the condition. -/
theorem throughout_iff_along {p : State → Prop} {allowed : Op → Prop} {c : State → Op → Prop}
    (hinv : ∀ s op, I s → allowed op → I (step s op))
    (hstep : ∀ s op, I s → allowed op → p s → (p (step s op) ↔ c s op))
    (hs : I s) (hp : p s) {ops : List Op} (hallowed : ∀ op ∈ ops, allowed op) :
    Throughout step p s ops ↔ Along step c s ops := by
  induction ops generalizing s with
  | nil => exact iff_of_true hp trivial
  | cons op ops ih =>
      obtain ⟨hop, hrest⟩ := List.forall_mem_cons.mp hallowed
      have hnext := hinv s op hs hop
      constructor
      · rintro ⟨-, hall⟩
        refine ⟨(hstep s op hs hop hp).mp hall.first, ?_⟩
        exact (ih hnext hall.first hrest).mp hall
      · rintro ⟨hcondition, halong⟩
        have hkept := (hstep s op hs hop hp).mpr hcondition
        exact ⟨hp, (ih hnext hkept hrest).mpr halong⟩

end

end StepRun
