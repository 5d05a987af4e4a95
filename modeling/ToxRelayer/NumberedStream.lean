import Mathlib.Data.Finset.Basic
import Mathlib.Order.Interval.Finset.Nat
import Mathlib.Tactic

/-!
# A receiver of numbered items

Items carry the numbers `0, 1, 2, …` and reach a receiver lost, repeated or
out of order.  The receiver keeps the number after the newest item it has seen
and the numbers below that which it still misses.  This file names nothing of
the relay: a wire format that shows less than the whole number refines it.
-/

namespace NumberedStream

/-- What a receiver knows once an item has reached it. -/
structure Receiver where
  next : ℕ
  missing : Finset ℕ
  missing_lt : ∀ number ∈ missing, number < next

inductive Verdict where
  | recovered
  | inOrder
  | duplicate
  | gap
  | resync
  deriving DecidableEq

def Receiver.opened (number : ℕ) : Receiver where
  next := number + 1
  missing := ∅
  missing_lt := by simp

def Receiver.recover (receiver : Receiver) (number : ℕ) : Receiver where
  next := receiver.next
  missing := receiver.missing.erase number
  missing_lt := by
    intro other hother
    exact receiver.missing_lt other (Finset.mem_of_mem_erase hother)

/-- Moving past `number` and counting everything skipped as missing. -/
def Receiver.skipTo (receiver : Receiver) (number : ℕ)
    (hahead : receiver.next ≤ number) : Receiver where
  next := number + 1
  missing := receiver.missing ∪ Finset.Ico receiver.next number
  missing_lt := by
    intro other hother
    rcases Finset.mem_union.mp hother with hold | hskipped
    · have hlt := receiver.missing_lt other hold
      omega
    · have hlt := (Finset.mem_Ico.mp hskipped).2
      omega

theorem Receiver.skipTo_missing_val (receiver : Receiver) (number : ℕ)
    (hahead : receiver.next ≤ number) :
    (receiver.skipTo number hahead).missing.val =
      receiver.missing.val + (Finset.Ico receiver.next number).val := by
  have hdisjoint : Disjoint receiver.missing (Finset.Ico receiver.next number) := by
    rw [Finset.disjoint_left]
    intro other hmissing hskipped
    have hlt := receiver.missing_lt other hmissing
    have hle := (Finset.mem_Ico.mp hskipped).1
    omega
  have hunion : (receiver.skipTo number hahead).missing =
      receiver.missing.disjUnion (Finset.Ico receiver.next number) hdisjoint :=
    (Finset.disjUnion_eq_union _ _ hdisjoint).symm
  rw [hunion, Finset.disjUnion_val]

/-- One arrival at a receiver that follows skips of at most `maxGap` and keeps
at most `maxMissing` numbers outstanding.  `none` has seen nothing yet. -/
def accept (maxGap maxMissing : ℕ) :
    Option Receiver → ℕ → Verdict × Receiver
  | none, number => (.inOrder, .opened number)
  | some receiver, number =>
      if number ∈ receiver.missing then (.recovered, receiver.recover number)
      else if hahead : receiver.next ≤ number then
        if number = receiver.next then (.inOrder, receiver.skipTo number hahead)
        else if number - receiver.next ≤ maxGap ∧
            receiver.missing.card + (number - receiver.next) ≤ maxMissing then
          (.gap, receiver.skipTo number hahead)
        else (.resync, .opened number)
      else (.duplicate, receiver)

/-- The number after the newest one to have arrived. -/
def nextOf : Option Receiver → ℕ
  | none => 0
  | some receiver => receiver.next

theorem accept_next (maxGap maxMissing : ℕ) (state : Option Receiver) (number : ℕ) :
    (accept maxGap maxMissing state number).2.next = max (nextOf state) (number + 1) := by
  cases state with
  | none => simp [accept, nextOf, Receiver.opened]
  | some receiver =>
      simp only [accept, nextOf]
      split_ifs with hmem hahead heq hroom
      · have hlt := receiver.missing_lt number hmem
        simp only [Receiver.recover]
        omega
      · simp only [Receiver.skipTo]
        omega
      · simp only [Receiver.skipTo]
        omega
      · simp only [Receiver.opened]
        omega
      · exact (max_eq_left (Nat.lt_of_not_le hahead)).symm

/-! ## Settled numbers -/

/-- The receiver has taken this number or given up on it. -/
def Settled (receiver : Receiver) (number : ℕ) : Prop :=
  number < receiver.next ∧ number ∉ receiver.missing

def SettledIn : Option Receiver → ℕ → Prop
  | none, _ => False
  | some receiver, number => Settled receiver number

variable {maxGap maxMissing : ℕ}

theorem settled_opened {number other : ℕ} (hother : other ≤ number) :
    Settled (.opened number) other := by
  refine ⟨?_, ?_⟩
  · simp only [Receiver.opened]
    omega
  · simp [Receiver.opened]

theorem settled_recover {receiver : Receiver} {number other : ℕ}
    (hsettled : Settled receiver other) :
    Settled (receiver.recover number) other := by
  refine ⟨hsettled.1, ?_⟩
  intro hmem
  exact hsettled.2 (Finset.mem_of_mem_erase hmem)

theorem settled_skipTo {receiver : Receiver} {number other : ℕ}
    (hahead : receiver.next ≤ number) (hsettled : Settled receiver other) :
    Settled (receiver.skipTo number hahead) other := by
  have hlt := hsettled.1
  refine ⟨?_, ?_⟩
  · simp only [Receiver.skipTo]
    omega
  · simp only [Receiver.skipTo, Finset.mem_union, Finset.mem_Ico, not_or]
    exact ⟨hsettled.2, by omega⟩

theorem settled_skipTo_self {receiver : Receiver} {number : ℕ}
    (hahead : receiver.next ≤ number) :
    Settled (receiver.skipTo number hahead) number := by
  refine ⟨Nat.lt_succ_self number, ?_⟩
  simp only [Receiver.skipTo, Finset.mem_union, Finset.mem_Ico, not_or]
  refine ⟨?_, by omega⟩
  intro hmem
  have hlt := receiver.missing_lt number hmem
  omega

theorem accept_settled {state : Option Receiver} {number other : ℕ}
    (hsettled : SettledIn state other) :
    Settled (accept maxGap maxMissing state number).2 other := by
  cases state with
  | none => exact hsettled.elim
  | some receiver =>
      have hold : Settled receiver other := hsettled
      have hlt := hold.1
      simp only [accept]
      split_ifs with hmem hahead heq hroom
      · exact settled_recover hold
      · exact settled_skipTo hahead hold
      · exact settled_skipTo hahead hold
      · exact settled_opened (by omega)
      · exact hold

theorem accept_settles {state : Option Receiver} {number : ℕ} :
    Settled (accept maxGap maxMissing state number).2 number := by
  cases state with
  | none => exact settled_opened le_rfl
  | some receiver =>
      simp only [accept]
      split_ifs with hmem hahead heq hroom
      · refine ⟨receiver.missing_lt number hmem, ?_⟩
        simp [Receiver.recover]
      · exact settled_skipTo_self hahead
      · exact settled_skipTo_self hahead
      · exact settled_opened le_rfl
      · exact ⟨Nat.lt_of_not_le hahead, hmem⟩

theorem accept_duplicate_of_settled {state : Option Receiver} {number : ℕ}
    (hsettled : SettledIn state number) :
    (accept maxGap maxMissing state number).1 = .duplicate := by
  cases state with
  | none => exact hsettled.elim
  | some receiver =>
      have hold : Settled receiver number := hsettled
      have hlt := hold.1
      simp only [accept]
      rw [if_neg hold.2, dif_neg (by omega)]

/-! ## What has arrived -/

/-- The number after the newest one to have arrived. -/
def expectedAfter (arrived : Finset ℕ) : ℕ := arrived.sup (· + 1)

/-- The numbers below it that have not. -/
def outstanding (arrived : Finset ℕ) : Finset ℕ :=
  Finset.range (expectedAfter arrived) \ arrived

theorem lt_expectedAfter {arrived : Finset ℕ} {number : ℕ} (hmem : number ∈ arrived) :
    number < expectedAfter arrived :=
  Finset.le_sup (f := (· + 1)) hmem

theorem expectedAfter_insert (arrived : Finset ℕ) (number : ℕ) :
    expectedAfter (insert number arrived) = max (number + 1) (expectedAfter arrived) :=
  Finset.sup_insert

theorem mem_outstanding {arrived : Finset ℕ} {number : ℕ} :
    number ∈ outstanding arrived ↔ number < expectedAfter arrived ∧ number ∉ arrived := by
  rw [outstanding, Finset.mem_sdiff, Finset.mem_range]

theorem outstanding_insert_of_behind {arrived : Finset ℕ} {number : ℕ}
    (hbehind : number < expectedAfter arrived) :
    outstanding (insert number arrived) = (outstanding arrived).erase number := by
  ext other
  rw [Finset.mem_erase, mem_outstanding, mem_outstanding, expectedAfter_insert,
    Finset.mem_insert, max_eq_right hbehind]
  tauto

theorem outstanding_insert_of_ahead {arrived : Finset ℕ} {number : ℕ}
    (hahead : expectedAfter arrived ≤ number) :
    outstanding (insert number arrived) =
      outstanding arrived ∪ Finset.Ico (expectedAfter arrived) number := by
  ext other
  rw [Finset.mem_union, Finset.mem_Ico, mem_outstanding, mem_outstanding, expectedAfter_insert,
    Finset.mem_insert, max_eq_left (by omega)]
  constructor
  · rintro ⟨hlt, hnew⟩
    obtain ⟨hne, hnotMem⟩ := not_or.mp hnew
    by_cases hold : other < expectedAfter arrived
    · exact .inl ⟨hold, hnotMem⟩
    · exact .inr ⟨by omega, by omega⟩
  · rintro (⟨hlt, hnotMem⟩ | ⟨hle, hlt⟩)
    · exact ⟨by omega, not_or.mpr ⟨by omega, hnotMem⟩⟩
    · refine ⟨by omega, not_or.mpr ⟨by omega, ?_⟩⟩
      intro hmem
      have hbelow := lt_expectedAfter hmem
      omega

/-- An arrival the receiver can follow: the first item comes first, no arrival
skips too many numbers, and never are too many outstanding. -/
structure Followable (maxGap maxMissing : ℕ) (arrived : Finset ℕ) (number : ℕ) : Prop where
  first : arrived = ∅ → number = 0
  near : number ≤ expectedAfter arrived + maxGap
  few : (outstanding (insert number arrived)).card ≤ maxMissing

instance (maxGap maxMissing : ℕ) (arrived : Finset ℕ) (number : ℕ) :
    Decidable (Followable maxGap maxMissing arrived number) :=
  decidable_of_iff ((arrived = ∅ → number = 0) ∧ number ≤ expectedAfter arrived + maxGap ∧
      (outstanding (insert number arrived)).card ≤ maxMissing)
    ⟨fun h => ⟨h.1, h.2.1, h.2.2⟩, fun h => ⟨h.first, h.near, h.few⟩⟩

/-- What the receiver knows is what has arrived. -/
structure KnowsArrived (arrived : Finset ℕ) (receiver : Receiver) : Prop where
  next : receiver.next = expectedAfter arrived
  missing : receiver.missing = outstanding arrived

def Knows (arrived : Finset ℕ) : Option Receiver → Prop
  | none => arrived = ∅
  | some receiver => KnowsArrived arrived receiver

/-- One arrival that the receiver follows. -/
structure Followed (maxGap : ℕ) (arrived : Finset ℕ) (number : ℕ)
    (answer : Verdict × Receiver) : Prop where
  knows : KnowsArrived (insert number arrived) answer.2
  notResync : answer.1 ≠ .resync
  duplicate_iff : answer.1 = .duplicate ↔ number ∈ arrived
  gap : answer.1 = .gap →
    expectedAfter arrived < number ∧ number ≤ expectedAfter arrived + maxGap
  skips : ∀ other ∈ outstanding (insert number arrived), other ∈ outstanding arrived ∨
    answer.1 = .gap ∧ expectedAfter arrived ≤ other ∧ other < number

theorem Knows.accept {arrived : Finset ℕ} {state : Option Receiver} {number : ℕ}
    (hknows : Knows arrived state)
    (hfollowable : Followable maxGap maxMissing arrived number) :
    Followed maxGap arrived number (accept maxGap maxMissing state number) := by
  cases state with
  | none =>
      obtain rfl : arrived = ∅ := hknows
      obtain rfl := hfollowable.first rfl
      have hnone : outstanding (insert 0 ∅) = ∅ := by decide
      refine ⟨⟨rfl, hnone.symm⟩, by simp [NumberedStream.accept], by simp [NumberedStream.accept],
        by simp [NumberedStream.accept], ?_⟩
      intro other hother
      rw [hnone] at hother
      exact absurd hother (Finset.notMem_empty other)
  | some receiver =>
      obtain ⟨hnext, hmissing⟩ := hknows
      simp only [NumberedStream.accept]
      by_cases hmem : number ∈ receiver.missing
      · -- a number that was missing
        rw [if_pos hmem]
        rw [hmissing, mem_outstanding] at hmem
        have hinsert := outstanding_insert_of_behind hmem.1
        refine ⟨⟨?_, ?_⟩, by simp, by simp [hmem.2], by simp, ?_⟩
        · rw [expectedAfter_insert, max_eq_right hmem.1]
          exact hnext
        · rw [hinsert, ← hmissing]
          rfl
        · intro other hother
          rw [hinsert] at hother
          exact .inl (Finset.mem_of_mem_erase hother)
      · rw [if_neg hmem]
        by_cases hahead : receiver.next ≤ number
        · -- a number not seen before
          rw [dif_pos hahead]
          have hbeyond : expectedAfter arrived ≤ number := hnext ▸ hahead
          have hinsert := outstanding_insert_of_ahead hbeyond
          have hnew : number ∉ arrived := by
            intro hold
            have hlt := lt_expectedAfter hold
            omega
          have hskip : KnowsArrived (insert number arrived) (receiver.skipTo number hahead) := by
            refine ⟨?_, ?_⟩
            · rw [expectedAfter_insert, max_eq_left (by omega)]
              rfl
            · rw [hinsert, ← hmissing, ← hnext]
              rfl
          by_cases hinOrder : number = receiver.next
          · rw [if_pos hinOrder]
            refine ⟨hskip, by simp, by simp [hnew], by simp, ?_⟩
            intro other hother
            rw [hinsert, ← hnext, ← hinOrder, Finset.Ico_self, Finset.union_empty] at hother
            exact .inl hother
          · have hcard : (outstanding (insert number arrived)).card =
                receiver.missing.card + (number - receiver.next) := by
              rw [← hskip.missing, Finset.card_def, Receiver.skipTo_missing_val, Multiset.card_add,
                ← Finset.card_def, ← Finset.card_def, Nat.card_Ico]
            have hnear := hfollowable.near
            have hfew := hfollowable.few
            rw [if_neg hinOrder, if_pos ⟨by omega, by omega⟩]
            refine ⟨hskip, by simp, by simp [hnew], fun _ => ⟨by omega, hnear⟩, ?_⟩
            intro other hother
            rw [hinsert, Finset.mem_union, Finset.mem_Ico] at hother
            exact hother.imp id fun hskipped => ⟨rfl, hskipped⟩
        · -- a number taken before
          rw [dif_neg hahead]
          have hold : number ∈ arrived := by
            by_contra hnew
            rw [hmissing, mem_outstanding] at hmem
            exact hmem ⟨by omega, hnew⟩
          refine ⟨?_, by simp, by simp [hold], by simp, ?_⟩
          · rw [Finset.insert_eq_of_mem hold]
            exact ⟨hnext, hmissing⟩
          · rw [Finset.insert_eq_of_mem hold]
            exact fun other hother => .inl hother

/-! ## Runs -/

/-- The verdicts on a sequence of arrivals. -/
def verdicts (maxGap maxMissing : ℕ) : Option Receiver → List ℕ → List Verdict
  | _, [] => []
  | state, number :: numbers =>
      (accept maxGap maxMissing state number).1 ::
        verdicts maxGap maxMissing (some (accept maxGap maxMissing state number).2) numbers

/-- How often a sequence of arrivals took `number`. -/
def takenCount (number : ℕ) (arrivals : List ℕ) (answers : List Verdict) : ℕ :=
  (arrivals.zip answers).countP fun arrival =>
    arrival.1 = number ∧ arrival.2 ≠ .duplicate

theorem takenCount_of_settled {state : Option Receiver} {number : ℕ}
    (hsettled : SettledIn state number) (arrivals : List ℕ) :
    takenCount number arrivals (verdicts maxGap maxMissing state arrivals) = 0 := by
  induction arrivals generalizing state with
  | nil => rfl
  | cons first rest ih =>
      have hrest : takenCount number rest (verdicts maxGap maxMissing
          (some (accept maxGap maxMissing state first).2) rest) = 0 :=
        ih (accept_settled hsettled)
      have hfirst : ¬ (first = number ∧
          (accept maxGap maxMissing state first).1 ≠ .duplicate) := by
        rintro ⟨rfl, htaken⟩
        exact htaken (accept_duplicate_of_settled hsettled)
      rw [takenCount, verdicts, List.zip_cons_cons, List.countP_cons_of_neg (by simpa using hfirst)]
      exact hrest

theorem takenCount_le_one (state : Option Receiver) (number : ℕ) (arrivals : List ℕ) :
    takenCount number arrivals (verdicts maxGap maxMissing state arrivals) ≤ 1 := by
  induction arrivals generalizing state with
  | nil => exact Nat.zero_le 1
  | cons first rest ih =>
      rw [takenCount, verdicts, List.zip_cons_cons, List.countP_cons]
      by_cases hfirst : first = number
      · subst hfirst
        have hsettled : SettledIn (some (accept maxGap maxMissing state first).2) first :=
          accept_settles
        have hrest : takenCount first rest (verdicts maxGap maxMissing
            (some (accept maxGap maxMissing state first).2) rest) = 0 :=
          takenCount_of_settled hsettled rest
        rw [takenCount] at hrest
        rw [hrest, Nat.zero_add]
        split <;> omega
      · have hrest := ih (some (accept maxGap maxMissing state first).2)
        rw [takenCount] at hrest
        rw [if_neg (by simp [hfirst])]
        exact hrest

end NumberedStream
