import ConstDb.Error

/-!
# Fates of calls

A device that may fail is described by what becomes of its successive calls. The calls of any
run, of whatever device, are described by some list of fates, so a statement about every script
is a statement about every device. Main statement: `Script.patience_pop`, by which calls that
are interrupted and tried again come to an end.
-/

namespace ConstDb

inductive Fate where
  | proceed
  /-- A write takes no more than `limit` bytes; any other call does all that it is asked. -/
  | accept (limit : Nat)
  | fail (error : IoError)
  deriving DecidableEq, Repr, Inhabited

namespace Fate

def isInterruption : Fate → Bool
  | .fail error => error.isInterrupted
  | _ => false

def taken (offered : Nat) : Fate → Nat
  | .proceed => offered
  | .accept limit => min limit offered
  | .fail _ => 0

theorem taken_le (offered : Nat) (fate : Fate) : fate.taken offered ≤ offered := by
  cases fate with
  | proceed => exact Nat.le_refl offered
  | accept limit => exact Nat.min_le_right limit offered
  | fail _ => exact Nat.zero_le offered

end Fate

/-- The fates of successive calls: first those of `next`, then those of `again` over and over.
Without any, calls proceed. A script that repeats does not consist of interruptions alone. -/
structure Script where
  next : List Fate
  again : List Fate
  settles : again = [] ∨ ∃ fate ∈ again, fate.isInterruption = false

namespace Script

def clear : Script := ⟨[], [], .inl rfl⟩

instance : Inhabited Script := ⟨clear⟩

def once (fates : List Fate) : Script := ⟨fates, [], .inl rfl⟩

/-- These fates over and over, unless all of them are interruptions. -/
def cycle? (fates : List Fate) : Option Script :=
  if h : fates = [] ∨ ∃ fate ∈ fates, fate.isInterruption = false then some ⟨[], fates, h⟩
  else none

def pop : Script → Fate × Script
  | ⟨fate :: next, again, settles⟩ => (fate, ⟨next, again, settles⟩)
  | ⟨[], fate :: again, settles⟩ => (fate, ⟨again, fate :: again, settles⟩)
  | ⟨[], [], settles⟩ => (.proceed, ⟨[], [], settles⟩)

/-- The number of interruptions before the first call that is not interrupted. -/
def patience (script : Script) : Nat :=
  ((script.next ++ script.again).takeWhile Fate.isInterruption).length

theorem takeWhile_append_of_exists {fates more : List Fate}
    (settles : ∃ fate ∈ fates, fate.isInterruption = false) :
    (fates ++ more).takeWhile Fate.isInterruption = fates.takeWhile Fate.isInterruption := by
  induction fates with
  | nil => simp at settles
  | cons fate fates ih =>
    cases h : fate.isInterruption with
    | false => simp [h]
    | true =>
      have : ∃ fate ∈ fates, fate.isInterruption = false := by simpa [h] using settles
      simp [h, ih this]

theorem patience_pop {script : Script} (interrupted : script.pop.1.isInterruption = true) :
    script.pop.2.patience < script.patience := by
  match script, interrupted with
  | ⟨fate :: next, again, settles⟩, interrupted =>
    have h : fate.isInterruption = true := interrupted
    simp [pop, patience, h]
  | ⟨[], fate :: again, settles⟩, interrupted =>
    have h : fate.isInterruption = true := interrupted
    have : ∃ fate ∈ again, fate.isInterruption = false := by simpa [h] using settles
    simp [pop, patience, h, takeWhile_append_of_exists this]
  | ⟨[], [], settles⟩, interrupted => simp [pop, Fate.isInterruption] at interrupted

end Script

end ConstDb
