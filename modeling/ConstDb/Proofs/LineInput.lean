import ConstDb.Proofs.LineRecords
import Mathlib.Data.List.Basic

/-!
# Line by line

A loop that takes one line after the other from an input (`drain`) adds what `addAll` adds, and says besides
what it leaves of the input (`drain_ends`).
-/

namespace ConstDb

open Effect

namespace Lines

/-- An input in use: bytes that have arrived and are not taken yet, and the reads to come. -/
structure Input where
  arrived : List UInt8
  reads : Reads

/-! ## The next line -/

/-- Takes bytes up to the next newline or to the end of the input. Interrupted reads are made again; before
any other failure, what was taken is dropped. -/
def takeLine (reads : Reads) (taken arrived : List UInt8) : Except IoError (List UInt8) × Input :=
  match arrived.dropWhile (· ≠ newline) with
  | _ :: behind => (.ok (taken ++ arrived.takeWhile (· ≠ newline) ++ [newline]), ⟨behind, reads⟩)
  | [] =>
    match reads with
    | [] => (.ok (taken ++ arrived), ⟨[], []⟩)
    | .error e :: reads =>
      if e.isInterrupted then takeLine reads (taken ++ arrived) [] else (.error e, ⟨[], reads⟩)
    | .ok piece :: reads =>
      if piece.isEmpty then (.ok (taken ++ arrived), ⟨[], reads⟩)
      else takeLine reads (taken ++ arrived) piece.data.toList

def Input.nextLine (input : Input) : Except IoError (List UInt8) × Input :=
  takeLine input.reads [] input.arrived

section takeLine
variable {reads : Reads} {taken arrived front behind line : List UInt8} {left : Input}

theorem takeLine_newline (unended : newline ∉ front) :
    takeLine reads taken (front ++ newline :: behind) =
      (.ok (taken ++ front ++ [newline]), ⟨behind, reads⟩) := by
  have before := differ_of_notMem unended
  rw [takeLine.eq_def, List.dropWhile_append_of_pos before, List.takeWhile_append_of_pos before]
  simp

theorem takeLine_unended (unended : newline ∉ arrived) :
    takeLine reads taken arrived =
      match reads with
      | [] => (.ok (taken ++ arrived), ⟨[], []⟩)
      | .error e :: reads =>
        if e.isInterrupted then takeLine reads (taken ++ arrived) [] else (.error e, ⟨[], reads⟩)
      | .ok piece :: reads =>
        if piece.isEmpty then (.ok (taken ++ arrived), ⟨[], reads⟩)
        else takeLine reads (taken ++ arrived) piece.data.toList := by
  have all : arrived.dropWhile (· ≠ newline) = [] :=
    List.dropWhile_eq_nil_iff.2 (differ_of_notMem unended)
  rw [takeLine.eq_def, all]

/-- The number of bytes that have arrived or will come. -/
def Input.size (input : Input) : Nat :=
  input.arrived.length + (input.reads.map fun | .ok piece => piece.size | .error _ => 0).sum

theorem size_takeLine : ∀ (reads : Reads) {taken arrived : List UInt8},
    takeLine reads taken arrived = (.ok line, left) →
      line.length + left.size = taken.length + Input.size ⟨arrived, reads⟩
  | reads, taken, arrived, eq => by
    by_cases ends : newline ∈ arrived
    · obtain ⟨front, behind, rfl, unended⟩ := List.eq_append_cons_of_mem ends
      rw [takeLine_newline unended] at eq
      cases eq
      simp [Input.size]; omega
    rw [takeLine_unended ends] at eq
    match reads with
    | [] =>
      cases eq
      simp [Input.size]
    | .error e :: reads =>
      dsimp only at eq
      split at eq
      · have := size_takeLine reads eq
        simp [Input.size] at this ⊢; omega
      · cases eq
    | .ok piece :: reads =>
      dsimp only at eq
      split at eq
      · next nothing =>
        cases eq
        have : piece.size = 0 := by simpa [ByteArray.isEmpty] using nothing
        simp [Input.size, this]; omega
      · have := size_takeLine reads eq
        simp [Input.size] at this ⊢; omega

theorem size_nextLine {input : Input} (eq : input.nextLine = (.ok line, left)) (nonempty : line ≠ []) :
    left.size < input.size := by
  have whole := size_takeLine input.reads eq
  have some := List.length_pos_iff.2 nonempty
  rw [List.length_nil] at whole
  show left.size < Input.size ⟨input.arrived, input.reads⟩
  omega

end takeLine

variable {τ : Type} {add : Record → Effect DbError τ Unit} {separator : UInt8}

/-- Adds the record of each line of an input. -/
def drain (add : Record → Effect DbError τ Unit) (separator : UInt8) (count : Nat) :
    Effect DbError (Input × τ) Nat
  | (input, t) =>
    match _ : input.nextLine with
    | (.error e, left) => .error (.io e) (left, t)
    | (.ok [], left) => .ok count (left, t)
    | (.ok (byte :: line), left) =>
      match addLine add separator (byte :: line) t with
      | .error e t => .error e (left, t)
      | .ok added t => drain add separator (count + added) (left, t)
termination_by state => state.1.size
decreasing_by exact size_nextLine ‹_› (List.cons_ne_nil _ _)

section drain
variable {input left : Input} {line : List UInt8} {count : Nat} {t u : τ}

theorem drain_of_error {e : IoError} (taken : input.nextLine = (.error e, left)) :
    drain add separator count (input, t) = .error (.io e) (left, t) := by
  unfold drain
  split <;> rename_i eq <;> rw [taken] at eq <;> cases eq
  rfl

theorem drain_of_nil (taken : input.nextLine = (.ok [], left)) :
    drain add separator count (input, t) = .ok count (left, t) := by
  unfold drain
  split <;> rename_i eq <;> rw [taken] at eq <;> cases eq
  rfl

theorem drain_of_added {added : Nat} (taken : input.nextLine = (.ok line, left)) (nonempty : line ≠ [])
    (adds : addLine add separator line t = .ok added u) :
    drain add separator count (input, t) = drain add separator (count + added) (left, u) := by
  conv_lhs => unfold drain
  split <;> rename_i eq <;> rw [taken] at eq <;> cases eq
  · exact absurd rfl nonempty
  · rw [adds]

theorem drain_of_refused {e : DbError} (taken : input.nextLine = (.ok line, left)) (nonempty : line ≠ [])
    (refuses : addLine add separator line t = .error e u) :
    drain add separator count (input, t) = .error e (left, u) := by
  unfold drain
  split <;> rename_i eq <;> rw [taken] at eq <;> cases eq
  · exact absurd rfl nonempty
  · rw [refuses]

end drain

/-! ## The loop and the pieces -/

theorem addBytes_unended : ∀ {bytes : List UInt8} (line : List UInt8) (count : Nat), newline ∉ bytes →
    addBytes add separator bytes line count = pure (bytes.reverse ++ line, count)
  | [], line, count, _ => rfl
  | byte :: bytes, line, count, unended => by
    obtain ⟨other, unended⟩ := unended_cons.1 unended
    rw [addBytes, if_neg other, addBytes_unended (byte :: line) count unended]
    simp

theorem addBytes_newline {behind : List UInt8} : ∀ {bytes : List UInt8} (line : List UInt8) (count : Nat),
    newline ∉ bytes → addBytes add separator (bytes ++ newline :: behind) line count = do
      let added ← addLine add separator (line.reverse ++ bytes ++ [newline])
      addBytes add separator behind [] (count + added)
  | [], line, count, _ => by simp [addBytes]
  | byte :: bytes, line, count, unended => by
    obtain ⟨other, unended⟩ := unended_cons.1 unended
    rw [List.cons_append, addBytes, if_neg other, addBytes_newline (byte :: line) count unended]
    simp

/-- Adding goes on with bytes that are taken, bytes that have arrived and the reads to come. -/
def resume (add : Record → Effect DbError τ Unit) (separator : UInt8) (taken arrived : List UInt8)
    (reads : Reads) (count : Nat) : Effect DbError τ Nat := do
  let (line, count) ← addBytes add separator arrived taken.reverse count
  addReads add separator reads line count

section resume
variable {reads : Reads} {taken arrived front behind line : List UInt8} {left : Input}

theorem resume_newline (unended : newline ∉ front) (count : Nat) :
    resume add separator taken (front ++ newline :: behind) reads count =
      addLine add separator (taken ++ front ++ [newline]) >>= fun added =>
        resume add separator [] behind reads (count + added) := by
  simp only [resume, addBytes_newline _ _ unended, bind_assoc, List.reverse_reverse, List.reverse_nil]

theorem resume_unended (unended : newline ∉ arrived) (count : Nat) :
    resume add separator taken arrived reads count =
      addReads add separator reads (taken ++ arrived).reverse count := by
  simp only [resume, addBytes_unended _ _ unended, pure_bind, List.reverse_append]

/-- Adding goes on with the next line, and behind it with what is left of the input. -/
theorem resume_of_takeLine : ∀ (reads : Reads) {taken arrived : List UInt8} {count : Nat}
    {result : Except IoError (List UInt8)}, takeLine reads taken arrived = (result, left) →
    resume add separator taken arrived reads count = match result with
      | .error e => throw (.io e)
      | .ok line =>
        if line = [] then pure count
        else do
          let added ← addLine add separator line
          resume add separator [] left.arrived left.reads (count + added)
  | reads, taken, arrived, count, result, eq => by
    by_cases ends : newline ∈ arrived
    · obtain ⟨front, behind, rfl, unended⟩ := List.eq_append_cons_of_mem ends
      rw [takeLine_newline unended] at eq
      cases eq
      rw [resume_newline unended]
      simp
    rw [takeLine_unended ends] at eq
    rw [resume_unended ends]
    match reads with
    | [] =>
      cases eq
      rw [addReads]
      simp [resume, addBytes, addReads, and_comm]
    | .error e :: reads =>
      dsimp only at eq
      rw [addReads]
      split at eq
      · next interrupted =>
        rw [if_pos interrupted, ← resume_of_takeLine reads eq, resume_unended List.not_mem_nil]
        simp
      · next final =>
        cases eq
        rw [if_neg final]
    | .ok piece :: reads =>
      dsimp only at eq
      rw [addReads]
      split at eq
      · next nothing =>
        cases eq
        rw [if_pos nothing]
        simp [resume, addBytes, and_comm]
      · next some =>
        rw [if_neg some, ← resume_of_takeLine reads eq, resume]

end resume

/-- **The loop adds what the pieces hold.** Taking line after line does what `addReads` does. -/
theorem drain_ends (count : Nat) (input : Input) (t : τ) :
    Ends (drain add separator count) (input, t)
      (fun n s => resume add separator [] input.arrived input.reads count t = .ok n s.2)
      (fun e s => resume add separator [] input.arrived input.reads count t = .error e s.2) := by
  match taken : input.nextLine with
  | (.error e, left) =>
    refine ends_of_error (drain_of_error taken) ?_
    rw [resume_of_takeLine input.reads taken]
    rfl
  | (.ok line, left) =>
    rw [resume_of_takeLine input.reads taken]
    by_cases ended : line = []
    · subst ended
      exact ends_of_ok (drain_of_nil taken) rfl
    simp only [if_neg ended, bind_apply]
    cases adds : addLine add separator line t with
    | error e u => exact ends_of_error (drain_of_refused taken ended adds) rfl
    | ok added u => exact (drain_ends (count + added) left u).of_eq (drain_of_added taken ended adds)
termination_by input.size
decreasing_by exact size_nextLine taken ended

end Lines

end ConstDb
