import ConstDb.Proofs.LineInput

/-!
# Arrivals

What the lines of an input are depends on its arrivals only: the bytes one after the other, and the reports
that it has ended. The pieces in which they come do not matter (`takeLine_of_brings`), and neither does what
stands behind the line that is taken. A loop over the lines fails in two ways: a read fails, or an addition
does (`drain_error_cases`).
-/

namespace ConstDb

open Effect

namespace Reads

/-- What reads deliver, byte for byte. A read that delivers nothing reports the end of the input. -/
def arrivals : Reads → List (Option UInt8)
  | [] => []
  | .error _ :: reads => arrivals reads
  | .ok piece :: reads =>
    if piece.isEmpty then none :: arrivals reads else piece.data.toList.map some ++ arrivals reads

/-- No read fails but for interruptions. -/
def Unfailing (reads : Reads) : Prop := ∀ read ∈ reads, ∀ e, read = .error e → e.isInterrupted = true

variable {read : Except IoError ByteArray} {reads : Reads}

theorem unfailing_nil : Unfailing [] := fun _ member => absurd member List.not_mem_nil

theorem unfailing_cons : Unfailing (read :: reads) ↔
    (∀ e, read = .error e → e.isInterrupted = true) ∧ reads.Unfailing :=
  List.forall_mem_cons

theorem Unfailing.ok {piece : ByteArray} (unfailing : reads.Unfailing) : Unfailing (.ok piece :: reads) :=
  unfailing_cons.2 ⟨fun _ eq => by (cases eq), unfailing⟩

theorem Unfailing.of_cons (unfailing : Unfailing (read :: reads)) : reads.Unfailing :=
  (unfailing_cons.1 unfailing).2

theorem Unfailing.interrupted {e : IoError} (unfailing : Unfailing (.error e :: reads)) :
    e.isInterrupted = true :=
  (unfailing_cons.1 unfailing).1 e rfl

/-- All reads go well, or there is a first one that fails. -/
theorem unfailing_or_fails (reads : Reads) : reads.Unfailing ∨ ∃ front e rest,
    reads = front ++ .error e :: rest ∧ Unfailing front ∧ ¬ e.isInterrupted = true := by
  induction reads with
  | nil => exact .inl unfailing_nil
  | cons read reads ih =>
    by_cases well : ∀ e, read = .error e → e.isInterrupted = true
    · rcases ih with unfailing | ⟨front, e, rest, rfl, unfailing, final⟩
      · exact .inl (unfailing_cons.2 ⟨well, unfailing⟩)
      · exact .inr ⟨read :: front, e, rest, rfl, unfailing_cons.2 ⟨well, unfailing⟩, final⟩
    · obtain ⟨e, fails⟩ := Classical.not_forall.1 well
      obtain ⟨rfl, final⟩ := Classical.not_imp.1 fails
      exact .inr ⟨[], e, reads, rfl, unfailing_nil, final⟩

theorem arrivals_append (front back : Reads) :
    arrivals (front ++ back) = arrivals front ++ arrivals back := by
  induction front with
  | nil => rfl
  | cons read front ih =>
    cases read with
    | error e => exact ih
    | ok piece =>
      simp only [List.cons_append, arrivals, ih]
      split <;> simp

end Reads

namespace Lines

/-- The input brings these arrivals before it comes to the reads in `rest`. -/
def Input.Brings (input : Input) (arrivals : List (Option UInt8)) (rest : Reads) : Prop :=
  ∃ unread : Reads, unread.Unfailing ∧ input.reads = unread ++ rest ∧
    input.arrived.map some ++ unread.arrivals = arrivals

/-- A newline, or the report that the input has ended. -/
def EndsLine (mark : Option UInt8) : Prop := mark = some newline ∨ mark = none

/-- Arrivals that are complete lines. Each has bytes, and its newline belongs to it if it has one. -/
inductive Completes : List (Option UInt8) → List (List UInt8) → Prop
  | nil : Completes [] []
  | line {line : List UInt8} {mark : Option UInt8} {rest : List (Option UInt8)} {lines : List (List UInt8)}
      (unended : newline ∉ line) (ends : EndsLine mark) (nonempty : line ++ mark.toList ≠ [])
      (more : Completes rest lines) :
      Completes (line.map some ++ mark :: rest) ((line ++ mark.toList) :: lines)

section arrivals
variable {mark : Option UInt8} {later : List (Option UInt8)} {rest : Reads}

theorem EndsLine.ne_some {byte : UInt8} (ends : EndsLine mark) (other : byte ≠ newline) :
    mark ≠ some byte := by
  rintro rfl
  rcases ends with same | none
  · exact other (Option.some.inj same)
  · cases none

/-- Bytes that do not end a line belong to the line that goes on. -/
theorem line_of_unended {behind : List (Option UInt8)} (ends : EndsLine mark) :
    ∀ {front line : List UInt8}, newline ∉ front →
    front.map some ++ behind = line.map some ++ mark :: later →
      ∃ more, line = front ++ more ∧ behind = more.map some ++ mark :: later
  | [], line, _, eq => ⟨line, rfl, eq⟩
  | byte :: front, [], unended, eq => by
    obtain ⟨same, -⟩ := List.cons.inj eq
    exact absurd same.symm (ends.ne_some (unended_cons.1 unended).1)
  | byte :: front, other :: line, unended, eq => by
    obtain ⟨same, eq⟩ := List.cons.inj eq
    obtain ⟨more, rfl, behind_eq⟩ := line_of_unended ends (unended_cons.1 unended).2 eq
    cases same
    exact ⟨more, rfl, behind_eq⟩

/-- The next line is what arrives up to the first end of a line. -/
theorem takeLine_of_brings (ends : EndsLine mark) : ∀ (unread : Reads) (taken arrived : List UInt8)
    {line : List UInt8}, unread.Unfailing → newline ∉ line →
    arrived.map some ++ unread.arrivals = line.map some ++ mark :: later →
      ∃ left : Input, left.Brings later rest ∧
        takeLine (unread ++ rest) taken arrived = (.ok (taken ++ line ++ mark.toList), left)
  | unread, taken, arrived, line, unfailing, unended, eq => by
    by_cases complete : newline ∈ arrived
    · obtain ⟨front, behind, rfl, unended'⟩ := List.eq_append_cons_of_mem complete
      rw [List.map_append, List.append_assoc] at eq
      obtain ⟨more, rfl, onward⟩ := line_of_unended ends unended' eq
      cases more with
      | cons byte more =>
        obtain ⟨same, -⟩ := List.cons.inj onward
        cases same
        simp at unended
      | nil =>
        obtain ⟨rfl, rfl⟩ := List.cons.inj onward
        rw [takeLine_newline unended']
        exact ⟨⟨behind, unread ++ rest⟩, ⟨unread, unfailing, rfl, rfl⟩, by simp⟩
    obtain ⟨more, rfl, onward⟩ := line_of_unended ends complete eq
    have unended : newline ∉ more := fun member => unended (List.mem_append_right _ member)
    match unread with
    | [] =>
      have := congrArg List.length onward
      simp [Reads.arrivals] at this
    | .error e :: unread =>
      have interrupted := unfailing.interrupted
      have ih := takeLine_of_brings ends unread (taken ++ arrived) [] unfailing.of_cons unended onward
      rw [List.cons_append, takeLine_unended complete]
      simpa [interrupted] using ih
    | .ok piece :: unread =>
      rw [Reads.arrivals] at onward
      rw [List.cons_append, takeLine_unended complete]
      split at onward
      · next nothing =>
        cases more with
        | cons byte more => cases onward
        | nil =>
          obtain ⟨rfl, rfl⟩ := List.cons.inj onward
          exact ⟨⟨[], unread ++ rest⟩, ⟨unread, unfailing.of_cons, rfl, rfl⟩, by simp [nothing]⟩
      · next delivers =>
        have ih := takeLine_of_brings ends unread (taken ++ arrived) piece.data.toList unfailing.of_cons
          unended onward
        simpa [delivers] using ih

/-- What has arrived of a line before a read fails is dropped. -/
theorem takeLine_of_broken {e : IoError} (final : ¬ e.isInterrupted = true) :
    ∀ (unread : Reads) (taken arrived : List UInt8), unread.Unfailing →
      (∀ mark ∈ arrived.map some ++ unread.arrivals, ¬ EndsLine mark) →
      takeLine (unread ++ .error e :: rest) taken arrived = (.error e, ⟨[], rest⟩)
  | unread, taken, arrived, unfailing, unended => by
    have open_end : newline ∉ arrived := fun member =>
      unended (some newline) (List.mem_append_left _ (List.mem_map_of_mem member)) (.inl rfl)
    have later : ∀ mark ∈ unread.arrivals, ¬ EndsLine mark :=
      fun mark member => unended mark (List.mem_append_right _ member)
    match unread with
    | [] => rw [List.nil_append, takeLine_unended open_end]; simp [final]
    | .error e' :: unread =>
      have interrupted := unfailing.interrupted
      have ih := takeLine_of_broken final unread (taken ++ arrived) [] unfailing.of_cons later
      rw [List.cons_append, takeLine_unended open_end]
      simpa [interrupted] using ih
    | .ok piece :: unread =>
      rw [Reads.arrivals] at later
      rw [List.cons_append, takeLine_unended open_end]
      split at later
      · exact absurd (.inr rfl) (later none List.mem_cons_self)
      · next delivers =>
        have ih := takeLine_of_broken final unread (taken ++ arrived) piece.data.toList unfailing.of_cons
          later
        simpa [delivers] using ih

/-! ## The loop along the arrivals -/

variable {τ : Type} {add : Record → Effect DbError τ Unit} {separator : UInt8} {input : Input}
variable {line : List UInt8} {lines : List (List UInt8)} {done : List (Option UInt8)} {t u : τ}

theorem nextLine_of_brings (ends : EndsLine mark) (unended : newline ∉ line)
    (brings : input.Brings (line.map some ++ mark :: later) rest) :
    ∃ left : Input, left.Brings later rest ∧ input.nextLine = (.ok (line ++ mark.toList), left) := by
  obtain ⟨arrived, reads⟩ := input
  obtain ⟨unread, unfailing, rfl, eq⟩ := brings
  exact takeLine_of_brings ends unread [] arrived unfailing unended eq

theorem takeLine_of_ended : ∀ (unread : Reads), unread.Unfailing → unread.arrivals = [] →
    (takeLine unread [] []).1 = .ok []
  | [], _, _ => rfl
  | .error e :: unread, unfailing, nothing => by
    rw [takeLine_unended List.not_mem_nil]
    simpa [unfailing.interrupted] using takeLine_of_ended unread unfailing.of_cons nothing
  | .ok piece :: unread, _, nothing => by
    rw [Reads.arrivals] at nothing
    split at nothing
    · cases nothing
    · next delivers =>
      have bytes := List.map_eq_nil_iff.1 (List.append_eq_nil_iff.1 nothing).1
      have size : piece.size = 0 := by
        rw [← ByteArray.size_data, ← Array.length_toList, bytes, List.length_nil]
      exact absurd (by simp [ByteArray.isEmpty, size]) delivers

theorem nextLine_of_ended (brings : input.Brings [] []) :
    ∃ left : Input, input.nextLine = (.ok [], left) := by
  obtain ⟨arrived, reads⟩ := input
  obtain ⟨unread, unfailing, rfl, eq⟩ := brings
  obtain ⟨none, nothing⟩ := List.append_eq_nil_iff.1 eq
  obtain rfl := List.map_eq_nil_iff.1 none
  have ended := takeLine_of_ended unread unfailing nothing
  rw [List.append_nil, Input.nextLine]
  exact ⟨_, Prod.ext ended rfl⟩

theorem nextLine_of_broken {e : IoError} {tail : List UInt8} (final : ¬ e.isInterrupted = true)
    (unended : newline ∉ tail) (brings : input.Brings (tail.map some) (.error e :: rest)) :
    input.nextLine = (.error e, ⟨[], rest⟩) := by
  obtain ⟨arrived, reads⟩ := input
  obtain ⟨unread, unfailing, rfl, eq⟩ := brings
  apply takeLine_of_broken final unread [] arrived unfailing
  rw [eq]
  intro mark member ends
  obtain ⟨byte, member, rfl⟩ := List.mem_map.1 member
  refine ends.ne_some (fun same => unended ?_) rfl
  rwa [← same]

/-- Adding the records of lines begins with the first line. -/
theorem forM_lines (add : Record → Effect DbError τ Unit) (separator : UInt8) (line : List UInt8)
    (lines : List (List UInt8)) : ((line :: lines).filterMap (record? separator)).forM add =
      addLine add separator line >>= fun _ => (lines.filterMap (record? separator)).forM add := by
  unfold addLine
  cases holds : record? separator line with
  | none => simp [List.filterMap_cons_none holds]
  | some record => simp [List.filterMap_cons_some holds]

theorem length_lines {added : Nat} (adds : addLine add separator line t = .ok added u)
    (lines : List (List UInt8)) : ((line :: lines).filterMap (record? separator)).length =
      added + (lines.filterMap (record? separator)).length := by
  unfold addLine at adds
  cases holds : record? separator line with
  | none =>
    rw [holds] at adds
    cases adds
    rw [List.filterMap_cons_none holds, Nat.zero_add]
  | some record =>
    rw [holds] at adds
    obtain ⟨_, v, -, adds⟩ := bind_eq_ok_iff.1 adds
    cases adds
    rw [List.filterMap_cons_some holds, List.length_cons, Nat.add_comm]

theorem addLine_error {e : DbError} (refuses : addLine add separator line t = .error e u) :
    ∃ record, record? separator line = some record ∧ add record t = .error e u := by
  unfold addLine at refuses
  cases holds : record? separator line with
  | none =>
    rw [holds] at refuses
    cases refuses
  | some record =>
    simp only [holds, bind_apply] at refuses
    cases first : add record t with
    | ok _ v =>
      rw [first] at refuses
      cases refuses
    | error e' v =>
      rw [first] at refuses
      cases refuses
      exact ⟨record, rfl, first⟩

/-- As long as no addition fails, the loop takes complete lines and adds their records. -/
theorem drain_of_completes (completes : Completes done lines) : ∀ {input : Input} (count : Nat) {t : τ},
    input.Brings (done ++ later) rest → (lines.filterMap (record? separator)).forM add t = .ok () u →
    ∃ left : Input, left.Brings later rest ∧ drain add separator count (input, t) =
      drain add separator (count + (lines.filterMap (record? separator)).length) (left, u) := by
  induction completes with
  | nil =>
    intro input count t brings adds
    cases adds
    exact ⟨input, brings, rfl⟩
  | line unended ends nonempty _ ih =>
    intro input count t brings adds
    rw [List.append_assoc, List.cons_append] at brings
    obtain ⟨between, brings, next⟩ := nextLine_of_brings ends unended brings
    rw [forM_lines] at adds
    obtain ⟨added, v, first, more⟩ := bind_eq_ok_iff.1 adds
    obtain ⟨left, brings, onward⟩ := ih (count + added) brings more
    refine ⟨left, brings, ?_⟩
    rw [drain_of_added next nonempty first, onward, length_lines first, Nat.add_assoc]

theorem completes_append {before after : List (List UInt8)} : Completes done (before ++ after) →
    ∃ first second, done = first ++ second ∧ Completes first before ∧ Completes second after := by
  induction before generalizing done with
  | nil => exact fun completes => ⟨[], done, rfl, .nil, completes⟩
  | cons line before ih =>
    intro completes
    cases completes with
    | line unended ends nonempty more =>
      obtain ⟨first, second, rfl, front, back⟩ := ih more
      exact ⟨_, second, by simp, .line unended ends nonempty front, back⟩

/-! ## How the loop fails -/

/-- The arrivals are complete lines, whose records are added, and a tail. -/
structure AddsAll (add : Record → Effect DbError τ Unit) (separator : UInt8)
    (arrivals : List (Option UInt8)) (t : τ) (lines : List (List UInt8)) (u : τ) : Prop where
  cut : ∃ (done : List (Option UInt8)) (tail : List UInt8), Completes done lines ∧ newline ∉ tail ∧
    arrivals = done ++ tail.map some
  adds : (lines.filterMap (record? separator)).forM add t = .ok () u

/-- The arrivals are complete lines, whose records are added, a line whose addition fails, and `later`. -/
structure FailsAt (add : Record → Effect DbError τ Unit) (separator : UInt8)
    (arrivals : List (Option UInt8)) (t : τ) (before : List (List UInt8)) (later : List (Option UInt8))
    (u : τ) (e : DbError) (v : τ) : Prop where
  cut : ∃ (done : List (Option UInt8)) (line : List UInt8) (record : Record),
    Completes done (before ++ [line]) ∧ arrivals = done ++ later ∧
      record? separator line = some record ∧ add record u = .error e v
  adds : (before.filterMap (record? separator)).forM add t = .ok () u

variable {arrivals : List (Option UInt8)} {before : List (List UInt8)} {v : τ}

/-- What was taken of the tail is dropped, and nothing behind the read that failed is taken. -/
theorem AddsAll.drain_eq {e : IoError} (all : AddsAll add separator arrivals t lines u)
    (brings : input.Brings arrivals (.error e :: rest)) (final : ¬ e.isInterrupted = true) (count : Nat) :
    drain add separator count (input, t) = .error (.io e) (⟨[], rest⟩, u) := by
  obtain ⟨⟨done, tail, completes, unended, rfl⟩, adds⟩ := all
  obtain ⟨left, brings, onward⟩ := drain_of_completes completes count brings adds
  rw [onward, drain_of_error (nextLine_of_broken final unended brings)]

/-- Nothing behind the line is taken. -/
theorem FailsAt.drain_eq {e : DbError} (fails : FailsAt add separator arrivals t before later u e v)
    (brings : input.Brings arrivals rest) (count : Nat) :
    ∃ left : Input, left.Brings later rest ∧ drain add separator count (input, t) = .error e (left, v) := by
  obtain ⟨⟨done, line, record, completes, rfl, holds, refuses⟩, adds⟩ := fails
  obtain ⟨first, second, rfl, front, back⟩ := completes_append completes
  rw [List.append_assoc] at brings
  obtain ⟨between, brings, onward⟩ := drain_of_completes front count brings adds
  cases back with
  | line unended ends nonempty more =>
    cases more
    rw [List.append_assoc] at brings
    obtain ⟨left, brings, next⟩ := nextLine_of_brings ends unended brings
    refine ⟨left, brings, ?_⟩
    rw [onward]
    apply drain_of_refused next nonempty
    simp only [addLine, holds, bind_apply, refuses]

/-! Every failure of the loop is one of these two. -/

theorem first_end : ∀ arrivals : List (Option UInt8),
    (∃ tail : List UInt8, newline ∉ tail ∧ arrivals = tail.map some) ∨
      ∃ (line : List UInt8) (mark : Option UInt8) (later : List (Option UInt8)),
        newline ∉ line ∧ EndsLine mark ∧ arrivals = line.map some ++ mark :: later
  | [] => .inl ⟨[], List.not_mem_nil, rfl⟩
  | mark :: arrivals => by
    by_cases ends : EndsLine mark
    · exact .inr ⟨[], mark, arrivals, List.not_mem_nil, ends, rfl⟩
    obtain ⟨byte, rfl⟩ := Option.ne_none_iff_exists'.1 fun none => ends (.inr none)
    have other : byte ≠ newline := fun same => ends (.inl (congrArg some same))
    rcases first_end arrivals with ⟨tail, unended, rfl⟩ | ⟨line, mark, later, unended, ends, rfl⟩
    · exact .inl ⟨byte :: tail, unended_cons.2 ⟨other, unended⟩, rfl⟩
    · exact .inr ⟨byte :: line, mark, later, unended_cons.2 ⟨other, unended⟩, ends, rfl⟩

/-- The loop ends where a read fails, or where the last arrival reports the end of the input. -/
def Bounded (arrivals : List (Option UInt8)) (rest : Reads) : Prop :=
  (∃ e behind, rest = .error e :: behind ∧ ¬ e.isInterrupted = true) ∨
    rest = [] ∧ ∀ mark, arrivals.getLast? = some mark → mark = none

theorem Bounded.onward {mark : Option UInt8} {front later : List (Option UInt8)}
    (bounded : Bounded (front ++ mark :: later) rest) : Bounded later rest := by
  apply bounded.imp_right
  intro h
  refine ⟨h.1, fun last eq => h.2 last ?_⟩
  rw [List.getLast?_append, List.getLast?_cons, eq]
  rfl

section cons
variable {added : Nat} (unended : newline ∉ line) (ends : EndsLine mark)
variable (nonempty : line ++ mark.toList ≠ [])
variable (first : addLine add separator (line ++ mark.toList) t = .ok added u)

include unended ends nonempty first

theorem AddsAll.cons (all : AddsAll add separator later u lines v) :
    AddsAll add separator (line.map some ++ mark :: later) t ((line ++ mark.toList) :: lines) v := by
  obtain ⟨⟨done, tail, completes, unended', rfl⟩, adds⟩ := all
  refine ⟨⟨_, tail, .line unended ends nonempty completes, unended', by simp⟩, ?_⟩
  rw [forM_lines]
  exact bind_eq_ok_iff.2 ⟨added, u, first, adds⟩

theorem FailsAt.cons {e : DbError} {final : τ}
    (fails : FailsAt add separator arrivals u before later v e final) :
    FailsAt add separator (line.map some ++ mark :: arrivals) t ((line ++ mark.toList) :: before) later v e
      final := by
  obtain ⟨⟨done, other, record, completes, rfl, holds, refuses⟩, adds⟩ := fails
  refine ⟨⟨_, other, record, .line unended ends nonempty completes, by simp, holds, refuses⟩, ?_⟩
  rw [forM_lines]
  exact bind_eq_ok_iff.2 ⟨added, u, first, adds⟩

end cons

theorem drain_error_cases {arrivals : List (Option UInt8)} {input left : Input} {t : τ} {err : DbError}
    {count : Nat} (brings : input.Brings arrivals rest) (bounded : Bounded arrivals rest)
    (fails : drain add separator count (input, t) = .error err (left, u)) :
    (∃ e behind lines, rest = .error e :: behind ∧ ¬ e.isInterrupted = true ∧ err = .io e ∧
      AddsAll add separator arrivals t lines u) ∨
    ∃ before later mid, FailsAt add separator arrivals t before later mid err u := by
  rcases first_end arrivals with ⟨tail, unended, cut⟩ | ⟨line, mark, later, unended, ends, cut⟩ <;>
    rw [cut] at brings bounded ⊢
  · rcases bounded with ⟨e, behind, rfl, final⟩ | ⟨rfl, last⟩
    · rw [drain_of_error (nextLine_of_broken final unended brings)] at fails
      cases fails
      exact .inl ⟨e, behind, [], rfl, final, rfl, ⟨[], tail, .nil, unended, rfl⟩, rfl⟩
    · -- a tail would stand behind the last report of the end
      obtain rfl : tail = [] := by
        by_contra nonempty
        have final := last (some (tail.getLast nonempty))
        rw [List.getLast?_map, List.getLast?_eq_some_getLast nonempty] at final
        cases final rfl
      obtain ⟨_, next⟩ := nextLine_of_ended brings
      rw [drain_of_nil next] at fails
      cases fails
  · obtain ⟨between, brings, next⟩ := nextLine_of_brings ends unended brings
    by_cases nonempty : line ++ mark.toList = []
    · rw [nonempty] at next
      rw [drain_of_nil next] at fails
      cases fails
    cases first : addLine add separator (line ++ mark.toList) t with
    | ok added mid =>
      rw [drain_of_added next nonempty first] at fails
      rcases drain_error_cases brings bounded.onward fails with
        ⟨e, behind, lines, rfl, final, rfl, all⟩ | ⟨before, later', mid', fails⟩
      · exact .inl ⟨e, behind, _, rfl, final, rfl, all.cons unended ends nonempty first⟩
      · exact .inr ⟨_, later', mid', fails.cons unended ends nonempty first⟩
    | error e v =>
      rw [drain_of_refused next nonempty first] at fails
      cases fails
      obtain ⟨record, holds, refuses⟩ := addLine_error first
      exact .inr ⟨[], later, t,
        ⟨_, _, record, .line unended ends nonempty .nil, by simp, holds, refuses⟩, rfl⟩
termination_by arrivals.length
decreasing_by rw [cut]; simp; omega

/-! ## Inputs from the start -/

/-- An input that nothing is taken from yet. Behind the list a read reports the end. -/
def Input.start (reads : Reads) : Input := ⟨[], reads ++ [.ok .empty]⟩

theorem isEmpty_empty : ByteArray.empty.isEmpty = true := rfl

theorem addReads_start : ∀ (reads : Reads) (line : List UInt8) (count : Nat),
    addReads add separator (reads ++ [.ok .empty]) line count = addReads add separator reads line count
  | [], line, count => by simp [addReads, isEmpty_empty]
  | .error e :: reads, line, count => by
    rw [List.cons_append, addReads, addReads]
    simp only [addReads_start reads]
  | .ok piece :: reads, line, count => by
    rw [List.cons_append, addReads, addReads]
    simp only [addReads_start reads]

theorem drain_start (add : Record → Effect DbError τ Unit) (separator : UInt8) (reads : Reads) (t : τ) :
    Ends (drain add separator 0) (.start reads, t)
      (fun count s => addAll add separator reads t = .ok count s.2)
      (fun e s => addAll add separator reads t = .error e s.2) := by
  have same : resume add separator [] [] (reads ++ [.ok .empty]) 0 = addAll add separator reads := by
    simp [resume, addBytes, addAll, addReads_start]
  rw [← same]
  exact drain_ends 0 (.start reads) t

theorem exists_bounded (reads : Reads) :
    ∃ arrivals rest, (Input.start reads).Brings arrivals rest ∧ Bounded arrivals rest := by
  rcases Reads.unfailing_or_fails reads with unfailing | ⟨front, e, rest, rfl, unfailing, final⟩
  · have unfailing' : Reads.Unfailing (reads ++ [.ok .empty]) := by
      intro read member e eq
      rcases List.mem_append.1 member with member | member
      · exact unfailing read member e eq
      · rw [List.mem_singleton.1 member] at eq
        cases eq
    refine ⟨_, [], ⟨_, unfailing', (List.append_nil _).symm, rfl⟩, .inr ⟨rfl, ?_⟩⟩
    simp [Input.start, Reads.arrivals_append, Reads.arrivals, isEmpty_empty]
  · refine ⟨_, _, ⟨front, unfailing, ?_, rfl⟩, .inl ⟨e, rest ++ [.ok .empty], rfl, final⟩⟩
    simp [Input.start]

/-- **Two ways to fail.** Where adding the lines of an input fails, a read has failed behind lines that were
all added, or the addition for one of the lines has. -/
theorem addAll_error_cases {reads : Reads} {err : DbError}
    (fails : addAll add separator reads t = .error err u) :
    (∃ arrivals e rest lines, (Input.start reads).Brings arrivals (.error e :: rest) ∧
      ¬ e.isInterrupted = true ∧ err = .io e ∧ AddsAll add separator arrivals t lines u) ∨
    ∃ arrivals rest before later mid, (Input.start reads).Brings arrivals rest ∧
      FailsAt add separator arrivals t before later mid err u := by
  have follows := drain_start add separator reads t
  obtain ⟨arrivals, rest, brings, bounded⟩ := exists_bounded reads
  cases eq : drain add separator 0 (.start reads, t) with
  | ok count s =>
    rw [follows.of_ok eq] at fails
    cases fails
  | error e s =>
    rw [follows.of_error eq] at fails
    cases fails
    rcases drain_error_cases brings bounded eq with
      ⟨e, behind, lines, rfl, final, rfl, all⟩ | ⟨before, later, mid, fails⟩
    · exact .inl ⟨arrivals, e, behind, lines, brings, final, rfl, all⟩
    · exact .inr ⟨arrivals, rest, before, later, mid, brings, fails⟩

end arrivals

end Lines

end ConstDb
