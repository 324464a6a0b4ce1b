import ConstDb.Proofs.Aborted
import ConstDb.Proofs.Books

/-!
# The progress of a build

Whatever becomes of the additions to a builder, its books list just the records whose addition went
well, and the sink has taken the bytes of these records up to what still waits; after a failure,
some bytes of the record that failed at most. Main statement: `progress`.
-/

namespace ConstDb.Builder

open Effect Image OutBuffer

/-! ## Accepted records -/

/-- The records whose addition went well. -/
def accepted (records : List Record) (steps : List Step) : List Record :=
  (records.zip steps).filterMap fun (record, step) =>
    match step.answer with
    | .ok () => some record
    | .error _ => none

section accepted
variable {record : Record} {records : List Record} {step : Step} {steps : List Step}

theorem accepted_ok (well : step.answer = .ok ()) :
    accepted (record :: records) (step :: steps) = record :: accepted records steps := by
  simp [accepted, well]

theorem accepted_error {e : DbError} (failed : step.answer = .error e) :
    accepted (record :: records) (step :: steps) = accepted records steps := by
  simp [accepted, failed]

theorem accepted_refused (records : List Record) (builder : Builder) :
    accepted records ((records.map Request.add).map fun request => .after request.refusal builder) =
      [] := by
  induction records with
  | nil => rfl
  | cons record records ih => rw [List.map_cons, List.map_cons, accepted_error rfl, ih]

end accepted

/-! ## Runs -/

section runs
variable {σ : Type} {sink : Sink σ} {took broken : σ → ByteArray → Prop} {state : Builder × σ}

/-- One after the other, records are booked, up to the first that fails. -/
theorem performAll_booked (takes : sink.Takes took broken) (records : List Record)
    {before : List Record} (booked : Booked took before state) :
    let run := performAll sink (records.map .add) state
    (AllWell run.1 ∧ accepted records run.1 = records ∧ Booked took (before ++ records) run.2) ∨
    ¬ AllWell run.1 ∧ ∃ failed later, records = accepted records run.1 ++ failed :: later ∧
      Stopped took broken (before ++ accepted records run.1) failed run.2 := by
  induction records generalizing before state with
  | nil =>
    refine .inl ⟨allWell_nil, rfl, ?_⟩
    rwa [List.append_nil]
  | cons record records ih =>
    have ends := add_booked takes record booked
    simp only [List.map_cons, performAll_cons]
    cases eq : add sink record state with
    | ok _ t =>
      have made : call (perform sink (.add record)) state = (.after (.ok ()) t.1, t) := call_ok eq
      rw [made, accepted_ok rfl, allWell_cons]
      rcases ih (ends.of_ok eq) with ⟨well, all, booked⟩ | ⟨fails, failed, later, cut, stopped⟩
      · rw [List.append_assoc] at booked
        exact .inl ⟨⟨rfl, well⟩, by rw [all], booked⟩
      · rw [List.append_assoc] at stopped
        exact .inr ⟨fun well => fails well.2, failed, later, by rw [List.cons_append, ← cut], stopped⟩
    | error e t =>
      have stopped := ends.of_error eq
      have made : call (perform sink (.add record)) state = (.after (.error e) t.1, t) := call_error eq
      rw [made, accepted_error rfl, performAll_of_failed stopped.failed_eq, accepted_refused]
      refine .inr ⟨not_allWell_of_error rfl, record, records, rfl, ?_⟩
      rwa [List.append_nil]

variable {capacity : Nat} {s t : σ} {builder : Builder}

theorem eq_fresh_of_start (began : start sink capacity s = .ok builder t) : builder = fresh capacity := by
  obtain ⟨_, _, -, eq⟩ := bind_eq_ok_iff.1 began
  cases eq
  rfl

/-- **The progress of a build.** After any additions to a builder that has started, its size, its position
and its entries are those of the records whose addition went well. What the sink has taken since then,
with what waits behind it, are the bytes of these records; once an addition has failed, it is a front of
these bytes with those of the record that failed behind them. -/
theorem progress (accounts : sink.Accounts took) (began : start sink capacity s = .ok builder t)
    (begins : took t .empty) (records : List Record) :
    let run := performAll sink (records.map .add) (builder, t)
    let added := accepted records run.1
    let reached := run.2
    reached.1.size = added.length ∧
    reached.1.position = headerSize + (added.map Record.storedSize).sum ∧
    (∀ index record, added[index]? = some record → ∃ position,
      reached.1.entries[index]? = some ⟨.ofKey record.key, position⟩ ∧
        position.toNat = recordStart added index) ∧
    (AllWell run.1 → ∃ taken, took reached.2 taken ∧
      taken ++ reached.1.output.pending = recordBytes added) ∧
    (¬ AllWell run.1 → ∃ failed later, records = added ++ failed :: later ∧
      ∃ taken, took reached.2 taken ∧ Bytes.Leads taken (recordBytes (added ++ [failed]))) := by
  intro run added reached
  obtain rfl := eq_fresh_of_start began
  have ends := performAll_booked accounts.takes records (booked_fresh capacity begins)
  rcases ends with ⟨well, all, booked⟩ | ⟨fails, failed, later, cut, stopped⟩
  · have all : added = records := all
    rw [List.nil_append] at booked
    rw [all]
    refine ⟨booked.size_eq, booked.position_eq, fun _ _ => booked.toBooks.entry, fun _ => ?_,
      fun fails => absurd well fails⟩
    obtain ⟨taken, eq, h⟩ := booked.sent
    exact ⟨taken, h, eq⟩
  · rw [List.nil_append] at stopped
    refine ⟨stopped.size_eq, stopped.position_eq, fun _ _ => stopped.toBooks.entry,
      fun well => absurd well fails, fun _ => ⟨failed, later, cut, ?_⟩⟩
    rcases stopped.left with ⟨taken, eq, h⟩ | ⟨-, taken, short, h⟩
    · refine ⟨taken, h, ?_⟩
      rw [recordBytes_append]
      exact Bytes.Leads.append_right ⟨_, eq⟩ _
    · exact ⟨taken, h, short.leads⟩

end runs

theorem progress_leaky :
    let records : List Record := [⟨"one".toUTF8, "1".toUTF8⟩, ⟨"two".toUTF8, "22".toUTF8⟩]
    let started : MemorySink := { leakySink with offset := headerSize }
    start MemorySink.calls 10 leakySink = .ok (fresh 10) started ∧
    MemorySink.Holds .empty headerSize started .empty ∧
    let run := performAll MemorySink.calls (records.map .add) (fresh 10, started)
    let added := accepted records run.1
    run.2.1.size = added.length ∧
    run.2.1.position = headerSize + (added.map Record.storedSize).sum ∧
    (AllWell run.1 → ∃ taken, MemorySink.Holds .empty headerSize run.2.2 taken ∧
      taken ++ run.2.1.output.pending = recordBytes added) ∧
    (¬ AllWell run.1 → ∃ failed later, records = added ++ failed :: later ∧
      ∃ taken, MemorySink.Holds .empty headerSize run.2.2 taken ∧
        Bytes.Leads taken (recordBytes (added ++ [failed]))) := by
  intro records started
  have began : start MemorySink.calls 10 leakySink = .ok (fresh 10) started := rfl
  have begins : MemorySink.Holds .empty headerSize started .empty := by
    refine ⟨rfl, ?_, rfl⟩
    rw [Bytes.overwrite_empty]
    rfl
  obtain ⟨size, position, -, well, failed⟩ :=
    progress (MemorySink.accounts .empty headerSize) began begins records
  exact ⟨began, begins, size, position, well, failed⟩

end ConstDb.Builder
