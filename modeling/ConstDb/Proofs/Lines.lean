import ConstDb.Lines
import ConstDb.Proofs.Effect

/-!
# Adding the lines of an input

What every addition keeps, all additions of an input keep (`addReads_ends`), and an addition that takes
notes of what it adds does what it does without (`addReads_follows`).
-/

namespace ConstDb.Lines

open Effect

variable {τ : Type}

/-- Adds a record, and takes note of it unless that fails. -/
def noting (add : Record → Effect DbError τ Unit) (record : Record) :
    Effect DbError (List Record × τ) Unit := fun (accepted, t) =>
  match add record t with
  | .ok () t => .ok () (accepted ++ [record], t)
  | .error e t => .error e (accepted, t)

variable {add : Record → Effect DbError τ Unit}

theorem noting_ends {record : Record} {accepted : List Record} {t : τ}
    {post : Unit → List Record × τ → Prop} {failed : DbError → List Record × τ → Prop}
    (ends : Ends (add record) t (fun _ u => post () (accepted ++ [record], u))
      fun e u => failed e (accepted, u)) :
    Ends (noting add record) (accepted, t) post failed := by
  cases eq : add record t with
  | ok _ u => exact ends_of_ok (by simp only [noting, eq]) (ends.of_ok eq)
  | error e u => exact ends_of_error (by simp only [noting, eq]) (ends.of_error eq)

theorem addLine_ends {P : τ → Prop} (keeps : ∀ record t, P t → Ends (add record) t (fun _ => P) fun _ => P)
    (separator : UInt8) (line : List UInt8) {t : τ} (h : P t) :
    Ends (addLine add separator line) t (fun _ => P) fun _ => P := by
  unfold addLine
  cases record? separator line with
  | none => exact ends_pure h
  | some record => exact Ends.bind ((keeps record t h).mono (fun _ _ h => ends_pure h) fun _ _ h => h)

theorem addBytes_ends {P : τ → Prop} (keeps : ∀ record t, P t → Ends (add record) t (fun _ => P) fun _ => P)
    (separator : UInt8) : ∀ (bytes line : List UInt8) (count : Nat) {t : τ}, P t →
      Ends (addBytes add separator bytes line count) t (fun _ => P) fun _ => P
  | [], line, count, t, h => ends_pure h
  | byte :: bytes, line, count, t, h => by
    unfold addBytes
    split
    · refine Ends.bind ((addLine_ends keeps separator _ h).mono ?_ fun _ _ h => h)
      intro added u h
      exact addBytes_ends keeps separator bytes [] (count + added) h
    · exact addBytes_ends keeps separator bytes (byte :: line) count h

theorem addReads_ends {P : τ → Prop} (keeps : ∀ record t, P t → Ends (add record) t (fun _ => P) fun _ => P)
    (separator : UInt8) : ∀ (reads : Reads) (line : List UInt8) (count : Nat) {t : τ}, P t →
      Ends (addReads add separator reads line count) t (fun _ => P) fun _ => P
  | [], line, count, t, h => by
    unfold addReads
    split
    · exact ends_pure h
    · exact Ends.bind ((addLine_ends keeps separator _ h).mono (fun _ _ h => ends_pure h) fun _ _ h => h)
  | .error e :: reads, line, count, t, h => by
    unfold addReads
    split
    · exact addReads_ends keeps separator reads line count h
    · exact ends_throw h
  | .ok piece :: reads, line, count, t, h => by
    unfold addReads
    split
    · split
      · exact ends_pure h
      · refine Ends.bind ((addLine_ends keeps separator _ h).mono ?_ fun _ _ h => h)
        intro added u h
        exact addReads_ends keeps separator reads [] (count + added) h
    · refine Ends.bind ((addBytes_ends keeps separator _ line count h).mono ?_ fun _ _ h => h)
      intro rest u h
      exact addReads_ends keeps separator reads rest.1 rest.2 h

/-! An addition that takes notes does what it does without. -/

/-- `noted` does what `plain` does, and something to the first half of the state. -/
def Follows {ρ α : Type} (noted : Effect DbError (ρ × τ) α) (plain : Effect DbError τ α) : Prop :=
  ∀ r t, Ends noted (r, t) (fun a s => plain t = .ok a s.2) fun e s => plain t = .error e s.2

theorem Follows.bind {ρ α β : Type} {noted : Effect DbError (ρ × τ) α} {plain : Effect DbError τ α}
    {next : α → Effect DbError (ρ × τ) β} {next' : α → Effect DbError τ β}
    (first : Follows noted plain) (second : ∀ a, Follows (next a) (next' a)) :
    Follows (noted >>= next) (plain >>= next') := by
  intro r t
  refine Ends.bind ((first r t).mono ?_ ?_)
  · intro a s eq
    refine (second a s.1 s.2).mono ?_ ?_
    · intro b u eq'
      rw [bind_apply, eq]
      exact eq'
    · intro e u eq'
      rw [bind_apply, eq]
      exact eq'
  · intro e s eq
    rw [bind_apply, eq]

theorem follows_pure {ρ α : Type} (a : α) : Follows (pure a : Effect DbError (ρ × τ) α) (pure a) :=
  fun _ _ => ends_pure rfl

theorem follows_noting (add : Record → Effect DbError τ Unit) (record : Record) :
    Follows (noting add record) (add record) := by
  intro accepted t
  apply noting_ends
  cases eq : add record t with
  | ok _ u => exact ends_of_ok eq rfl
  | error e u => exact ends_of_error eq rfl

theorem addLine_follows (add : Record → Effect DbError τ Unit) (separator : UInt8) (line : List UInt8) :
    Follows (addLine (noting add) separator line) (addLine add separator line) := by
  unfold addLine
  cases record? separator line with
  | none => exact follows_pure 0
  | some record => exact (follows_noting add record).bind fun _ => follows_pure 1

theorem addBytes_follows (add : Record → Effect DbError τ Unit) (separator : UInt8) :
    ∀ (bytes line : List UInt8) (count : Nat),
      Follows (addBytes (noting add) separator bytes line count) (addBytes add separator bytes line count)
  | [], line, count => follows_pure (line, count)
  | byte :: bytes, line, count => by
    unfold addBytes
    split
    · apply (addLine_follows add separator _).bind
      exact fun added => addBytes_follows add separator bytes [] (count + added)
    · exact addBytes_follows add separator bytes (byte :: line) count

theorem addReads_follows (add : Record → Effect DbError τ Unit) (separator : UInt8) :
    ∀ (reads : Reads) (line : List UInt8) (count : Nat),
      Follows (addReads (noting add) separator reads line count) (addReads add separator reads line count)
  | [], line, count => by
    unfold addReads
    split
    · exact follows_pure count
    · exact (addLine_follows add separator _).bind fun added => follows_pure (count + added)
  | .error e :: reads, line, count => by
    unfold addReads
    split
    · exact addReads_follows add separator reads line count
    · exact fun _ _ => ends_throw rfl
  | .ok piece :: reads, line, count => by
    unfold addReads
    split
    · split
      · exact follows_pure count
      · apply (addLine_follows add separator _).bind
        exact fun added => addReads_follows add separator reads [] (count + added)
    · apply (addBytes_follows add separator _ line count).bind
      exact fun rest => addReads_follows add separator reads rest.1 rest.2

end ConstDb.Lines
