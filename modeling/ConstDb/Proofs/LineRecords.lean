import ConstDb.Proofs.Bytes
import ConstDb.Proofs.Lines
import Mathlib.Data.List.TakeWhile

/-!
# The records of a text

A text is cut behind each newline, and each line that holds the separator is a record. Adding the lines of
an input adds just these records in order, in whatever pieces the text arrives (`addAll_eq`).
-/

namespace ConstDb

open Effect

/-- The reads hand out these bytes, and do not fail but for interruptions. -/
def Reads.Delivers : Reads → List UInt8 → Prop
  | [], bytes => bytes = []
  | .error e :: reads, bytes => e.isInterrupted = true ∧ Delivers reads bytes
  | .ok piece :: reads, bytes =>
    piece.isEmpty = false ∧ ∃ rest, bytes = piece.data.toList ++ rest ∧ Delivers reads rest

namespace Reads

/-- The input has ended: reads find nothing, but for those that are interrupted. -/
def Ended (reads : Reads) : Prop :=
  ∀ read ∈ reads, match read with
    | .ok piece => piece.isEmpty = true
    | .error e => e.isInterrupted = true

/-- These bytes are handed out, in whatever pieces and with whatever interruptions, and then the input
has ended. -/
def HandsOut (reads : Reads) (bytes : List UInt8) : Prop :=
  ∃ front ending, reads = front ++ ending ∧ front.Delivers bytes ∧ ending.Ended

theorem ended_nil : Ended [] := fun _ member => absurd member List.not_mem_nil

theorem ended_cons {read : Except IoError ByteArray} {reads : Reads} : Ended (read :: reads) ↔
    (match read with
      | .ok piece => piece.isEmpty = true
      | .error e => e.isInterrupted = true) ∧ Ended reads :=
  List.forall_mem_cons

theorem Delivers.handsOut {reads : Reads} {bytes : List UInt8} (delivers : reads.Delivers bytes) :
    reads.HandsOut bytes :=
  ⟨reads, [], (List.append_nil reads).symm, delivers, ended_nil⟩

end Reads

namespace Lines

/-! ## Lines -/

/-- The lines of a text, each with the newline that ends it. The last line may do without. -/
def split : List UInt8 → List (List UInt8)
  | [] => []
  | byte :: bytes =>
    if byte = newline then [newline] :: split bytes
    else
      match split bytes with
      | [] => [[byte]]
      | line :: lines => (byte :: line) :: lines

theorem flatten_split (text : List UInt8) : (split text).flatten = text := by
  induction text with
  | nil => rfl
  | cons byte bytes ih =>
    unfold split
    by_cases ended : byte = newline
    · rw [if_pos ended, List.flatten_cons, ih, ended, List.singleton_append]
    · rw [if_neg ended]
      cases lines : split bytes with
      | nil =>
        rw [lines] at ih
        rw [← ih]
        rfl
      | cons line lines' =>
        rw [lines, List.flatten_cons] at ih
        rw [List.flatten_cons, List.cons_append, ih]

variable {line rest text : List UInt8}

theorem unended_cons {byte : UInt8} : newline ∉ byte :: line ↔ byte ≠ newline ∧ newline ∉ line := by
  rw [List.mem_cons, not_or, ne_comm]

theorem split_ended (unended : newline ∉ line) :
    split (line ++ newline :: rest) = (line ++ [newline]) :: split rest := by
  induction line with
  | nil => simp [split]
  | cons byte line ih =>
    obtain ⟨differs, unended⟩ := unended_cons.1 unended
    simp [split, ih unended, differs]

theorem split_unended (unended : newline ∉ line) (nonempty : line ≠ []) : split line = [line] := by
  induction line with
  | nil => exact absurd rfl nonempty
  | cons byte line ih =>
    obtain ⟨differs, unended⟩ := unended_cons.1 unended
    by_cases last : line = []
    · simp [last, split, differs]
    · simp [split, ih unended last, differs]

/-! ## The record of a line -/

theorem dropLastByte_append (byte : UInt8) (line : List UInt8) :
    dropLastByte byte (line ++ [byte]) = line := by
  simp [dropLastByte]

theorem dropLastByte_of_ne {byte : UInt8} (other : line.getLast? ≠ some byte) :
    dropLastByte byte line = line :=
  if_neg other

variable {separator : UInt8} {key data : List UInt8}

theorem differ_of_notMem {byte : UInt8} {bytes : List UInt8} (absent : byte ∉ bytes) :
    ∀ other ∈ bytes, decide (other ≠ byte) = true := by
  intro other member
  refine decide_eq_true fun same => absent ?_
  rwa [← same]

theorem record?_of_content (first : separator ∉ key) (eq : content line = key ++ separator :: data) :
    record? separator line = some ⟨key.toByteArray, data.toByteArray⟩ := by
  have before := differ_of_notMem first
  unfold record?
  rw [eq]
  dsimp only
  rw [List.dropWhile_append_of_pos before, List.takeWhile_append_of_pos before,
    List.dropWhile_cons_of_neg (by simp), List.takeWhile_cons_of_neg (by simp), List.append_nil]

theorem record?_of_undivided (undivided : separator ∉ content line) : record? separator line = none := by
  have all : (content line).dropWhile (· ≠ separator) = [] :=
    List.dropWhile_eq_nil_iff.2 (differ_of_notMem undivided)
  unfold record?
  dsimp only
  rw [all]

/-- The records of a text, in the order of their lines. -/
def records (separator : UInt8) (text : List UInt8) : List Record :=
  (split text).filterMap (record? separator)

/-! ## Adding the records of a text -/

variable {τ : Type} {add : Record → Effect DbError τ Unit}

/-- Adds the records of a text, and answers how many there are by now. -/
def addText (add : Record → Effect DbError τ Unit) (separator : UInt8) (text : List UInt8) (count : Nat) :
    Effect DbError τ Nat := do
  (records separator text).forM add
  return count + (records separator text).length

theorem addText_ended (unended : newline ∉ line) (count : Nat) :
    addText add separator (line ++ newline :: rest) count =
      addLine add separator (line ++ [newline]) >>= fun added =>
        addText add separator rest (count + added) := by
  simp only [addText, records, split_ended unended, List.filterMap_cons, addLine]
  cases record? separator (line ++ [newline]) with
  | none => simp
  | some record => simp [Nat.add_assoc, Nat.add_comm 1]

theorem addText_unended (unended : newline ∉ line) (nonempty : line ≠ []) (count : Nat) :
    addText add separator line count = do return count + (← addLine add separator line) := by
  simp only [addText, records, split_unended unended nonempty, List.filterMap_cons, List.filterMap_nil,
    addLine]
  cases record? separator line with
  | none => simp
  | some record => simp

/-! ## Input in pieces

The bytes that were taken and do not make a line yet stand before the rest of the text. -/

theorem addBytes_eq {reads : Reads}
    (later : ∀ line count, newline ∉ line →
      addReads add separator reads line count = addText add separator (line.reverse ++ rest) count) :
    ∀ (bytes line : List UInt8) (count : Nat), newline ∉ line →
      (do
        let (line, count) ← addBytes add separator bytes line count
        addReads add separator reads line count) =
          addText add separator (line.reverse ++ (bytes ++ rest)) count
  | [], line, count, unended => by
    simp only [addBytes, pure_bind, List.nil_append]
    exact later line count unended
  | byte :: bytes, line, count, unended => by
    by_cases ends : byte = newline
    · have unended' : newline ∉ line.reverse := by simpa using unended
      have ih := fun added => addBytes_eq later bytes [] (count + added) List.not_mem_nil
      simp only [addBytes, ends, if_true, bind_assoc, List.reverse_cons, List.cons_append]
      rw [addText_ended unended']
      exact bind_congr ih
    · have unended' : newline ∉ byte :: line := unended_cons.2 ⟨ends, unended⟩
      have ih := addBytes_eq later bytes (byte :: line) count unended'
      rw [List.reverse_cons, List.append_assoc, List.singleton_append, ← List.cons_append] at ih
      simpa only [addBytes, ends, if_false] using ih

/-- An input that has ended takes nothing more into its last line. -/
theorem addReads_ended : ∀ {reads : Reads}, reads.Ended →
    ∀ (line : List UInt8) (count : Nat), newline ∉ line →
      addReads add separator reads line count = addText add separator line.reverse count
  | [], _, line, count, unended => by
    rw [addReads]
    by_cases empty : line = []
    · rw [if_pos empty, empty]
      rfl
    · rw [if_neg empty, addText_unended (by simpa using unended) (by simpa using empty)]
  | .error e :: reads, ended, line, count, unended => by
    obtain ⟨interrupted, later⟩ := Reads.ended_cons.1 ended
    rw [addReads, if_pos interrupted]
    exact addReads_ended later line count unended
  | .ok piece :: reads, ended, line, count, unended => by
    obtain ⟨nothing, later⟩ := Reads.ended_cons.1 ended
    have nothing : piece.isEmpty = true := nothing
    have rest := fun added => addReads_ended later [] (count + added) List.not_mem_nil
    rw [addReads, if_pos nothing]
    by_cases empty : line = []
    · rw [if_pos empty, empty]
      rfl
    · rw [if_neg empty, addText_unended (by simpa using unended) (by simpa using empty)]
      exact bind_congr rest

theorem addReads_eq {ending : Reads} (ended : ending.Ended) : ∀ {reads : Reads} {text : List UInt8},
    reads.Delivers text → ∀ (line : List UInt8) (count : Nat), newline ∉ line →
      addReads add separator (reads ++ ending) line count =
        addText add separator (line.reverse ++ text) count
  | [], _, delivers, line, count, unended => by
    obtain rfl : _ = [] := delivers
    rw [List.append_nil]
    exact addReads_ended ended line count unended
  | .error e :: reads, text, delivers, line, count, unended => by
    obtain ⟨interrupted, delivers⟩ := delivers
    rw [List.cons_append, addReads, if_pos interrupted]
    exact addReads_eq ended delivers line count unended
  | .ok piece :: reads, text, delivers, line, count, unended => by
    obtain ⟨nonempty, rest, rfl, delivers⟩ := delivers
    rw [List.cons_append, addReads, nonempty]
    exact addBytes_eq (addReads_eq ended delivers) piece.data.toList line count unended

/-- **Lines.** Adding the lines of an input adds the records of the text that it hands out. -/
theorem addAll_of_handsOut {reads : Reads} (handsOut : reads.HandsOut text) :
    addAll add separator reads = addText add separator text 0 := by
  obtain ⟨front, ending, rfl, delivers, ended⟩ := handsOut
  exact addReads_eq ended delivers [] 0 List.not_mem_nil

theorem addAll_eq {reads : Reads} (delivers : reads.Delivers text) :
    addAll add separator reads = addText add separator text 0 :=
  addAll_of_handsOut delivers.handsOut

theorem forM_ends {keeps : List Record → τ → Prop} {failed : DbError → τ → Prop}
    (step : ∀ accepted record t, keeps accepted t →
      Ends (add record) t (fun _ => keeps (accepted ++ [record])) failed) :
    ∀ (more : List Record) {accepted : List Record} {t : τ}, keeps accepted t →
      Ends (more.forM add) t (fun _ => keeps (accepted ++ more)) failed
  | [], accepted, t, h => by
    rw [List.append_nil]
    exact ends_pure h
  | record :: more, accepted, t, h => by
    refine Ends.bind ((step accepted record t h).mono ?_ fun _ _ h => h)
    intro _ u h
    have ends := forM_ends step more h
    rwa [List.append_assoc, List.singleton_append] at ends

theorem addAll_ends {keeps : List Record → τ → Prop} {failed : DbError → τ → Prop}
    (step : ∀ accepted record t, keeps accepted t →
      Ends (add record) t (fun _ => keeps (accepted ++ [record])) failed)
    {reads : Reads} (delivers : reads.Delivers text) {accepted : List Record} {t : τ}
    (h : keeps accepted t) :
    Ends (addAll add separator reads) t
      (fun count t => count = (records separator text).length ∧
        keeps (accepted ++ records separator text) t) failed := by
  rw [addAll_eq delivers]
  refine Ends.bind ((forM_ends step _ h).mono ?_ fun _ _ h => h)
  exact fun _ _ h => ends_pure ⟨Nat.zero_add _, h⟩

end Lines

/-! ## Files -/

namespace Reads

theorem delivers_pieces : ∀ {pieces : List ByteArray}, (∀ piece ∈ pieces, piece.isEmpty = false) →
    Delivers (pieces.map .ok) (Bytes.concat pieces).data.toList
  | [], _ => rfl
  | piece :: pieces, nonempty => by
    have later := delivers_pieces fun other member => nonempty other (List.mem_cons_of_mem _ member)
    exact ⟨nonempty piece (List.mem_cons_self ..), _, by simp, later⟩

/-- A file is read in pieces of one length, and none of them is empty. -/
theorem delivers_ofBytes (bytes : ByteArray) : (ofBytes bytes).Delivers bytes.data.toList := by
  have positive : 0 < pieceLength := by decide
  have nonempty : ∀ piece ∈ Bytes.chunks pieceLength bytes, piece.isEmpty = false :=
    fun _ => Bytes.isEmpty_of_mem_chunks positive
  have delivers := delivers_pieces nonempty
  rwa [Bytes.concat_chunks positive bytes] at delivers

end Reads

end ConstDb
