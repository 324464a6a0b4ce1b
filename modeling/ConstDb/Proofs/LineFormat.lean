import ConstDb.Proofs.LineRecords
import ConstDb.Proofs.Plain
import Mathlib.Data.List.Forall2
import Mathlib.Data.List.ReduceOption

/-!
# The format of line records

What a text of lines holds, said without a scan: where it is cut (`Cut`), what a line sheds at its end
(`Shed`), and where it is divided (`Holds`). Adding the lines of an input adds what its text holds,
however the text arrives (`addLines_parses`), and of a line that holds a record nothing is lost but the
separator and the end of the line (`stored_lines_lossless`). There is one exception: a carriage return at
the very end of the text is lost (`trailing_return_lost`).
-/

namespace ConstDb

open Effect Image

namespace Lines

variable {separator byte : UInt8} {text line rest front back : List UInt8} {lines : List (List UInt8)}

/-! ## Cuts -/

/-- How a text is cut into lines: behind each newline. -/
inductive Cut : List UInt8 → List (List UInt8) → Prop
  | nil : Cut [] []
  | last {line : List UInt8} (unended : newline ∉ line) (nonempty : line ≠ []) : Cut line [line]
  | ended {line rest : List UInt8} {lines : List (List UInt8)} (unended : newline ∉ line)
      (cut : Cut rest lines) : Cut (line ++ newline :: rest) ((line ++ [newline]) :: lines)

theorem cut_cons (other : byte ≠ newline) : Cut text lines →
    Cut (byte :: text) (match lines with
      | [] => [[byte]]
      | line :: lines => (byte :: line) :: lines) := by
  intro cut
  cases cut with
  | nil => exact .last (unended_cons.2 ⟨other, List.not_mem_nil⟩) (List.cons_ne_nil byte [])
  | last unended nonempty => exact .last (unended_cons.2 ⟨other, unended⟩) (List.cons_ne_nil byte text)
  | ended unended cut => exact .ended (unended_cons.2 ⟨other, unended⟩) cut

theorem cut_split (text : List UInt8) : Cut text (split text) := by
  induction text with
  | nil => exact .nil
  | cons byte text ih =>
    by_cases ends : byte = newline
    · rw [split, if_pos ends, ends]
      exact .ended List.not_mem_nil ih
    · rw [split, if_neg ends]
      exact cut_cons ends ih

theorem cut_iff : Cut text lines ↔ lines = split text := by
  refine ⟨fun cut => ?_, fun eq => eq ▸ cut_split text⟩
  induction cut with
  | nil => rfl
  | last unended nonempty => rw [split_unended unended nonempty]
  | ended unended cut ih => rw [split_ended unended, ih]

/-- A newline stands at the end of a line only. -/
theorem Cut.unended (cut : Cut text lines) (member : line ∈ lines)
    (open_end : ∀ front, line ≠ front ++ [newline]) : newline ∉ line := by
  induction cut with
  | nil => exact absurd member List.not_mem_nil
  | last unended _ => rwa [List.mem_singleton.1 member]
  | ended _ _ ih =>
    rcases List.mem_cons.1 member with rfl | member
    · exact absurd rfl (open_end _)
    · exact ih member

/-- A text that nothing is left over from: it is empty, or a newline ends it. -/
def Closed (text : List UInt8) : Prop := text = [] ∨ text.getLast? = some newline

theorem split_append (closed : Closed front) : split (front ++ back) = split front ++ split back := by
  induction front with
  | nil => rfl
  | cons byte front ih =>
    have behind : front ≠ [] → Closed front := by
      intro nonempty
      obtain ⟨other, rest, rfl⟩ := List.exists_cons_of_ne_nil nonempty
      refine .inr (closed.elim (fun none => by cases none) fun last => ?_)
      rwa [List.getLast?_cons_cons] at last
    by_cases ends : byte = newline
    · have closed' : Closed front := by
        by_cases empty : front = []
        · exact .inl empty
        · exact behind empty
      rw [List.cons_append, split, if_pos ends, split, if_pos ends, ih closed', List.cons_append]
    · -- the line goes on, so there is more of the front
      have nonempty : front ≠ [] := by
        rintro rfl
        rcases closed with none | last
        · cases none
        · exact ends (Option.some.inj last)
      have flat := flatten_split front
      rw [List.cons_append, split, if_neg ends, split, if_neg ends, ih (behind nonempty)]
      cases eq : split front with
      | nil =>
        rw [eq] at flat
        exact absurd flat.symm nonempty
      | cons line lines => rfl

theorem records_append (separator : UInt8) (closed : Closed front) (back : List UInt8) :
    records separator (front ++ back) = records separator front ++ records separator back := by
  rw [records, split_append closed, List.filterMap_append, ← records, ← records]

/-! ## What a line holds -/

/-- What is left of a line without this byte at its end, if it stands there. -/
inductive Shed (byte : UInt8) : List UInt8 → List UInt8 → Prop
  | off (rest : List UInt8) : Shed byte (rest ++ [byte]) rest
  | none (line : List UInt8) (other : ∀ rest, line ≠ rest ++ [byte]) : Shed byte line line

theorem shed_dropLastByte (byte : UInt8) (line : List UInt8) : Shed byte line (dropLastByte byte line) := by
  by_cases last : line.getLast? = some byte
  · obtain ⟨rest, rfl⟩ := List.getLast?_eq_some_iff.1 last
    rw [dropLastByte_append]
    exact .off rest
  · rw [dropLastByte_of_ne last]
    refine .none line fun rest eq => last ?_
    rw [eq, List.getLast?_concat]

theorem shed_iff : Shed byte line rest ↔ rest = dropLastByte byte line := by
  refine ⟨fun shed => ?_, fun eq => eq ▸ shed_dropLastByte byte line⟩
  cases shed with
  | off => rw [dropLastByte_append]
  | none _ other =>
    refine (dropLastByte_of_ne fun last => ?_).symm
    obtain ⟨rest, eq⟩ := List.getLast?_eq_some_iff.1 last
    exact other rest eq

/-- What a line holds. It sheds one newline and then one carriage return; what is left is divided at the
first separator, and holds nothing if there is none. -/
inductive Holds (separator : UInt8) (line : List UInt8) : Option Record → Prop
  | nothing {body text : List UInt8} (unended : Shed newline line body)
      (bare : Shed carriageReturn body text) (undivided : separator ∉ text) : Holds separator line none
  | record {body text key data : List UInt8} (unended : Shed newline line body)
      (bare : Shed carriageReturn body text) (divided : text = key ++ separator :: data)
      (first : separator ∉ key) : Holds separator line (some ⟨key.toByteArray, data.toByteArray⟩)

theorem holds_record? (separator : UInt8) (line : List UInt8) :
    Holds separator line (record? separator line) := by
  have unended := shed_dropLastByte newline line
  have bare : Shed carriageReturn (dropLastByte newline line) (content line) := shed_dropLastByte ..
  by_cases divided : separator ∈ content line
  · obtain ⟨key, data, eq, first⟩ := List.eq_append_cons_of_mem divided
    rw [record?_of_content first eq]
    exact .record unended bare eq first
  · rw [record?_of_undivided divided]
    exact .nothing unended bare divided

theorem holds_iff {found : Option Record} : Holds separator line found ↔ found = record? separator line := by
  refine ⟨fun holds => ?_, fun eq => eq ▸ holds_record? separator line⟩
  have content_eq : ∀ {body text}, Shed newline line body → Shed carriageReturn body text →
      content line = text := by
    intro body text unended bare
    rw [content, ← shed_iff.1 unended, ← shed_iff.1 bare]
  cases holds with
  | nothing unended bare undivided =>
    rw [record?_of_undivided]
    rwa [content_eq unended bare]
  | record unended bare divided first =>
    rw [record?_of_content first]
    rw [content_eq unended bare, divided]

/-- These are the records of a text: what its lines hold, in their order. -/
def Lists (separator : UInt8) (text : List UInt8) (listed : List Record) : Prop :=
  ∃ lines found, Cut text lines ∧ List.Forall₂ (Holds separator) lines found ∧
    listed = found.reduceOption

theorem reduceOption_of_holds {found : List (Option Record)}
    (holds : List.Forall₂ (Holds separator) lines found) :
    found.reduceOption = lines.filterMap (record? separator) := by
  induction holds with
  | nil => rfl
  | cons own _ ih => rw [holds_iff.1 own, List.filterMap_cons, ← ih]; rfl

theorem lists_records (separator : UInt8) (text : List UInt8) :
    Lists separator text (records separator text) := by
  have holds : List.Forall₂ (Holds separator) (split text) ((split text).map (record? separator)) := by
    rw [List.forall₂_map_right_iff]
    exact List.forall₂_same.2 fun line _ => holds_record? separator line
  exact ⟨split text, _, cut_split text, holds, (reduceOption_of_holds holds).symm⟩

theorem lists_iff {listed : List Record} :
    Lists separator text listed ↔ listed = records separator text := by
  refine ⟨fun lists => ?_, fun eq => eq ▸ lists_records separator text⟩
  obtain ⟨lines, found, cut, holds, rfl⟩ := lists
  rw [reduceOption_of_holds holds, cut_iff.1 cut, records]

/-! ## What is taken off the end of a line -/

/-- What ends a line. -/
inductive LineEnd (line : List UInt8) : List UInt8 → Prop
  | newline : LineEnd line [newline]
  | returned : LineEnd line [carriageReturn, newline]
  | none (unended : newline ∉ line) : LineEnd line []

/-- A line is the key, the separator, the data and what was taken off its end. -/
structure Comprises (separator : UInt8) (line : List UInt8) (record : Record) (off : List UInt8) :
    Prop where
  line_eq : line = record.key.data.toList ++ separator :: (record.data.data.toList ++ off)
  first : separator ∉ record.key.data.toList

/-- A carriage return with no newline behind it stands in the data, not in what was taken off. -/
def ReturnsKept (data off : List UInt8) : Prop :=
  ∀ front rest, data ++ off = front ++ carriageReturn :: rest → rest.head? ≠ some newline →
    front.length < data.length

theorem LineEnd.returnsKept {off : List UInt8} (ending : LineEnd line off) (data : List UInt8) :
    ReturnsKept data off := by
  intro front rest eq alone
  -- no carriage return in what was taken off stands alone
  have none_off : ∀ between, off ≠ between ++ carriageReturn :: rest := by
    intro between eq
    cases ending with
    | newline =>
      rcases between with _ | ⟨byte, between⟩
      · exact absurd (List.cons.inj eq).1 (by decide)
      · exact absurd (List.cons.inj eq).2.symm (by simp)
    | returned =>
      rcases between with _ | ⟨byte, _ | ⟨byte', between⟩⟩
      · exact alone (congrArg List.head? (List.cons.inj eq).2).symm
      · exact absurd (List.cons.inj (List.cons.inj eq).2).1 (by decide)
      · exact absurd (List.cons.inj (List.cons.inj eq).2).2.symm (by simp)
    | none => exact absurd eq.symm (by simp)
  rcases List.append_eq_append_iff.1 eq with ⟨between, rfl, off_eq⟩ | ⟨behind, rfl, rest_eq⟩
  · exact absurd off_eq (none_off between)
  · rcases behind with _ | ⟨byte, behind⟩
    · exact absurd rest_eq.symm (none_off [])
    · simp

/-- Of such a line a record leaves out the separator and the end of the line, and nothing else. -/
def Lossless (separator : UInt8) (line : List UInt8) (record : Record) : Prop :=
  ∃ off, Comprises separator line record off ∧ LineEnd line off ∧ ReturnsKept record.data.data.toList off

/-- What is taken off the end of a line is the end of the line, unless that is a carriage return with no
newline. -/
theorem content_append (only_last : (∀ front, line ≠ front ++ [newline]) → newline ∉ line) :
    ∃ off, line = content line ++ off ∧ (∀ byte ∈ off, byte = newline ∨ byte = carriageReturn) ∧
      (line.getLast? = some carriageReturn → off = [carriageReturn]) ∧
      (line.getLast? ≠ some carriageReturn → LineEnd line off) := by
  unfold content
  by_cases ended : line.getLast? = some newline
  · obtain ⟨body, rfl⟩ := List.getLast?_eq_some_iff.1 ended
    have other : (body ++ [newline]).getLast? ≠ some carriageReturn := by
      rw [ended]
      decide
    rw [dropLastByte_append]
    by_cases returned : body.getLast? = some carriageReturn
    · obtain ⟨text, rfl⟩ := List.getLast?_eq_some_iff.1 returned
      rw [dropLastByte_append]
      refine ⟨[carriageReturn, newline], by simp, by simp, fun last => absurd last other, fun _ => .returned⟩
    · rw [dropLastByte_of_ne returned]
      exact ⟨[newline], rfl, by simp, fun last => absurd last other, fun _ => .newline⟩
  · rw [dropLastByte_of_ne ended]
    by_cases returned : line.getLast? = some carriageReturn
    · obtain ⟨text, rfl⟩ := List.getLast?_eq_some_iff.1 returned
      rw [dropLastByte_append]
      exact ⟨[carriageReturn], rfl, by simp, fun _ => rfl, fun other => absurd returned other⟩
    · rw [dropLastByte_of_ne returned]
      refine ⟨[], (List.append_nil line).symm, by simp, fun last => absurd last returned, fun _ => ?_⟩
      refine .none (only_last fun front eq => ended ?_)
      rw [eq, List.getLast?_concat]

section visible
variable (visible : separator ≠ newline ∧ separator ≠ carriageReturn)
include visible

/-- The record of a line that holds the separator. -/
theorem comprises_of_mem {off : List UInt8} (eq : line = content line ++ off)
    (invisible : ∀ byte ∈ off, byte = newline ∨ byte = carriageReturn) (member : separator ∈ line) :
    ∃ record, record? separator line = some record ∧ Comprises separator line record off := by
  have divided : separator ∈ content line := by
    rw [eq] at member
    rcases List.mem_append.1 member with inside | outside
    · exact inside
    · rcases invisible separator outside with same | same
      · exact absurd same visible.1
      · exact absurd same visible.2
  obtain ⟨key, data, text_eq, first⟩ := List.eq_append_cons_of_mem divided
  refine ⟨_, record?_of_content first text_eq, ?_, ?_⟩
  · simpa [text_eq] using eq
  · simpa using first

theorem stored_of_lines (only_last : ∀ line ∈ lines, (∀ front, line ≠ front ++ [newline]) → newline ∉ line) :
    List.Forall₂ (fun line record =>
        (line.getLast? ≠ some carriageReturn → Lossless separator line record) ∧
        (line.getLast? = some carriageReturn → Comprises separator line record [carriageReturn]))
      (lines.filter (separator ∈ ·)) (lines.filterMap (record? separator)) := by
  induction lines with
  | nil => exact .nil
  | cons line lines ih =>
    have later := ih fun other member => only_last other (List.mem_cons_of_mem line member)
    obtain ⟨off, eq, invisible, returned, ending⟩ := content_append (only_last line List.mem_cons_self)
    by_cases member : separator ∈ line
    · obtain ⟨record, found, comprises⟩ := comprises_of_mem visible eq invisible member
      rw [List.filter_cons, if_pos (decide_eq_true member), List.filterMap_cons_some found]
      refine .cons ⟨fun other => ?_, fun last => ?_⟩ later
      · exact ⟨off, comprises, ending other, (ending other).returnsKept _⟩
      · rwa [returned last] at comprises
    · have undivided : separator ∉ content line := by
        intro inside
        apply member
        rw [eq]
        exact List.mem_append_left off inside
      rw [List.filter_cons, if_neg (by simpa using member),
        List.filterMap_cons_none (record?_of_undivided undivided)]
      exact later

end visible

end Lines

/-! ## Ingestion -/

section ingestion
variable {separator : UInt8} {text : List UInt8} {reads : Reads}

theorem Draft.addLines_of_handsOut (separator : UInt8) (handsOut : reads.HandsOut text) :
    Draft.addLines separator reads = do
      (Lines.records separator text).forM Draft.add
      return (Lines.records separator text).length := by
  rw [Draft.addLines, Lines.addAll_of_handsOut handsOut, Lines.addText]
  simp only [Nat.zero_add]

theorem Draft.addLines_sure (separator : UInt8) {shows : Disk.Handle × Disk → ByteArray → Nat → Prop}
    {old : ByteArray} {accepted : List Record} {draft : Draft} {disk : Disk} (handsOut : reads.HandsOut text)
    (sure : FileLike Disk.Handle.calls shows False)
    (building : Draft.Building shows old accepted (draft, disk))
    (fits : headerSize + recordsSize (accepted ++ Lines.records separator text) ≤ Position.limit) :
    ∃ draft' next,
      Draft.addLines separator reads (draft, disk) =
        .ok (Lines.records separator text).length (draft', next) ∧
      Draft.Building shows old (accepted ++ Lines.records separator text) (draft', next) ∧
      Draft.SameAims draft draft' := by
  obtain ⟨draft', next, added, building, same⟩ := Draft.forM_sure sure _ building fits
  refine ⟨draft', next, ?_, building, same⟩
  rw [addLines_of_handsOut separator handsOut, bind_apply, added]
  rfl

theorem Draft.addLines_append {front back : List UInt8} {first second : Reads}
    (closed : Lines.Closed front) (handsOut : reads.HandsOut (front ++ back))
    (handsFront : first.HandsOut front) (handsBack : second.HandsOut back) :
    Draft.addLines separator reads = do
      let m ← Draft.addLines separator first
      let n ← Draft.addLines separator second
      return m + n := by
  rw [addLines_of_handsOut separator handsOut, addLines_of_handsOut separator handsFront,
    addLines_of_handsOut separator handsBack, Lines.records_append separator closed]
  simp only [List.forM_eq_forM, List.forM_append, bind_assoc, pure_bind, List.length_append]

/-- **Ingestion.** However a text arrives, what is added is what its lines hold, and a draft with room for
that has it behind what it had before. A text that a newline divides can as well be added in two goes. -/
theorem addLines_parses (separator : UInt8) (text : List UInt8) :
    ∃ parsed : List Record, (∀ listed, Lines.Lists separator text listed ↔ listed = parsed) ∧
      ∀ reads : Reads, reads.HandsOut text →
        (Draft.addLines separator reads = do
          parsed.forM Draft.add
          return parsed.length) ∧
        (∀ shows old accepted draft disk, FileLike Disk.Handle.calls shows False →
          Draft.Building shows old accepted (draft, disk) →
          headerSize + Image.recordsSize (accepted ++ parsed) ≤ Position.limit →
          ∃ draft' next, Draft.addLines separator reads (draft, disk) = .ok parsed.length (draft', next) ∧
            Draft.Building shows old (accepted ++ parsed) (draft', next) ∧ Draft.SameAims draft draft') ∧
        ∀ front back first second, text = front ++ back → Lines.Closed front →
          Reads.HandsOut first front → Reads.HandsOut second back →
          Draft.addLines separator reads = do
            let m ← Draft.addLines separator first
            let n ← Draft.addLines separator second
            return m + n := by
  refine ⟨Lines.records separator text, fun listed => Lines.lists_iff, fun reads handsOut => ?_⟩
  refine ⟨Draft.addLines_of_handsOut separator handsOut, ?_, ?_⟩
  · intro shows old accepted draft disk sure building fits
    exact Draft.addLines_sure separator handsOut sure building fits
  · intro front back first second eq closed handsFront handsBack
    rw [eq] at handsOut
    exact Draft.addLines_append closed handsOut handsFront handsBack

end ingestion

/-- Three lines in pieces: the end of the first line is cut, and reads are interrupted. -/
theorem addLines_parses_pieces :
    let interrupted : Except IoError ByteArray := .error ⟨.interrupted, ""⟩
    let reads : Reads :=
      [interrupted, .ok "a=1\r".toUTF8, .ok "\nb\nc".toUTF8, interrupted, .ok "==2".toUTF8, interrupted]
    let first : Reads := [.ok "a=1\r".toUTF8, interrupted, .ok "\n".toUTF8]
    let second : Reads := [.ok "b\nc==2".toUTF8, .ok .empty]
    let parsed : List Record := [⟨"a".toUTF8, "1".toUTF8⟩, ⟨"c".toUTF8, "=2".toUTF8⟩]
    let disk := Disk.oneName "db.tmp" #[.empty]
    reads.HandsOut "a=1\r\nb\nc==2".toUTF8.data.toList ∧ first.HandsOut "a=1\r\n".toUTF8.data.toList ∧
      second.HandsOut "b\nc==2".toUTF8.data.toList ∧ Lines.Closed "a=1\r\n".toUTF8.data.toList ∧
      FileLike Disk.Handle.calls (Disk.Handle.ShowsPlain disk 0) False ∧
      Draft.BuildingPlain disk 0 .empty [] (.begun 0, disk) ∧
      headerSize + Image.recordsSize parsed ≤ Position.limit ∧
    (∃ draft next, Draft.addLines 61 reads (.begun 0, disk) = .ok 2 (draft, next) ∧
      Draft.BuildingPlain disk 0 .empty parsed (draft, next)) ∧
    Draft.addLines 61 reads = do
      let m ← Draft.addLines 61 first
      let n ← Draft.addLines 61 second
      return m + n := by
  intro interrupted reads first second parsed disk
  have delivers : Reads.HandsOut reads "a=1\r\nb\nc==2".toUTF8.data.toList := by
    refine ⟨reads.take 5, reads.drop 5, rfl, ?_, Reads.ended_cons.2 ⟨rfl, Reads.ended_nil⟩⟩
    exact ⟨rfl, rfl, "\nb\nc==2".toUTF8.data.toList, rfl, rfl, "==2".toUTF8.data.toList, rfl, rfl, rfl, [],
      rfl, rfl⟩
  have delivers_first : Reads.HandsOut first "a=1\r\n".toUTF8.data.toList :=
    Reads.Delivers.handsOut ⟨rfl, "\n".toUTF8.data.toList, rfl, rfl, rfl, [], rfl, rfl⟩
  have delivers_second : Reads.HandsOut second "b\nc==2".toUTF8.data.toList :=
    ⟨second.take 1, second.drop 1, rfl, ⟨rfl, [], rfl, rfl⟩, Reads.ended_cons.2 ⟨rfl, Reads.ended_nil⟩⟩
  have closed : Lines.Closed "a=1\r\n".toUTF8.data.toList := .inr (by decide)
  have building : Draft.BuildingPlain disk 0 .empty [] (.begun 0, disk) :=
    Draft.buildingPlain_begun rfl Nat.one_pos
  have sure := Disk.Handle.fileLike_plain disk 0
  have room : headerSize + Image.recordsSize parsed ≤ Position.limit := by decide
  obtain ⟨listed, unique, adds⟩ := addLines_parses 61 "a=1\r\nb\nc==2".toUTF8.data.toList
  obtain rfl : parsed = listed := (unique parsed).1 (Lines.lists_iff.2 (by decide))
  obtain ⟨-, stores, divides⟩ := adds reads delivers
  obtain ⟨draft, next, added, after, -⟩ := stores _ _ _ _ _ sure building room
  exact ⟨delivers, delivers_first, delivers_second, closed, sure, building, room, ⟨draft, next, added, after⟩,
    divides _ _ first second rfl closed delivers_first delivers_second⟩

/-- **Nothing is lost.** Of each line that holds the separator, the record that is added for it leaves out
the separator and the end of the line only. Where a text ends in a carriage return, that one is left out
as well. -/
theorem stored_lines_lossless (separator : UInt8)
    (visible : separator ≠ Lines.newline ∧ separator ≠ Lines.carriageReturn) (text : List UInt8) :
    ∃ lines stored, Lines.Cut text lines ∧
      List.Forall₂ (fun line record =>
          (line.getLast? ≠ some Lines.carriageReturn → Lines.Lossless separator line record) ∧
          (line.getLast? = some Lines.carriageReturn →
            Lines.Comprises separator line record [Lines.carriageReturn]))
        (lines.filter (separator ∈ ·)) stored ∧
      ∀ reads : Reads, reads.HandsOut text →
        Draft.addLines separator reads = do
          stored.forM Draft.add
          return stored.length := by
  have only_last : ∀ line ∈ Lines.split text, (∀ front, line ≠ front ++ [Lines.newline]) →
      Lines.newline ∉ line :=
    fun _ member => (Lines.cut_split text).unended member
  exact ⟨Lines.split text, Lines.records separator text, Lines.cut_split text,
    Lines.stored_of_lines visible only_last, fun _ => Draft.addLines_of_handsOut separator⟩

/-- Carriage returns before the end of a line, and none at the end of the text. -/
theorem stored_lines_lossless_returns :
    let lines := ["a=1\r\r\n".toUTF8.data.toList, "b=\r2".toUTF8.data.toList]
    let reads : Reads := [.ok "a=1\r\r\nb=\r2".toUTF8]
    ((61 : UInt8) ≠ Lines.newline ∧ (61 : UInt8) ≠ Lines.carriageReturn) ∧
      reads.HandsOut lines.flatten ∧
    ∃ stored, List.Forall₂ (Lines.Lossless 61) lines stored ∧
      Draft.addLines 61 reads = do
        stored.forM Draft.add
        return stored.length := by
  intro lines reads
  have visible : (61 : UInt8) ≠ Lines.newline ∧ (61 : UInt8) ≠ Lines.carriageReturn := by decide
  have delivers : Reads.HandsOut reads lines.flatten := Reads.Delivers.handsOut ⟨rfl, [], rfl, rfl⟩
  obtain ⟨cut, stored, is_cut, lossless, adds⟩ := stored_lines_lossless 61 visible lines.flatten
  obtain rfl : cut = lines := (Lines.cut_iff.1 is_cut).trans (by decide)
  have all : lines.filter (61 ∈ ·) = lines := by decide
  rw [all] at lossless
  have other : ∀ line ∈ lines, line.getLast? ≠ some Lines.carriageReturn := by decide
  have both := (List.forall₂_and_left lines stored).2 ⟨other, lossless⟩
  exact ⟨visible, delivers, stored, both.imp fun _ _ h => h.2.1 h.1, adds reads delivers⟩

/-- A carriage return at the very end of a text belongs to no end of a line, and is lost all the same. -/
theorem trailing_return_lost :
    let line := "k=v\r".toUTF8.data.toList
    let record : Record := ⟨"k".toUTF8, "v".toUTF8⟩
    let reads : Reads := [.ok "k=v\r".toUTF8]
    let disk := Disk.oneName "db.tmp" #[.empty]
    Lines.Cut line [line] ∧ (61 : UInt8) ∈ line ∧ reads.HandsOut line ∧
      (∃ draft next, Draft.addLines 61 reads (.begun 0, disk) = .ok 1 (draft, next) ∧
        Draft.BuildingPlain disk 0 .empty [record] (draft, next)) ∧
      ¬ Lines.Lossless 61 line record := by
  intro line record reads disk
  have delivers : Reads.HandsOut reads line := Reads.Delivers.handsOut ⟨rfl, [], rfl, rfl⟩
  have records : Lines.records 61 line = [record] := by decide
  have building : Draft.BuildingPlain disk 0 .empty [] (.begun 0, disk) :=
    Draft.buildingPlain_begun rfl Nat.one_pos
  have added := Draft.addLines_sure 61 delivers (Disk.Handle.fileLike_plain disk 0) building
  rw [records] at added
  obtain ⟨draft, next, added, building, -⟩ := added (by decide)
  refine ⟨.last (by decide) (by decide), by decide, delivers, ⟨draft, next, added, building⟩, ?_⟩
  rintro ⟨off, comprises, ending, -⟩
  have line_eq := comprises.line_eq
  cases ending with
  | newline => exact absurd line_eq (by decide)
  | returned => exact absurd line_eq (by decide)
  | none => exact absurd line_eq (by decide)

end ConstDb
