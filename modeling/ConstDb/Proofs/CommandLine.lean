import Mathlib.Data.List.Forall2
import ConstDb.Command.Arguments
import ConstDb.Proofs.Effect

/-!
# Command lines behind two dashes

Behind two dashes all arguments are operands, so that each path can be given there, also one that starts with
a dash (`read_operands`). So there is a command line for each file to print and for each database to make
(`parse_dump`, `parse_make`).
-/

namespace ConstDb

namespace Grammar

variable {grammar : Grammar} {reading : Reading} {texts arguments : List String}
variable {options : List (String × String)}

/-- A text that can be an operand of this kind. -/
def Suits (kind : OperandKind) (text : String) : Prop := kind = .path → text ≠ ""

theorem readArgument_operand {kind : OperandKind} {text : String} (behind : reading.operandsOnly = true)
    (expected : grammar.operands[reading.operands.length]? = some kind) (suits : Suits kind text) :
    grammar.readArgument reading text = .ok { reading with operands := text :: reading.operands } := by
  have accepted : (decide (kind = .path) && text.isEmpty) = false := by
    rw [Bool.and_eq_false_imp]
    intro path
    simpa using suits (of_decide_eq_true path)
  simp [readArgument, readOperand, behind, expected, accepted]

theorem foldlM_operands (behind : reading.operandsOnly = true)
    (suit : List.Forall₂ Suits (grammar.operands.drop reading.operands.length) texts) :
    texts.foldlM grammar.readArgument reading =
      .ok { reading with operands := texts.reverse ++ reading.operands } := by
  induction texts generalizing reading with
  | nil => rfl
  | cons text texts ih =>
    obtain ⟨kind, kinds, suits, suit, left⟩ := List.forall₂_cons_right_iff.1 suit
    have expected : grammar.operands[reading.operands.length]? = some kind := by
      rw [← List.head?_drop, left, List.head?_cons]
    have later : grammar.operands.drop (reading.operands.length + 1) = kinds := by
      rw [← List.tail_drop, left, List.tail_cons]
    rw [List.foldlM_cons, List.reverse_cons, List.append_assoc, List.singleton_append]
    refine Effect.except_bind_eq_ok_iff.2 ⟨_, readArgument_operand behind expected suits, ih behind ?_⟩
    rwa [List.length_cons, later]

/-- Behind two dashes stand the operands, whatever they start with. -/
theorem read_operands
    (before : arguments.foldlM grammar.readArgument .start = .ok ⟨[], options, none, false⟩)
    (suit : List.Forall₂ Suits grammar.operands texts) :
    grammar.read (arguments ++ "--" :: texts) = .ok (texts, options) := by
  have dashes : grammar.readArgument ⟨[], options, none, false⟩ "--" = .ok ⟨[], options, none, true⟩ := rfl
  have rest : texts.foldlM grammar.readArgument ⟨[], options, none, true⟩ =
      .ok ⟨texts.reverse ++ [], options, none, true⟩ := foldlM_operands rfl suit
  have folded : (arguments ++ "--" :: texts).foldlM grammar.readArgument .start =
      .ok ⟨texts.reverse, options, none, true⟩ := by
    rw [List.foldlM_append, ← List.append_nil texts.reverse]
    exact Effect.except_bind_eq_ok_iff.2 ⟨_, before, Effect.except_bind_eq_ok_iff.2 ⟨_, dashes, rest⟩⟩
  refine Effect.except_bind_eq_ok_iff.2 ⟨_, folded, ?_⟩
  simp [suit.length_eq]

end Grammar

namespace Invocation

open Grammar

theorem ofArguments_ok {topic : Topic} {grammar : Grammar} {arguments operands : List String}
    {build : List String → List (String × String) → Option Command} {options : List (String × String)}
    {command : Command} (read : grammar.read arguments = .ok (operands, options))
    (built : build operands options = some command) :
    ofArguments topic grammar build arguments = .carryOut command := by
  simp only [ofArguments, read, built]

theorem parse_dump (c : Char) {path : String} (named : path ≠ "") :
    parse ["dump", "--sep", String.singleton c, "--", path] =
      .carryOut (.dump path (String.singleton c)) := by
  have asked : dumpGrammar.readArgument .start "--sep" = .ok ⟨[], [], some "sep", false⟩ := by rfl
  have given : dumpGrammar.readArgument ⟨[], [], some "sep", false⟩ (String.singleton c) =
      .ok ⟨[], [("sep", String.singleton c)], none, false⟩ := by
    simp [readArgument, Reading.addOption]
  have before : ["--sep", String.singleton c].foldlM dumpGrammar.readArgument .start =
      .ok ⟨[], [("sep", String.singleton c)], none, false⟩ :=
    Effect.except_bind_eq_ok_iff.2 ⟨_, asked, Effect.except_bind_eq_ok_iff.2 ⟨_, given, rfl⟩⟩
  have suit : List.Forall₂ Suits dumpGrammar.operands [path] := .cons (fun _ => named) .nil
  exact ofArguments_ok (read_operands before suit) rfl

theorem parse_make (separator : String) (syncs : Bool) {input output : String} (named : input ≠ "")
    (named' : output ≠ "") :
    parse ("make" :: (if syncs then [] else ["--no-sync"]) ++ ["--", input, separator, output]) =
      .carryOut (.make input separator output syncs) := by
  have suit : List.Forall₂ Suits makeGrammar.operands [input, separator, output] :=
    .cons (fun _ => named) (.cons (fun text => by cases text) (.cons (fun _ => named') .nil))
  cases syncs with
  | true =>
    have before : ([] : List String).foldlM makeGrammar.readArgument .start = .ok ⟨[], [], none, false⟩ := rfl
    exact ofArguments_ok (read_operands before suit) rfl
  | false =>
    have before : ["--no-sync"].foldlM makeGrammar.readArgument .start =
        .ok ⟨[], [("no-sync", "")], none, false⟩ := by rfl
    exact ofArguments_ok (read_operands before suit) rfl

end Invocation

end ConstDb
