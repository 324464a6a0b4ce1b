import ConstDb.Proofs.Disk

/-!
# Longer names

A path that is another one with something behind it names another entry: the path of an unfinished file is
never that of the database that it becomes.
-/

namespace ConstDb

namespace Path

variable {chars back : List Char}

theorem pieces_of_plain (plain : '/' ∉ back) : pieces back = [back] := by
  induction back with
  | nil => rfl
  | cons c back ih =>
    rw [List.mem_cons, not_or] at plain
    obtain ⟨differs, plain⟩ := plain
    simp [pieces, ih plain, Ne.symm differs]

theorem pieces_append (plain : '/' ∉ back) (chars : List Char) :
    ∃ front last, pieces chars = front ++ [last] ∧ pieces (chars ++ back) = front ++ [last ++ back] ∧
      (chars ≠ [] → chars.getLast? ≠ some '/' → last ≠ []) := by
  induction chars with
  | nil => exact ⟨[], [], rfl, pieces_of_plain plain, fun nonempty => absurd rfl nonempty⟩
  | cons c rest ih =>
    obtain ⟨front, last, eq, eq', named⟩ := ih
    by_cases slash : c = '/'
    · refine ⟨[] :: front, last, by simp [pieces, slash, eq], by simp [pieces, slash, eq'], fun _ ends => ?_⟩
      have nonempty : rest ≠ [] := by
        rintro rfl
        exact ends (by simp [slash])
      rw [List.getLast?_cons_of_ne_nil nonempty] at ends
      exact named nonempty ends
    · cases front with
      | nil =>
        refine ⟨[], c :: last, by simp [pieces, slash, eq], by simp [pieces, slash, eq'], fun _ _ => ?_⟩
        exact List.cons_ne_nil _ _
      | cons piece front =>
        refine ⟨(c :: piece) :: front, last, by simp [pieces, slash, eq], by simp [pieces, slash, eq'],
          fun _ ends => ?_⟩
        have nonempty : rest ≠ [] := by
          rintro rfl
          simp [pieces] at eq
        rw [List.getLast?_cons_of_ne_nil nonempty] at ends
        exact named nonempty ends

/-- Behind a name more characters make a longer name. -/
theorem getLast?_components_append (plain : '/' ∉ back) (nonempty : chars ≠ [])
    (ends : chars.getLast? ≠ some '/') : ∃ name, (components chars).getLast? = some name ∧
      (components (chars ++ back)).getLast? = some (name ++ String.ofList back) := by
  obtain ⟨front, last, eq, eq', named⟩ := pieces_append plain chars
  have named := named nonempty ends
  have longer : last ++ back ≠ [] := List.append_ne_nil_of_left_ne_nil named back
  exact ⟨String.ofList last, by simp [components, eq, List.filter_append, named], by
    simp [components, eq', List.filter_append, longer, String.ofList_append]⟩

theorem eq_of_lastName {text name : String} (eq : lastName text = .name name) : text = name := by
  unfold lastName at eq
  split at eq
  · cases eq
  · cases eq
  · exact LastName.name.inj eq

theorem parse_name {text name : String} {path : Path} (parsed : parse text = .ok path)
    (last : path.last = .name name) :
    text.toList ≠ [] ∧ (components text.toList).getLast? = some name ∧
      path.trailing = decide (text.toList.getLast? = some '/') := by
  unfold parse at parsed
  dsimp only at parsed
  split at parsed
  · cases parsed
  split at parsed
  · cases parsed
  split at parsed
  · cases parsed
  split at parsed
  · cases parsed
    cases last
  · next nonempty _ _ _ found =>
    cases parsed
    refine ⟨nonempty, ?_, rfl⟩
    rw [found, eq_of_lastName last]

end Path

namespace Disk

variable {disk : Disk} {text suffix : String}

theorem components_of_resolve {directory : Place} {name : String} {trailing : Bool}
    (resolved : disk.resolve text = .ok (.entry directory name trailing)) :
    text.toList ≠ [] ∧ (Path.components text.toList).getLast? = some name ∧
      trailing = decide (text.toList.getLast? = some '/') := by
  obtain ⟨path, parsed, walked⟩ := Effect.except_bind_eq_ok_iff.1 resolved
  have walked := mapError_eq_ok_iff.1 walked
  obtain ⟨place, -, last⟩ := Effect.except_bind_eq_ok_iff.1 walked
  cases named : path.last with
  | name text' =>
    rw [named] at last
    cases last
    exact Path.parse_name parsed named
  | self | root | parent =>
    rw [named] at last
    cases last

theorem place?_append_ne {place : Place} (plain : '/' ∉ suffix.toList) (nonempty : suffix ≠ "")
    (named : disk.place? (text ++ suffix) = some place) : disk.place? text ≠ some place := by
  intro named'
  obtain ⟨directory, name, resolved, -, rfl⟩ := place?_eq_some_iff.1 named
  obtain ⟨directory', name', resolved', -, eq⟩ := place?_eq_some_iff.1 named'
  obtain ⟨-, last, -⟩ := components_of_resolve resolved
  obtain ⟨nonblank, last', ends⟩ := components_of_resolve resolved'
  obtain ⟨short, own, longer⟩ :=
    Path.getLast?_components_append plain nonblank (of_decide_eq_false ends.symm)
  rw [last'] at own
  cases own
  rw [String.toList_append, longer, String.ofList_toList] at last
  cases last
  obtain ⟨-, same⟩ := List.append_inj' eq rfl
  have same : (name' ++ suffix).toList = name'.toList := by rw [(List.cons.inj same).1]
  rw [String.toList_append, List.append_right_eq_self, String.toList_eq_nil_iff] at same
  exact nonempty same

end Disk
end ConstDb
