import ConstDb.Walk

/-!
# Walks to their end

`over_items` is for a walk that hands out nothing more once it has handed out nothing,
`over_items_of_lessens` for one that comes to its end by itself, and `items_inStep` for two walks of
which the first may end early, with a failure of its own.
-/

namespace ConstDb.Walk

variable {ε τ ρ α : Type}

/-- A walk in this state hands out nothing, now and whenever it is asked again. -/
def Over (walk : Walk ε τ α) (t : τ) : Prop := walk t = (none, t)

def Settles (walk : Walk ε τ α) : Prop := ∀ t u, walk t = (none, u) → walk.Over u

section one
variable {walk : Walk ε τ α} {t u : τ} {item : Except ε α}

theorem items_of_none (stop : walk t = (none, u)) (limit : Nat) :
    walk.items (limit + 1) t = ([], u) := by
  rw [items, stop]

theorem items_of_some (next : walk t = (some item, u)) (limit : Nat) :
    walk.items (limit + 1) t = (item :: (walk.items limit u).1, (walk.items limit u).2) := by
  rw [items, next]

theorem Over.items_eq (ended : walk.Over t) (limit : Nat) : walk.items limit t = ([], t) := by
  cases limit with
  | zero => rfl
  | succ limit => exact items_of_none ended limit

theorem over_items (settles : walk.Settles) (limit : Nat)
    (lt : (walk.items limit t).1.length < limit) : walk.Over (walk.items limit t).2 := by
  induction limit generalizing t with
  | zero => cases lt
  | succ limit ih =>
    cases eq : walk t with
    | mk item u =>
      cases item with
      | none =>
        rw [items_of_none eq]
        exact settles t u eq
      | some item =>
        rw [items_of_some eq] at lt ⊢
        exact ih (Nat.lt_of_succ_lt_succ lt)

end one

/-! ## Walks that come to an end -/

/-- A walk that has handed out a failure is over. -/
def Halts (walk : Walk ε τ α) : Prop := ∀ t e u, walk t = (some (.error e), u) → walk.Over u

section ends
variable {walk : Walk ε τ α}

theorem over_items_of_lessens (left : τ → Nat) (settles : walk.Settles) (halts : walk.Halts)
    (lessens : ∀ t a u, walk t = (some (.ok a), u) → left u < left t) (limit : Nat) {t : τ}
    (enough : left t < limit) : walk.Over (walk.items limit t).2 := by
  induction limit generalizing t with
  | zero => cases enough
  | succ limit ih =>
    cases eq : walk t with
    | mk item u =>
      cases item with
      | none =>
        rw [items_of_none eq]
        exact settles t u eq
      | some item =>
        rw [items_of_some eq]
        cases item with
        | error e =>
          have ended := halts t e u eq
          rw [ended.items_eq]
          exact ended
        | ok a =>
          apply ih
          have := lessens t a u eq
          omega

theorem items_of_halts (halts : walk.Halts) (limit : Nat) (t : τ) :
    ∃ data : List α, (walk.items limit t).1 = data.map .ok ∨
      ∃ e, (walk.items limit t).1 = data.map .ok ++ [.error e] := by
  induction limit generalizing t with
  | zero => exact ⟨[], .inl rfl⟩
  | succ limit ih =>
    cases eq : walk t with
    | mk item u =>
      cases item with
      | none => exact ⟨[], .inl (by rw [items_of_none eq]; rfl)⟩
      | some item =>
        rw [items_of_some eq]
        cases item with
        | error e => exact ⟨[], .inr ⟨e, by rw [(halts t e u eq).items_eq]; rfl⟩⟩
        | ok a =>
          obtain ⟨data, whole | ⟨e, cut⟩⟩ := ih u
          · exact ⟨a :: data, .inl (by simp [whole])⟩
          · exact ⟨a :: data, .inr ⟨e, by simp [cut]⟩⟩

end ends

/-! ## Two walks in step -/

/-- Two walks take a step with the same outcome, or the first one ends with a failure of its own. -/
def InStep (walk : Walk ε τ α) (other : Walk ε ρ α) (rel : τ → ρ → Prop) (broken : ε → τ → Prop)
    (t : τ) (r : ρ) : Prop :=
  (walk t).1 = (other r).1 ∧ rel (walk t).2 (other r).2 ∨
    ∃ e u, walk t = (some (.error e), u) ∧ broken e u ∧ walk.Over u

theorem items_inStep {walk : Walk ε τ α} {other : Walk ε ρ α} {rel : τ → ρ → Prop}
    {broken : ε → τ → Prop} (step : ∀ t r, rel t r → walk.InStep other rel broken t r) (limit : Nat)
    {t : τ} {r : ρ} (related : rel t r) :
    (walk.items limit t).1 = (other.items limit r).1 ∧
        rel (walk.items limit t).2 (other.items limit r).2 ∨
      ∃ shown e, broken e (walk.items limit t).2 ∧
        (walk.items limit t).1 = (other.items limit r).1.take shown ++ [.error e] := by
  induction limit generalizing t r with
  | zero => exact .inl ⟨rfl, related⟩
  | succ limit ih =>
    rcases step t r related with ⟨same, related⟩ | ⟨e, u, eq, own, ended⟩
    · cases eq : walk t with
      | mk item u =>
        cases eq' : other r with
        | mk item' v =>
          rw [eq, eq'] at same related
          obtain rfl : item = item' := same
          cases item with
          | none =>
            rw [items_of_none eq, items_of_none eq']
            exact .inl ⟨rfl, related⟩
          | some item =>
            rw [items_of_some eq, items_of_some eq']
            rcases ih related with ⟨rest, related⟩ | ⟨shown, e, own, rest⟩
            · exact .inl ⟨congrArg _ rest, related⟩
            · exact .inr ⟨shown + 1, e, own, congrArg _ rest⟩
    · rw [items_of_some eq, ended.items_eq]
      exact .inr ⟨0, e, own, rfl⟩

theorem items_inStep_of_halts {walk : Walk ε τ α} {other : Walk ε ρ α} {rel : τ → ρ → Prop}
    {broken : ε → τ → Prop} (halts : walk.Halts)
    (step : ∀ t r, rel t r → walk.InStep other rel broken t r) (limit : Nat) {t : τ} {r : ρ}
    (related : rel t r) :
    (walk.items limit t).1 = (other.items limit r).1 ∧
        rel (walk.items limit t).2 (other.items limit r).2 ∨
      ∃ (data : List α) (e : ε), broken e (walk.items limit t).2 ∧
        data.map .ok <+: (other.items limit r).1 ∧
        (walk.items limit t).1 = data.map .ok ++ [.error e] := by
  rcases items_inStep step limit related with same | ⟨shown, e, own, cut⟩
  · exact .inl same
  -- only the last item of such a walk can be a failure, and the last one here is
  obtain ⟨data, whole | ⟨e', failed⟩⟩ := items_of_halts halts limit t
  · have member : Except.error e ∈ data.map (Except.ok : α → Except ε α) := by
      rw [← whole, cut]
      simp
    simp at member
  · obtain ⟨front, last⟩ := List.append_inj' (cut.symm.trans failed) rfl
    refine .inr ⟨data, e, own, ?_, by rw [cut, front]⟩
    rw [← front]
    exact List.take_prefix shown _

end ConstDb.Walk
