import ConstDb.Proofs.Effect

/-!
# Actions in step

Two actions that run side by side, on states of their own. `InStep` says how they end: both with an
answer or both with the same failure, unless the first one breaks off, with a failure that the second
one need not share. There is one rule for each way to put actions together, as there is for `Ends`;
`InStep.of_ends` is for two actions that do not depend on each other.
-/

namespace ConstDb.Effect

section rules
variable {ε δ σ τ ρ ν α β γ η : Type}
variable {action : Effect ε σ α} {other : Effect ε τ β} {s : σ} {t : τ}
variable {post : α → σ → β → τ → Prop} {failed : ε → σ → τ → Prop} {broken : ε → σ → Prop}

def InStep (action : Effect ε σ α) (other : Effect ε τ β) (s : σ) (t : τ)
    (post : α → σ → β → τ → Prop) (failed : ε → σ → τ → Prop) (broken : ε → σ → Prop) : Prop :=
  match action s, other t with
  | .ok a s', .ok b t' => post a s' b t'
  | .error e s', .error e' t' => e = e' ∧ failed e s' t' ∨ broken e s'
  | .error e s', .ok _ _ => broken e s'
  | .ok _ _, .error _ _ => False

/-- The answers are the same, and the states are still related. -/
def Alike (rel : σ → τ → Prop) (a : α) (s : σ) (b : α) (t : τ) : Prop := a = b ∧ rel s t

/-- The states are as they were. -/
def Unmoved (s : σ) (t : τ) (s' : σ) (t' : τ) : Prop := s' = s ∧ t' = t

/-- Two actions answer alike or fail alike, and leave related states, unless the first one breaks off. -/
abbrev InUnison (rel : σ → τ → Prop) (broken : ε → σ → Prop) (action : Effect ε σ α)
    (other : Effect ε τ α) (s : σ) (t : τ) : Prop :=
  InStep action other s t (Alike rel) (fun _ => rel) broken

theorem InStep.cases (step : InStep action other s t post failed broken) :
    (∃ a s' b t', action s = .ok a s' ∧ other t = .ok b t' ∧ post a s' b t') ∨
    (∃ e s' t', action s = .error e s' ∧ other t = .error e t' ∧ failed e s' t') ∨
    (∃ e s', action s = .error e s' ∧ broken e s') := by
  unfold InStep at step
  cases eq : action s with
  | ok a s' =>
    cases eq' : other t with
    | ok b t' =>
      rw [eq, eq'] at step
      exact .inl ⟨a, s', b, t', rfl, rfl, step⟩
    | error e t' =>
      rw [eq, eq'] at step
      exact step.elim
  | error e s' =>
    cases eq' : other t with
    | ok b t' =>
      rw [eq, eq'] at step
      exact .inr (.inr ⟨e, s', rfl, step⟩)
    | error e' t' =>
      rw [eq, eq'] at step
      rcases step with ⟨rfl, rel⟩ | alone
      · exact .inr (.inl ⟨e, s', t', rfl, rfl, rel⟩)
      · exact .inr (.inr ⟨e, s', rfl, alone⟩)

theorem inStep_of_ok {s' : σ} {t' : τ} {a : α} {b : β} (eq : action s = .ok a s')
    (eq' : other t = .ok b t') (h : post a s' b t') : InStep action other s t post failed broken := by
  unfold InStep
  rwa [eq, eq']

theorem inStep_of_error {s' : σ} {t' : τ} {e : ε} (eq : action s = .error e s')
    (eq' : other t = .error e t') (h : failed e s' t') :
    InStep action other s t post failed broken := by
  unfold InStep
  rw [eq, eq']
  exact .inl ⟨rfl, h⟩

theorem inStep_of_broken {s' : σ} {e : ε} (eq : action s = .error e s') (h : broken e s') :
    InStep action other s t post failed broken := by
  unfold InStep
  rw [eq]
  cases other t with
  | ok b t' => exact h
  | error e' t' => exact .inr h

theorem InStep.of_ok {rel : σ → τ → Prop} {other : Effect ε τ α} {a : α} {t' : τ}
    (step : InStep action other s t (Alike rel) failed broken) (eq : other t = .ok a t') :
    (∃ s', action s = .ok a s' ∧ rel s' t') ∨ ∃ e s', action s = .error e s' ∧ broken e s' := by
  rcases step.cases with ⟨a, s', b, t', here, there, rfl, related⟩ | ⟨e, s', t', here, there, -⟩ |
    ⟨e, s', here, alone⟩
  · obtain ⟨rfl, rfl⟩ := EStateM.Result.ok.inj (eq.symm.trans there)
    exact .inl ⟨s', here, related⟩
  · cases eq.symm.trans there
  · exact .inr ⟨e, s', here, alone⟩

theorem InStep.of_error {rel : σ → τ → Prop} {other : Effect ε τ α} {e : ε} {t' : τ}
    (step : InUnison rel (fun _ _ => False) action other s t) (eq : other t = .error e t') :
    ∃ s', action s = .error e s' ∧ rel s' t' := by
  rcases step.cases with ⟨a, s', b, t', -, there, -⟩ | ⟨e, s', t', here, there, related⟩ |
    ⟨e, s', -, never⟩
  · cases eq.symm.trans there
  · obtain ⟨rfl, rfl⟩ := EStateM.Result.error.inj (eq.symm.trans there)
    exact ⟨s', here, related⟩
  · exact never.elim

theorem InStep.of_eq {action' : Effect ε σ α} {other' : Effect ε τ β} {s' : σ} {t' : τ}
    (step : InStep action' other' s' t' post failed broken) (eq : action s = action' s')
    (eq' : other t = other' t') : InStep action other s t post failed broken := by
  unfold InStep at *
  rwa [eq, eq']

theorem InStep.of_ends {good : α → σ → Prop} {good' : β → τ → Prop}
    (ends : Ends action s good broken) (ends' : Ends other t good' fun _ _ => False)
    (both : ∀ a s b t, good a s → good' b t → post a s b t) :
    InStep action other s t post failed broken := by
  obtain ⟨b, t', eq', h'⟩ := ends'.exists_ok fun _ _ => id
  cases eq : action s with
  | ok a s' => exact inStep_of_ok eq eq' (both _ _ _ _ (ends.of_ok eq) h')
  | error e s' => exact inStep_of_broken eq (ends.of_error eq)

theorem InStep.mono {post' : α → σ → β → τ → Prop} {failed' : ε → σ → τ → Prop} {broken' : ε → σ → Prop}
    (step : InStep action other s t post failed broken)
    (ok : ∀ a s b t, post a s b t → post' a s b t) (error : ∀ e s t, failed e s t → failed' e s t)
    (alone : ∀ e s, broken e s → broken' e s) : InStep action other s t post' failed' broken' := by
  rcases step.cases with ⟨a, s', b, t', eq, eq', h⟩ | ⟨e, s', t', eq, eq', h⟩ | ⟨e, s', eq, h⟩
  · exact inStep_of_ok eq eq' (ok _ _ _ _ h)
  · exact inStep_of_error eq eq' (error _ _ _ h)
  · exact inStep_of_broken eq (alone _ _ h)

theorem inStep_pure {a : α} {b : β} (h : post a s b t) :
    InStep (pure a) (pure b) s t post failed broken :=
  inStep_of_ok rfl rfl h

theorem inStep_throw {e : ε} (h : failed e s t) :
    InStep (throw e : Effect ε σ α) (throw e : Effect ε τ β) s t post failed broken :=
  inStep_of_error rfl rfl h

theorem inStep_modify {f : σ → σ} {g : τ → τ} {post : PUnit → σ → PUnit → τ → Prop}
    (h : post ⟨⟩ (f s) ⟨⟩ (g t)) : InStep (modify f) (modify g) s t post failed broken :=
  inStep_of_ok rfl rfl h

theorem inStep_ofExcept {answer : Except ε α} {post : α → σ → α → τ → Prop}
    (ok : ∀ a, answer = .ok a → post a s a t)
    (error : ∀ e, answer = .error e → failed e s t) :
    InStep (ofExcept answer) (ofExcept answer) s t post failed broken := by
  cases answer with
  | ok a => exact inStep_of_ok rfl rfl (ok a rfl)
  | error e => exact inStep_of_error rfl rfl (error e rfl)

theorem InStep.bind {next : α → Effect ε σ γ} {next' : β → Effect ε τ η}
    {between : α → σ → β → τ → Prop} {post : γ → σ → η → τ → Prop}
    (step : InStep action other s t between failed broken)
    (rest : ∀ a s b t, between a s b t → InStep (next a) (next' b) s t post failed broken) :
    InStep (action >>= next) (other >>= next') s t post failed broken := by
  rcases step.cases with ⟨a, s', b, t', eq, eq', h⟩ | ⟨e, s', t', eq, eq', h⟩ | ⟨e, s', eq, h⟩
  · exact (rest a s' b t' h).of_eq (by rw [bind_apply, eq]) (by rw [bind_apply, eq'])
  · exact inStep_of_error (by rw [bind_apply, eq]) (by rw [bind_apply, eq']) h
  · exact inStep_of_broken (by rw [bind_apply, eq]) h

theorem InStep.get_bind {next : σ → Effect ε σ γ} {next' : τ → Effect ε τ η}
    {post : γ → σ → η → τ → Prop} (step : InStep (next s) (next' t) s t post failed broken) :
    InStep (get >>= next) (get >>= next') s t post failed broken :=
  step.of_eq rfl rfl

theorem InStep.adaptExcept {f : ε → δ} {failed : δ → σ → τ → Prop} {broken : δ → σ → Prop}
    (step : InStep action other s t post (fun e s t => failed (f e) s t) fun e s => broken (f e) s) :
    InStep (EStateM.adaptExcept f action) (EStateM.adaptExcept f other) s t post failed broken := by
  rcases step.cases with ⟨a, s', b, t', eq, eq', h⟩ | ⟨e, s', t', eq, eq', h⟩ | ⟨e, s', eq, h⟩
  · exact inStep_of_ok (by rw [adaptExcept_apply, eq]) (by rw [adaptExcept_apply, eq']) h
  · exact inStep_of_error (by rw [adaptExcept_apply, eq]) (by rw [adaptExcept_apply, eq']) h
  · exact inStep_of_broken (by rw [adaptExcept_apply, eq]) h

theorem InStep.within {focus : ρ → σ × (σ → ρ)} {focus' : ν → τ × (τ → ν)} {r : ρ} {n : ν}
    {post : α → ρ → β → ν → Prop} {failed : ε → ρ → ν → Prop} {broken : ε → ρ → Prop}
    (step : InStep action other (focus r).1 (focus' n).1
      (fun a s b t => post a ((focus r).2 s) b ((focus' n).2 t))
      (fun e s t => failed e ((focus r).2 s) ((focus' n).2 t)) fun e s => broken e ((focus r).2 s)) :
    InStep (within focus action) (within focus' other) r n post failed broken := by
  rcases step.cases with ⟨a, s', b, t', eq, eq', h⟩ | ⟨e, s', t', eq, eq', h⟩ | ⟨e, s', eq, h⟩
  · exact inStep_of_ok (by simp only [Effect.within, eq]) (by simp only [Effect.within, eq']) h
  · exact inStep_of_error (e := e) (by simp only [Effect.within, eq])
      (by simp only [Effect.within, eq']) h
  · exact inStep_of_broken (e := e) (by simp only [Effect.within, eq]) h

/-- The first halves are the same, and the second halves are related. -/
def OnSecond (rel : σ → τ → Prop) (state : ρ × σ) (other : ρ × τ) : Prop :=
  state.1 = other.1 ∧ rel state.2 other.2

theorem InStep.onSecond {rel : σ → τ → Prop} {other : Effect ε τ α} {first : ρ}
    (step : InUnison rel broken action other s t) :
    InUnison (OnSecond rel) (fun e state => broken e state.2) (onSecond action) (onSecond other)
      (first, s) (first, t) :=
  InStep.within (step.mono (fun _ _ _ _ h => ⟨h.1, rfl, h.2⟩) (fun _ _ _ related => ⟨rfl, related⟩)
    fun _ _ h => h)

/-! ## Answers in step -/

theorem InStep.answer_cases {rel : σ → τ → Prop} {other : Effect ε τ α}
    (step : InUnison rel broken action other s t) :
    action.answer s = other.answer t ∧ rel (action.leaves s) (other.leaves t) ∨
      ∃ e, action.answer s = .error e ∧ broken e (action.leaves s) := by
  rcases step.cases with ⟨a, s', b, t', eq, eq', same, related⟩ | ⟨e, s', t', eq, eq', related⟩ |
    ⟨e, s', eq, alone⟩
  · exact .inl ⟨by simp [answer, eq, eq', same], by simpa [leaves, eq, eq']⟩
  · exact .inl ⟨by simp [answer, eq, eq'], by simpa [leaves, eq, eq']⟩
  · exact .inr ⟨e, by simp [answer, eq], by simpa [leaves, eq]⟩

theorem InStep.answer_eq {rel : σ → τ → Prop} {other : Effect ε τ α}
    (step : InUnison rel (fun _ _ => False) action other s t) :
    action.answer s = other.answer t ∧ rel (action.leaves s) (other.leaves t) := by
  rcases step.answer_cases with alike | ⟨e, -, never⟩
  · exact alike
  · exact never.elim

-- from here on the rules are the only way in, as they are for `Ends`
attribute [irreducible] InStep

end rules

end ConstDb.Effect
