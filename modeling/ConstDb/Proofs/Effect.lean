import ConstDb.Effect

/-!
# Reasoning about effects

`Ends action s post failed` says how an action that starts in `s` ends: with an answer and a state
that satisfy `post`, or with a failure and a state that satisfy `failed`. There is one rule for each
way to put actions together.
-/

namespace ConstDb.Effect

section rules
variable {ε δ σ τ α β : Type}

def Ends (action : Effect ε σ α) (s : σ) (post : α → σ → Prop) (failed : ε → σ → Prop) : Prop :=
  match action s with
  | .ok a t => post a t
  | .error e t => failed e t

theorem Ends.of_ok {action : Effect ε σ α} {s t : σ} {a : α} {post : α → σ → Prop}
    {failed : ε → σ → Prop} (ends : Ends action s post failed) (eq : action s = .ok a t) :
    post a t := by
  unfold Ends at ends
  rwa [eq] at ends

theorem Ends.of_error {action : Effect ε σ α} {s t : σ} {e : ε} {post : α → σ → Prop}
    {failed : ε → σ → Prop} (ends : Ends action s post failed) (eq : action s = .error e t) :
    failed e t := by
  unfold Ends at ends
  rwa [eq] at ends

theorem ends_of_ok {action : Effect ε σ α} {s t : σ} {a : α} {post : α → σ → Prop}
    {failed : ε → σ → Prop} (eq : action s = .ok a t) (h : post a t) :
    Ends action s post failed := by
  unfold Ends
  rwa [eq]

theorem ends_of_error {action : Effect ε σ α} {s t : σ} {e : ε} {post : α → σ → Prop}
    {failed : ε → σ → Prop} (eq : action s = .error e t) (h : failed e t) :
    Ends action s post failed := by
  unfold Ends
  rwa [eq]

theorem Ends.of_eq {action other : Effect ε σ α} {s t : σ} {post : α → σ → Prop}
    {failed : ε → σ → Prop} (ends : Ends other t post failed) (eq : action s = other t) :
    Ends action s post failed := by
  unfold Ends at *
  rwa [eq]

theorem Ends.exists_ok {action : Effect ε σ α} {s : σ} {post : α → σ → Prop} {failed : ε → σ → Prop}
    (ends : Ends action s post failed) (never : ∀ e t, ¬ failed e t) :
    ∃ a t, action s = .ok a t ∧ post a t := by
  cases eq : action s with
  | ok a t => exact ⟨a, t, rfl, ends.of_ok eq⟩
  | error e t => exact absurd (ends.of_error eq) (never e t)

theorem Ends.mono {action : Effect ε σ α} {s : σ} {post post' : α → σ → Prop}
    {failed failed' : ε → σ → Prop} (ends : Ends action s post failed)
    (ok : ∀ a t, post a t → post' a t) (error : ∀ e t, failed e t → failed' e t) :
    Ends action s post' failed' := by
  unfold Ends at *
  split <;> rename_i eq <;> rw [eq] at ends
  · exact ok _ _ ends
  · exact error _ _ ends

theorem ends_pure {a : α} {s : σ} {post : α → σ → Prop} {failed : ε → σ → Prop} (h : post a s) :
    Ends (pure a) s post failed := h

theorem ends_throw {e : ε} {s : σ} {post : α → σ → Prop} {failed : ε → σ → Prop} (h : failed e s) :
    Ends (throw e) s post failed := h

theorem ends_get {s : σ} {post : σ → σ → Prop} {failed : ε → σ → Prop} (h : post s s) :
    Ends get s post failed := h

theorem ends_modify {f : σ → σ} {s : σ} {post : PUnit → σ → Prop} {failed : ε → σ → Prop}
    (h : post ⟨⟩ (f s)) : Ends (modify f) s post failed := h

theorem Ends.bind {action : Effect ε σ α} {next : α → Effect ε σ β} {s : σ} {post : β → σ → Prop}
    {failed : ε → σ → Prop}
    (ends : Ends action s (fun a t => Ends (next a) t post failed) failed) :
    Ends (action >>= next) s post failed := by
  unfold Ends at ends ⊢
  rw [bind_apply]
  cases eq : action s with
  | ok a t => rw [eq] at ends; exact ends
  | error e t => rw [eq] at ends; exact ends

theorem ends_ofExcept {answer : Except ε α} {s : σ} {post : α → σ → Prop} {failed : ε → σ → Prop}
    (ok : ∀ a, answer = .ok a → post a s) (error : ∀ e, answer = .error e → failed e s) :
    Ends (ofExcept answer) s post failed := by
  cases answer with
  | ok a => exact ok a rfl
  | error e => exact error e rfl

theorem adaptExcept_apply (f : ε → δ) (action : Effect ε σ α) (s : σ) :
    EStateM.adaptExcept f action s = match action s with
      | .ok a t => .ok a t
      | .error e t => .error (f e) t := by
  unfold EStateM.adaptExcept
  cases action s <;> rfl

theorem Ends.adaptExcept {action : Effect ε σ α} {f : ε → δ} {s : σ} {post : α → σ → Prop}
    {failed : δ → σ → Prop} (ends : Ends action s post fun e t => failed (f e) t) :
    Ends (EStateM.adaptExcept f action) s post failed := by
  unfold Ends at ends ⊢
  rw [adaptExcept_apply]
  cases eq : action s with
  | ok a t => rw [eq] at ends; exact ends
  | error e t => rw [eq] at ends; exact ends

theorem Ends.within {focus : τ → σ × (σ → τ)} {action : Effect ε σ α} {t : τ}
    {post : α → τ → Prop} {failed : ε → τ → Prop}
    (ends : Ends action (focus t).1 (fun a s => post a ((focus t).2 s))
      fun e s => failed e ((focus t).2 s)) :
    Ends (within focus action) t post failed := by
  unfold Ends at ends ⊢
  cases eq : action (focus t).1 with
  | ok a s => rw [eq] at ends; simpa only [Effect.within, eq] using ends
  | error e s => rw [eq] at ends; simpa only [Effect.within, eq] using ends

theorem Ends.cleaningUp {action : Effect ε σ α} {cleanup : Effect δ σ β} {s : σ} {post : α → σ → Prop}
    {failed failed' : ε → σ → Prop} (ends : Ends action s post failed)
    (after : ∀ e t, failed e t → Ends cleanup t (fun _ u => failed' e u) (fun _ u => failed' e u)) :
    Ends (cleaningUp action cleanup) s post failed' := by
  unfold Ends Effect.cleaningUp at *
  cases eq : action s with
  | ok a t => rw [eq] at ends; exact ends
  | error e t =>
    rw [eq] at ends
    have after := after e t ends
    dsimp only
    cases cleaned : cleanup t with
    | ok b u => rw [cleaned] at after; exact after
    | error e' u => rw [cleaned] at after; exact after

theorem within_ok {focus : τ → σ × (σ → τ)} {action : Effect ε σ α} {t : τ} {a : α} {s : σ}
    (eq : action (focus t).1 = .ok a s) : within focus action t = .ok a ((focus t).2 s) := by
  simp only [Effect.within, eq]

theorem within_error {focus : τ → σ × (σ → τ)} {action : Effect ε σ α} {t : τ} {e : ε} {s : σ}
    (eq : action (focus t).1 = .error e s) : within focus action t = .error e ((focus t).2 s) := by
  simp only [Effect.within, eq]

theorem onSecond_ok {action : Effect ε σ α} {s t : σ} {a : α} (ok : action s = .ok a t) (x : τ) :
    onSecond action (x, s) = .ok a (x, t) := within_ok ok

-- from here on the rules are the only way in, so that no action is ever run by a tactic
attribute [irreducible] Ends

/-! ## Answers and failures -/

/-- What an action answers, whatever state it leaves. -/
def answer (action : Effect ε σ α) (s : σ) : Except ε α :=
  match action s with
  | .ok a _ => .ok a
  | .error e _ => .error e

def leaves (action : Effect ε σ α) (s : σ) : σ :=
  match action s with
  | .ok _ t | .error _ t => t

theorem Ends.leaves {action : Effect ε σ α} {s : σ} {kept : σ → Prop}
    (ends : Ends action s (fun _ t => kept t) fun _ t => kept t) : kept (action.leaves s) := by
  unfold Effect.leaves
  cases eq : action s with
  | ok a t => exact ends.of_ok eq
  | error e t => exact ends.of_error eq

theorem bind_eq_ok_iff {action : Effect ε σ α} {next : α → Effect ε σ β} {s u : σ} {b : β} :
    (action >>= next) s = .ok b u ↔ ∃ a t, action s = .ok a t ∧ next a t = .ok b u := by
  rw [bind_apply]
  cases action s with
  | ok a t => simp [and_assoc]
  | error e t => simp

def failure? (action : Effect ε σ α) (s : σ) : Option ε :=
  match action s with
  | .ok _ _ => none
  | .error e _ => some e

/-- How the clean-up fails that follows a failure of an action. -/
def cleanupFailure? (action : Effect ε σ α) (cleanup : Effect δ σ β) (s : σ) :
    Option δ :=
  match action s with
  | .ok _ _ => none
  | .error _ t => cleanup.failure? t

/-! ## Computed answers -/

theorem except_bind_eq_ok_iff {answer : Except ε α} {next : α → Except ε β} {b : β} :
    (answer >>= next) = .ok b ↔ ∃ a, answer = .ok a ∧ next a = .ok b := by
  constructor
  · intro eq
    cases answer with
    | ok a => exact ⟨a, rfl, eq⟩
    | error e => cases eq
  · intro h
    obtain ⟨a, rfl, eq⟩ := h
    exact eq

end rules

end ConstDb.Effect
