import RowFilter.Emission

/-!
# Agreement of emission with evaluation

Emitting code and evaluating an expression are two computations that fail alike and succeed
alike. `Emission.Agrees` relates their outcomes, and the rules below follow the structure of the
two computations, so that each construct of the emitter is compared with its counterpart once.

## Main definitions

- `Emission.Agrees R` — equal errors, or results and emitter in the relation `R`.

The main rule is `Agrees.bind`, for two sequences. `bind_eq_ok_iff` and `bind_eq_error_iff` are
about the outcome of one.
-/

namespace RowFilter

/-- A sequence that succeeds is made of parts that do. -/
theorem exists_of_bind_eq_ok {α β : Type} {value : Except CompileError α}
    {f : α → Except CompileError β} {b : β} (h : value >>= f = .ok b) :
    ∃ a, value = .ok a ∧ f a = .ok b := by
  cases value with
  | error e => cases h
  | ok a => exact ⟨a, rfl, h⟩

namespace Emission

variable {α β γ δ : Type}

/-- An outcome of emission and an outcome of evaluation that belong together. -/
def Agrees (R : α → Emitter → β → Prop) :
    EStateM.Result CompileError Emitter α → Except CompileError β → Prop
  | .ok a s, .ok b => R a s b
  | .error e _, .error e' => e = e'
  | _, _ => False

theorem Agrees.of_ok {R : α → Emitter → β → Prop} {a : α} {s : Emitter}
    {value : Except CompileError β} (h : Agrees R (.ok a s) value) :
    ∃ b, value = .ok b ∧ R a s b := by
  match value, h with
  | .ok b, h => exact ⟨b, rfl, h⟩

theorem Agrees.of_error {R : α → Emitter → β → Prop} {e : CompileError} {s : Emitter}
    {value : Except CompileError β} (h : Agrees R (.error e s) value) : value = .error e := by
  match value, h with
  | .error e', h => exact congrArg Except.error (Eq.symm h)

theorem Agrees.mono {R R' : α → Emitter → β → Prop} {outcome : EStateM.Result CompileError Emitter α}
    {value : Except CompileError β} (h : Agrees R outcome value)
    (hR : ∀ a s b, R a s b → R' a s b) : Agrees R' outcome value := by
  match outcome, value, h with
  | .ok a s, .ok b, h => exact hR a s b h
  | .error _ _, .error _, h => exact h

/-- Two sequences agree if their first parts do and their second parts do on related results. -/
theorem Agrees.bind {R : α → Emitter → β → Prop} {R' : γ → Emitter → δ → Prop}
    {action : Emission α} {value : Except CompileError β} {f : α → Emission γ}
    {g : β → Except CompileError δ} {s : Emitter} (h : Agrees R (action s) value)
    (hnext : ∀ a s' b, R a s' b → Agrees R' (f a s') (g b)) :
    Agrees R' ((action >>= f) s) (value >>= g) := by
  change Agrees R' (EStateM.bind action f s) (Except.bind value g)
  unfold EStateM.bind Except.bind
  match action s, value, h with
  | .ok a s', .ok b, h => exact hnext a s' b h
  | .error _ _, .error _, h => exact h

/-- A sequence succeeds if both of its parts do. -/
theorem bind_eq_ok_iff {action : Emission α} {f : α → Emission β} {b : β} {s s' : Emitter} :
    (action >>= f) s = .ok b s' ↔ ∃ a s'', action s = .ok a s'' ∧ f a s'' = .ok b s' := by
  change EStateM.bind action f s = _ ↔ _
  unfold EStateM.bind
  cases action s with
  | ok a s'' =>
    constructor
    · intro h
      exact ⟨a, s'', rfl, h⟩
    · rintro ⟨_, _, ⟨⟩, h⟩
      exact h
  | error e s'' => simp

/-- A sequence fails where the first of its parts fails. -/
theorem bind_eq_error_iff {action : Emission α} {f : α → Emission β} {e : CompileError}
    {s s' : Emitter} :
    (action >>= f) s = .error e s' ↔
      action s = .error e s' ∨ ∃ a s'', action s = .ok a s'' ∧ f a s'' = .error e s' := by
  change EStateM.bind action f s = _ ↔ _
  unfold EStateM.bind
  cases action s with
  | ok a s'' =>
    constructor
    · intro h
      exact .inr ⟨a, s'', rfl, h⟩
    · rintro (⟨⟨⟩⟩ | ⟨_, _, ⟨⟩, h⟩)
      exact h
  | error e s'' => simp

/-- A step that only adds to the pool hands its result and the new pool on. -/
theorem pooling_bind (action : StateM LiteralPool α) (f : α → Emission β) (s : Emitter) :
    (pooling action >>= f) s = f (action s.pool).1 { s with pool := (action s.pool).2 } :=
  rfl

/-- Popping a stack that is not empty hands on its top. -/
theorem pop_bind {s : Emitter} {v : Operand} {stack : List Operand} (h : s.stack = v :: stack)
    (position : Nat) (f : Operand → Emission β) :
    (pop position >>= f) s = f v { s with stack } := by
  change EStateM.bind (pop position) f s = _
  simp only [EStateM.bind, pop, h]

/-- A computed operand that is then put on the stack. -/
theorem Agrees.push {R : Operand → Emitter → β → Prop} {action : Emission Operand}
    {value : Except CompileError β} {s : Emitter} (h : Agrees R (action s) value) :
    Agrees (fun _ s'' b => ∃ v s', R v s' b ∧ s'' = { s' with stack := v :: s'.stack })
      ((action >>= push) s) value := by
  rw [← bind_pure value]
  exact h.bind fun v s' b hR => ⟨v, s', hR, rfl⟩

end Emission

end RowFilter
