import Mathlib.Logic.Basic

/-! State-passing computations that may stop with an error, and proof rules for
them. A failed computation keeps the state it reached: nothing is rolled back
unless the program does it. The rules speak about one starting state, so a
postcondition may mention the state before the call. -/

namespace ZnsBase.Library

/-- A computation over `σ` that returns a value or stops with an error. -/
def Effect (σ ε α : Type) : Type := σ → Except ε α × σ

namespace Effect
variable {σ τ ε α β : Type}

protected def pure (value : α) : Effect σ ε α := fun state => (.ok value, state)

protected def bind (first : Effect σ ε α) (next : α → Effect σ ε β) : Effect σ ε β := fun state =>
  match first state with
  | (.ok value, after) => next value after
  | (.error error, after) => (.error error, after)

instance : Monad (Effect σ ε) where
  pure := Effect.pure
  bind := Effect.bind

def fail (error : ε) : Effect σ ε α := fun state => (.error error, state)

def get : Effect σ ε σ := fun state => (.ok state, state)

def modify (change : σ → σ) : Effect σ ε Unit := fun state => (.ok (), change state)

/-- Hand the status of a computation to the caller instead of propagating it. -/
def attempt (program : Effect σ ε α) : Effect σ ε (Except ε α) := fun state =>
  (.ok (program state).1, (program state).2)

/-- Run a computation on a part of the state. -/
def zoom (view : σ → τ) (put : σ → τ → σ) (program : Effect τ ε α) : Effect σ ε α := fun state =>
  ((program (view state)).1, put state (program (view state)).2)

def ofExcept (result : Except ε α) : Effect σ ε α := fun state => (result, state)

/-- Started in `state`, the program ends with a status and a state related by
`post`. Errors are outcomes like any other. -/
def Ensures (program : Effect σ ε α) (state : σ) (post : Except ε α → σ → Prop) : Prop :=
  post (program state).1 (program state).2

theorem bind_ok {first : Effect σ ε α} {next : α → Effect σ ε β} {state after : σ} {value : α}
    (ran : first state = (.ok value, after)) : (first >>= next) state = next value after := by
  change Effect.bind first next state = _
  simp only [Effect.bind, ran]

theorem bind_error {first : Effect σ ε α} {next : α → Effect σ ε β} {state after : σ} {error : ε}
    (ran : first state = (.error error, after)) : (first >>= next) state = (.error error, after) := by
  change Effect.bind first next state = _
  simp only [Effect.bind, ran]

@[simp] theorem pure_run (value : α) (state : σ) : (pure value : Effect σ ε α) state = (.ok value, state) := rfl

@[simp] theorem fail_run (error : ε) (state : σ) : (fail error : Effect σ ε α) state = (.error error, state) := rfl

@[simp] theorem get_bind_run (next : σ → Effect σ ε β) (state : σ) :
    (get >>= next) state = next state state := rfl

@[simp] theorem modify_bind_run (change : σ → σ) (next : Unit → Effect σ ε β) (state : σ) :
    (modify change >>= next) state = next () (change state) := rfl

@[simp] theorem pure_bind_run (value : α) (next : α → Effect σ ε β) (state : σ) :
    (pure value >>= next) state = next value state := rfl

@[simp] theorem fail_bind_run (error : ε) (next : α → Effect σ ε β) (state : σ) :
    ((fail error : Effect σ ε α) >>= next) state = (.error error, state) := rfl

@[simp] theorem attempt_bind_run (program : Effect σ ε α) (next : Except ε α → Effect σ ε β) (state : σ) :
    (attempt program >>= next) state = next (program state).1 (program state).2 := rfl

namespace Ensures
variable {program : Effect σ ε α} {state : σ} {post other : Except ε α → σ → Prop}

theorem pure {value : α} (holds : post (.ok value) state) : Ensures (Pure.pure value) state post := holds

theorem fail {error : ε} (holds : post (.error error) state) : Ensures (Effect.fail error) state post := holds

theorem mono (valid : Ensures program state post)
    (implies : ∀ result after, post result after → other result after) : Ensures program state other :=
  implies _ _ valid

theorem and (first : Ensures program state post) (second : Ensures program state other) :
    Ensures program state (fun result after => post result after ∧ other result after) := ⟨first, second⟩

/-- Sequencing: a value goes on, an error ends the whole program where it is. -/
theorem bind {middle : Except ε α → σ → Prop} {next : α → Effect σ ε β} {final : Except ε β → σ → Prop}
    (first : Ensures program state middle)
    (resume : ∀ value after, middle (.ok value) after → Ensures (next value) after final)
    (stop : ∀ error after, middle (.error error) after → final (.error error) after) :
    Ensures (program >>= next) state final := by
  unfold Ensures at first ⊢
  cases ran : program state with
  | mk result after =>
    rw [ran] at first
    cases result with
    | ok value =>
      rw [bind_ok ran]
      exact resume value after first
    | error error =>
      rw [bind_error ran]
      exact stop error after first

/-- Sequencing after a program whose run is known exactly. -/
theorem run_bind {next : α → Effect σ ε β} {final : Except ε β → σ → Prop}
    (resume : ∀ value after, program state = (.ok value, after) → Ensures (next value) after final)
    (stop : ∀ error after, program state = (.error error, after) → final (.error error) after) :
    Ensures (program >>= next) state final := by
  unfold Ensures
  cases ran : program state with
  | mk result after =>
    cases result with
    | ok value =>
      rw [bind_ok ran]
      exact resume value after ran
    | error error =>
      rw [bind_error ran]
      exact stop error after ran

theorem get_bind {next : σ → Effect σ ε β} {final : Except ε β → σ → Prop}
    (rest : Ensures (next state) state final) : Ensures (Effect.get >>= next) state final := rest

theorem modify_bind {change : σ → σ} {next : Unit → Effect σ ε β} {final : Except ε β → σ → Prop}
    (rest : Ensures (next ()) (change state) final) : Ensures (Effect.modify change >>= next) state final := rest

/-- An attempted program never stops the caller: both outcomes go on. -/
theorem attempt_bind {middle : Except ε α → σ → Prop} {next : Except ε α → Effect σ ε β}
    {final : Except ε β → σ → Prop} (first : Ensures program state middle)
    (rest : ∀ result after, middle result after → Ensures (next result) after final) :
    Ensures (Effect.attempt program >>= next) state final :=
  rest _ _ first

theorem ofExcept_bind {result : Except ε α} {next : α → Effect σ ε β} {final : Except ε β → σ → Prop}
    (resume : ∀ value, result = .ok value → Ensures (next value) state final)
    (stop : ∀ error, result = .error error → final (.error error) state) :
    Ensures (Effect.ofExcept result >>= next) state final := by
  cases result with
  | ok value => exact resume value rfl
  | error error => exact stop error rfl

theorem zoom {view : σ → τ} {put : σ → τ → σ} {inner : Effect τ ε α} {middle : Except ε α → τ → Prop}
    (valid : Ensures inner (view state) middle)
    (implies : ∀ result after, middle result after → post result (put state after)) :
    Ensures (Effect.zoom view put inner) state post :=
  implies _ _ valid

end Ensures
end Effect
end ZnsBase.Library
