/-!
# Computations that change a state and may stop with an error

`Exec σ ε α` is a method that changes a state `σ` in place and returns either a
value or an error. The state is *not* rolled back by an error: whatever was
changed before the error stays changed. Whether a failing method left
its state alone is therefore a property to prove, and the rules below prove it
along the structure of the method.

Results:
1. `run_bind_ok`, `run_bind_error`: inversion of sequencing.
2. `Atomic.read_bind`, `Atomic.bind_infallible`: a method is atomic when it reads
   first, then takes one atomic step, and cannot fail after it.
3. `Moves.bind`: a method moves the state along a transitive relation when its parts do.
-/

universe u v

/-- A computation over a state `σ` that may stop with an error `ε`. -/
abbrev Exec (σ ε : Type u) := ExceptT ε (StateM σ)

namespace Exec

variable {σ ε α β τ : Type u}

/-- Run a computation: its result, and the state it leaves. -/
def run (m : Exec σ ε α) (s : σ) : Except ε α × σ := StateT.run (ExceptT.run m) s

/-- A computation that only reads the state. -/
def reads (f : σ → Except ε α) : Exec σ ε α := ExceptT.mk fun s => (f s, s)

/-- A computation that changes the state and cannot fail. -/
def act (f : σ → α × σ) : Exec σ ε α := ExceptT.mk fun s => (.ok (f s).1, (f s).2)

@[simp] theorem run_pure (a : α) (s : σ) : run (pure a : Exec σ ε α) s = (.ok a, s) := rfl

@[simp] theorem run_throw (e : ε) (s : σ) : run (throw e : Exec σ ε α) s = (.error e, s) := rfl

@[simp] theorem run_reads (f : σ → Except ε α) (s : σ) : run (reads f) s = (f s, s) := rfl

@[simp] theorem run_act (f : σ → α × σ) (s : σ) :
    run (act f : Exec σ ε α) s = (.ok (f s).1, (f s).2) := rfl

theorem run_bind (m : Exec σ ε α) (f : α → Exec σ ε β) (s : σ) :
    run (m >>= f) s = match run m s with
      | (.ok a, s') => run (f a) s'
      | (.error e, s') => (.error e, s') := by
  unfold run StateT.run ExceptT.run
  simp only [bind, ExceptT.bind, ExceptT.mk, StateT.bind, ExceptT.bindCont]
  cases m s with
  | mk r s' => cases r <;> rfl

/-- A sequence returns a value exactly when both of its parts do. -/
theorem run_bind_ok {m : Exec σ ε α} {f : α → Exec σ ε β} {s s'' : σ} {b : β} :
    run (m >>= f) s = (.ok b, s'') ↔
      ∃ a s', run m s = (.ok a, s') ∧ run (f a) s' = (.ok b, s'') := by
  rw [run_bind]
  cases h : run m s with
  | mk r s' =>
    cases r with
    | error e => simp
    | ok a =>
      constructor
      · exact fun h => ⟨a, s', rfl, h⟩
      · rintro ⟨a', t, ha, h⟩
        cases ha
        exact h

/-- A sequence stops with an error exactly when one of its parts does. -/
theorem run_bind_error {m : Exec σ ε α} {f : α → Exec σ ε β} {s s'' : σ} {e : ε} :
    run (m >>= f) s = (.error e, s'') ↔
      run m s = (.error e, s'') ∨
        ∃ a s', run m s = (.ok a, s') ∧ run (f a) s' = (.error e, s'') := by
  rw [run_bind]
  cases h : run m s with
  | mk r s' =>
    cases r with
    | error e => simp
    | ok a =>
      constructor
      · exact fun h => .inr ⟨a, s', rfl, h⟩
      · rintro (h | ⟨a', t, ha, h⟩)
        · cases h
        · cases ha
          exact h

/-! ## Frames and atomicity -/

/-- The computation never changes the view `v` of the state. -/
def Keeps (v : σ → τ) (m : Exec σ ε α) : Prop := ∀ s, v (run m s).2 = v s

/-- The computation never stops with an error in `E`. -/
def Infallible (E : ε → Prop) (m : Exec σ ε α) : Prop := ∀ s e, (run m s).1 = .error e → ¬ E e

/-- A computation that stops with an error in `E` leaves the view `v` as it was. -/
def Atomic (E : ε → Prop) (v : σ → τ) (m : Exec σ ε α) : Prop :=
  ∀ s e, (run m s).1 = .error e → E e → v (run m s).2 = v s

variable {E : ε → Prop} {v : σ → τ}

theorem keeps_reads (f : σ → Except ε α) : Keeps v (reads f) := fun _ => rfl

theorem Keeps.atomic {m : Exec σ ε α} (h : Keeps v m) : Atomic E v m := fun s _ _ _ => h s

theorem Infallible.atomic {m : Exec σ ε α} (h : Infallible E m) : Atomic E v m :=
  fun s e he hE => absurd hE (h s e he)

theorem infallible_pure (a : α) : Infallible E (pure a : Exec σ ε α) := by
  intro s e he
  simp at he

theorem infallible_act (f : σ → α × σ) : Infallible E (act f : Exec σ ε α) := by
  intro s e he
  simp at he

theorem Infallible.bind {m : Exec σ ε α} {f : α → Exec σ ε β} (hm : Infallible E m)
    (hf : ∀ a, Infallible E (f a)) : Infallible E (m >>= f) := by
  intro s e he
  obtain ⟨s'', hs⟩ : ∃ s'', run (m >>= f) s = (.error e, s'') := ⟨_, Prod.ext he rfl⟩
  rcases run_bind_error.mp hs with h | ⟨a, s', _, h⟩
  · exact hm s e (by rw [h])
  · exact hf a s' e (by rw [h])

/-- Reading first keeps a method atomic. -/
theorem Atomic.read_bind {m : Exec σ ε α} {f : α → Exec σ ε β} (hm : Keeps v m)
    (hf : ∀ a, Atomic E v (f a)) : Atomic E v (m >>= f) := by
  intro s e he hE
  obtain ⟨s'', hs⟩ : ∃ s'', run (m >>= f) s = (.error e, s'') := ⟨_, Prod.ext he rfl⟩
  rw [hs]
  rcases run_bind_error.mp hs with h | ⟨a, s', hm', h⟩
  · have := hm s
    rwa [h] at this
  · have hkeep := hm s
    have hlate := hf a s' e (by rw [h]) hE
    rw [hm'] at hkeep
    rw [h] at hlate
    exact hlate.trans hkeep

/-- Code that cannot fail keeps a method atomic. -/
theorem Atomic.bind_infallible {m : Exec σ ε α} {f : α → Exec σ ε β} (hm : Atomic E v m)
    (hf : ∀ a, Infallible E (f a)) : Atomic E v (m >>= f) := by
  intro s e he hE
  obtain ⟨s'', hs⟩ : ∃ s'', run (m >>= f) s = (.error e, s'') := ⟨_, Prod.ext he rfl⟩
  rw [hs]
  rcases run_bind_error.mp hs with h | ⟨a, s', _, h⟩
  · have := hm s e (by rw [h]) hE
    rwa [h] at this
  · exact absurd hE (hf a s' e (by rw [h]))

/-! ## Moves along a relation -/

/-- Every run of the computation moves the state along `R`, whether it fails or not. -/
def Moves (R : σ → σ → Prop) (m : Exec σ ε α) : Prop := ∀ s, R s (run m s).2

variable {R : σ → σ → Prop}

theorem moves_pure (hrefl : ∀ s, R s s) (a : α) : Moves R (pure a : Exec σ ε α) := hrefl

theorem moves_throw (hrefl : ∀ s, R s s) (e : ε) : Moves R (throw e : Exec σ ε α) := hrefl

theorem moves_reads (hrefl : ∀ s, R s s) (f : σ → Except ε α) : Moves R (reads f) := hrefl

theorem moves_act {f : σ → α × σ} (h : ∀ s, R s (f s).2) : Moves R (act f : Exec σ ε α) := h

theorem Moves.bind (htrans : ∀ {a b c}, R a b → R b c → R a c) {m : Exec σ ε α}
    {f : α → Exec σ ε β} (hm : Moves R m) (hf : ∀ a, Moves R (f a)) : Moves R (m >>= f) := by
  intro s
  have hfirst := hm s
  rw [run_bind]
  cases hrun : run m s with
  | mk r s' =>
    rw [hrun] at hfirst
    cases r with
    | error e => exact hfirst
    | ok a => exact htrans hfirst (hf a s')

end Exec
