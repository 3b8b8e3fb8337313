/-!
# Machines and what holds in every reachable state

A machine moves by one total step for each action; `admits` is what its
environment promises about an action in a state. `Reach` collects the states
of all runs, of any length and in any order of actions.

Results:
1. `Reach.invariant`: what holds at the start and is kept by every admitted step
   holds in every reachable state.
2. `Reach.map`: a run is a run of every machine that follows through a view.
3. `Reach.of_trace`: a list of admitted actions is a run.
-/

universe u v w

/-- A machine: its step, and what the environment promises about an action. -/
structure Machine (S : Type u) (A : Type v) where
  step : S → A → S
  admits : S → A → Prop

namespace Machine

variable {S : Type u} {A : Type v} (M : Machine S A)

/-- The states of all runs from a starting state. -/
inductive Reach (start : S → Prop) : S → Prop
  | init {s : S} : start s → Reach start s
  | step {s : S} {a : A} : Reach start s → M.admits s a → Reach start (M.step s a)

/-- The state after a list of actions. -/
def run (s : S) (trace : List A) : S := trace.foldl M.step s

/-- Every action of the list is admitted when it comes. -/
def Admitted : S → List A → Prop
  | _, [] => True
  | s, a :: rest => M.admits s a ∧ Admitted (M.step s a) rest

variable {M} {start : S → Prop}

/-- The invariant rule: an invariant may use that its state is reachable. -/
theorem Reach.invariant {I : S → Prop} (hinit : ∀ s, start s → I s)
    (hstep : ∀ s a, M.Reach start s → I s → M.admits s a → I (M.step s a)) {s : S}
    (h : M.Reach start s) : I s := by
  induction h with
  | init hs => exact hinit _ hs
  | step hr ha ih => exact hstep _ _ hr ih ha

/-- A run of a machine is a run of another one that follows it through a view. -/
theorem Reach.map {T : Type w} {N : Machine T A} {start' : T → Prop} (f : S → T)
    (hinit : ∀ s, start s → start' (f s)) (hstep : ∀ s a, f (M.step s a) = N.step (f s) a)
    (hadmits : ∀ s a, M.admits s a → N.admits (f s) a) {s : S} (h : M.Reach start s) :
    N.Reach start' (f s) := by
  induction h with
  | init hs => exact .init (hinit _ hs)
  | step hr ha ih =>
    rw [hstep]
    exact .step ih (hadmits _ _ ha)

/-- A list of admitted actions is a run. -/
theorem Reach.of_trace {s : S} (h : M.Reach start s) (trace : List A) (ha : M.Admitted s trace) :
    M.Reach start (M.run s trace) := by
  induction trace generalizing s with
  | nil => exact h
  | cons a rest ih => exact ih (.step h ha.1) ha.2

instance (s : S) (trace : List A) [hd : ∀ s a, Decidable (M.admits s a)] :
    Decidable (M.Admitted s trace) :=
  match trace with
  | [] => isTrue trivial
  | a :: rest =>
    have : Decidable (M.Admitted (M.step s a) rest) := instDecidableAdmittedOfAdmits _ rest
    inferInstanceAs (Decidable (M.admits s a ∧ M.Admitted (M.step s a) rest))

end Machine
