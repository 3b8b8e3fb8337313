/-!
# Transducers

A transducer reads its input one symbol at a time and answers each with at most
one output. Its input may arrive in pieces of any size.

Results:
1. `feed_append`, `feedAll_eq`: only the concatenation of the pieces matters.
2. `Reachable.invariant`: what holds at first and is kept by every symbol holds in
   every reachable state.
-/

universe u v w

/-- A transducer with states `S`, inputs `I` and outputs `O`. -/
structure Transducer (S : Type u) (I : Type v) (O : Type w) where
  step : S → I → S × Option O

namespace Transducer

variable {S : Type u} {I : Type v} {O : Type w} (T : Transducer S I O)

/-- Read a list of symbols: the state after it, and what was answered. -/
def feed (s : S) : List I → S × List O
  | [] => (s, [])
  | i :: rest =>
    let next := feed (T.step s i).1 rest
    (next.1, (T.step s i).2.toList ++ next.2)

/-- Read a list of pieces. -/
def feedAll (s : S) : List (List I) → S × List O
  | [] => (s, [])
  | piece :: rest =>
    let next := feedAll (T.feed s piece).1 rest
    (next.1, (T.feed s piece).2 ++ next.2)

/-- The states that some input leads to. -/
def Reachable (start s : S) : Prop := ∃ input, (T.feed start input).1 = s

variable {T} {s s₀ t : S}

theorem feed_nil : T.feed s [] = (s, []) := rfl

theorem feed_cons (i : I) (rest : List I) : T.feed s (i :: rest) =
    ((T.feed (T.step s i).1 rest).1, (T.step s i).2.toList ++ (T.feed (T.step s i).1 rest).2) := rfl

theorem feed_append (first second : List I) : T.feed s (first ++ second) =
    ((T.feed (T.feed s first).1 second).1,
      (T.feed s first).2 ++ (T.feed (T.feed s first).1 second).2) := by
  induction first generalizing s with
  | nil => rfl
  | cons i first ih => rw [List.cons_append, feed_cons, feed_cons, ih, List.append_assoc]

theorem feed_singleton (i : I) : T.feed s [i] = ((T.step s i).1, (T.step s i).2.toList) := by
  rw [feed_cons, feed_nil, List.append_nil]

/-- A piece that is read silently only moves the state. -/
theorem feed_silent {first : List I} (h : T.feed s first = (t, [])) (second : List I) :
    T.feed s (first ++ second) = T.feed t second := by
  rw [feed_append, h]
  rfl

theorem feed_cons_silent {i : I} (h : T.step s i = (t, none)) (rest : List I) :
    T.feed s (i :: rest) = T.feed t rest := by
  rw [feed_cons, h]
  rfl

/-- Only the concatenation of the pieces matters. -/
theorem feedAll_eq (pieces : List (List I)) : T.feedAll s pieces = T.feed s pieces.flatten := by
  induction pieces generalizing s with
  | nil => rfl
  | cons piece rest ih => rw [List.flatten_cons, feed_append, feedAll, ih]

theorem Reachable.init : T.Reachable s₀ s₀ := ⟨[], rfl⟩

theorem Reachable.feed (h : T.Reachable s₀ s) (input : List I) :
    T.Reachable s₀ (T.feed s input).1 := by
  obtain ⟨first, rfl⟩ := h
  exact ⟨first ++ input, by rw [feed_append]⟩

/-- The invariant rule. -/
theorem Reachable.invariant {P : S → Prop} (hstart : P s₀)
    (hstep : ∀ s i, P s → P (T.step s i).1) (h : T.Reachable s₀ s) : P s := by
  obtain ⟨input, rfl⟩ := h
  induction input generalizing s₀ with
  | nil => exact hstart
  | cons i rest ih => exact ih (hstep s₀ i hstart)

end Transducer
