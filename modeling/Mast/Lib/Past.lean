import Mast.Lib.Machine

/-!
# What held in the past

A history is a list with the newest entry first, and a property of a moment is a
property of the history up to that moment. `Since p q` is the operator of past-time
temporal logic: `q` held at some moment, and `p` at every moment after it. A program
that keeps a flag keeps such a formula: it sets the flag when `q` happens and clears it
when `p` fails.

A machine that logs its steps has every entry of the log from one of its own steps.

Results:
1. `since_cons_iff`, `since_newest_iff`: how a step changes the truth of `Since`.
2. `Machine.Reach.logged`: what is shown of a step holds of every entry of a log.
-/

universe u v w

/-- The newest entry of the history has the property. -/
def Newest {α : Type u} (P : α → Prop) : List α → Prop
  | [] => False
  | a :: _ => P a

/-- `q` held at a moment of the history, and `p` at every later one. -/
inductive Since {α : Type u} (p q : List α → Prop) : List α → Prop
  | here {h : List α} : q h → Since p q h
  | later {a : α} {h : List α} : p (a :: h) → Since p q h → Since p q (a :: h)

namespace PastLemmas

variable {α : Type u} {p q : List α → Prop} {h : List α} {a : α}

@[simp] theorem newest_nil (P : α → Prop) : ¬ Newest P [] := id

theorem since_nil_iff : Since p q [] ↔ q [] := by
  constructor
  · intro hs
    cases hs with
    | here hq => exact hq
  · exact .here

theorem since_cons_iff : Since p q (a :: h) ↔ q (a :: h) ∨ p (a :: h) ∧ Since p q h := by
  constructor
  · intro hs
    cases hs with
    | here hq => exact .inl hq
    | later hp hs => exact .inr ⟨hp, hs⟩
  · rintro (hq | ⟨hp, hs⟩)
    · exact .here hq
    · exact .later hp hs

theorem not_since_nil {P : α → Prop} : ¬ Since p (Newest P) [] := by
  rw [since_nil_iff]
  exact newest_nil P

theorem Since.mono {p' q' : List α → Prop} (hp : ∀ h, p h → p' h) (hq : ∀ h, q h → q' h)
    {l : List α} (h : Since p q l) : Since p' q' l := by
  induction h with
  | here h => exact .here (hq _ h)
  | later h _ ih => exact .later (hp _ h) ih

/-- When the events that count are properties of single entries. -/
theorem since_newest_iff {P Q : α → Prop} : Since (Newest P) (Newest Q) (a :: h) ↔
    Q a ∨ P a ∧ Since (Newest P) (Newest Q) h := since_cons_iff

/-- Several moments that do not end the stretch. -/
theorem since_append {P Q : α → Prop} {new : List α} (hkeep : ∀ a ∈ new, P a)
    (hs : (∃ a ∈ new, Q a) ∨ Since (Newest P) (Newest Q) h) :
    Since (Newest P) (Newest Q) (new ++ h) := by
  induction new with
  | nil =>
    rcases hs with ⟨a, ha, -⟩ | hs
    · cases ha
    · exact hs
  | cons a new ih =>
    obtain ⟨ha, hrest⟩ := List.forall_mem_cons.mp hkeep
    rw [List.cons_append, since_newest_iff]
    rcases hs with ⟨b, hb, hq⟩ | hs
    · rcases List.mem_cons.mp hb with rfl | hb
      · exact .inl hq
      · exact .inr ⟨ha, ih hrest (.inl ⟨b, hb, hq⟩)⟩
    · exact .inr ⟨ha, ih hrest (.inr hs)⟩

end PastLemmas

namespace Machine

variable {S : Type u} {A : Type v} {B : Type w} {M : Machine S A} {start : S → Prop}

/-- Every entry of the log of a run was written by a step of the run. -/
theorem Reach.logged (log : S → List B) (hinit : ∀ s, start s → log s = [])
    (hstep : ∀ s a, ∃ b, log (M.step s a) = b :: log s) {s : S} (h : M.Reach start s) {b : B}
    {older : List B} (hb : b :: older <:+ log s) :
    ∃ s₀ a, M.Reach start s₀ ∧ M.admits s₀ a ∧ log s₀ = older ∧
      log (M.step s₀ a) = b :: older := by
  induction h with
  | init hs =>
    rw [hinit _ hs] at hb
    exact absurd (List.suffix_nil.mp hb) (List.cons_ne_nil b older)
  | @step s a hr ha ih =>
    obtain ⟨b', hlog⟩ := hstep s a
    rw [hlog, List.suffix_cons_iff] at hb
    rcases hb with heq | hb
    · obtain ⟨rfl, rfl⟩ := List.cons.inj heq
      exact ⟨s, a, hr, ha, rfl, hlog⟩
    · exact ih hb

end Machine
