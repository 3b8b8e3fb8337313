import Mathlib.Data.List.Basic
import Mathlib.Data.List.Induction

/-!
# Lexical normal forms of paths

A path is walked segment by segment: a name goes one level down, `up` goes one level up and
stays at the root, and `stay` goes nowhere. The normal form lists the names on the way from
the root to where the walk ends.

Results:
1. `normal_of_names`: without `up`, the normal form is the list of the names.
2. `head?_normal_iff`: the walk ends below a name when it comes back to the root, enters
   the name, and never leaves it.
-/

universe u

namespace Lexical

/-- What a segment of a path does. -/
inductive Seg (α : Type u)
  | stay
  | up
  | name (a : α)
deriving DecidableEq

variable {α : Type u}

def Seg.name? : Seg α → Option α
  | name a => some a
  | _ => none

/-- One segment; the names are stacked, the innermost first. -/
def walk (stack : List α) : Seg α → List α
  | .stay => stack
  | .up => stack.tail
  | .name a => a :: stack

def normal (segs : List (Seg α)) : List α := (segs.foldl walk []).reverse

variable {segs before after : List (Seg α)} {stack : List α} {a : α} {seg : Seg α}

theorem foldl_walk_names (stack : List α) (h : Seg.up ∉ segs) :
    segs.foldl walk stack = (segs.filterMap Seg.name?).reverse ++ stack := by
  induction segs generalizing stack with
  | nil => rfl
  | cons seg segs ih =>
    rw [List.mem_cons, not_or] at h
    rw [List.foldl_cons, ih _ h.2]
    cases seg with
    | stay => rfl
    | up => exact absurd rfl h.1
    | name a =>
      have hname : (Seg.name a).name? = some a := rfl
      rw [List.filterMap_cons_some hname, List.reverse_cons, List.append_assoc]
      rfl

theorem normal_of_names (h : Seg.up ∉ segs) : normal segs = segs.filterMap Seg.name? := by
  rw [normal, foldl_walk_names [] h, List.append_nil, List.reverse_reverse]

/-- What is at the bottom stays there while the walk does not come back to the root. -/
theorem getLast?_walk (hbottom : stack.getLast? = some a) (hne : walk stack seg ≠ []) :
    (walk stack seg).getLast? = some a := by
  cases seg with
  | stay => exact hbottom
  | up =>
    cases stack with
    | nil => cases hbottom
    | cons b stack =>
      cases stack with
      | nil => exact absurd rfl hne
      | cons c stack => rwa [List.getLast?_cons_cons] at hbottom
  | name b =>
    cases stack with
    | nil => cases hbottom
    | cons c stack => rwa [walk, List.getLast?_cons_cons]

theorem getLast?_stays (hbottom : stack.getLast? = some a)
    (hstays : ∀ part, part <+: segs → part.foldl walk stack ≠ []) :
    (segs.foldl walk stack).getLast? = some a := by
  induction segs generalizing stack with
  | nil => exact hbottom
  | cons seg segs ih =>
    have hfirst : walk stack seg ≠ [] :=
      hstays [seg] (List.prefix_append [seg] segs)
    refine ih (getLast?_walk hbottom hfirst) fun part hpart => ?_
    exact hstays (seg :: part) (List.cons_prefix_cons.mpr ⟨rfl, hpart⟩)

/-- A bottom that was there before, or entered now. -/
theorem getLast?_walk_inv (h : (walk stack seg).getLast? = some a) :
    stack.getLast? = some a ∨ stack = [] ∧ seg = .name a := by
  cases seg with
  | stay => exact .inl h
  | up =>
    cases stack with
    | nil => cases h
    | cons b stack =>
      cases stack with
      | nil => cases h
      | cons c stack =>
        rw [List.getLast?_cons_cons]
        exact .inl h
  | name b =>
    cases stack with
    | nil =>
      obtain rfl := Option.some_inj.mp h
      exact .inr ⟨rfl, rfl⟩
    | cons c stack =>
      rw [walk, List.getLast?_cons_cons] at h
      exact .inl h

theorem getLast?_walk_iff : (segs.foldl walk []).getLast? = some a ↔
    ∃ before after, segs = before ++ .name a :: after ∧ before.foldl walk [] = [] ∧
      ∀ part, part <+: after → part.foldl walk [a] ≠ [] := by
  constructor
  · intro h
    induction segs using List.reverseRecOn with
    | nil => cases h
    | append_singleton segs seg ih =>
      rw [List.foldl_concat] at h
      rcases getLast?_walk_inv h with hold | ⟨hroot, rfl⟩
      · obtain ⟨before, after, rfl, hroot, hstays⟩ := ih hold
        refine ⟨before, after ++ [seg], ?_, hroot, fun part hpart => ?_⟩
        · rw [List.append_assoc, List.cons_append]
        · rcases List.prefix_concat_iff.mp hpart with rfl | hpart
          · intro hleft
            rw [List.foldl_append, List.foldl_cons, hroot] at h
            rw [List.foldl_concat] at hleft
            rw [walk, hleft] at h
            cases h
          · exact hstays part hpart
      · refine ⟨segs, [], rfl, hroot, fun part hpart => ?_⟩
        rw [List.prefix_nil.mp hpart]
        exact List.cons_ne_nil _ _
  · rintro ⟨before, after, rfl, hroot, hstays⟩
    have hbottom : [a].getLast? = some a := rfl
    rw [List.foldl_append, hroot]
    show (after.foldl walk [a]).getLast? = some a
    exact getLast?_stays hbottom hstays

/-- The walk ends at or below a name when it comes back to the root, enters the name, and
never leaves it. -/
theorem head?_normal_iff : (normal segs).head? = some a ↔
    ∃ before after, segs = before ++ .name a :: after ∧ before.foldl walk [] = [] ∧
      ∀ part, part <+: after → part.foldl walk [a] ≠ [] := by
  rw [normal, List.head?_reverse]
  exact getLast?_walk_iff

end Lexical
