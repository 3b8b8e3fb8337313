import Mathlib.Data.List.Basic
import Mathlib.Order.Nat

/-!
# Sources that are read in pieces

A source gives its elements in pieces of its own choosing. A read takes at most `k`
elements of the next piece; it may be interrupted, and a read that takes nothing, or
fails, is the end. `delivered` is what the source gives in all.

A loop reads until it can decide (`readUntil`). A decision is stable when more input
does not change it; then a stream has one point from which on it is decided
(`DecidedAt`), wherever the pieces end.

Results:
1. `read_cases`: what one read can give.
2. `readUntil_rule`: the invariant rule for reading loops.
3. `Stable.take_eq`, `DecidedAt.unique`, `exists_decidedAt`: the point of decision.
-/

universe u v

/-- What the next read of a source meets. -/
inductive ReadEvent (α : Type u)
  | data (piece : List α)
  | interrupted
  | failed

/-- The events that reads will meet. After them the source is closed. -/
abbrev Source (α : Type u) := List (ReadEvent α)

namespace Source

variable {α : Type u} {β : Type v}

/-- A read of at most `k` elements. One that gives no data is the end of the source. -/
def read (k : Nat) : Source α → ReadEvent α × Source α
  | [] => (.data [], [])
  | .data piece :: rest =>
    if piece.length ≤ k then (.data piece, rest)
    else (.data (piece.take k), .data (piece.drop k) :: rest)
  | .interrupted :: rest => (.interrupted, rest)
  | .failed :: rest => (.failed, rest)

/-- All that the source gives before its end. -/
def delivered : Source α → List α
  | [] => []
  | .data piece :: rest => if piece = [] then [] else piece ++ delivered rest
  | .interrupted :: rest => delivered rest
  | .failed :: _ => []

/-- How many reads there can be at most. -/
def weight : Source α → Nat
  | [] => 0
  | .data piece :: rest => piece.length + 1 + weight rest
  | _ :: rest => 1 + weight rest

/-! ## One read -/

/-- What a read gives: some data, nothing yet, or the end. -/
theorem read_cases {k : Nat} (hk : 0 < k) (src : Source α) :
    (∃ piece rest, src.read k = (.data piece, rest) ∧ piece ≠ [] ∧ piece.length ≤ k ∧
      src.delivered = piece ++ rest.delivered ∧ rest.weight < src.weight) ∨
    (∃ rest, src.read k = (.interrupted, rest) ∧ src.delivered = rest.delivered ∧
      rest.weight < src.weight) ∨
    (src.delivered = [] ∧ ((src.read k).1 = .data [] ∨ (src.read k).1 = .failed)) := by
  cases src with
  | nil => exact .inr (.inr ⟨rfl, .inl rfl⟩)
  | cons event rest =>
    cases event with
    | interrupted => exact .inr (.inl ⟨rest, rfl, rfl, Nat.lt_add_of_pos_left Nat.one_pos⟩)
    | failed => exact .inr (.inr ⟨rfl, .inr rfl⟩)
    | data piece =>
      by_cases hnil : piece = []
      · subst hnil
        exact .inr (.inr ⟨rfl, .inl rfl⟩)
      have hdel : delivered (.data piece :: rest) = piece ++ delivered rest := if_neg hnil
      by_cases hle : piece.length ≤ k
      · refine .inl ⟨piece, rest, if_pos hle, hnil, hle, hdel, ?_⟩
        show weight rest < piece.length + 1 + weight rest
        omega
      · have hlt := Nat.lt_of_not_le hle
        have hdrop : piece.drop k ≠ [] :=
          List.ne_nil_of_length_pos (by rw [List.length_drop]; omega)
        have htake : piece.take k ≠ [] :=
          List.ne_nil_of_length_pos (by rw [List.length_take]; omega)
        have hrest : delivered (.data (piece.drop k) :: rest) = piece.drop k ++ delivered rest :=
          if_neg hdrop
        refine .inl ⟨piece.take k, .data (piece.drop k) :: rest, if_neg hle, htake,
          List.length_take_le k piece, ?_, ?_⟩
        · rw [hdel, hrest, ← List.append_assoc, List.take_append_drop]
        · show (piece.drop k).length + 1 + weight rest < piece.length + 1 + weight rest
          rw [List.length_drop]
          omega

theorem weight_read {k : Nat} (hk : 0 < k) {src rest : Source α} {event : ReadEvent α}
    (h : src.read k = (event, rest)) (hdata : event ≠ .data []) (hfailed : event ≠ .failed) :
    rest.weight < src.weight := by
  obtain ⟨_, _, hread, -, -, -, hlt⟩ | ⟨_, hread, -, hlt⟩ | ⟨-, hend⟩ := read_cases hk src
  · rw [h] at hread
    obtain ⟨-, rfl⟩ := Prod.mk.inj hread
    exact hlt
  · rw [h] at hread
    obtain ⟨-, rfl⟩ := Prod.mk.inj hread
    exact hlt
  · rw [h] at hend
    exact (hend.elim hdata hfailed).elim

/-! ## Reading until a decision -/

/-- The loop: look at what was read, and read on as long as it does not decide. Gives the
decision, unless the source ended before, what was read, and the rest of the source. -/
def readUntil (k : Nat) (hk : 0 < k) (decide : List α → Option β)
    (absorb : List α → List α → List α) (buf : List α) (src : Source α) :
    Option β × List α × Source α :=
  match decide buf with
  | some outcome => (some outcome, buf, src)
  | none =>
    match _h : src.read k with
    | (.data [], rest) => (none, buf, rest)
    | (.data (a :: piece), rest) => readUntil k hk decide absorb (absorb buf (a :: piece)) rest
    | (.interrupted, rest) => readUntil k hk decide absorb buf rest
    | (.failed, rest) => (none, buf, rest)
termination_by src.weight
decreasing_by
  · exact weight_read hk _h (by simp) (by simp)
  · exact weight_read hk _h (by simp) (by simp)

section

variable {k : Nat} {hk : 0 < k} {decide : List α → Option β} {absorb : List α → List α → List α}
  {buf piece : List α} {src rest : Source α} {outcome : β}

theorem readUntil_decided (h : decide buf = some outcome) :
    readUntil k hk decide absorb buf src = (some outcome, buf, src) := by
  rw [readUntil, h]

theorem readUntil_data (h : decide buf = none) (hread : src.read k = (.data piece, rest))
    (hpiece : piece ≠ []) : readUntil k hk decide absorb buf src =
      readUntil k hk decide absorb (absorb buf piece) rest := by
  obtain ⟨a, piece, rfl⟩ := List.exists_cons_of_ne_nil hpiece
  rw [readUntil, h]
  dsimp only
  split <;> simp_all

theorem readUntil_interrupted (h : decide buf = none) (hread : src.read k = (.interrupted, rest)) :
    readUntil k hk decide absorb buf src = readUntil k hk decide absorb buf rest := by
  rw [readUntil, h]
  dsimp only
  split <;> simp_all

theorem readUntil_end (h : decide buf = none)
    (hend : (src.read k).1 = .data [] ∨ (src.read k).1 = .failed) :
    readUntil k hk decide absorb buf src = (none, buf, (src.read k).2) := by
  rw [readUntil, h]
  dsimp only
  split <;> simp_all

end

/-- The rule for such a loop. The invariant speaks about what was kept and what was
read in all. -/
theorem readUntil_rule {k : Nat} (hk : 0 < k) (decide : List α → Option β)
    (absorb : List α → List α → List α) (I : List α → List α → Prop)
    (hstep : ∀ buf got piece, I buf got → decide buf = none → piece ≠ [] → piece.length ≤ k →
      I (absorb buf piece) (got ++ piece)) {buf got : List α} (hI : I buf got) (src : Source α) :
    ∃ buf' more rest, I buf' (got ++ more) ∧
      ((∃ outcome, decide buf' = some outcome ∧ src.delivered = more ++ rest.delivered ∧
          readUntil k hk decide absorb buf src = (some outcome, buf', rest)) ∨
        (decide buf' = none ∧ src.delivered = more ∧
          readUntil k hk decide absorb buf src = (none, buf', rest))) := by
  induction hw : src.weight using Nat.strongRecOn generalizing src buf got with
  | ind w ih =>
    cases hdecide : decide buf with
    | some outcome =>
      exact ⟨buf, [], src, by rwa [List.append_nil],
        .inl ⟨outcome, hdecide, rfl, readUntil_decided hdecide⟩⟩
    | none =>
      obtain ⟨piece, rest, hread, hpiece, hle, hdel, hlt⟩ | ⟨rest, hread, hdel, hlt⟩ |
        ⟨hdel, hend⟩ := read_cases hk src
      · obtain ⟨buf', more, rest', hI', hres⟩ := ih rest.weight (hw ▸ hlt)
          (hstep buf got piece hI hdecide hpiece hle) rest rfl
        refine ⟨buf', piece ++ more, rest', by rwa [← List.append_assoc], ?_⟩
        rw [readUntil_data hdecide hread hpiece, hdel]
        obtain ⟨outcome, ho, hmore, heq⟩ | ⟨ho, hmore, heq⟩ := hres
        · exact .inl ⟨outcome, ho, by rw [hmore, List.append_assoc], heq⟩
        · exact .inr ⟨ho, by rw [hmore], heq⟩
      · obtain ⟨buf', more, rest', hI', hres⟩ := ih rest.weight (hw ▸ hlt) hI rest rfl
        rw [readUntil_interrupted hdecide hread, hdel]
        exact ⟨buf', more, rest', hI', hres⟩
      · exact ⟨buf, [], (src.read k).2, by rwa [List.append_nil],
          .inr ⟨hdecide, hdel, readUntil_end hdecide hend⟩⟩

/-- Elements that come one by one, while nothing is decided. -/
theorem readUntil_singly {k : Nat} {hk : 0 < k} {decide : List α → Option β} (buf l : List α)
    (rest : Source α) (hnone : ∀ m < l.length, decide (buf ++ l.take m) = none) :
    readUntil k hk decide (· ++ ·) buf (l.map (fun a => .data [a]) ++ rest) =
      readUntil k hk decide (· ++ ·) (buf ++ l) rest := by
  induction l generalizing buf with
  | nil => rw [List.append_nil]; rfl
  | cons a l ih =>
    have hbuf : decide buf = none := by simpa using hnone 0 (by simp)
    have hread : read k (.data [a] :: (l.map (fun a => .data [a]) ++ rest)) =
        (.data [a], l.map (fun a => .data [a]) ++ rest) := if_pos hk
    refine (readUntil_data hbuf hread (List.cons_ne_nil a [])).trans ?_
    rw [ih (buf ++ [a]) fun m hm => ?_, List.append_assoc, List.singleton_append]
    have hnext := hnone (m + 1) (Nat.succ_lt_succ hm)
    rwa [List.take_succ_cons, ← List.singleton_append, ← List.append_assoc] at hnext

theorem delivered_data (piece : List α) : delivered [.data piece] = piece := by
  unfold delivered
  split
  next hnil => exact hnil.symm
  next => exact List.append_nil piece

theorem delivered_singly (l : List α) (rest : Source α) :
    delivered (l.map (fun a => .data [a]) ++ rest) = l ++ rest.delivered := by
  induction l with
  | nil => rfl
  | cons a l ih => exact congrArg (a :: ·) ih

/-! ## Decisions that more input does not change -/

/-- More input does not change a decision. -/
def Stable (decide : List α → Option β) : Prop :=
  ∀ p more outcome, decide p = some outcome → decide (p ++ more) = some outcome

/-- The first point at which a stream is decided. -/
structure DecidedAt (decide : List α → Option β) (s : List α) (n : Nat) (outcome : β) : Prop where
  le_length : n ≤ s.length
  decided : decide (s.take n) = some outcome
  open_before : ∀ m < n, decide (s.take m) = none

variable {decide : List α → Option β} {s : List α} {n m : Nat} {outcome outcome' : β}

theorem DecidedAt.take_of_le (h : DecidedAt decide s n outcome) (hs : Stable decide) (hm : n ≤ m) :
    decide (s.take m) = some outcome := by
  obtain ⟨d, rfl⟩ := Nat.exists_eq_add_of_le hm
  rw [List.take_add]
  exact hs _ _ _ h.decided

theorem DecidedAt.unique (h : DecidedAt decide s n outcome) (h' : DecidedAt decide s m outcome') :
    n = m ∧ outcome = outcome' := by
  have hnm : n = m := by
    rcases Nat.lt_trichotomy n m with hlt | heq | hlt
    · exact absurd ((h'.open_before n hlt).symm.trans h.decided) (Option.some_ne_none _).symm
    · exact heq
    · exact absurd ((h.open_before m hlt).symm.trans h'.decided) (Option.some_ne_none _).symm
  subst hnm
  exact ⟨rfl, Option.some_inj.mp (h.decided.symm.trans h'.decided)⟩

theorem exists_decidedAt (hs : Stable decide) (hm : m ≤ s.length)
    (h : decide (s.take m) = some outcome) : ∃ n ≤ m, DecidedAt decide s n outcome := by
  induction m with
  | zero => exact ⟨0, Nat.le_refl 0, hm, h, fun _ hlt => absurd hlt (Nat.not_lt_zero _)⟩
  | succ m ih =>
    cases hprev : decide (s.take m) with
    | none =>
      refine ⟨m + 1, Nat.le_refl _, hm, h, fun j hj => ?_⟩
      refine Option.eq_none_iff_forall_not_mem.mpr fun o ho => ?_
      obtain ⟨d, rfl⟩ := Nat.exists_eq_add_of_le (Nat.le_of_lt_succ hj)
      rw [List.take_add, hs _ _ _ ho] at hprev
      cases hprev
    | some o =>
      have ho := hs _ (s.drop m |>.take 1) _ hprev
      rw [← List.take_add, h] at ho
      obtain rfl := Option.some_inj.mp ho
      obtain ⟨n, hn, hdecided⟩ := ih (Nat.le_of_succ_le hm) hprev
      exact ⟨n, Nat.le_succ_of_le hn, hdecided⟩

end Source
