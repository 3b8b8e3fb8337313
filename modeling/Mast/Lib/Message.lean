import Mathlib.Data.List.Basic

/-!
# Messages with a head

A message is a head of lines, an empty line, and a body. A line ends with the mark `nl`; a `cr`
before it does not belong to the line. A line of fields has a name, a separator, and a value
with blanks around it.

Results:
1. `readHead_write`: what is written is read back.
2. `readHead_append`: what follows a head is body.
3. `field_write`: a field is read back without the blanks.
-/

universe u

namespace Message

variable {α : Type u} [DecidableEq α]

/-! ## Heads -/

/-- A line without the mark before its end. -/
def chomp (cr : α) (line : List α) : List α :=
  if line.getLast? = some cr then line.dropLast else line

/-- The lines up to an empty one, and what is behind it; `line` is the one under way. -/
def readHead (cr nl : α) (line : List α) : List α → Option (List (List α) × List α)
  | [] => none
  | c :: rest =>
    if c = nl then
      if chomp cr line = [] then some ([], rest)
      else (readHead cr nl [] rest).map fun head => (chomp cr line :: head.1, head.2)
    else readHead cr nl (line ++ [c]) rest

omit [DecidableEq α] in
def write (cr nl : α) (lines : List (List α)) (body : List α) : List α :=
  lines.flatMap (· ++ [cr, nl]) ++ cr :: nl :: body

/-- A line of a head is not empty and has no end in it. -/
structure IsLine (nl : α) (line : List α) : Prop where
  nonempty : line ≠ []
  end_free : nl ∉ line

variable {cr nl : α} {line : List α} {lines : List (List α)} {body rest more : List α}

theorem chomp_append (cr : α) (line : List α) : chomp cr (line ++ [cr]) = line := by
  rw [chomp, List.getLast?_concat, if_pos rfl, List.dropLast_concat]

/-- What is not an end belongs to the line under way. -/
theorem readHead_run {piece : List α} (h : nl ∉ piece) (cr : α) (line rest : List α) :
    readHead cr nl line (piece ++ rest) = readHead cr nl (line ++ piece) rest := by
  induction piece generalizing line with
  | nil => rw [List.nil_append, List.append_nil]
  | cons c piece ih =>
    obtain ⟨hc, hpiece⟩ := not_or.mp (mt List.mem_cons.mpr h)
    rw [List.cons_append, readHead, if_neg (Ne.symm hc), ih hpiece, List.append_assoc,
      List.singleton_append]

/-- One line is read. -/
theorem readHead_line (hne : cr ≠ nl) (hline : nl ∉ line) (rest : List α) :
    readHead cr nl [] (line ++ cr :: nl :: rest) =
      if line = [] then some ([], rest)
      else (readHead cr nl [] rest).map fun head => (line :: head.1, head.2) := by
  have hmark : nl ∉ line ++ [cr] := by
    rw [List.mem_append, not_or, List.mem_singleton]
    exact ⟨hline, hne.symm⟩
  have hrun : readHead cr nl [] (line ++ cr :: nl :: rest) =
      readHead cr nl (line ++ [cr]) (nl :: rest) := by
    have hrun := readHead_run hmark cr [] (nl :: rest)
    rwa [List.append_assoc, List.singleton_append, List.nil_append] at hrun
  rw [hrun, readHead, if_pos rfl, chomp_append]

/-- What is written is read back. -/
theorem readHead_write (hne : cr ≠ nl) (h : ∀ line ∈ lines, IsLine nl line) (body : List α) :
    readHead cr nl [] (write cr nl lines body) = some (lines, body) := by
  induction lines with
  | nil => exact readHead_line hne List.not_mem_nil body
  | cons line lines ih =>
    obtain ⟨hline, hlines⟩ := List.forall_mem_cons.mp h
    have hwrite : write cr nl (line :: lines) body =
        line ++ cr :: nl :: write cr nl lines body := by
      simp [write]
    rw [hwrite, readHead_line hne hline.end_free, if_neg hline.nonempty, ih hlines]
    rfl

/-- What follows a head is body. -/
theorem readHead_append (h : readHead cr nl line rest = some (lines, body)) (more : List α) :
    readHead cr nl line (rest ++ more) = some (lines, body ++ more) := by
  induction rest generalizing line lines with
  | nil => cases h
  | cons c rest ih =>
    rw [List.cons_append]
    rw [readHead] at h ⊢
    split at h
    · rename_i hend
      rw [if_pos hend]
      split at h
      · rename_i hempty
        obtain ⟨rfl, rfl⟩ := Prod.mk.inj (Option.some_inj.mp h)
        rw [if_pos hempty]
      · rename_i hline
        obtain ⟨head, hhead, heq⟩ := Option.map_eq_some_iff.mp h
        obtain ⟨rfl, rfl⟩ := Prod.mk.inj heq
        rw [if_neg hline, ih hhead]
        rfl
    · rename_i hend
      rw [if_neg hend]
      exact ih h

/-- A piece that is cut off somewhere has no head, or a part of the body. -/
theorem readHead_cut (hwhole : readHead cr nl [] (rest ++ more) = some (lines, body))
    {lines' : List (List α)} {body' : List α}
    (hcut : readHead cr nl [] rest = some (lines', body')) :
    lines' = lines ∧ body' ++ more = body := by
  rw [readHead_append hcut more] at hwhole
  exact Prod.mk.inj (Option.some_inj.mp hwhole)

/-! ## Fields -/

omit [DecidableEq α] in
/-- A value without the blanks around it. -/
def strip (blank : α → Bool) (value : List α) : List α :=
  ((value.dropWhile blank).reverse.dropWhile blank).reverse

/-- The name and the value of a field. -/
def field (sep : α) (blank : α → Bool) (line : List α) : Option (List α × List α) :=
  if sep ∈ line then
    some (line.takeWhile (· ≠ sep), strip blank (line.dropWhile (· ≠ sep)).tail)
  else none

omit [DecidableEq α] in
theorem strip_cons {blank : α → Bool} {b : α} (hb : blank b = true) (value : List α) :
    strip blank (b :: value) = strip blank value := by
  rw [strip, List.dropWhile_cons_of_pos hb]
  rfl

omit [DecidableEq α] in
theorem dropWhile_of_head {blank : α → Bool} {value : List α}
    (h : ∀ b ∈ value.head?, blank b = false) : value.dropWhile blank = value := by
  cases value with
  | nil => rfl
  | cons b value => exact List.dropWhile_cons_of_neg (Bool.eq_false_iff.mp (h b rfl))

omit [DecidableEq α] in
theorem head_dropWhile {blank : α → Bool} {value : List α} {b : α}
    (h : b ∈ (value.dropWhile blank).head?) : blank b = false := by
  have hnot := List.head?_dropWhile_not blank value
  rw [Option.mem_def.mp h] at hnot
  exact hnot

omit [DecidableEq α] in
/-- A value that neither begins nor ends with a blank is kept. -/
theorem strip_of_ends {blank : α → Bool} {value : List α}
    (hhead : ∀ b ∈ value.head?, blank b = false)
    (hlast : ∀ b ∈ value.getLast?, blank b = false) : strip blank value = value := by
  rw [strip, dropWhile_of_head hhead, dropWhile_of_head, List.reverse_reverse]
  intro b hb
  rw [List.head?_reverse] at hb
  exact hlast b hb

omit [DecidableEq α] in
theorem last_strip {blank : α → Bool} {value : List α} {b : α}
    (h : b ∈ (strip blank value).getLast?) : blank b = false := by
  rw [strip, List.getLast?_reverse] at h
  exact head_dropWhile h

omit [DecidableEq α] in
theorem head_strip {blank : α → Bool} {value : List α} {b : α}
    (h : b ∈ (strip blank value).head?) : blank b = false := by
  -- what is left is the front of the value without the blanks before it
  obtain ⟨front, hfront⟩ := List.dropWhile_suffix (l := (value.dropWhile blank).reverse) blank
  have hvalue : value.dropWhile blank = strip blank value ++ front.reverse := by
    rw [strip, ← List.reverse_append, hfront, List.reverse_reverse]
  have hhead : b ∈ (value.dropWhile blank).head? := by
    rw [hvalue, List.head?_append, Option.mem_def.mp h]
    rfl
  exact head_dropWhile hhead

/-- A field is read back without the blanks. -/
theorem field_write {sep : α} {blank : α → Bool} {name value : List α} {b : α}
    (hname : sep ∉ name) (hb : blank b = true) (hvalue : strip blank value = value) :
    field sep blank (name ++ sep :: b :: value) = some (name, value) := by
  have hpos : ∀ c ∈ name, decide (c ≠ sep) = true := by
    intro c hc
    rw [decide_eq_true_eq]
    rintro rfl
    exact hname hc
  rw [field, if_pos (List.mem_append_right _ List.mem_cons_self),
    List.takeWhile_append_of_pos hpos, List.dropWhile_append_of_pos hpos]
  simp [strip_cons hb, hvalue]

end Message
