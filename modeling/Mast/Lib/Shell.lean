import Mathlib.Data.List.Basic

/-!
# Words of a shell command

How a POSIX shell cuts a command into words and operators, for text without expansions:
between single quotes every character stands for itself, and outside them a backslash makes
the next character stand for itself. Text with an expansion, a pattern or double quotes in
it is not cut.

Results:
1. `lex_quote`: a quoted text is a part of one word, whatever its characters are.
-/

namespace Shell

inductive Token
  | word (value : List Char)
  | op (c : Char)
deriving DecidableEq, Repr

/-- What the next character is read under. -/
inductive Mode
  | plain
  | quoted
  | escaped
deriving DecidableEq, Repr

def isBlank (c : Char) : Bool := c = ' ' || c = '\t'

def isOperator (c : Char) : Bool :=
  c = '|' || c = '&' || c = ';' || c = '<' || c = '>' || c = '(' || c = ')' || c = '\n'

/-- A character that begins an expansion, a pattern, a comment or double quotes. -/
def isSpecial (c : Char) : Bool :=
  c = '$' || c.toNat = 96 || c = '"' || c = '*' || c = '?' || c = '[' || c = '#' || c = '~'

/-- One more character of the word under way. -/
def push (word : Option (List Char)) (c : Char) : Option (List Char) := some (word.getD [] ++ [c])

/-- The end of the word under way, if there is one. -/
def flush (word : Option (List Char)) : List Token := (word.map Token.word).toList

/-- Cut the rest of a command. -/
def lex : Mode → Option (List Char) → List Char → Option (List Token)
  | .plain, word, [] => some (flush word)
  | .quoted, _, [] => none
  | .escaped, _, [] => none
  | .quoted, word, c :: rest =>
    if c = '\'' then lex .plain word rest else lex .quoted (push word c) rest
  | .escaped, word, c :: rest =>
    -- the shell takes an escaped line end out
    if c = '\n' then lex .plain word rest else lex .plain (push word c) rest
  | .plain, word, c :: rest =>
    if c = '\'' then lex .quoted (some (word.getD [])) rest
    else if c = '\\' then lex .escaped word rest
    else if isBlank c then (lex .plain none rest).map (flush word ++ ·)
    else if isOperator c then (lex .plain none rest).map (flush word ++ .op c :: ·)
    else if isSpecial c then none
    else lex .plain (push word c) rest

def tokens (command : List Char) : Option (List Token) := lex .plain none command

/-- A text between single quotes. A quote in it ends the quoting, and is escaped. -/
def quote (value : List Char) : List Char :=
  '\'' :: (value.flatMap fun c => if c = '\'' then ['\'', '\\', '\'', '\''] else [c]) ++ ['\'']

/-- A character that is nothing but a part of a word. -/
def isPlain (c : Char) : Bool :=
  c ≠ '\'' && c ≠ '\\' && !isBlank c && !isOperator c && !isSpecial c

variable {word : Option (List Char)} {rest chars : List Char} {c : Char}

/-! ## Words and what ends them -/

theorem lex_push (h : isPlain c = true) : lex .plain word (c :: rest) =
    lex .plain (push word c) rest := by
  simp only [isPlain, Bool.and_eq_true, Bool.not_eq_true', decide_eq_true_eq] at h
  obtain ⟨⟨⟨⟨hquote, hescape⟩, hblank⟩, hop⟩, hspecial⟩ := h
  rw [lex, if_neg hquote, if_neg hescape, hblank, hop, hspecial]
  rfl

theorem lex_pushes (h : ∀ c ∈ chars, isPlain c = true) (done : List Char) :
    lex .plain (some done) (chars ++ rest) = lex .plain (some (done ++ chars)) rest := by
  induction chars generalizing done with
  | nil =>
    rw [List.append_nil]
    rfl
  | cons c chars ih =>
    obtain ⟨hc, hrest⟩ := List.forall_mem_cons.mp h
    have hdone : done ++ c :: chars = done ++ [c] ++ chars := by simp
    rw [List.cons_append, lex_push hc, hdone, ← ih hrest]
    rfl

theorem lex_word (hne : chars ≠ []) (hplain : chars.all isPlain = true) :
    lex .plain none (chars ++ rest) = lex .plain (some chars) rest := by
  cases chars with
  | nil => exact absurd rfl hne
  | cons c chars =>
    obtain ⟨hc, hrest⟩ := List.forall_mem_cons.mp (List.all_eq_true.mp hplain)
    rw [List.cons_append, lex_push hc]
    exact lex_pushes hrest [c]

theorem lex_blank : lex .plain word (' ' :: rest) = (lex .plain none rest).map (flush word ++ ·) :=
  rfl

theorem lex_op (hop : isOperator c = true) : lex .plain word (c :: rest) =
    (lex .plain none rest).map (flush word ++ .op c :: ·) := by
  have hquote : c ≠ '\'' := fun heq => absurd (heq ▸ hop) (by decide)
  have hescape : c ≠ '\\' := fun heq => absurd (heq ▸ hop) (by decide)
  have hblank : isBlank c = false := by
    refine Bool.eq_false_iff.mpr fun hb => ?_
    rcases Bool.or_eq_true _ _ |>.mp hb with h | h <;>
    · rw [of_decide_eq_true h] at hop
      exact absurd hop (by decide)
  rw [lex, if_neg hquote, if_neg hescape, hblank, hop]
  rfl

/-! ## Quoted texts -/

theorem lex_quoted (value done : List Char) (rest : List Char) :
    lex .quoted (some done)
        ((value.flatMap fun c => if c = '\'' then ['\'', '\\', '\'', '\''] else [c]) ++
          '\'' :: rest) =
      lex .plain (some (done ++ value)) rest := by
  induction value generalizing done with
  | nil =>
    rw [List.append_nil]
    rfl
  | cons c value ih =>
    have hdone : done ++ c :: value = done ++ [c] ++ value := by simp
    rw [List.flatMap_cons, List.append_assoc, hdone, ← ih]
    by_cases hc : c = '\''
    · subst hc
      rfl
    · rw [if_neg hc, List.singleton_append, lex, if_neg hc]
      rfl

/-- A quoted text is a part of one word, whatever its characters are. -/
theorem lex_quote (value : List Char) :
    lex .plain word (quote value ++ rest) = lex .plain (some (word.getD [] ++ value)) rest := by
  have hquote : quote value ++ rest = '\'' ::
      ((value.flatMap fun c => if c = '\'' then ['\'', '\\', '\'', '\''] else [c]) ++
        '\'' :: rest) := by
    simp [quote]
  rw [hquote, lex, if_pos rfl, lex_quoted]

example : tokens "cd -- 'it'\\''s' x\\ y;ls".toList =
    some [.word "cd".toList, .word "--".toList, .word "it's".toList, .word "x y".toList, .op ';',
      .word "ls".toList] := by decide +kernel

end Shell
