import Mathlib.Data.List.TakeWhile
import Mast.Lib.Shell
import Mast.Notify
import Mast.Terminal.Scanner

/-!
# The directory a shell reports

A shell reports its directory as a URI in an OSC 7 sequence (`host.rs`); the scanner and the
slot of the session (`notify.rs`) read the path out of it, and the next shell of the tab is
started with that path between single quotes in its first command (`host.rs`).

Results:
1. `percentDecodeLoop_eq`: the decoder's loop stays within its text and its bytes.
2. `decodes_iff`: what the decoder makes of any bytes.
3. `percentDecodeBytes_of_escapes`: decoding what was escaped.
4. `tokens_cdClause`: the path is one word of the command.
5. `cwd_round_trip`: the directory arrives, for every URI that is UTF-8.
-/

namespace Mast

/-! ## The sender -/

/-- `${PWD//%/%25}` -/
def escapePercent (path : String) : String :=
  String.ofList (path.toList.flatMap fun c => if c = '%' then "%25".toList else [c])

/-- The payload of an OSC 7 sequence. -/
def osc7Payload (host : String) (uriPath : List UInt8) : List UInt8 :=
  Utf8.bytes ("7;file://" ++ host) ++ uriPath

/-- Some of the bytes are written as escapes, with hexadecimal digits of either case; a
percent sign always is. -/
inductive Escapes : List UInt8 → List UInt8 → Prop
  | nil : Escapes [] []
  | raw {b : UInt8} {bytes text : List UInt8} : b ≠ 37 → Escapes bytes text →
      Escapes (b :: bytes) (b :: text)
  | escape {b h l : UInt8} {bytes text : List UInt8} : hexVal h = some (b / 16) →
      hexVal l = some (b % 16) → Escapes bytes text → Escapes (b :: bytes) (37 :: h :: l :: text)

/-- The text is the path, with escapes behind its first slash. -/
def EscapedPath (path : String) (uriPath : List UInt8) : Prop :=
  ∃ bytes text, Utf8.bytes path = 47 :: bytes ∧ uriPath = 47 :: text ∧ Escapes bytes text

/-- No character below the space. -/
def NoControl (text : String) : Prop := ∀ c ∈ text.toList, 0x20 ≤ c.toNat

instance (text : String) : Decidable (NoControl text) := List.decidableBAll _ text.toList

/-! ## The receiver -/

/-- What a session is said to be in, after the chunks of its output. -/
def reportedCwd (s : OscScanner) (batch : OscBatch) (session : SessionId)
    (chunks : List (List UInt8)) : Option String :=
  let events := (s.feedAll chunks).2.map fun ev => (session, ev)
  ((batch.mergeAll events).entries.get? session).bind fun delta => delta.cwd

/-- The byte an escape stands for; the arithmetic is that of a byte. -/
def escapedByte (hi lo : UInt8) : Option UInt8 :=
  if hi.toNat * 16 + lo.toNat < 256 then some (hi * 16 + lo) else none

/-- The loop of `percent_decode`. It has no result when it reads outside the text or a byte
overflows. -/
def percentDecodeLoop (bytes : List UInt8) (i : Nat) (out : List UInt8) : Option (List UInt8) :=
  if i < bytes.length then
    match bytes[i]? with
    | none => none
    | some b =>
      if b = 37 ∧ i + 2 < bytes.length then
        match bytes[i + 1]?, bytes[i + 2]? with
        | some h, some l =>
          match hexVal h, hexVal l with
          | some hi, some lo =>
            match escapedByte hi lo with
            | some byte => percentDecodeLoop bytes (i + 3) (out ++ [byte])
            | none => none
          | _, _ => percentDecodeLoop bytes (i + 1) (out ++ [b])
        | _, _ => none
      else percentDecodeLoop bytes (i + 1) (out ++ [b])
  else some out
termination_by bytes.length - i

/-- The bytes begin with a complete escape. -/
def BeginsEscape (bytes : List UInt8) : Prop :=
  ∃ h l rest, bytes = 37 :: h :: l :: rest ∧ (hexVal h).isSome ∧ (hexVal l).isSome

/-- Decoding as a relation: a complete escape is its byte, and every other byte is itself. -/
inductive Decodes : List UInt8 → List UInt8 → Prop
  | nil : Decodes [] []
  | escape {h l hi lo : UInt8} {rest out : List UInt8} : hexVal h = some hi →
      hexVal l = some lo → Decodes rest out →
      Decodes (37 :: h :: l :: rest) ((hi * 16 + lo) :: out)
  | literal {b : UInt8} {rest out : List UInt8} : ¬ BeginsEscape (b :: rest) →
      Decodes rest out → Decodes (b :: rest) (b :: out)

/-! ## The next shell -/

/-- `value.replace('\'', r"'\''")` between quotes. -/
def singleQuote (value : String) : String :=
  "'" ++ String.ofList
    (value.toList.flatMap fun c => if c = '\'' then "'\\''".toList else [c]) ++ "'"

/-- The clause of the first command that goes to the directory. -/
def cdClause : Option String → String
  | none => ""
  | some path =>
    let quoted := singleQuote path
    "\x7b cd -- " ++ quoted ++ " 2>/dev/null || " ++
      "printf '\\033[2m[mast] %s is gone; starting in $HOME\\033[0m\\n' " ++ quoted ++ "; \x7d; "

namespace CwdLemmas

open OscScanner

variable {bytes text out : List UInt8} {b h l : UInt8} {path host : String}

/-! ## Decoding -/

/-- A hexadecimal digit has a value below sixteen, and does not end a sequence. -/
theorem hexVal_bounds : ∀ n < 256, ∀ v ∈ hexVal (UInt8.ofNat n), v.toNat < 16 := by
  decide +kernel

theorem hexVal_lt {v : UInt8} (h : hexVal b = some v) : v.toNat < 16 := by
  refine hexVal_bounds b.toNat b.toNat_lt v ?_
  rw [UInt8.ofNat_toNat]
  exact h

theorem escapedByte_some {hi lo : UInt8} (hh : hexVal h = some hi) (hl : hexVal l = some lo) :
    escapedByte hi lo = some (hi * 16 + lo) := by
  have hhi := hexVal_lt hh
  have hlo := hexVal_lt hl
  exact if_pos (by omega)

theorem percentDecodeBytes_escape {hi lo : UInt8} (hh : hexVal h = some hi)
    (hl : hexVal l = some lo) (rest : List UInt8) :
    percentDecodeBytes (37 :: h :: l :: rest) = (hi * 16 + lo) :: percentDecodeBytes rest := by
  rw [percentDecodeBytes, hh, hl]

theorem percentDecodeBytes_literal {rest : List UInt8} (hb : ¬ BeginsEscape (b :: rest)) :
    percentDecodeBytes (b :: rest) = b :: percentDecodeBytes rest := by
  refine (percentDecodeBytes.eq_def _).trans ?_
  split
  · next h l rest' heq =>
    split
    · next hi lo hh hl =>
      refine absurd ⟨h, l, rest', heq, ?_, ?_⟩ hb
      · rw [hh]
        rfl
      · rw [hl]
        rfl
    · obtain ⟨rfl, rfl⟩ := List.cons.inj heq
      rfl
  · next heq =>
    obtain ⟨rfl, rfl⟩ := List.cons.inj heq
    rfl
  · next heq => cases heq

theorem not_beginsEscape_of_ne (hb : b ≠ 37) (rest : List UInt8) : ¬ BeginsEscape (b :: rest) := by
  rintro ⟨h, l, rest', heq, -⟩
  exact hb (List.cons.inj heq).1

/-- What the decoder makes of any bytes. -/
theorem decodes_iff : Decodes bytes out ↔ out = percentDecodeBytes bytes := by
  constructor
  · intro hd
    induction hd with
    | nil => rfl
    | escape hh hl _ ih => rw [percentDecodeBytes_escape hh hl, ih]
    | literal hb _ ih => rw [percentDecodeBytes_literal hb, ih]
  · rintro rfl
    induction bytes using percentDecodeBytes.induct with
    | case1 h l rest hi lo hl hh ih =>
      rw [percentDecodeBytes_escape hh hl]
      exact .escape hh hl ih
    | case2 h l rest hnone ih =>
      have hb : ¬ BeginsEscape (37 :: h :: l :: rest) := by
        rintro ⟨h', l', rest', heq, hh, hl⟩
        simp only [List.cons.injEq, true_and] at heq
        obtain ⟨rfl, rfl, rfl⟩ := heq
        obtain ⟨hi, hhi⟩ := Option.isSome_iff_exists.mp hh
        obtain ⟨lo, hlo⟩ := Option.isSome_iff_exists.mp hl
        exact hnone hi lo hhi hlo
      rw [percentDecodeBytes_literal hb]
      exact .literal hb ih
    | case3 b rest hne ih =>
      have hb : ¬ BeginsEscape (b :: rest) := by
        rintro ⟨h, l, rest', heq, -⟩
        obtain ⟨hb, hrest⟩ := List.cons.inj heq
        exact hne h l rest' hb hrest
      rw [percentDecodeBytes_literal hb]
      exact .literal hb ih
    | case4 => exact .nil

theorem drop_of_getElem? {i : Nat} (hb : bytes[i]? = some b) :
    bytes.drop i = b :: bytes.drop (i + 1) := by
  obtain ⟨hi, rfl⟩ := List.getElem?_eq_some_iff.mp hb
  exact List.drop_eq_getElem_cons hi

/-- The decoder's loop stays within its text and its bytes. -/
theorem percentDecodeLoop_eq (bytes : List UInt8) (i : Nat) (out : List UInt8) :
    percentDecodeLoop bytes i out = some (out ++ percentDecodeBytes (bytes.drop i)) := by
  induction i, out using percentDecodeLoop.induct bytes with
  | case1 i out hi hnone => exact absurd (List.getElem?_eq_none_iff.mp hnone) (by omega)
  | case2 i out hi b hb hescape h l hl hh hiVal loVal hlo hhi byte hbyte ih =>
    obtain ⟨rfl, hlen⟩ := hescape
    have hvalue : byte = hiVal * 16 + loVal :=
      Option.some.inj (hbyte.symm.trans (escapedByte_some hhi hlo))
    rw [percentDecodeLoop, if_pos hi]
    simp only [hb, hlen, hh, hl, hhi, hlo, hbyte, and_self, if_true]
    rw [ih, drop_of_getElem? hb, drop_of_getElem? hh, drop_of_getElem? hl,
      percentDecodeBytes_escape hhi hlo, hvalue, List.append_assoc]
    rfl
  | case3 i out hi b hb hescape h l hl hh hiVal loVal hlo hhi hbyte =>
    rw [escapedByte_some hhi hlo] at hbyte
    cases hbyte
  | case4 i out hi b hb hescape h l hl hh hnone ih =>
    obtain ⟨rfl, hlen⟩ := hescape
    have hliteral : ¬ BeginsEscape (37 :: bytes.drop (i + 1)) := by
      rintro ⟨h', l', rest, heq, hh', hl'⟩
      rw [drop_of_getElem? hh, drop_of_getElem? hl] at heq
      simp only [List.cons.injEq, true_and] at heq
      obtain ⟨rfl, rfl, -⟩ := heq
      obtain ⟨hiVal, hhi⟩ := Option.isSome_iff_exists.mp hh'
      obtain ⟨loVal, hlo⟩ := Option.isSome_iff_exists.mp hl'
      exact hnone hiVal loVal hhi hlo
    rw [percentDecodeLoop, if_pos hi]
    simp only [hb, hlen, hh, hl, and_self, if_true]
    rw [drop_of_getElem? hb, percentDecodeBytes_literal hliteral]
    rw [ih, List.append_assoc]
    rfl
  | case5 i out hi b hb hescape hnone =>
    have hh : bytes[i + 1]? = some bytes[i + 1] := List.getElem?_eq_getElem (by omega)
    have hl : bytes[i + 2]? = some bytes[i + 2] := List.getElem?_eq_getElem (by omega)
    exact absurd hl (hnone _ _ hh)
  | case6 i out hi b hb hescape ih =>
    have hliteral : ¬ BeginsEscape (b :: bytes.drop (i + 1)) := by
      rintro ⟨h, l, rest, heq, -⟩
      obtain ⟨hb37, hrest⟩ := List.cons.inj heq
      have hlen := congrArg List.length hrest
      simp only [List.length_drop, List.length_cons] at hlen
      exact hescape ⟨hb37, by omega⟩
    rw [percentDecodeLoop, if_pos hi]
    simp only [hb, hescape, if_false]
    rw [ih, drop_of_getElem? hb, percentDecodeBytes_literal hliteral, List.append_assoc]
    rfl
  | case7 i out hi =>
    rw [percentDecodeLoop, if_neg hi, List.drop_eq_nil_of_le (by omega), percentDecodeBytes,
      List.append_nil]

/-! ## Escaping -/

theorem joined (b : UInt8) : b / 16 * 16 + b % 16 = b := by
  have hb := b.toNat_lt
  rw [← UInt8.toNat_inj, UInt8.toNat_add, UInt8.toNat_mul, UInt8.toNat_div, UInt8.toNat_mod]
  have hsixteen : (16 : UInt8).toNat = 16 := rfl
  rw [hsixteen]
  omega

/-- Decoding what was escaped. -/
theorem percentDecodeBytes_of_escapes (h : Escapes bytes text) :
    percentDecodeBytes text = bytes := by
  induction h with
  | nil => rfl
  | raw hb _ ih => rw [percentDecodeBytes_literal (not_beginsEscape_of_ne hb _), ih]
  | escape hh hl _ ih => rw [percentDecodeBytes_escape hh hl, joined, ih]

theorem unbroken_hex {v : UInt8} (h : hexVal b = some v) :
    b ≠ bel ∧ b ≠ esc ∧ b ≠ can ∧ b ≠ sub := by
  refine ⟨?_, ?_, ?_, ?_⟩ <;>
  · rintro rfl
    cases h

theorem unbroken_of_escapes (h : Escapes bytes text) (hbytes : Unbroken bytes) :
    Unbroken text := by
  induction h with
  | nil => exact hbytes
  | raw _ _ ih =>
    obtain ⟨hb, hrest⟩ := List.forall_mem_cons.mp hbytes
    exact List.forall_mem_cons.mpr ⟨hb, ih hrest⟩
  | escape hh hl _ ih =>
    obtain ⟨-, hrest⟩ := List.forall_mem_cons.mp hbytes
    refine List.forall_mem_cons.mpr ⟨by decide, ?_⟩
    refine List.forall_mem_cons.mpr ⟨unbroken_hex hh, ?_⟩
    exact List.forall_mem_cons.mpr ⟨unbroken_hex hl, ih hrest⟩

theorem escapes_append {bytes' text' : List UInt8} (h : Escapes bytes text)
    (h' : Escapes bytes' text') : Escapes (bytes ++ bytes') (text ++ text') := by
  induction h with
  | nil => exact h'
  | raw hb _ ih => exact .raw hb ih
  | escape hh hl _ ih => exact .escape hh hl ih

theorem escapes_raw (h : ∀ b ∈ bytes, b ≠ 37) : Escapes bytes bytes := by
  induction bytes with
  | nil => exact .nil
  | cons b bytes ih =>
    obtain ⟨hb, hrest⟩ := List.forall_mem_cons.mp h
    exact .raw hb (ih hrest)

/-! ## Characters -/

theorem ascii_or_high (c : Char) : (c.toNat < 0x80 ∧ String.utf8EncodeChar c = [ascii c]) ∨
    (0x80 ≤ c.toNat ∧ ∀ b ∈ String.utf8EncodeChar c, 0x80 ≤ b.toNat) := by
  rcases Nat.lt_or_ge c.toNat 0x80 with hlow | hhigh
  · exact .inl ⟨hlow, Utf8.encodeChar_ascii hlow⟩
  · exact .inr ⟨hhigh, Utf8.high_of_encodeChar hhigh⟩

theorem toNat_ascii {c : Char} (h : c.toNat < 0x80) : (ascii c).toNat = c.toNat :=
  Utf8.toNat_ofNat (by omega)

theorem unbroken_bytes {text : String} (h : NoControl text) : Unbroken (Utf8.bytes text) := by
  intro b hb
  obtain ⟨c, hc, hb⟩ := List.mem_flatMap.mp hb
  have hspace : 0x20 ≤ b.toNat := by
    rcases ascii_or_high c with ⟨hlow, hbytes⟩ | ⟨-, hhigh⟩
    · rw [hbytes] at hb
      rw [List.mem_singleton.mp hb, toNat_ascii hlow]
      exact h c hc
    · exact Nat.le_trans (by decide) (hhigh b hb)
  refine ⟨?_, ?_, ?_, ?_⟩ <;>
  · rintro rfl
    exact absurd hspace (by decide)

/-- A byte of a character that is no percent sign is no percent sign. -/
theorem ne_percent {c : Char} (hc : c ≠ '%') : ∀ b ∈ String.utf8EncodeChar c, b ≠ 37 := by
  rintro b hb rfl
  rcases ascii_or_high c with ⟨hlow, hbytes⟩ | ⟨-, hhigh⟩
  · rw [hbytes] at hb
    have hval := congrArg UInt8.toNat (List.mem_singleton.mp hb)
    rw [toNat_ascii hlow] at hval
    exact hc (Char.toNat_inj.mp hval.symm)
  · exact absurd (hhigh _ hb) (by decide)

/-- A text whose first byte is a slash begins with a slash. -/
theorem head_slash {uri : String} (h : Utf8.bytes uri = 47 :: text) :
    ∃ rest, uri.toList = '/' :: rest := by
  unfold Utf8.bytes at h
  cases hlist : uri.toList with
  | nil =>
    rw [hlist] at h
    cases h
  | cons c rest =>
    rw [hlist, List.flatMap_cons] at h
    refine ⟨rest, ?_⟩
    rcases ascii_or_high c with ⟨hlow, hbytes⟩ | ⟨-, hhigh⟩
    · rw [hbytes] at h
      have hval := congrArg UInt8.toNat (List.cons.inj h).1
      rw [toNat_ascii hlow] at hval
      have hc : c = '/' := Char.toNat_inj.mp hval
      rw [hc]
    · cases hbytes : String.utf8EncodeChar c with
      | nil => exact absurd hbytes String.utf8EncodeChar_ne_nil
      | cons b tail =>
        rw [hbytes] at h hhigh
        have hb : b = 47 := (List.cons.inj h).1
        exact absurd (hhigh b List.mem_cons_self) (by rw [hb]; decide)

/-- What the prompt of a shell writes is escaped. -/
theorem escapedPath_escapePercent (h : path.toList.head? = some '/') :
    EscapedPath path (Utf8.bytes (escapePercent path)) := by
  have hchars : ∀ cs : List Char, Escapes (cs.flatMap String.utf8EncodeChar)
      ((cs.flatMap fun c => if c = '%' then "%25".toList else [c]).flatMap
        String.utf8EncodeChar) := by
    intro cs
    induction cs with
    | nil => exact .nil
    | cons c cs ih =>
      rw [List.flatMap_cons, List.flatMap_cons, List.flatMap_append]
      refine escapes_append ?_ ih
      by_cases hc : c = '%'
      · subst hc
        exact .escape (b := 37) (h := 50) (l := 53) rfl rfl .nil
      · rw [if_neg hc, List.flatMap_cons, List.flatMap_nil, List.append_nil]
        exact escapes_raw (ne_percent hc)
  cases hpath : path.toList with
  | nil =>
    rw [hpath] at h
    cases h
  | cons c cs =>
    rw [hpath] at h
    obtain rfl : c = '/' := Option.some.inj h
    refine ⟨cs.flatMap String.utf8EncodeChar, _, ?_, ?_, hchars cs⟩
    · rw [Utf8.bytes, hpath]
      rfl
    · rw [Utf8.bytes, escapePercent, String.toList_ofList, hpath]
      rfl

/-! ## The sequence -/

theorem parsePayload_osc7 (host uri : String) :
    parsePayload (osc7Payload host (Utf8.bytes uri)) =
      some (.osc7Cwd ("file://" ++ host ++ uri)) := by
  have hbytes : osc7Payload host (Utf8.bytes uri) = Utf8.bytes ("7;file://" ++ host ++ uri) := by
    rw [osc7Payload, Utf8.bytes_append, Utf8.bytes_append, Utf8.bytes_append]
  have hlist : ("7;file://" ++ host ++ uri).toList =
      "7".toList ++ ';' :: ("file://" ++ host ++ uri).toList := by
    simp
  have hcode : ';' ∉ "7".toList := by decide
  rw [parsePayload, hbytes, Utf8.fromUtf8Lossy_bytes, hlist, splitOnce_append hcode]
  dsimp only [Option.getD_some]
  rw [String.ofList_toList, String.ofList_toList]
  rfl

theorem parseFileUri_path {uri : String} (hhost : '/' ∉ host.toList) {rest : List Char}
    (huri : uri.toList = '/' :: rest) :
    parseFileUri ("file://" ++ host ++ uri) = some (percentDecode uri) := by
  have hlist : ("file://" ++ host ++ uri).toList =
      "file://".toList ++ (host.toList ++ '/' :: rest) := by
    simp [huri]
  have hbegins : "file://".toList.isPrefixOf ("file://".toList ++ (host.toList ++ '/' :: rest)) =
      true := List.isPrefixOf_iff_prefix.mpr (List.prefix_append _ _)
  have hskip : (host.toList ++ '/' :: rest).dropWhile (fun c => c ≠ '/') = '/' :: rest := by
    have hpass : ∀ c ∈ host.toList, decide (c ≠ '/') = true :=
      fun c hc => decide_eq_true fun heq => hhost (heq ▸ hc)
    rw [List.dropWhile_append_of_pos hpass]
    rfl
  unfold parseFileUri
  dsimp only
  rw [hlist, hbegins, List.drop_left, hskip, if_pos rfl]
  dsimp only
  rw [← huri, String.ofList_toList]

theorem percentDecode_escaped {uri : String} (h : EscapedPath path (Utf8.bytes uri)) :
    percentDecode uri = path := by
  obtain ⟨bytes, text, hpath, huri, hescapes⟩ := h
  have hslash : Escapes (47 :: bytes) (47 :: text) := .raw (by decide) hescapes
  rw [percentDecode, huri, percentDecodeBytes_of_escapes hslash, ← hpath,
    Utf8.fromUtf8Lossy_bytes]

theorem unbroken_osc7Payload {uri : String} (hpath : NoControl path) (hhost : NoControl host)
    (h : EscapedPath path (Utf8.bytes uri)) : Unbroken (osc7Payload host (Utf8.bytes uri)) := by
  obtain ⟨bytes, text, hbytes, huri, hescapes⟩ := h
  have hslash : Escapes (47 :: bytes) (47 :: text) := .raw (by decide) hescapes
  have hscheme : Unbroken (Utf8.bytes "7;file://") := by decide
  intro b hb
  rw [osc7Payload, Utf8.bytes_append] at hb
  rcases List.mem_append.mp hb with hb | hb
  · rcases List.mem_append.mp hb with hb | hb
    · exact hscheme b hb
    · exact unbroken_bytes hhost b hb
  · rw [huri] at hb
    refine unbroken_of_escapes hslash ?_ b hb
    rw [← hbytes]
    exact unbroken_bytes hpath

/-- The directory of a report that is read as one event. -/
theorem reportedCwd_event {s : OscScanner} {chunks : List (List UInt8)} {uri : String}
    (hscan : (s.feedAll chunks).2 = [.osc7Cwd uri]) (hparse : parseFileUri uri = some path)
    (batch : OscBatch) (session : SessionId) : reportedCwd s batch session chunks = some path := by
  have hmerge : OscDelta.mergeEvent (.osc7Cwd uri) =
      some fun delta => { delta with cwd := some path } := by
    rw [OscDelta.mergeEvent, hparse]
  unfold reportedCwd
  dsimp only
  rw [hscan, List.map_singleton, OscBatch.mergeAll, List.foldl_cons, List.foldl_nil,
    OscBatch.merge, hmerge]
  dsimp only
  rw [OrdMap.get?_upsert_self]
  rfl

/-! ## The command -/

theorem toList_singleQuote (value : String) :
    (singleQuote value).toList = Shell.quote value.toList := by
  simp [singleQuote, Shell.quote]

/-- The words and operators of the clause. -/
def cdTokens (path : List Char) : List Shell.Token :=
  [.word "\x7b".toList, .word "cd".toList, .word "--".toList, .word path, .word "2".toList, .op '>',
    .word "/dev/null".toList, .op '|', .op '|', .word "printf".toList,
    .word "\\033[2m[mast] %s is gone; starting in $HOME\\033[0m\\n".toList, .word path,
    .op ';', .word "\x7d".toList, .op ';']

/-- The path is one word of the command. -/
theorem tokens_cdClause (path : String) :
    Shell.tokens (cdClause (some path)).toList = some (cdTokens path.toList) := by
  have hclause : (cdClause (some path)).toList = "\x7b".toList ++ ' ' :: ("cd".toList ++ ' ' ::
      ("--".toList ++ ' ' :: (Shell.quote path.toList ++ ' ' :: ("2".toList ++ '>' ::
        ("/dev/null".toList ++ ' ' :: '|' :: '|' :: ' ' :: ("printf".toList ++ ' ' :: (Shell.quote
          "\\033[2m[mast] %s is gone; starting in $HOME\\033[0m\\n".toList ++ ' ' ::
            (Shell.quote path.toList ++ ';' :: ' ' :: ("\x7d".toList ++ [';', ' ']))))))))) := by
    simp [cdClause, toList_singleQuote, Shell.quote]
  have hend : Shell.lex .plain none [] = some [] := rfl
  rw [hclause, Shell.tokens, Shell.lex_word, Shell.lex_blank, Shell.lex_word, Shell.lex_blank,
    Shell.lex_word, Shell.lex_blank, Shell.lex_quote, Shell.lex_blank, Shell.lex_word,
    Shell.lex_op, Shell.lex_word, Shell.lex_blank, Shell.lex_op, Shell.lex_op, Shell.lex_blank,
    Shell.lex_word, Shell.lex_blank, Shell.lex_quote, Shell.lex_blank, Shell.lex_quote,
    Shell.lex_op, Shell.lex_blank, Shell.lex_word, Shell.lex_op, Shell.lex_blank, hend]
  · rfl
  all_goals decide

/-- A report that is read by a scanner. -/
theorem report_read {uri : String} {chunks : List (List UInt8)} (s : OscScanner)
    (batch : OscBatch) (session : SessionId) (hpath : NoControl path) (hhost : NoControl host)
    (hslash : '/' ∉ host.toList) (huri : EscapedPath path (Utf8.bytes uri))
    (hsize : (osc7Payload host (Utf8.bytes uri)).length ≤ 65536)
    (hchunks : chunks.flatten = oscOpen (osc7Payload host (Utf8.bytes uri)) ++ [bel] ∨
      chunks.flatten = oscOpen (osc7Payload host (Utf8.bytes uri)) ++ stringTerminator) :
    reportedCwd s batch session chunks = some path := by
  have hunbroken := unbroken_osc7Payload hpath hhost huri
  have hfits : (osc7Payload host (Utf8.bytes uri)).length ≤ maxPayloadBytes := hsize
  have hevent : ScannerLemmas.payloadEvent (osc7Payload host (Utf8.bytes uri)) =
      some (.osc7Cwd ("file://" ++ host ++ uri)) := by
    rw [ScannerLemmas.payloadEvent, if_pos hfits, parsePayload_osc7]
  have hscan : (s.feedAll chunks).2 = [.osc7Cwd ("file://" ++ host ++ uri)] := by
    rw [OscScanner.feedAll, Transducer.feedAll_eq]
    rcases hchunks with hchunks | hchunks
    · have hbel := ScannerLemmas.feed_osc_bel hunbroken s
      rw [hevent] at hbel
      rw [hchunks]
      exact congrArg Prod.snd hbel
    · have hst := ScannerLemmas.feed_osc_st hunbroken s
      rw [hevent] at hst
      rw [hchunks]
      exact congrArg Prod.snd hst
  obtain ⟨rest, hrest⟩ : ∃ rest, uri.toList = '/' :: rest := by
    obtain ⟨_, _, -, hbytes, -⟩ := huri
    exact head_slash hbytes
  have hparse := parseFileUri_path hslash hrest
  rw [percentDecode_escaped huri] at hparse
  exact reportedCwd_event hscan hparse batch session

/-- A URI without the scheme or without a path has no slot. -/
theorem merge_no_path {uri : String}
    (h : ¬ "file://".toList <+: uri.toList ∨ '/' ∉ uri.toList.drop 7) (batch : OscBatch)
    (session : SessionId) : batch.merge session (.osc7Cwd uri) = batch := by
  have hparse : parseFileUri uri = none := by
    unfold parseFileUri
    dsimp only
    split
    · next hscheme =>
      have hnone : (uri.toList.drop 7).dropWhile (fun c => c ≠ '/') = [] := by
        rcases h with h | h
        · exact absurd (List.isPrefixOf_iff_prefix.mp hscheme) h
        · exact List.dropWhile_eq_nil_iff.mpr fun c hc =>
            decide_eq_true fun heq : c = '/' => h (heq ▸ hc)
      have hlength : "file://".toList.length = 7 := rfl
      rw [hlength, hnone]
    · rfl
  rw [OscBatch.merge, OscDelta.mergeEvent, hparse]

end CwdLemmas

open CwdLemmas

/-- The directory a shell reports arrives as it is, for every way to escape it that leaves
UTF-8, and is one word of the next shell's first command. Any URI at all is decoded, with
its broken escapes as they are, and one without a path changes nothing. -/
theorem cwd_round_trip :
    (∀ (s : OscScanner) (batch : OscBatch) (session : SessionId) (host path uri : String)
        (chunks : List (List UInt8)),
      path.toList.head? = some '/' → NoControl path → NoControl host → '/' ∉ host.toList →
      (uri = escapePercent path ∨ EscapedPath path (Utf8.bytes uri)) →
      (osc7Payload host (Utf8.bytes uri)).length ≤ 65536 →
      (chunks.flatten = oscOpen (osc7Payload host (Utf8.bytes uri)) ++ [bel] ∨
        chunks.flatten = oscOpen (osc7Payload host (Utf8.bytes uri)) ++ stringTerminator) →
      reportedCwd s batch session chunks = some path) ∧
    (∀ path, Shell.tokens (cdClause (some path)).toList = some (cdTokens path.toList)) ∧
    (∀ uri, percentDecodeLoop (Utf8.bytes uri) 0 [] = some (percentDecodeBytes (Utf8.bytes uri)) ∧
      ∀ out, Decodes (Utf8.bytes uri) out ↔ out = percentDecodeBytes (Utf8.bytes uri)) ∧
    ∀ (batch : OscBatch) (session : SessionId) (uri : String),
      ¬ "file://".toList <+: uri.toList ∨ '/' ∉ uri.toList.drop 7 →
      batch.merge session (.osc7Cwd uri) = batch := by
  refine ⟨fun s batch session host path uri chunks habsolute hpath hhost hslash huri hsize
    hchunks => ?_, tokens_cdClause, fun uri => ⟨?_, fun out => decodes_iff⟩,
    fun batch session uri h => merge_no_path h batch session⟩
  · have hescaped : EscapedPath path (Utf8.bytes uri) := by
      rcases huri with rfl | huri
      · exact escapedPath_escapePercent habsolute
      · exact huri
    exact report_read s batch session hpath hhost hslash hescaped hsize hchunks
  · rw [percentDecodeLoop_eq, List.drop_zero, List.nil_append]

/-- A directory with a percent sign and a letter outside ASCII, in two chunks. -/
theorem cwd_round_trip_split :
    reportedCwd OscScanner.new OscBatch.empty ⟨3⟩
        [(oscOpen (osc7Payload "pc" (Utf8.bytes (escapePercent "/a%20é"))) ++ [bel]).take 9,
          (oscOpen (osc7Payload "pc" (Utf8.bytes (escapePercent "/a%20é"))) ++ [bel]).drop 9] =
      some "/a%20é" ∧
    OscBatch.empty.merge ⟨3⟩ (.osc7Cwd "file://pc") = OscBatch.empty := by
  refine ⟨cwd_round_trip.1 _ _ _ "pc" "/a%20é" _ _ rfl (by decide) (by decide) (by decide)
    (.inl rfl) (by decide) (.inl ?_), cwd_round_trip.2.2.2 _ _ _ (.inr (by decide))⟩
  simp only [List.flatten_cons, List.flatten_nil, List.append_nil, List.take_append_drop]

/-- The path `/é` with only the first byte of its letter escaped: what is sent is not UTF-8,
and the scanner repairs it before the decoder sees it. -/
theorem not_every_escape_arrives :
    ¬ ∀ (host path : String) (uriPath : List UInt8), path.toList.head? = some '/' →
      NoControl path → NoControl host → '/' ∉ host.toList → EscapedPath path uriPath →
      (osc7Payload host uriPath).length ≤ 65536 →
      reportedCwd OscScanner.new OscBatch.empty ⟨0⟩
        [oscOpen (osc7Payload host uriPath) ++ [bel]] = some path := by
  intro h
  have hescapes : Escapes [0xC3, 0xA9] [37, 67, 51, 0xA9] :=
    .escape (by decide) (by decide) (.raw (by decide) .nil)
  have hlost := h "" "/é" [47, 37, 67, 51, 0xA9] rfl (by decide) (by decide) (by decide)
    ⟨_, _, by decide, rfl, hescapes⟩ (by decide)
  exact absurd hlost (by decide +kernel)

end Mast
