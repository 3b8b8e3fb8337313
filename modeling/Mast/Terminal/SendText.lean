import Mathlib.Algebra.Group.Nat.Defs
import Mast.Lib.Base64
import Mast.Send
import Mast.Terminal.Scanner

/-!
# Send requests arrive intact

The encoder of a send request is an ordinary base64 tool, the decoder is `send.rs`,
and between them is the scanner with its own bound.

Results:
1. `decode_encode`: decoding gives back every text within the bound.
2. `decode_ok_iff`: the strings that the decoder accepts.
3. `send_text_intact`: a request is one event, with its target and its text.
-/

namespace Mast

namespace SendLemmas

/-! ## Digits -/

theorem decodeDigit_digit :
    ∀ v < 64, decodeDigit (ascii (Base64.digit v)) = some (UInt8.ofNat v) := by decide

/-- The decoder's digits are the alphabet. -/
theorem decodeDigit_isSome_iff : ∀ n < 128,
    (decodeDigit (UInt8.ofNat n)).isSome = Base64.isDigit (Char.ofNat n) := by decide +kernel

theorem decodeDigit_bounds : ∀ n < 256, ∀ v ∈ decodeDigit (UInt8.ofNat n),
    n < 128 ∧ v.toNat < 64 := by decide +kernel

/-! ## The accumulator -/

/-- The accumulator takes a digit in at its low end. -/
theorem acc_shift (acc : UInt32) {v : Nat} (h : v < 64) :
    (acc <<< 6 ||| (UInt8.ofNat v).toUInt32).toNat = (acc.toNat * 64 + v) % 2 ^ 32 := by
  have hacc := acc.toNat_lt
  have hmod : acc.toNat <<< 6 % 2 ^ 32 = (acc.toNat % 2 ^ 26) <<< 6 := by
    rw [Nat.shiftLeft_eq, Nat.shiftLeft_eq]
    omega
  have hv : (UInt8.ofNat v).toUInt32.toNat = v := by
    rw [UInt8.toNat_toUInt32, Utf8.toNat_ofNat (by omega)]
  have hsix : (6 : UInt32).toNat % 32 = 6 := rfl
  rw [UInt32.toNat_or, UInt32.toNat_shiftLeft, hsix, hmod, hv,
    ← Nat.shiftLeft_add_eq_or_of_lt (by omega), Nat.shiftLeft_eq]
  omega

theorem byte_of_acc (acc : UInt32) {k : UInt32} (h : k.toNat < 32) :
    ((acc >>> k).toUInt8) = UInt8.ofNat (acc.toNat / 2 ^ k.toNat % 256) := by
  rw [← UInt8.toNat_inj, UInt32.toNat_toUInt8, UInt32.toNat_shiftRight, Nat.mod_eq_of_lt h,
    Nat.shiftRight_eq_div_pow, Utf8.toNat_ofNat (Nat.mod_lt _ (by omega))]

/-- The first digit of a group only waits. -/
theorem shift_open (out : List UInt8) (acc : UInt32) {v : Nat} (h : v < 64) :
    ∃ acc', (⟨out, acc, 0⟩ : Decoder).shift (UInt8.ofNat v) = ⟨out, acc', 6⟩ ∧
      acc'.toNat % 2 ^ 6 = v := by
  refine ⟨_, rfl, ?_⟩
  rw [acc_shift acc h]
  omega

theorem shift_full {acc bits : UInt32} (h : 8 ≤ bits + 6) (out : List UInt8) (digit : UInt8) :
    (⟨out, acc, bits⟩ : Decoder).shift digit =
      ⟨out ++ [((acc <<< 6 ||| digit.toUInt32) >>> (bits + 6 - 8)).toUInt8],
        acc <<< 6 ||| digit.toUInt32, bits + 6 - 8⟩ := if_pos h

/-- A later digit completes a byte with the `b` bits that waited. -/
theorem shift_emit (out : List UInt8) {acc : UInt32} {b r v : Nat}
    (hb : b = 6 ∨ b = 4 ∨ b = 2) (hr : acc.toNat % 2 ^ b = r) (hv : v < 64) :
    ∃ acc', (⟨out, acc, UInt32.ofNat b⟩ : Decoder).shift (UInt8.ofNat v) =
        ⟨out ++ [UInt8.ofNat ((r * 64 + v) / 2 ^ (b - 2))], acc', UInt32.ofNat (b - 2)⟩ ∧
      acc'.toNat % 2 ^ (b - 2) = v % 2 ^ (b - 2) := by
  have hacc := acc_shift acc hv
  generalize hnew : acc <<< 6 ||| (UInt8.ofNat v).toUInt32 = acc' at hacc
  have hshift : ∀ k : UInt32, k.toNat = b - 2 →
      (acc' >>> k).toUInt8 = UInt8.ofNat ((r * 64 + v) / 2 ^ (b - 2)) := by
    intro k hk
    rw [byte_of_acc acc' (by omega), hk, hacc]
    rcases hb with rfl | rfl | rfl <;> congr 1 <;> omega
  refine ⟨acc', ?_, ?_⟩
  · have hfull : 8 ≤ UInt32.ofNat b + 6 := by rcases hb with rfl | rfl | rfl <;> decide
    have hleft : UInt32.ofNat b + 6 - 8 = UInt32.ofNat (b - 2) := by
      rcases hb with rfl | rfl | rfl <;> decide
    have hcount : (UInt32.ofNat (b - 2)).toNat = b - 2 := by
      rcases hb with rfl | rfl | rfl <;> rfl
    rw [shift_full hfull, hnew, hleft, hshift _ hcount]
  · rw [hacc]
    rcases hb with rfl | rfl | rfl <;> omega

/-! ## Decoding an encoding -/

theorem run_digit {d : Decoder} {v : Nat} (h : v < 64) (rest : List UInt8) :
    d.run (ascii (Base64.digit v) :: rest) = (d.shift (UInt8.ofNat v)).run rest := by
  rw [Decoder.run, decodeDigit_digit v h]

/-- Two digits complete the first byte of a group. -/
theorem run_first (out : List UInt8) (acc : UInt32) (a : UInt8) {w : Nat} (hw : w < 16)
    (rest : List UInt8) : ∃ acc', acc'.toNat % 2 ^ 4 = w ∧
      (⟨out, acc, 0⟩ : Decoder).run (ascii (Base64.digit (a.toNat / 4)) ::
        ascii (Base64.digit (a.toNat % 4 * 16 + w)) :: rest) =
      (⟨out ++ [a], acc', UInt32.ofNat 4⟩ : Decoder).run rest := by
  have ha := a.toNat_lt
  have hsecond : a.toNat % 4 * 16 + w < 64 := by omega
  obtain ⟨acc₁, hopen, hwait⟩ := shift_open out acc (v := a.toNat / 4) (by omega)
  obtain ⟨acc₂, hemit, hleft⟩ := shift_emit out (.inl rfl) hwait hsecond
  refine ⟨acc₂, by omega, ?_⟩
  have hbyte : UInt8.ofNat ((a.toNat / 4 * 64 + (a.toNat % 4 * 16 + w)) / 2 ^ (6 - 2)) = a := by
    rw [← UInt8.toNat_inj, Utf8.toNat_ofNat (by omega)]
    omega
  rw [run_digit (by omega), run_digit hsecond, hopen]
  rw [hbyte] at hemit
  exact congrArg (Decoder.run · rest) hemit

/-- A third digit completes the second byte of a group. -/
theorem run_second (out : List UInt8) {acc : UInt32} (b : UInt8) {w : Nat} (hw : w < 4)
    (hacc : acc.toNat % 2 ^ 4 = b.toNat / 16) (rest : List UInt8) :
    ∃ acc', acc'.toNat % 2 ^ 2 = w ∧ (⟨out, acc, UInt32.ofNat 4⟩ : Decoder).run
        (ascii (Base64.digit (b.toNat % 16 * 4 + w)) :: rest) =
      (⟨out ++ [b], acc', UInt32.ofNat 2⟩ : Decoder).run rest := by
  have hb := b.toNat_lt
  have hthird : b.toNat % 16 * 4 + w < 64 := by omega
  obtain ⟨acc', hemit, hleft⟩ := shift_emit out (.inr (.inl rfl)) hacc hthird
  refine ⟨acc', by omega, ?_⟩
  have hbyte : UInt8.ofNat ((b.toNat / 16 * 64 + (b.toNat % 16 * 4 + w)) / 2 ^ (4 - 2)) = b := by
    rw [← UInt8.toNat_inj, Utf8.toNat_ofNat (by omega)]
    omega
  rw [run_digit hthird, hemit, hbyte]

/-- A fourth digit completes the third byte of a group. -/
theorem run_third (out : List UInt8) {acc : UInt32} (c : UInt8)
    (hacc : acc.toNat % 2 ^ 2 = c.toNat / 64) (rest : List UInt8) :
    ∃ acc', (⟨out, acc, UInt32.ofNat 2⟩ : Decoder).run
        (ascii (Base64.digit (c.toNat % 64)) :: rest) =
      (⟨out ++ [c], acc', 0⟩ : Decoder).run rest := by
  have hc := c.toNat_lt
  have hfourth : c.toNat % 64 < 64 := by omega
  obtain ⟨acc', hemit, _⟩ := shift_emit out (.inr (.inr rfl)) hacc hfourth
  refine ⟨acc', ?_⟩
  have hbyte : UInt8.ofNat ((c.toNat / 64 * 64 + c.toNat % 64) / 2 ^ (2 - 2)) = c := by
    rw [← UInt8.toNat_inj, Utf8.toNat_ofNat (by omega)]
    omega
  rw [run_digit hfourth, hemit, hbyte]
  rfl

/-- The digits of an encoding decode to the bytes. -/
theorem run_digits (data out : List UInt8) (acc : UInt32) :
    (⟨out, acc, 0⟩ : Decoder).run ((Base64.digits data).map ascii) = .ok (out ++ data) := by
  induction data using Base64.digits.induct generalizing out acc with
  | case1 a b c rest ih =>
    have hb := b.toNat_lt
    have hc := c.toNat_lt
    simp only [Base64.digits, Base64.group, List.map_cons, List.cons_append, List.nil_append]
    obtain ⟨acc₁, hfirst, hrun₁⟩ := run_first out acc a (w := b.toNat / 16) (by omega) _
    obtain ⟨acc₂, hsecond, hrun₂⟩ := run_second (out ++ [a]) b (w := c.toNat / 64) (by omega)
      hfirst _
    obtain ⟨acc₃, hrun₃⟩ := run_third (out ++ [a] ++ [b]) c hsecond _
    rw [hrun₁, hrun₂, hrun₃, ih]
    simp only [List.append_assoc, List.cons_append, List.nil_append]
  | case2 a b =>
    have hb := b.toNat_lt
    simp only [Base64.digits, Base64.group, List.take_succ_cons, List.take_zero, List.map_cons,
      List.map_nil]
    obtain ⟨acc₁, hfirst, hrun₁⟩ := run_first out acc a (w := b.toNat / 16) (by omega) _
    obtain ⟨acc₂, _, hrun₂⟩ := run_second (out ++ [a]) b (w := 0 / 64) (by omega) hfirst []
    rw [hrun₁, hrun₂, Decoder.run]
    simp only [List.append_assoc, List.cons_append, List.nil_append]
  | case3 a =>
    simp only [Base64.digits, Base64.group, List.take_succ_cons, List.take_zero, List.map_cons,
      List.map_nil]
    obtain ⟨acc₁, _, hrun₁⟩ := run_first out acc a (w := 0 / 16) (by omega) []
    rw [hrun₁, Decoder.run]
  | case4 => rw [Base64.digits, List.map_nil, Decoder.run, List.append_nil]

/-! ## What the decoder accepts -/

/-- The decoder succeeds on digits only. -/
theorem run_ok_iff {d : Decoder} {body : List UInt8} :
    (∃ out, d.run body = .ok out) ↔ ∀ b ∈ body, (decodeDigit b).isSome := by
  induction body generalizing d with
  | nil => simp [Decoder.run]
  | cons b body ih =>
    rw [List.forall_mem_cons, Decoder.run]
    cases decodeDigit b with
    | none => simp
    | some digit => simpa using ih

/-- Every digit is six bits of output, or waits. -/
theorem length_shift {d : Decoder} (h : d.bits.toNat < 8) (digit : UInt8) :
    (d.shift digit).bits.toNat < 8 ∧ 8 * (d.shift digit).out.length + (d.shift digit).bits.toNat =
      8 * d.out.length + d.bits.toNat + 6 := by
  have hbits : (d.bits + 6).toNat = d.bits.toNat + 6 := by
    rw [UInt32.toNat_add]
    exact Nat.mod_eq_of_lt (by rw [show (6 : UInt32).toNat = 6 from rfl]; omega)
  unfold Decoder.shift
  dsimp only
  split
  next hfull =>
    have hle : 8 ≤ d.bits.toNat + 6 := hbits ▸ UInt32.le_iff_toNat_le.mp hfull
    have hsub : (d.bits + 6 - 8).toNat = d.bits.toNat + 6 - 8 := by
      rw [UInt32.toNat_sub_of_le _ _ hfull, hbits]
      rfl
    rw [hsub, List.length_append, List.length_singleton]
    omega
  next hfull =>
    have hlt : d.bits.toNat + 6 < 8 := by
      have hnot := mt UInt32.le_iff_toNat_le.mpr hfull
      rw [hbits] at hnot
      exact Nat.lt_of_not_le hnot
    dsimp only
    rw [hbits]
    omega

theorem length_run {d : Decoder} {body out : List UInt8} (hbits : d.bits.toNat < 8)
    (h : d.run body = .ok out) :
    out.length = (8 * d.out.length + d.bits.toNat + 6 * body.length) / 8 := by
  induction body generalizing d with
  | nil =>
    obtain rfl : d.out = out := Except.ok.inj h
    rw [List.length_nil]
    omega
  | cons b body ih =>
    rw [Decoder.run] at h
    cases hdigit : decodeDigit b with
    | none => simp [hdigit] at h
    | some digit =>
      rw [hdigit] at h
      obtain ⟨hnext, hlength⟩ := length_shift hbits digit
      rw [ih hnext h, List.length_cons]
      omega

/-- The check of the length, and the length of the output. -/
theorem decodeSendText_eq {text : String} {body : List UInt8}
    (h : dropPadding 2 (Utf8.bytes text) = body) : decodeSendText text =
      if body.length % 4 = 1 then .error .invalidBase64
      else if maxSendBytes < body.length * 3 / 4 then .error (.tooLarge (body.length * 3 / 4))
      else Decoder.run ⟨[], 0, 0⟩ body := by
  unfold decodeSendText
  rw [h]
  dsimp only
  have hlt : body.length % 4 < 4 := Nat.mod_lt _ (by omega)
  unfold tailBytes
  obtain hmod | hmod | hmod | hmod : body.length % 4 = 0 ∨ body.length % 4 = 1 ∨
    body.length % 4 = 2 ∨ body.length % 4 = 3 := by omega
  · have hlen : body.length / 4 * 3 + 0 = body.length * 3 / 4 := by omega
    simp only [hmod, hlen, Nat.zero_ne_one, if_false]
  · simp only [hmod, if_true]
  · have hlen : body.length / 4 * 3 + 1 = body.length * 3 / 4 := by omega
    simp only [hmod, hlen]
    rfl
  · have hlen : body.length / 4 * 3 + 2 = body.length * 3 / 4 := by omega
    simp only [hmod, hlen]
    rfl

/-! ## Padding -/

/-- Dropping padding from digits and padding leaves the digits. -/
theorem dropPadding_append {body : List UInt8} (h : ascii '=' ∉ body) {pad budget : Nat}
    (hpad : pad ≤ budget) : dropPadding budget (body ++ List.replicate pad (ascii '=')) = body := by
  induction pad generalizing budget with
  | zero =>
    rw [List.replicate_zero, List.append_nil]
    cases budget with
    | zero => rfl
    | succ budget =>
      rw [dropPadding, if_neg]
      exact fun hlast => h (List.mem_of_getLast? hlast)
  | succ pad ih =>
    obtain ⟨budget, rfl⟩ : ∃ k, budget = k + 1 := ⟨budget - 1, by omega⟩
    rw [List.replicate_succ', ← List.append_assoc, dropPadding, List.getLast?_concat, if_pos rfl,
      List.dropLast_concat]
    exact ih (by omega)

/-- What is dropped is padding. -/
theorem dropPadding_eq (budget : Nat) (raw : List UInt8) :
    ∃ pad ≤ budget, raw = dropPadding budget raw ++ List.replicate pad (ascii '=') := by
  induction budget generalizing raw with
  | zero => exact ⟨0, Nat.le_refl _, (List.append_nil raw).symm⟩
  | succ budget ih =>
    rw [dropPadding]
    split
    next hlast =>
      obtain ⟨body, rfl⟩ := List.getLast?_eq_some_iff.mp hlast
      rw [List.dropLast_concat]
      obtain ⟨pad, hpad, hraw⟩ := ih body
      refine ⟨pad + 1, by omega, ?_⟩
      rw [List.replicate_succ', ← List.append_assoc, ← hraw]
    next => exact ⟨0, Nat.zero_le _, (List.append_nil raw).symm⟩

/-! ## Strings of ASCII characters -/

theorem bytes_ofList_ascii {l : List Char} (h : ∀ c ∈ l, c.toNat < 0x80) :
    Utf8.bytes (String.ofList l) = l.map ascii := by
  rw [Utf8.bytes, String.toList_ofList]
  induction l with
  | nil => rfl
  | cons c l ih =>
    obtain ⟨hc, hl⟩ := List.forall_mem_cons.mp h
    rw [List.flatMap_cons, Utf8.encodeChar_ascii hc, ih hl]
    rfl

/-- A string with ASCII bytes only has ASCII characters only. -/
theorem ascii_of_bytes {text : String} (h : ∀ b ∈ Utf8.bytes text, b.toNat < 0x80) :
    ∀ c ∈ text.toList, c.toNat < 0x80 := by
  intro c hc
  rcases Nat.lt_or_ge c.toNat 0x80 with hascii | hhigh
  · exact hascii
  · obtain ⟨b, hb⟩ := List.exists_mem_of_ne_nil _ (String.utf8EncodeChar_ne_nil (c := c))
    have hlow := h b (List.mem_flatMap.mpr ⟨c, hc, hb⟩)
    exact absurd (Utf8.high_of_encodeChar hhigh b hb) (Nat.not_le.mpr hlow)

theorem ascii_inj {c c' : Char} (hc : c.toNat < 0x80) (hc' : c'.toNat < 0x80)
    (h : ascii c = ascii c') : c = c' := by
  have hnat : c.toNat = c'.toNat := (Utf8.ofNat_inj (by omega) (by omega)).mp h
  rw [← Char.ofNat_toNat c, ← Char.ofNat_toNat c', hnat]

/-- The decoder takes a byte exactly if it is an alphabet character. -/
theorem decodeDigit_ascii {c : Char} (h : c.toNat < 0x80) :
    (decodeDigit (ascii c)).isSome = Base64.isDigit c := by
  rw [ascii, decodeDigit_isSome_iff _ h, Char.ofNat_toNat]

theorem digit_low {b : UInt8} (h : (decodeDigit b).isSome) : b.toNat < 0x80 := by
  obtain ⟨v, hv⟩ := Option.isSome_iff_exists.mp h
  rw [← UInt8.ofNat_toNat (x := b)] at hv
  exact (decodeDigit_bounds b.toNat b.toNat_lt v hv).1

/-- Decoding gives back every text within the bound. -/
theorem decode_encode {data : List UInt8} (h : data.length ≤ maxSendBytes) :
    decodeSendText (String.ofList (Base64.encode data)) = .ok data := by
  have hdigits : ∀ c ∈ Base64.digits data, c.toNat < 0x80 := fun c hc => by
    obtain ⟨v, hv, rfl⟩ := Base64.mem_digits hc
    exact Base64.digit_ascii v hv
  have hbytes : Utf8.bytes (String.ofList (Base64.encode data)) =
      (Base64.digits data).map ascii ++
        List.replicate (Base64.padding data.length) (ascii '=') := by
    rw [bytes_ofList_ascii, Base64.encode, List.map_append, List.map_replicate]
    intro c hc
    rcases List.mem_append.mp hc with hc | hc
    · exact hdigits c hc
    · obtain rfl := List.eq_of_mem_replicate hc
      decide
  have hnopad : ascii '=' ∉ (Base64.digits data).map ascii := by
    intro hmem
    obtain ⟨c, hc, heq⟩ := List.mem_map.mp hmem
    obtain ⟨v, hv, rfl⟩ := Base64.mem_digits hc
    have hdigit : decodeDigit (ascii '=') = some (UInt8.ofNat v) :=
      heq ▸ decodeDigit_digit v hv
    have hpad : decodeDigit (ascii '=') = none := by decide
    exact absurd (hpad.symm.trans hdigit) (Option.some_ne_none _).symm
  have hbody := dropPadding_append hnopad (Base64.padding_le data.length)
  rw [← hbytes] at hbody
  have hlength : ((Base64.digits data).map ascii).length = (data.length * 4 + 2) / 3 := by
    rw [List.length_map, Base64.length_digits]
  rw [decodeSendText_eq hbody, hlength, if_neg (by omega), if_neg (by omega), run_digits,
    List.nil_append]

/-- The strings that the decoder accepts. -/
theorem decode_ok_iff (text : String) : (∃ out, decodeSendText text = .ok out) ↔
    ∃ body pad, text.toList = body ++ List.replicate pad '=' ∧ pad ≤ 2 ∧
      (∀ c ∈ body, Base64.isDigit c = true) ∧ body.length % 4 ≠ 1 ∧
      body.length * 3 / 4 ≤ maxSendBytes := by
  constructor
  · rintro ⟨out, hout⟩
    obtain ⟨pad, hpad, hraw⟩ := dropPadding_eq 2 (Utf8.bytes text)
    generalize hbody : dropPadding 2 (Utf8.bytes text) = body at hraw
    rw [decodeSendText_eq hbody] at hout
    split at hout
    · cases hout
    next hmod =>
      split at hout
      · cases hout
      next hsize =>
        have hdigits := run_ok_iff.mp ⟨out, hout⟩
        -- the bytes are ASCII, so they are the characters
        have hlow : ∀ b ∈ Utf8.bytes text, b.toNat < 0x80 := by
          intro b hb
          rw [hraw] at hb
          rcases List.mem_append.mp hb with hb | hb
          · exact digit_low (hdigits b hb)
          · rw [List.eq_of_mem_replicate hb]
            decide
        have hascii := ascii_of_bytes hlow
        have hchars : text.toList.map ascii = body ++ List.replicate pad (ascii '=') := by
          rw [← hraw, ← bytes_ofList_ascii hascii, String.ofList_toList]
        obtain ⟨chars, pads, htext, hbodyChars, hpads⟩ := List.map_eq_append_iff.mp hchars
        have hmem : ∀ c ∈ chars, c ∈ text.toList := fun c hc => by
          rw [htext]
          exact List.mem_append_left _ hc
        refine ⟨chars, pad, ?_, hpad, fun c hc => ?_, ?_, ?_⟩
        · have hlength : pads.length = pad := by
            rw [← List.length_map (f := ascii), hpads, List.length_replicate]
          rw [htext]
          congr 1
          refine List.eq_replicate_iff.mpr ⟨hlength, fun c hc => ?_⟩
          have hin : c ∈ text.toList := by
            rw [htext]
            exact List.mem_append_right _ hc
          have hcode : ascii c = ascii '=' :=
            List.eq_of_mem_replicate (hpads ▸ List.mem_map_of_mem hc)
          exact ascii_inj (hascii c hin) (by decide) hcode
        · rw [← decodeDigit_ascii (hascii c (hmem c hc))]
          exact hdigits _ (hbodyChars ▸ List.mem_map_of_mem hc)
        · rw [← List.length_map (f := ascii), hbodyChars]
          exact hmod
        · rw [← List.length_map (f := ascii), hbodyChars]
          exact Nat.le_of_not_lt hsize
  · rintro ⟨body, pad, htext, hpad, hdigits, hmod, hsize⟩
    have hnopad : ascii '=' ∉ body.map ascii := by
      intro hmem
      obtain ⟨c, hc, heq⟩ := List.mem_map.mp hmem
      obtain rfl := ascii_inj (Base64.isDigit_ascii (hdigits c hc)) (by decide) heq
      exact absurd (hdigits _ hc) (by decide)
    have hbytes : Utf8.bytes text = body.map ascii ++ List.replicate pad (ascii '=') := by
      rw [← String.ofList_toList (s := text), htext, bytes_ofList_ascii, List.map_append,
        List.map_replicate]
      intro c hc
      rcases List.mem_append.mp hc with hc | hc
      · exact Base64.isDigit_ascii (hdigits c hc)
      · obtain rfl := List.eq_of_mem_replicate hc
        decide
    have hbody := dropPadding_append hnopad hpad
    rw [← hbytes] at hbody
    rw [decodeSendText_eq hbody, List.length_map, if_neg hmod, if_neg (Nat.not_lt.mpr hsize)]
    refine run_ok_iff.mpr fun b hb => ?_
    obtain ⟨c, hc, rfl⟩ := List.mem_map.mp hb
    rw [decodeDigit_ascii (Base64.isDigit_ascii (hdigits c hc))]
    exact hdigits c hc

/-- What the decoder puts out is within the bound. -/
theorem decode_le {text : String} {out : List UInt8} (h : decodeSendText text = .ok out) :
    out.length ≤ maxSendBytes := by
  rw [decodeSendText_eq rfl] at h
  split at h
  · cases h
  · split at h
    · cases h
    next hsize =>
      have hlength := length_run (by decide) h
      have hbits : ((0 : UInt32)).toNat = 0 := rfl
      simp only [hbits, List.length_nil] at hlength
      omega

end SendLemmas

/-! ## The request -/

/-- The payload of a send request. -/
def sendPayload (target : String) (text : List UInt8) : String :=
  "777;mast-send;" ++ target ++ ";" ++ String.ofList (Base64.encode text)

namespace SendLemmas

theorem parse_sendPayload {target : String} (h : ';' ∉ target.toList) (text : List UInt8) :
    parsePayload (Utf8.bytes (sendPayload target text)) =
      some (.osc777Send target (String.ofList (Base64.encode text))) := by
  have hpayload : (sendPayload target text).toList = "777".toList ++ ';' :: ("mast-send".toList ++
      ';' :: (target.toList ++ ';' :: Base64.encode text)) := by
    -- The equation of `sendPayload` is slow to derive: it compares texts.
    delta sendPayload
    simp
  have hcode777 : ';' ∉ "777".toList := by decide
  have hsend : ';' ∉ "mast-send".toList := by decide
  have hcode := splitOnce_append hcode777
    ("mast-send".toList ++ ';' :: (target.toList ++ ';' :: Base64.encode text))
  have hkind := splitOnce_append hsend (target.toList ++ ';' :: Base64.encode text)
  have htarget := splitOnce_append h (Base64.encode text)
  unfold parsePayload
  rw [Utf8.fromUtf8Lossy_bytes, hpayload]
  dsimp only
  rw [hcode]
  simp only [Option.getD_some, parse777, splitn, hkind, htarget]
  simp

theorem unbroken_sendPayload {target : String} (h : Unbroken (Utf8.bytes target))
    (text : List UInt8) : Unbroken (Utf8.bytes (sendPayload target text)) := by
  have hencode : ∀ c ∈ Base64.encode text, c = '=' ∨ ∃ v < 64, c = Base64.digit v := by
    intro c hc
    rcases List.mem_append.mp hc with hc | hc
    · exact .inr (Base64.mem_digits hc)
    · exact .inl (List.eq_of_mem_replicate hc)
  have hascii : ∀ c ∈ Base64.encode text, c.toNat < 0x80 := by
    intro c hc
    rcases hencode c hc with rfl | ⟨v, hv, rfl⟩
    · decide
    · exact Base64.digit_ascii v hv
  have hdigits : ∀ v < 64, Unbroken [ascii (Base64.digit v)] := by decide
  intro b hb
  delta sendPayload at hb
  rw [Utf8.bytes_append, Utf8.bytes_append, Utf8.bytes_append, List.mem_append, List.mem_append,
    List.mem_append, bytes_ofList_ascii hascii] at hb
  rcases hb with ((hb | hb) | hb) | hb
  · exact (by decide : Unbroken (Utf8.bytes "777;mast-send;")) b hb
  · exact h b hb
  · exact (by decide : Unbroken (Utf8.bytes ";")) b hb
  · obtain ⟨c, hc, rfl⟩ := List.mem_map.mp hb
    rcases hencode c hc with rfl | ⟨v, hv, rfl⟩
    · decide
    · exact hdigits v hv _ List.mem_cons_self

end SendLemmas

open SendLemmas in
/-- A send request that the scanner reads, however it is cut, is one event with its
target and its text; and the decoder accepts exactly the alphabet with at most two
padding characters, a possible length, and a size within the bound. -/
theorem send_text_intact :
    (∀ (s : OscScanner) (target : String) (text : List UInt8) (chunks : List (List UInt8)),
      text.length ≤ 32768 → ';' ∉ target.toList → Unbroken (Utf8.bytes target) →
      (Utf8.bytes (sendPayload target text)).length ≤ 65536 →
      chunks.flatten = oscOpen (Utf8.bytes (sendPayload target text)) ++ [bel] →
      ∃ textB64, (s.feedAll chunks).2 = [.osc777Send target textB64] ∧
        decodeSendText textB64 = .ok text) ∧
    (∀ text, (∃ out, decodeSendText text = .ok out) ↔
      ∃ body pad, text.toList = body ++ List.replicate pad '=' ∧ pad ≤ 2 ∧
        (∀ c ∈ body, Base64.isDigit c = true) ∧ body.length % 4 ≠ 1 ∧
        body.length * 3 / 4 ≤ 32768) ∧
    ∀ text out, decodeSendText text = .ok out → out.length ≤ 32768 := by
  refine ⟨fun s target text chunks htext hsemi htarget hsize hchunks => ?_, decode_ok_iff,
    fun text out hout => decode_le hout⟩
  refine ⟨String.ofList (Base64.encode text), ?_, decode_encode htext⟩
  have hscan := ScannerLemmas.feed_osc_bel (unbroken_sendPayload htarget text) s
  have hfits : (Utf8.bytes (sendPayload target text)).length ≤ maxPayloadBytes := hsize
  rw [ScannerLemmas.payloadEvent, if_pos hfits, parse_sendPayload hsemi] at hscan
  rw [OscScanner.feedAll, Transducer.feedAll_eq, hchunks]
  exact congrArg Prod.snd hscan

/-- A request in two chunks, behind an unfinished title. -/
theorem send_text_intact_split :
    ∃ textB64, ((OscScanner.new.feed (oscOpen [ascii '0'])).1.feedAll
        [(oscOpen (Utf8.bytes (sendPayload "build" [1, 2])) ++ [bel]).take 5,
          (oscOpen (Utf8.bytes (sendPayload "build" [1, 2])) ++ [bel]).drop 5]).2 =
        [.osc777Send "build" textB64] ∧ decodeSendText textB64 = .ok [1, 2] := by
  refine send_text_intact.1 _ "build" [1, 2] _ (by decide) (by decide) (by decide) (by decide) ?_
  simp only [List.flatten_cons, List.flatten_nil, List.append_nil, List.take_append_drop]

end Mast
