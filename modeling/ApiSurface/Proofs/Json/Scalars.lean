/-
Strings and numbers are read as they were written.

`scanString_quoted`: the written form of a string, up to the closing quote, reads as the string.
`scanNumber_repr`, `scanNumber_negSucc`: so does an integer of 64 bits that no digit, point or exponent follows.
-/
import ApiSurface.Json.Token
import Mathlib.Tactic.SplitIfs

namespace ApiSurface.Json

/-! ## Strings -/

/-- a string reader with nothing but the characters it has read, last first -/
def readerAt (chars : List Char) : StringReader := ⟨.plain, none, none, chars⟩

theorem hexValue?_hexDigit (n : Nat) : hexValue? (hexDigit n) = some (n % 16) := by
  have hsmall : ∀ k < 16, hexValue? (Nat.digitChar k) = some k := by decide
  exact hsmall (n % 16) (Nat.mod_lt n (by decide))

/-- an escape of one letter -/
theorem scanString_letter (chars : List Char) {letter c : Char} (hletter : letter ≠ 'u')
    (hc : unescaped? letter = some c) (rest : List Char) :
    scanString (readerAt chars) ('\\' :: letter :: rest) = scanString (readerAt (c :: chars)) rest := by
  rw [scanString]
  dsimp only [readerAt]
  rw [if_neg (by decide), if_pos rfl, scanString]
  dsimp only
  rw [if_neg hletter, hc]
  rfl

/-- a hexadecimal digit of an escape -/
theorem scanString_hex (chars : List Char) (unit count n : Nat) (rest : List Char) :
    scanString { readerAt chars with mode := .hex unit count } (hexDigit n :: rest) =
      scanString (if count = 3 then { readerAt chars with mode := .hex unit count }.unit (16 * unit + n % 16)
        else { readerAt chars with mode := .hex (16 * unit + n % 16) (count + 1) }) rest := by
  rw [scanString]
  dsimp only
  rw [hexValue?_hexDigit]

/-- the escape of a control character -/
theorem scanString_unit (chars : List Char) {c : Char} (hc : c.toNat < 32) (rest : List Char) :
    scanString (readerAt chars) ('\\' :: 'u' :: '0' :: '0' :: hexDigit (c.toNat / 16) :: hexDigit c.toNat :: rest) =
      scanString (readerAt (c :: chars)) rest := by
  have hvalue : 16 * (16 * (16 * (16 * 0 + 0 % 16) + 0 % 16) + c.toNat / 16 % 16) + c.toNat % 16 = c.toNat := by omega
  have hunit : { readerAt chars with mode := .hex (16 * (16 * (16 * 0 + 0 % 16) + 0 % 16) + c.toNat / 16 % 16) 3 }.unit
      c.toNat = readerAt (c :: chars) := by
    unfold StringReader.unit
    dsimp only [readerAt]
    rw [if_neg (by omega), if_neg (by omega), Char.ofNat_toNat]
    rfl
  have hzero : '0' = hexDigit 0 := rfl
  rw [scanString]
  dsimp only [readerAt]
  rw [if_neg (by decide), if_pos rfl, scanString]
  dsimp only
  rw [if_pos rfl, hzero]
  change scanString { readerAt chars with mode := .hex 0 0 } _ = _
  rw [scanString_hex, if_neg (by decide), scanString_hex, if_neg (by decide), scanString_hex, if_neg (by decide),
    scanString_hex, if_pos rfl, hvalue, hunit]
  rfl

/-- **One written character is read as the character.** -/
theorem scanString_escaped (chars : List Char) (c : Char) (rest : List Char) :
    scanString (readerAt chars) (escaped c ++ rest) = scanString (readerAt (c :: chars)) rest := by
  unfold escaped
  split_ifs with hquote hbackslash hnewline hreturn htab hbackspace hfeed hcontrol
  · rw [hquote]
    exact scanString_letter chars (by decide) rfl rest
  · rw [hbackslash]
    exact scanString_letter chars (by decide) rfl rest
  · rw [hnewline]
    exact scanString_letter chars (by decide) rfl rest
  · rw [hreturn]
    exact scanString_letter chars (by decide) rfl rest
  · rw [htab]
    exact scanString_letter chars (by decide) rfl rest
  · rw [hbackspace]
    exact scanString_letter chars (by decide) rfl rest
  · rw [hfeed]
    exact scanString_letter chars (by decide) rfl rest
  · exact scanString_unit chars hcontrol rest
  · rw [List.singleton_append, scanString]
    dsimp only [readerAt]
    rw [if_neg hquote, if_neg hbackslash, if_neg hcontrol]
    rfl

/-- **A written string is read as the string**, and the text goes on after the closing quote. -/
theorem scanString_quoted (s : String) (rest : List Char) :
    scanString .start (s.toList.flatMap escaped ++ '"' :: rest) = .closed (.ok s) rest := by
  have hread : ∀ (text chars : List Char), scanString (readerAt chars) (text.flatMap escaped ++ '"' :: rest) =
      .closed (.ok (String.ofList (chars.reverse ++ text))) rest := by
    intro text
    induction text with
    | nil =>
      intro chars
      rw [List.flatMap_nil, List.nil_append, scanString]
      dsimp only [readerAt]
      rw [if_pos rfl, List.append_nil]
      rfl
    | cons c text ih =>
      intro chars
      rw [List.flatMap_cons, List.append_assoc, scanString_escaped, ih, List.reverse_cons, List.append_assoc]
      rfl
  have h := hread s.toList []
  rw [List.reverse_nil, List.nil_append, String.ofList_toList] at h
  exact h

/-! ## Numbers -/

/-- a text that does not go on with a digit, a point or an exponent -/
def EndsNumber (rest : List Char) : Prop := ∀ c ∈ rest.head?, c.isDigit = false ∧ c ≠ '.' ∧ c ≠ 'e' ∧ c ≠ 'E'

/-- no number but zero begins with a zero -/
theorem head?_toDigits (n : Nat) (hn : 0 < n) : (Nat.toDigits 10 n).head? ≠ some '0' := by
  induction n using Nat.strongRecOn with
  | ind n ih =>
    by_cases hsmall : n < 10
    · have hdigits : ∀ k < 10, 0 < k → [Nat.digitChar k].head? ≠ some '0' := by decide
      rw [Nat.toDigits_of_lt_base hsmall]
      exact hdigits n hsmall hn
    · have hdiv : 0 < n / 10 := Nat.div_pos (Nat.le_of_not_lt hsmall) (by decide)
      obtain ⟨d, ds, hd⟩ := List.exists_cons_of_ne_nil (Nat.toDigits_ne_nil (n := n / 10) (b := 10))
      have hhead := ih (n / 10) (Nat.div_lt_self hn (by decide)) hdiv
      rw [hd] at hhead
      rw [Nat.toDigits_of_base_le (by decide) (Nat.le_of_not_lt hsmall), hd]
      exact hhead

/-- digits are taken up to where they end -/
theorem digitRun_append {digits rest : List Char} (hne : digits ≠ []) (hdigits : ∀ c ∈ digits, c.isDigit = true)
    (hrest : EndsNumber rest) : digitRun (digits ++ rest) = .ok (digits, rest) := by
  have hstop : rest.takeWhile Char.isDigit = [] ∧ rest.dropWhile Char.isDigit = rest := by
    cases rest with
    | nil => exact ⟨rfl, rfl⟩
    | cons c rest => simp [(hrest c rfl).1]
  have hleading : leadingDigits (digits ++ rest) = digits := by
    unfold leadingDigits
    rw [List.takeWhile_append_of_pos hdigits, hstop.1, List.append_nil]
  have hafter : afterDigits (digits ++ rest) = rest := by
    unfold afterDigits
    rw [List.dropWhile_append_of_pos hdigits, hstop.2]
  unfold digitRun
  rw [hleading, hafter]
  cases digits with
  | nil => exact absurd rfl hne
  | cons d ds => rfl

theorem fractionPart_of_endsNumber {rest : List Char} (h : EndsNumber rest) : fractionPart rest = .ok (none, rest) := by
  unfold fractionPart
  split
  · exact absurd rfl (h '.' rfl).2.1
  · rfl

theorem exponentPart_of_endsNumber {rest : List Char} (h : EndsNumber rest) : exponentPart rest = .ok (none, rest) := by
  cases rest with
  | nil => rfl
  | cons c rest =>
    obtain ⟨-, -, hlower, hupper⟩ := h c rfl
    rw [exponentPart, if_neg (by rintro (hc | hc) <;> contradiction)]

/-- the digits of a natural number are read as a whole number, whatever the sign before them -/
theorem scanMagnitude_toDigits (negative : Bool) (n : Nat) {rest : List Char} (hrest : EndsNumber rest) :
    scanMagnitude negative (Nat.toDigits 10 n ++ rest) =
      .ok (readNumber negative (Nat.toDigits 10 n) none none, rest) := by
  have hdigits : ∀ c ∈ Nat.toDigits 10 n, c.isDigit = true :=
    fun c hc => Nat.isDigit_of_mem_toDigits (by decide) (by decide) hc
  have hzero : ¬((Nat.toDigits 10 n).head? = some '0' ∧ (Nat.toDigits 10 n).length ≠ 1) := by
    rintro ⟨hhead, hlength⟩
    rcases Nat.eq_zero_or_pos n with rfl | hpos
    · exact hlength rfl
    · exact head?_toDigits n hpos hhead
  unfold scanMagnitude
  rw [digitRun_append Nat.toDigits_ne_nil hdigits hrest]
  simp only [bind, Except.bind, if_neg hzero, fractionPart_of_endsNumber hrest, exponentPart_of_endsNumber hrest,
    pure, Except.pure]

/-- **A written natural number is read as the number.** -/
theorem scanNumber_repr {n : Nat} (hn : n < UInt64.size) {rest : List Char} (hrest : EndsNumber rest) :
    scanNumber (n.repr.toList ++ rest) = .ok (.ok (.int n), rest) := by
  have hmagnitude : scanMagnitude false (n.repr.toList ++ rest) = .ok (.ok (.int n), rest) := by
    rw [Nat.toList_repr, scanMagnitude_toDigits false n hrest]
    unfold readNumber
    simp [Nat.ofDigitChars_ten_toDigits, hn]
  rw [Nat.toList_repr] at hmagnitude ⊢
  obtain ⟨d, ds, hd⟩ := List.exists_cons_of_ne_nil (Nat.toDigits_ne_nil (n := n) (b := 10))
  have hdigit : d.isDigit = true :=
    Nat.isDigit_of_mem_toDigits (n := n) (by decide) (by decide) (hd ▸ List.mem_cons_self)
  rw [hd] at hmagnitude ⊢
  unfold scanNumber
  split
  · next heq =>
    rw [(List.cons.inj heq).1] at hdigit
    cases hdigit
  · exact hmagnitude

/-- **So is a negative number**, down to the least of 64 bits. -/
theorem scanNumber_negSucc {n : Nat} (hn : 2 * (n + 1) ≤ UInt64.size) {rest : List Char} (hrest : EndsNumber rest) :
    scanNumber ('-' :: ((n + 1).repr.toList ++ rest)) = .ok (.ok (.int (Int.negSucc n)), rest) := by
  have hpos : 0 < n + 1 ∧ 2 * (n + 1) ≤ UInt64.size := ⟨Nat.succ_pos n, hn⟩
  have hread : readNumber true (Nat.toDigits 10 (n + 1)) none none = .ok (.int (Int.negSucc n)) := by
    unfold readNumber
    dsimp only
    rw [Nat.ofDigitChars_ten_toDigits, if_pos rfl, if_pos hpos]
    rfl
  change scanMagnitude true ((n + 1).repr.toList ++ rest) = _
  rw [Nat.toList_repr, scanMagnitude_toDigits true (n + 1) hrest, hread]

end ApiSurface.Json
