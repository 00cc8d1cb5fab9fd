/-
The tokens of a JSON text. A string or a number that is well formed but stands for nothing (half of a surrogate pair,
a magnitude beyond the doubles) is a token that carries its fault, since a reader that skips it does not mind. Any other
fault ends the tokens: nothing after it can be told apart.
-/
import ApiSurface.Json.Problem
import ApiSurface.Double.Nearest

namespace ApiSurface.Json

/-- a token, or the fault at which the text breaks off -/
inductive Token where
  | openArray
  | closeArray
  | openObject
  | closeObject
  | comma
  | colon
  | null
  | bool (value : Bool)
  | number (value : Except TextFault Number)
  | string (value : Except TextFault String)
  | brokenString (fault : TextFault)
  | broken (fault : TextFault)

/-! ## Strings -/

/-- where a string reader stands -/
inductive StringMode where
  | plain
  | escape
  | hex (unit count : Nat)
deriving DecidableEq, Repr

/-- a string being read: a first half of a surrogate pair that waits for its second, the first fault, and the
characters so far, last first -/
structure StringReader where
  mode : StringMode
  high : Option Nat
  fault : Option TextFault
  chars : List Char
deriving DecidableEq, Repr

namespace StringReader

/-- after the opening quote -/
def start : StringReader := ⟨.plain, none, none, []⟩

def push (r : StringReader) (c : Char) : StringReader := { r with mode := .plain, chars := c :: r.chars }

/-- note a fault, unless there is an earlier one -/
def note (r : StringReader) (fault : TextFault) : StringReader :=
  { r with mode := .plain, high := none, fault := r.fault.or (some fault) }

/-- a first half that no second half follows is a fault -/
def settle (r : StringReader) : StringReader := if r.high.isSome then r.note .endOfHexEscape else r

/-- take a complete hexadecimal escape -/
def unit (r : StringReader) (u : Nat) : StringReader :=
  match r.high with
  | some h =>
    if 0xDC00 ≤ u ∧ u ≤ 0xDFFF then
      push { r with high := none } (Char.ofNat (0x10000 + (h - 0xD800) * 0x400 + (u - 0xDC00)))
    else r.note .loneSurrogate
  | none =>
    if 0xD800 ≤ u ∧ u ≤ 0xDBFF then { r with mode := .plain, high := some u }
    else if 0xDC00 ≤ u ∧ u ≤ 0xDFFF then r.note .loneSurrogate
    else r.push (Char.ofNat u)

/-- what the closing quote makes of it -/
def result (r : StringReader) : Except TextFault String :=
  match r.settle.fault with
  | some fault => .error fault
  | none => .ok (String.ofList r.chars.reverse)

end StringReader

/-- the character that a one-letter escape stands for -/
def unescaped? (c : Char) : Option Char :=
  if c = '"' then some '"'
  else if c = '\\' then some '\\'
  else if c = '/' then some '/'
  else if c = 'b' then some '\x08'
  else if c = 'f' then some '\x0c'
  else if c = 'n' then some '\n'
  else if c = 'r' then some '\r'
  else if c = 't' then some '\t'
  else none

/-- the value of a hexadecimal digit -/
def hexValue? (c : Char) : Option Nat :=
  if '0' ≤ c ∧ c ≤ '9' then some (c.toNat - 48)
  else if 'a' ≤ c ∧ c ≤ 'f' then some (c.toNat - 87)
  else if 'A' ≤ c ∧ c ≤ 'F' then some (c.toNat - 55)
  else none

/-- the outcome of reading a string: its value and what follows the closing quote, or where the text breaks off -/
inductive StringScan where
  | closed (value : Except TextFault String) (rest : List Char)
  | broken (fault : TextFault)

/-- read on to the closing quote -/
def scanString (r : StringReader) : List Char → StringScan
  | [] => .broken .endInString
  | c :: rest =>
    match r.mode with
    | .plain =>
      if c = '"' then .closed r.result rest
      else if c = '\\' then scanString { r with mode := .escape } rest
      else if c.toNat < 32 then .broken .controlCharacter
      else scanString (r.settle.push c) rest
    | .escape =>
      if c = 'u' then scanString { r with mode := .hex 0 0 } rest
      else match unescaped? c with
        | some plain => scanString (r.settle.push plain) rest
        | none => .broken .invalidEscape
    | .hex unit count =>
      match hexValue? c with
      | some digit =>
        let unit := 16 * unit + digit
        scanString (if count = 3 then r.unit unit else { r with mode := .hex unit (count + 1) }) rest
      | none => .broken .invalidEscape

/-- what follows a string is shorter than the string and it -/
theorem length_rest_scanString {r : StringReader} {text rest : List Char} {value : Except TextFault String}
    (h : scanString r text = .closed value rest) : rest.length < text.length := by
  induction text generalizing r with
  | nil => simp [scanString] at h
  | cons c text ih =>
    have step : ∀ {r : StringReader}, scanString r text = .closed value rest → rest.length < (c :: text).length :=
      fun h => Nat.lt_succ_of_lt (ih h)
    unfold scanString at h
    split at h
    · split at h
      · injection h with _ h; subst h; exact Nat.lt_succ_self _
      · split at h
        · exact step h
        · split at h
          · cases h
          · exact step h
    · split at h
      · exact step h
      · split at h
        · exact step h
        · cases h
    · split at h
      · exact step h
      · cases h

/-! ## Numbers -/

/-- the digits that a text begins with -/
def leadingDigits (text : List Char) : List Char := text.takeWhile Char.isDigit

/-- the text after the digits it begins with -/
def afterDigits (text : List Char) : List Char := text.dropWhile Char.isDigit

/-- take a required run of digits -/
def digitRun (text : List Char) : Except TextFault (List Char × List Char) :=
  match leadingDigits text with
  | [] => .error (if text.isEmpty then .endInValue else .invalidNumber)
  | digits => .ok (digits, afterDigits text)

/-- an optional fraction: its digits -/
def fractionPart : List Char → Except TextFault (Option (List Char) × List Char)
  | '.' :: text => (digitRun text).map fun run => (some run.1, run.2)
  | text => .ok (none, text)

/-- an optional sign: whether it is a minus, and what follows it -/
def signPart : List Char → Bool × List Char
  | '-' :: text => (true, text)
  | '+' :: text => (false, text)
  | text => (false, text)

/-- the exponent that a sign and digits stand for -/
def exponentValue (negative : Bool) (digits : List Char) : Int :=
  let n : Int := Nat.ofDigitChars 10 digits 0
  if negative then -n else n

def exponentPart : List Char → Except TextFault (Option Int × List Char)
  | [] => .ok (none, [])
  | c :: text =>
    if c = 'e' ∨ c = 'E' then
      (digitRun (signPart text).2).map fun run => (some (exponentValue (signPart text).1 run.1), run.2)
    else .ok (none, c :: text)

/-- add digits to a number while it stays below `2 ^ 64`; also how many digits were left out -/
def accumulate (n : Nat) : List Char → Nat × Nat
  | [] => (n, 0)
  | digit :: rest =>
    let next := 10 * n + (digit.toNat - 48)
    if next < UInt64.size then accumulate next rest else (n, rest.length + 1)

/-- the double for a decimal: digits that do not fit into 64 bits only count as places -/
def readDouble (negative : Bool) (whole fraction : List Char) (exponent : Int) : Except TextFault Number :=
  let (n, leftWhole) := accumulate 0 whole
  let (n, leftFraction) := accumulate n fraction
  let places : Int := (leftWhole : Int) - ((fraction.length : Int) - (leftFraction : Int))
  match Double.ofDecimal? n (places + exponent) with
  | none => .error .numberOutOfRange
  | some d => .ok (.double (if negative then d.neg else d))

/-- the number for its parts; an integer must fit into 64 bits and must not be a negative zero -/
def readNumber (negative : Bool) (whole : List Char) (fraction : Option (List Char)) (exponent : Option Int) :
    Except TextFault Number :=
  let n := Nat.ofDigitChars 10 whole 0
  match fraction, exponent with
  | none, none =>
    if negative then
      if 0 < n ∧ 2 * n ≤ UInt64.size then .ok (.int (-n)) else readDouble true whole [] 0
    else if n < UInt64.size then .ok (.int n)
    else readDouble false whole [] 0
  | _, _ => readDouble negative whole (fraction.getD []) (exponent.getD 0)

/-- read a number without its sign; an integer part has no leading zero -/
def scanMagnitude (negative : Bool) (text : List Char) : Except TextFault (Except TextFault Number × List Char) := do
  let (whole, rest) ← digitRun text
  if whole.head? = some '0' ∧ whole.length ≠ 1 then throw .invalidNumber
  let (fraction, rest) ← fractionPart rest
  let (exponent, rest) ← exponentPart rest
  return (readNumber negative whole fraction exponent, rest)

def scanNumber : List Char → Except TextFault (Except TextFault Number × List Char)
  | '-' :: text => scanMagnitude true text
  | text => scanMagnitude false text

theorem length_rest_digitRun {text digits rest : List Char} (h : digitRun text = .ok (digits, rest)) :
    rest.length < text.length := by
  unfold digitRun at h
  split at h
  · cases h
  · next hd =>
    injection h with h
    injection h with _ h
    subst h
    have := congrArg List.length (List.takeWhile_append_dropWhile (p := Char.isDigit) (l := text))
    have hpos : 0 < (leadingDigits text).length := List.length_pos_iff.2 hd
    simp only [List.length_append] at this
    unfold leadingDigits at hpos
    unfold afterDigits
    omega

theorem length_rest_map_digitRun {α : Type} {text rest : List Char} {part : α} {f : List Char → α}
    (h : ((digitRun text).map fun run => (f run.1, run.2)) = .ok (part, rest)) :
    rest.length < text.length := by
  cases hr : digitRun text with
  | error e => simp [hr, Except.map] at h
  | ok p =>
    simp only [hr, Except.map, Except.ok.injEq, Prod.mk.injEq] at h
    exact h.2 ▸ length_rest_digitRun hr

theorem length_rest_fractionPart {text rest : List Char} {f : Option (List Char)}
    (h : fractionPart text = .ok (f, rest)) : rest.length ≤ text.length := by
  unfold fractionPart at h
  split at h
  · exact Nat.le_of_lt (Nat.lt_succ_of_lt (length_rest_map_digitRun (f := some) h))
  · simp only [Except.ok.injEq, Prod.mk.injEq] at h
    exact h.2 ▸ Nat.le_refl _

theorem length_signPart_le (text : List Char) : (signPart text).2.length ≤ text.length := by
  unfold signPart
  split
  · exact Nat.le_succ _
  · exact Nat.le_succ _
  · exact Nat.le_refl _

theorem length_rest_exponentPart {text rest : List Char} {e : Option Int}
    (h : exponentPart text = .ok (e, rest)) : rest.length ≤ text.length := by
  unfold exponentPart at h
  split at h
  · simp only [Except.ok.injEq, Prod.mk.injEq] at h
    exact h.2 ▸ Nat.le_refl _
  · next text' =>
    split at h
    · have := length_rest_map_digitRun (f := fun digits => some (exponentValue (signPart text').1 digits)) h
      have := length_signPart_le text'
      simp only [List.length_cons]
      omega
    · simp only [Except.ok.injEq, Prod.mk.injEq] at h
      exact h.2 ▸ Nat.le_refl _

theorem length_rest_scanMagnitude {negative : Bool} {text rest : List Char} {n : Except TextFault Number}
    (h : scanMagnitude negative text = .ok (n, rest)) : rest.length < text.length := by
  unfold scanMagnitude at h
  cases hw : digitRun text with
  | error e => simp [hw, bind, Except.bind] at h
  | ok w =>
    obtain ⟨whole, r₁⟩ := w
    have h₁ := length_rest_digitRun hw
    simp only [hw, bind, Except.bind] at h
    split at h
    · cases h
    · cases hf : fractionPart r₁ with
      | error e => simp [hf] at h
      | ok f =>
        obtain ⟨fraction, r₂⟩ := f
        have h₂ := length_rest_fractionPart hf
        cases he : exponentPart r₂ with
        | error e => simp [hf, he] at h
        | ok e =>
          obtain ⟨exponent, r₃⟩ := e
          have h₃ := length_rest_exponentPart he
          simp only [hf, he, pure, Except.pure, Except.ok.injEq, Prod.mk.injEq] at h
          rw [← h.2]
          omega

/-- what follows a number is shorter than the number and it -/
theorem length_rest_scanNumber {text rest : List Char} {n : Except TextFault Number}
    (h : scanNumber text = .ok (n, rest)) : rest.length < text.length := by
  unfold scanNumber at h
  split at h
  · exact Nat.lt_succ_of_lt (length_rest_scanMagnitude h)
  · exact length_rest_scanMagnitude h

/-! ## The tokens of a text -/

/-- the four blanks between tokens -/
def isBlank (c : Char) : Bool := c == ' ' || c == '\n' || c == '\t' || c == '\r'

/-- read the rest of a word -/
def scanWord : List Char → List Char → Except TextFault (List Char)
  | [], text => .ok text
  | _ :: _, [] => .error .endInValue
  | w :: word, c :: text => if w = c then scanWord word text else .error .expectedWord

theorem length_rest_scanWord {word text rest : List Char} (h : scanWord word text = .ok rest) :
    rest.length ≤ text.length := by
  induction word generalizing text with
  | nil => exact Nat.le_of_eq (congrArg List.length (Except.ok.inj h).symm)
  | cons w word ih =>
    cases text with
    | nil => simp [scanWord] at h
    | cons c text =>
      simp only [scanWord] at h
      split at h
      · exact Nat.le_succ_of_le (ih h)
      · cases h

/-- the token that a single character is -/
def punctuation? (c : Char) : Option Token :=
  if c = '[' then some .openArray
  else if c = ']' then some .closeArray
  else if c = '\x7b' then some .openObject
  else if c = '\x7d' then some .closeObject
  else if c = ',' then some .comma
  else if c = ':' then some .colon
  else none

/-- the word that begins with a character: its other letters and its token -/
def word? (c : Char) : Option (List Char × Token) :=
  if c = 'n' then some (['u', 'l', 'l'], .null)
  else if c = 't' then some (['r', 'u', 'e'], .bool true)
  else if c = 'f' then some (['a', 'l', 's', 'e'], .bool false)
  else none

/-- the first token of a text that begins with `c`, and the text after it; nothing after the text breaks off -/
def scanToken (c : Char) (text : List Char) : Token × Option (List Char) :=
  if c = '"' then
    match scanString .start text with
    | .closed value rest => (.string value, some rest)
    | .broken fault => (.brokenString fault, none)
  else
    match punctuation? c, word? c with
    | some token, _ => (token, some text)
    | none, some (word, token) =>
      match scanWord word text with
      | .ok rest => (token, some rest)
      | .error fault => (.broken fault, none)
    | none, none =>
      if c = '-' ∨ c.isDigit then
        match scanNumber (c :: text) with
        | .ok (value, rest) => (.number value, some rest)
        | .error fault => (.broken fault, none)
      else (.broken .expectedValue, none)

theorem length_rest_scanToken {c : Char} {text rest : List Char} {token : Token}
    (h : scanToken c text = (token, some rest)) : rest.length < (c :: text).length := by
  unfold scanToken at h
  split at h
  · split at h
    · next hs =>
      have := length_rest_scanString hs
      simp only [Prod.mk.injEq, Option.some.injEq] at h
      rw [← h.2]
      exact Nat.lt_succ_of_lt this
    · cases h
  · split at h
    · simp only [Prod.mk.injEq, Option.some.injEq] at h
      rw [← h.2]
      exact Nat.lt_succ_self _
    · split at h
      · next hw =>
        have := length_rest_scanWord hw
        simp only [Prod.mk.injEq, Option.some.injEq] at h
        rw [← h.2]
        exact Nat.lt_succ_of_le this
      · cases h
    · split at h
      · split at h
        · next hn =>
          have := length_rest_scanNumber hn
          simp only [Prod.mk.injEq, Option.some.injEq] at h
          rw [← h.2]
          exact this
        · cases h
      · cases h

/-- the tokens of a text, up to where it breaks off -/
def tokens : List Char → List Token
  | [] => []
  | c :: text =>
    if isBlank c then tokens text
    else
      match h : scanToken c text with
      | (token, none) => [token]
      | (token, some rest) =>
        have := length_rest_scanToken h
        token :: tokens rest
termination_by text => text.length
decreasing_by
  · exact Nat.lt_succ_self text.length
  · exact this

end ApiSurface.Json
