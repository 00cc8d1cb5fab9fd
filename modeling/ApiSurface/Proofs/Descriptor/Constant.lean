/-
Texts of constants can be cut off.

`ConstantText.cut`: a constant before a comma or a parenthesis ends in one place, even when the constant is a quoted
text with commas, parentheses and whole declarations inside.
`Literal.constantText_render`: the text of every constant is such.
-/
import ApiSurface.Literal
import ApiSurface.Proofs.Text.Closed
import Mathlib.Tactic.SplitIfs

namespace ApiSurface

open Text

/-! ## Texts of constants -/

/-- a quote: of a character or of a string -/
def IsQuote (c : Char) : Prop := c = '\'' ∨ c = '"'

/-- what ends a parameter -/
def IsStop (c : Char) : Prop := c = ',' ∨ c = ')'

/-- what follows an opening quote: it ends with the first quote that no backslash stands before -/
inductive Enclosed (quote : Char) : List Char → Prop
  | close : Enclosed quote [quote]
  | escape (c : Char) {rest : List Char} : Enclosed quote rest → Enclosed quote ('\\' :: c :: rest)
  | plain {c : Char} {rest : List Char} : c ≠ quote → c ≠ '\\' → Enclosed quote rest → Enclosed quote (c :: rest)

/-- a text without stops, or a quoted one -/
inductive ConstantText : List Char → Prop
  | bare {text : List Char} : (∀ c ∈ text, ¬IsStop c) → (∀ c ∈ text.head?, ¬IsQuote c) → ConstantText text
  | quoted {quote : Char} {rest : List Char} : IsQuote quote → Enclosed quote rest → ConstantText (quote :: rest)

theorem IsQuote.ne_backslash {c : Char} (h : IsQuote c) : c ≠ '\\' := by
  rcases h with rfl | rfl <;> decide

theorem IsQuote.not_isStop {c : Char} (h : IsQuote c) : ¬IsStop c := by
  rintro (rfl | rfl) <;> rcases h with h | h <;> exact absurd h (by decide)

/-- a closing quote is found in one place -/
theorem Enclosed.cut {quote : Char} (hquote : quote ≠ '\\') {u v x y : List Char} (hu : Enclosed quote u)
    (hv : Enclosed quote v) (h : u ++ x = v ++ y) : u = v ∧ x = y := by
  induction hu generalizing v with
  | close =>
    cases hv with
    | close => exact ⟨rfl, (List.cons.inj h).2⟩
    | escape c _ => exact absurd (List.cons.inj h).1 hquote
    | plain hc _ _ => exact absurd (List.cons.inj h).1.symm hc
  | escape c _ ih =>
    cases hv with
    | close => exact absurd (List.cons.inj h).1.symm hquote
    | escape c' hv =>
      obtain ⟨rfl, htail⟩ := List.cons.inj (List.cons.inj h).2
      obtain ⟨rfl, hxy⟩ := ih hv htail
      exact ⟨rfl, hxy⟩
    | plain _ hc _ => exact absurd (List.cons.inj h).1.symm hc
  | plain hc hc' _ ih =>
    cases hv with
    | close => exact absurd (List.cons.inj h).1 hc
    | escape c' _ => exact absurd (List.cons.inj h).1 hc'
    | plain _ _ hv =>
      obtain ⟨rfl, htail⟩ := List.cons.inj h
      obtain ⟨rfl, hxy⟩ := ih hv htail
      exact ⟨rfl, hxy⟩

/-- nothing bare goes on like a quoted text -/
theorem bare_ne_quoted {quote : Char} {u v x : List Char} (hquote : IsQuote quote) (hu : ∀ c ∈ u.head?, ¬IsQuote c)
    (hx : Begins IsStop x) : u ++ x ≠ quote :: v := by
  intro h
  cases u with
  | nil =>
    rw [List.nil_append] at h
    subst h
    exact hquote.not_isStop hx
  | cons a u =>
    obtain ⟨rfl, -⟩ := List.cons.inj h
    exact hu a rfl hquote

/-- **A constant ends in one place** before a comma or a closing parenthesis. -/
theorem ConstantText.cut {u v x y : List Char} (hu : ConstantText u) (hv : ConstantText v) (hx : Begins IsStop x)
    (hy : Begins IsStop y) (h : u ++ x = v ++ y) : u = v ∧ x = y := by
  cases hu with
  | bare hstops hstart =>
    cases hv with
    | bare hstops' _ => exact cut_before hstops hstops' hx hy h
    | quoted hquote _ => exact absurd h (bare_ne_quoted hquote hstart hx)
  | quoted hquote hrest =>
    cases hv with
    | bare _ hstart => exact absurd h.symm (bare_ne_quoted hquote hstart hy)
    | quoted _ hrest' =>
      obtain ⟨rfl, htail⟩ := List.cons.inj h
      obtain ⟨rfl, hxy⟩ := hrest.cut hquote.ne_backslash hrest' htail
      exact ⟨rfl, hxy⟩

/-- an equals sign and a value, or nothing for none -/
def assigned : Option String → List Char
  | none => []
  | some value => " = ".toList ++ value.toList

/-- an assigned constant ends in one place -/
theorem assigned_cut {u v : Option String} {x y : List Char} (hu : ∀ s ∈ u, ConstantText s.toList)
    (hv : ∀ s ∈ v, ConstantText s.toList) (hx : Begins IsStop x) (hy : Begins IsStop y)
    (h : assigned u ++ x = assigned v ++ y) : u = v ∧ x = y := by
  have hblank : ∀ {z rest : List Char}, Begins IsStop z → z ≠ " = ".toList ++ rest := by
    rintro z rest hz rfl
    rcases hz with hz | hz <;> exact absurd hz (by decide)
  cases u with
  | none =>
    cases v with
    | none => exact ⟨rfl, h⟩
    | some b => exact absurd (by rw [← List.append_assoc]; exact h) (hblank hx)
  | some a =>
    cases v with
    | none => exact absurd (by rw [← List.append_assoc]; exact h.symm) (hblank hy)
    | some b =>
      simp only [assigned, List.append_assoc] at h
      obtain ⟨htext, hxy⟩ := (hu a rfl).cut (hv b rfl) hx hy (List.append_cancel_left h)
      exact ⟨congrArg some (String.toList_inj.1 htext), hxy⟩

/-- a value at the end of a text without equals signs, whatever the value -/
theorem assigned_last {a b : Option String} {u v : List Char} (hu : '=' ∉ u) (hv : '=' ∉ v)
    (h : u ++ assigned a = v ++ assigned b) : u = v ∧ a = b := by
  have hnone : ∀ {w z : List Char} (value : String), '=' ∉ w → w ++ [] ≠ z ++ assigned (some value) := by
    intro w z value hw heq
    rw [List.append_nil] at heq
    exact hw (heq ▸ List.mem_append_right _ (by simp [assigned]))
  cases a with
  | none =>
    cases b with
    | none => exact ⟨List.append_cancel_right h, rfl⟩
    | some b => exact absurd h (hnone b hu)
  | some a =>
    cases b with
    | none => exact absurd h.symm (hnone a hv)
    | some b =>
      have hblank : ∀ {w : List Char}, '=' ∉ w → '=' ∉ w ++ [' '] := by
        intro w hw
        simp [hw]
      have heq : (u ++ [' ']) ++ '=' :: ' ' :: a.toList = (v ++ [' ']) ++ '=' :: ' ' :: b.toList := by
        simpa [assigned] using h
      obtain ⟨huv, hvalue⟩ := cut_at (hblank hu) (hblank hv) heq
      exact ⟨List.append_cancel_right huv, congrArg some (String.toList_inj.1 (List.cons.inj hvalue).2)⟩

/-! ## Numbers -/

/-- neither stops nor quotes -/
def Unquoted (text : List Char) : Prop := ∀ c ∈ text, ¬IsStop c ∧ ¬IsQuote c

theorem Unquoted.constantText {text : List Char} (h : Unquoted text) : ConstantText text :=
  .bare (fun c hc => (h c hc).1) (fun c hc => (h c (List.mem_of_mem_head? hc)).2)

theorem Unquoted.append {u v : List Char} (hu : Unquoted u) (hv : Unquoted v) : Unquoted (u ++ v) := by
  intro c hc
  rcases List.mem_append.1 hc with hc | hc
  · exact hu c hc
  · exact hv c hc

theorem unquoted_of_digits {text : List Char} (h : ∀ c ∈ text, c.isDigit = true) : Unquoted text := by
  intro c hc
  have hdigit := h c hc
  refine ⟨?_, ?_⟩ <;> rintro (rfl | rfl) <;> exact absurd hdigit (by decide)

instance (text : List Char) : Decidable (Unquoted text) :=
  List.decidableBAll (fun c => ¬(c = ',' ∨ c = ')') ∧ ¬(c = '\'' ∨ c = '"')) text

theorem unquoted_repr (n : Nat) : Unquoted n.repr.toList := by
  refine unquoted_of_digits fun c hc => ?_
  rw [Nat.toList_repr] at hc
  exact Nat.isDigit_of_mem_toDigits (by decide) (by decide) hc

theorem unquoted_int (n : Int) : Unquoted n.repr.toList := by
  rw [Int.repr_eq_if]
  split
  · exact unquoted_repr _
  · rw [String.toList_append]
    exact Unquoted.append (by decide) (unquoted_repr _)

theorem unquoted_zeros (n : Nat) : Unquoted (List.replicate n '0') :=
  unquoted_of_digits fun c hc => by rw [List.eq_of_mem_replicate hc]; decide

namespace Double

theorem digits_shortest (tie : Tie) (d : Double) : ∀ c ∈ (d.shortest tie).digits, c.isDigit = true := by
  intro c hc
  unfold shortest at hc
  have hmem := (List.dropWhile_suffix _).subset (List.mem_reverse.1 hc)
  exact Nat.isDigit_of_mem_toDigits (by decide) (by decide) (List.mem_reverse.1 hmem)

theorem Digits.unquoted_positional {x : Digits} (h : ∀ c ∈ x.digits, c.isDigit = true) :
    Unquoted x.positional.toList := by
  have hdigits : ∀ l ⊆ x.digits, Unquoted l := fun l hl => unquoted_of_digits fun c hc => h c (hl hc)
  unfold positional
  dsimp only
  split
  · simp only [String.toList_append, String.toList_ofList]
    exact Unquoted.append (by decide) ((unquoted_zeros _).append (hdigits _ (List.Subset.refl _)))
  · simp only [String.toList_append, String.toList_ofList]
    refine Unquoted.append (Unquoted.append ?_ (by decide)) ?_
    · exact (hdigits _ (List.take_subset _ _)).append (unquoted_zeros _)
    · split
      · decide
      · exact hdigits _ (List.drop_subset _ _)

theorem Digits.unquoted_scientific {x : Digits} (h : ∀ c ∈ x.digits, c.isDigit = true) (plus : Bool) :
    Unquoted (x.scientific plus).toList := by
  have hdigits : ∀ l ⊆ x.digits, Unquoted l := fun l hl => unquoted_of_digits fun c hc => h c (hl hc)
  have hpart : Unquoted (if (x.digits.drop 1).isEmpty then "" else "." ++ String.ofList (x.digits.drop 1)).toList := by
    split
    · decide
    · simp only [String.toList_append, String.toList_ofList]
      exact Unquoted.append (by decide) (hdigits _ (List.drop_subset _ _))
  have hsign : Unquoted (if x.exponent < 0 then "-" else if plus then "+" else "").toList := by
    split
    · decide
    · split <;> decide
  unfold scientific
  simp only [String.toList_append, String.toList_ofList]
  exact ((((hdigits _ (List.take_subset _ _)).append hpart).append (by decide)).append hsign).append (unquoted_repr _)

theorem Layout.unquoted_render (l : Layout) (d : Double) : Unquoted (l.render d).toList := by
  unfold render
  split
  · decide
  · rw [String.toList_append]
    refine Unquoted.append (by split <;> decide) ?_
    split
    · unfold magnitude
      split
      · decide
      · dsimp only
        split
        · exact Digits.unquoted_positional (digits_shortest _ _)
        · exact Digits.unquoted_scientific (digits_shortest _ _) _
    · decide

end Double

/-! ## Constants -/

namespace Literal

theorem hexDigit_not_mem (n : Nat) : Json.hexDigit n ∉ ['\'', '"', '\\'] := by
  have hsmall : ∀ k < 16, Nat.digitChar k ∉ ['\'', '"', '\\'] := by decide
  exact hsmall (n % 16) (Nat.mod_lt n (by decide))

/-- a hexadecimal digit goes on with a quoted text -/
theorem enclosed_hexDigit {quote : Char} (hquote : IsQuote quote) (n : Nat) {rest : List Char} (h : Enclosed quote rest) :
    Enclosed quote (Json.hexDigit n :: rest) := by
  have hn := hexDigit_not_mem n
  refine .plain (fun hq => hn ?_) (fun hb => hn ?_) h
  · rw [hq]
    rcases hquote with rfl | rfl <;> decide
  · rw [hb]
    decide

/-- a character, escaped where it has to be, goes on with a quoted text -/
theorem enclosed_escaped {quote : Char} (hquote : IsQuote quote) (c : Char) {rest : List Char} (h : Enclosed quote rest) :
    Enclosed quote (escaped quote c ++ rest) := by
  have hzero : ∀ {rest : List Char}, Enclosed quote rest → Enclosed quote ('0' :: rest) := by
    intro rest hrest
    refine .plain (fun hq => ?_) (by decide) hrest
    rcases hquote with rfl | rfl <;> exact absurd hq (by decide)
  unfold escaped
  split_ifs with hbackslash hnewline hreturn htab hnull hquoted hcontrol
  · exact .escape _ h
  · exact .escape _ h
  · exact .escape _ h
  · exact .escape _ h
  · exact .escape _ h
  · exact .escape _ h
  · exact .escape _ (hzero (hzero (enclosed_hexDigit hquote _ (enclosed_hexDigit hquote _ h))))
  · exact .plain hquoted hbackslash h

theorem constantText_enclosed {quote : Char} (hquote : IsQuote quote) (text : List Char) :
    ConstantText (enclosed quote text).toList := by
  unfold enclosed
  rw [String.toList_ofList]
  refine .quoted hquote ?_
  induction text with
  | nil => exact .close
  | cons c text ih =>
    rw [List.flatMap_cons, List.append_assoc]
    exact enclosed_escaped hquote c ih

/-- **The text of a constant can be cut off**, whatever the constant. -/
theorem constantText_render (l : Literal) : ConstantText l.render.toList := by
  cases l with
  | null => exact Unquoted.constantText (by decide)
  | bool b => cases b <;> exact Unquoted.constantText (by decide)
  | int n => exact (unquoted_int _).constantText
  | uint n => exact (unquoted_repr _).constantText
  | float d => exact (Double.Layout.unquoted_render _ _).constantText
  | char c => exact constantText_enclosed (Or.inl rfl) [c]
  | string s => exact constantText_enclosed (Or.inr rfl) s.toList

end Literal

end ApiSurface
