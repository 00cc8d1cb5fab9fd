/-
The text of a constant tells its value.

Characters between quotes can be read back one by one, an escape by the letter after its backslash, so a quoted constant
ends in one place whatever follows it. No two constants but an integer and a word of one number have one text, as long as
one of them is no floating-point number.

`unescape_escaped`: a character is read back from its escape, whatever follows.
`render_cut`: a quoted constant is cut off in one way.
`render_ne_float`: no other constant has the text of a floating-point number.
`render_eq_iff`: when two constants have one text.
`values_shown`: so a declaration shows its values.
-/
import ApiSurface.Extraction.Basic
import ApiSurface.Proofs.Descriptor.MemberId
import ApiSurface.Proofs.Json.Scalars
import ApiSurface.Proofs.TypeRef.Arity
import Mathlib

namespace ApiSurface

open Text

namespace Literal

/-! ## Characters between quotes -/

/-- the character that a text between quotes begins with, and what follows it -/
def unescape : List Char → Option (Char × List Char)
  | '\\' :: 'n' :: rest => some ('\n', rest)
  | '\\' :: 'r' :: rest => some ('\r', rest)
  | '\\' :: 't' :: rest => some ('\t', rest)
  | '\\' :: '0' :: rest => some ('\x00', rest)
  | '\\' :: 'u' :: '0' :: '0' :: high :: low :: rest => do
    return (Char.ofNat (16 * (← Json.hexValue? high) + (← Json.hexValue? low)), rest)
  | '\\' :: c :: rest => some (c, rest)
  | c :: rest => some (c, rest)
  | [] => none

/-- **A character is read back from its escape**, whatever follows. -/
theorem unescape_escaped {quote : Char} (hquote : IsQuote quote) (c : Char) (rest : List Char) :
    unescape (escaped quote c ++ rest) = some (c, rest) := by
  unfold escaped
  split_ifs with hbackslash hnewline hreturn htab hnull hquoted hcontrol
  · subst hbackslash
    rfl
  · subst hnewline
    rfl
  · subst hreturn
    rfl
  · subst htab
    rfl
  · subst hnull
    rfl
  · subst hquoted
    rcases hquote with rfl | rfl <;> rfl
  · have hsmall : c.toNat < 256 := by
      have := of_decide_eq_true hcontrol
      omega
    have hvalue : 16 * (c.toNat / 16 % 16) + c.toNat % 16 = c.toNat := by omega
    simp only [List.cons_append, List.nil_append, unescape, Json.hexValue?_hexDigit, Option.pure_def, Option.bind_eq_bind,
      Option.bind_some]
    rw [hvalue, Char.ofNat_toNat]
  · rw [List.singleton_append]
    unfold unescape
    split <;> simp_all

/-- a character between quotes does not begin with the quote -/
theorem escaped_ne_quote {quote : Char} (hquote : IsQuote quote) (c : Char) (x y : List Char) :
    escaped quote c ++ x ≠ quote :: y := by
  intro h
  have hbackslash : quote ≠ '\\' := hquote.ne_backslash
  unfold escaped at h
  split_ifs at h with _ _ _ _ _ hquoted _
  all_goals first
    | exact hbackslash (List.cons.inj h).1.symm
    | exact hquoted (List.cons.inj h).1

/-- characters up to the closing quote are read in one way -/
theorem escapes_cut {quote : Char} (hquote : IsQuote quote) {u v x y : List Char}
    (h : u.flatMap (escaped quote) ++ quote :: x = v.flatMap (escaped quote) ++ quote :: y) : u = v ∧ x = y := by
  induction u generalizing v with
  | nil =>
    cases v with
    | nil => exact ⟨rfl, (List.cons.inj h).2⟩
    | cons d v =>
      rw [List.flatMap_cons, List.append_assoc] at h
      exact absurd h.symm (escaped_ne_quote hquote d _ _)
  | cons c u ih =>
    cases v with
    | nil =>
      rw [List.flatMap_cons, List.append_assoc] at h
      exact absurd h (escaped_ne_quote hquote c _ _)
    | cons d v =>
      rw [List.flatMap_cons, List.flatMap_cons, List.append_assoc, List.append_assoc] at h
      have hread := congrArg unescape h
      rw [unescape_escaped hquote, unescape_escaped hquote, Option.some.injEq, Prod.mk.injEq] at hread
      obtain ⟨rfl, hrest⟩ := hread
      obtain ⟨rfl, hxy⟩ := ih hrest
      exact ⟨rfl, hxy⟩

/-! ## Quoted constants -/

/-- a character or a string -/
inductive IsQuoted : Literal → Prop
  | char (c : Char) : IsQuoted (.char c)
  | string (s : String) : IsQuoted (.string s)

theorem toList_enclosed_append (quote : Char) (text : List Char) (s : String) :
    (enclosed quote text ++ s).toList = quote :: (text.flatMap (escaped quote) ++ quote :: s.toList) := by
  simp [enclosed]

/-- **A quoted constant is cut off in one way**, whatever follows it. -/
theorem render_cut {a b : Literal} (ha : a.IsQuoted) (hb : b.IsQuoted) {s t : String}
    (h : a.render ++ s = b.render ++ t) : a = b ∧ s = t := by
  have htext := congrArg String.toList h
  cases ha with
  | char c =>
    cases hb with
    | char d =>
      simp only [render, toList_enclosed_append] at htext
      obtain ⟨hchars, hrest⟩ := escapes_cut (Or.inl rfl) (List.cons.inj htext).2
      exact ⟨congrArg Literal.char (List.cons.inj hchars).1, String.toList_inj.1 hrest⟩
    | string s =>
      simp only [render, toList_enclosed_append] at htext
      exact absurd (List.cons.inj htext).1 (by decide)
  | string s =>
    cases hb with
    | char d =>
      simp only [render, toList_enclosed_append] at htext
      exact absurd (List.cons.inj htext).1 (by decide)
    | string s' =>
      simp only [render, toList_enclosed_append] at htext
      obtain ⟨hchars, hrest⟩ := escapes_cut (Or.inr rfl) (List.cons.inj htext).2
      exact ⟨congrArg Literal.string (String.toList_inj.1 hchars), String.toList_inj.1 hrest⟩

end Literal

namespace Double

/-! ## Floating-point numbers -/

theorem Digits.marks_positional {x : Digits} (h : ∀ c ∈ x.digits, c.isDigit = true) :
    (∃ c ∈ x.positional.toList, c.isDigit = true) ∧ '.' ∈ x.positional.toList := by
  unfold positional
  dsimp only
  split
  · simp only [String.toList_append, String.toList_ofList]
    exact ⟨⟨'0', by simp, by decide⟩, by simp⟩
  · simp only [String.toList_append, String.toList_ofList]
    refine ⟨?_, by simp⟩
    by_cases hpart : x.digits.drop (x.exponent + 1).toNat = []
    · exact ⟨'0', by simp [hpart], by decide⟩
    · obtain ⟨c, rest, hc⟩ := List.exists_cons_of_ne_nil hpart
      refine ⟨c, by simp [hc], h c (List.drop_subset (x.exponent + 1).toNat _ ?_)⟩
      rw [hc]
      exact List.mem_cons_self

theorem Digits.marks_scientific (x : Digits) (plus : Bool) :
    (∃ c ∈ (x.scientific plus).toList, c.isDigit = true) ∧ 'e' ∈ (x.scientific plus).toList := by
  obtain ⟨c, rest, hc⟩ := List.exists_cons_of_ne_nil (Nat.toDigits_ne_nil : Nat.toDigits 10 x.exponent.natAbs ≠ [])
  rw [← Nat.toList_repr] at hc
  have hmem : c ∈ x.exponent.natAbs.repr.toList := hc ▸ List.mem_cons_self
  unfold scientific
  simp only [String.toList_append]
  exact ⟨⟨c, List.mem_append_right _ hmem, TypeRef.isDigit_repr hmem⟩, by simp⟩

/-- a number is shown with a digit, and with a point or an exponent, unless it is not finite -/
theorem Layout.marks_render (l : Layout) (d : Double) : l.render d ∈ ["NaN", "inf", "-inf"] ∨
    (∃ c ∈ (l.render d).toList, c.isDigit = true) ∧ ('.' ∈ (l.render d).toList ∨ 'e' ∈ (l.render d).toList) := by
  have hmagnitude : (∃ c ∈ (l.magnitude d).toList, c.isDigit = true) ∧
      ('.' ∈ (l.magnitude d).toList ∨ 'e' ∈ (l.magnitude d).toList) := by
    unfold magnitude
    split
    · exact ⟨⟨'0', by decide, by decide⟩, Or.inl (by decide)⟩
    · dsimp only
      split
      · obtain ⟨hdigit, hpoint⟩ := Digits.marks_positional (digits_shortest l.tie d)
        exact ⟨hdigit, Or.inl hpoint⟩
      · obtain ⟨hdigit, hexponent⟩ := (d.shortest l.tie).marks_scientific l.plus
        exact ⟨hdigit, Or.inr hexponent⟩
  unfold render
  split
  · exact Or.inl (by decide)
  · by_cases hfinite : d.isFinite = true
    · rw [if_pos hfinite, String.toList_append]
      obtain ⟨⟨c, hc, hdigit⟩, hmark⟩ := hmagnitude
      exact Or.inr ⟨⟨c, List.mem_append_right _ hc, hdigit⟩, hmark.imp (List.mem_append_right _) (List.mem_append_right _)⟩
    · rw [if_neg hfinite]
      refine Or.inl ?_
      split <;> decide

end Double

namespace Literal

/-- any constant but a floating-point number -/
def IsExact (a : Literal) : Prop := ∀ d, a ≠ .float d

theorem digit_or_minus (n : Int) : ∀ c ∈ n.repr.toList, c.isDigit = true ∨ c = '-' := by
  intro c hc
  rw [Int.repr_eq_if] at hc
  split at hc
  · exact Or.inl (TypeRef.isDigit_repr hc)
  · rw [String.toList_append, List.mem_append] at hc
    exact hc.elim (fun h => Or.inr (List.mem_singleton.1 h)) fun h => Or.inl (TypeRef.isDigit_repr h)

/-- no integer is written like a floating-point number -/
theorem repr_ne_float (n : Int) (d : Double) : n.repr ≠ floatLayout.render d := by
  intro h
  have hchars := digit_or_minus n
  rw [h] at hchars
  rcases floatLayout.marks_render d with hname | ⟨-, hmark | hmark⟩
  · have hletter : ∀ s ∈ ["NaN", "inf", "-inf"], 'N' ∈ s.toList ∨ 'i' ∈ s.toList := by decide
    rcases hletter _ hname with hmem | hmem <;> exact absurd (hchars _ hmem) (by decide)
  · exact absurd (hchars _ hmark) (by decide)
  · exact absurd (hchars _ hmark) (by decide)

/-- no word is written like a floating-point number -/
theorem word_ne_float {word : String} (h : word ∈ ["null", "true", "false"]) (d : Double) :
    word ≠ floatLayout.render d := by
  rintro rfl
  have hname : ∀ s ∈ ["null", "true", "false"], s ∉ ["NaN", "inf", "-inf"] := by decide
  have hdigits : ∀ s ∈ ["null", "true", "false"], (s.toList.all fun c => !c.isDigit) = true := by decide
  rcases floatLayout.marks_render d with hother | ⟨⟨c, hc, hdigit⟩, -⟩
  · exact hname _ h hother
  · have hletter := List.all_eq_true.1 (hdigits _ h) c hc
    rw [hdigit] at hletter
    cases hletter

/-- nothing between quotes is written like a floating-point number -/
theorem enclosed_ne_float {quote : Char} (hquote : IsQuote quote) (text : List Char) (d : Double) :
    enclosed quote text ≠ floatLayout.render d := by
  intro h
  have hunquoted := floatLayout.unquoted_render d
  rw [← h, enclosed, String.toList_ofList] at hunquoted
  exact (hunquoted quote List.mem_cons_self).2 hquote

/-- **No other constant has the text of a floating-point number.** -/
theorem render_ne_float {a : Literal} (ha : a.IsExact) (d : Double) : a.render ≠ (Literal.float d).render := by
  cases a with
  | null => exact word_ne_float (by decide) d
  | bool b => cases b <;> exact word_ne_float (by decide) d
  | int n => exact repr_ne_float n.toInt d
  | uint n => exact repr_ne_float (Int.ofNat n.toNat) d
  | float d' => exact absurd rfl (ha d')
  | char c => exact enclosed_ne_float (Or.inl rfl) [c] d
  | string s => exact enclosed_ne_float (Or.inr rfl) s.toList d

/-! ## Constants of one text -/

/-- one constant, or an integer and a word of one number -/
inductive SameValue : Literal → Literal → Prop
  | refl (a : Literal) : SameValue a a
  | int {n : Int64} {u : UInt64} : n.toInt = u.toNat → SameValue (.int n) (.uint u)
  | uint {n : Int64} {u : UInt64} : n.toInt = u.toNat → SameValue (.uint u) (.int n)

/-- how the text of a constant that is no floating-point number looks -/
inductive Form where
  | word
  | number
  | character
  | text
deriving DecidableEq

def form : Literal → Form
  | .null => .word
  | .bool _ => .word
  | .int _ => .number
  | .uint _ => .number
  | .float _ => .number
  | .char _ => .character
  | .string _ => .text

/-- the form that a first character announces -/
def formOf : List Char → Form
  | [] => .word
  | c :: _ => if c.isDigit ∨ c = '-' then .number else if c = '\'' then .character else if c = '"' then .text else .word

theorem formOf_repr (n : Nat) : formOf n.repr.toList = .number := by
  cases htext : n.repr.toList with
  | nil =>
    rw [Nat.toList_repr] at htext
    exact absurd htext Nat.toDigits_ne_nil
  | cons c rest =>
    have hdigit : c.isDigit = true := TypeRef.isDigit_repr (htext ▸ List.mem_cons_self)
    exact if_pos (Or.inl hdigit)

/-- **The first character tells the form.** -/
theorem formOf_render {a : Literal} (ha : a.IsExact) : formOf a.render.toList = a.form := by
  cases a with
  | null => rfl
  | bool b => cases b <;> rfl
  | int n =>
    rw [render, Int.repr_eq_if]
    split
    · exact formOf_repr _
    · rw [String.toList_append]
      rfl
  | uint n => exact formOf_repr _
  | float d => exact absurd rfl (ha d)
  | char c =>
    unfold render enclosed
    rw [String.toList_ofList]
    rfl
  | string s =>
    unfold render enclosed
    rw [String.toList_ofList]
    rfl

/-- a word is written like an integer -/
theorem render_int_uint {n : Int64} {u : UInt64} : (Literal.int n).render = (Literal.uint u).render ↔ n.toInt = u.toNat := by
  change n.toInt.repr = (Int.ofNat u.toNat).repr ↔ _
  exact Int.repr_inj

/-- **When two constants have one text**, one of which is no floating-point number. -/
theorem render_eq_iff {a b : Literal} (ha : a.IsExact) : a.render = b.render ↔ SameValue a b := by
  constructor
  · intro h
    have hb : b.IsExact := by
      rintro d rfl
      exact render_ne_float ha d h
    have hform : a.form = b.form := by rw [← formOf_render ha, ← formOf_render hb, h]
    cases a with
    | null =>
      cases b with
      | null => exact .refl _
      | bool b => cases b <;> exact absurd h (by decide)
      | _ => cases hform
    | bool v =>
      cases b with
      | null => cases v <;> exact absurd h (by decide)
      | bool w => cases v <;> cases w <;> first | exact .refl _ | exact absurd h (by decide)
      | _ => cases hform
    | int n =>
      cases b with
      | int m =>
        rw [Int64.toInt_inj.1 (Int.repr_inj.1 h)]
        exact .refl _
      | uint u => exact .int (render_int_uint.1 h)
      | float d => exact absurd rfl (hb d)
      | _ => cases hform
    | uint u =>
      cases b with
      | int n => exact .uint (render_int_uint.1 h.symm)
      | uint w =>
        rw [UInt64.toNat_inj.1 (Nat.repr_inj.1 h)]
        exact .refl _
      | float d => exact absurd rfl (hb d)
      | _ => cases hform
    | float d => exact absurd rfl (ha d)
    | char c =>
      cases b with
      | char d =>
        rw [(render_cut (.char c) (.char d) (s := "") (t := "") (by rw [h])).1]
        exact .refl _
      | _ => cases hform
    | string s =>
      cases b with
      | string t =>
        rw [(render_cut (.string s) (.string t) (s := "") (t := "") (by rw [h])).1]
        exact .refl _
      | _ => cases hform
  · rintro (_ | h | h)
    · rfl
    · exact render_int_uint.2 h
    · exact (render_int_uint.2 h).symm

end Literal

/-! ## Values in declarations -/

/-- the texts of values, where there are any -/
def shown (values : List (Option Literal)) : List (Option String) := values.map fun value => value.map Literal.render

theorem assigned_inj {u v : Option String} (h : assigned u = assigned v) : u = v :=
  (assigned_last (u := []) (v := []) List.not_mem_nil List.not_mem_nil h).2

namespace ParameterDescriptor

/-- the parameter with a default value, or with none -/
def valued (p : ParameterDescriptor) (value : Option Literal) : ParameterDescriptor :=
  { p with default := value.map Literal.render }

theorem text_valued (e : Bool) (p : ParameterDescriptor) (v : Option Literal) : (p.valued v).text e =
    (spaced ((p.lead e).map String.toList) ++ (p.type.toList ++ ' ' :: p.name.toList)) ++
      assigned (v.map Literal.render) := by
  have hlead : (p.valued v).lead e = p.lead e := rfl
  rw [text, hlead]
  simp [valued]

/-- a parameter before a comma or a parenthesis shows its value -/
theorem valued_cut {e : Bool} {p : ParameterDescriptor} {v w : Option Literal} {x y : List Char} (hx : Begins IsStop x)
    (hy : Begins IsStop y) (h : (p.valued v).text e ++ x = (p.valued w).text e ++ y) :
    v.map Literal.render = w.map Literal.render ∧ x = y := by
  have hconstant : ∀ (v : Option Literal), ∀ s ∈ v.map Literal.render, ConstantText s.toList := by
    intro v s hs
    obtain ⟨l, -, rfl⟩ := Option.mem_map.1 hs
    exact l.constantText_render
  rw [text_valued, text_valued, List.append_assoc, List.append_assoc _ (assigned _)] at h
  exact assigned_cut (hconstant v) (hconstant w) hx hy (List.append_cancel_left h)

/-- a parameter by itself shows its value -/
theorem valued_id_iff {p : ParameterDescriptor} {v w : Option Literal} :
    (p.valued v).id = (p.valued w).id ↔ v.map Literal.render = w.map Literal.render := by
  have htext : ∀ v, (p.valued v).id.toList = (p.valued v).text false := fun v => by
    rw [← toList_id, if_neg (by decide), String.empty_append]
  constructor
  · intro h
    have hassigned := congrArg String.toList h
    rw [htext, htext, text_valued, text_valued] at hassigned
    exact assigned_inj (List.append_cancel_left hassigned)
  · intro h
    rw [valued, valued, h]

/-- parameters after another one show their values -/
theorem more_valued_cut {ps : List ParameterDescriptor} {vs ws : List (Option Literal)} {x y : List Char}
    (hvs : vs.length = ps.length) (hws : ws.length = ps.length)
    (h : moreText (List.zipWith valued ps vs) ++ ')' :: x = moreText (List.zipWith valued ps ws) ++ ')' :: y) :
    shown vs = shown ws := by
  induction ps generalizing vs ws with
  | nil => rw [List.eq_nil_of_length_eq_zero hvs, List.eq_nil_of_length_eq_zero hws]
  | cons p ps ih =>
    obtain ⟨v, vs, rfl⟩ := List.exists_cons_of_length_eq_add_one hvs
    obtain ⟨w, ws, rfl⟩ := List.exists_cons_of_length_eq_add_one hws
    rw [List.zipWith_cons_cons, List.zipWith_cons_cons, moreText, moreText, List.flatMap_cons, List.flatMap_cons,
      List.append_assoc, List.append_assoc] at h
    have htext := (List.cons.inj (List.cons.inj h).2).2
    obtain ⟨hvalue, hrest⟩ := valued_cut (begins_moreText _ x) (begins_moreText _ y) htext
    rw [shown, shown, List.map_cons, List.map_cons, hvalue]
    exact congrArg _ (ih (Nat.succ.inj hvs) (Nat.succ.inj hws) hrest)

/-- **Parameters between parentheses show their values.** -/
theorem list_valued_cut {e : Bool} {ps : List ParameterDescriptor} {vs ws : List (Option Literal)} {x y : List Char}
    (hvs : vs.length = ps.length) (hws : ws.length = ps.length)
    (h : listText e (List.zipWith valued ps vs) ++ ')' :: x = listText e (List.zipWith valued ps ws) ++ ')' :: y) :
    shown vs = shown ws := by
  cases ps with
  | nil => rw [List.eq_nil_of_length_eq_zero hvs, List.eq_nil_of_length_eq_zero hws]
  | cons p ps =>
    obtain ⟨v, vs, rfl⟩ := List.exists_cons_of_length_eq_add_one hvs
    obtain ⟨w, ws, rfl⟩ := List.exists_cons_of_length_eq_add_one hws
    rw [List.zipWith_cons_cons, List.zipWith_cons_cons, listText, listText, List.append_assoc, List.append_assoc] at h
    obtain ⟨hvalue, hrest⟩ := valued_cut (begins_moreText _ x) (begins_moreText _ y) h
    rw [shown, shown, List.map_cons, List.map_cons, hvalue]
    exact congrArg _ (more_valued_cut (Nat.succ.inj hvs) (Nat.succ.inj hws) hrest)

end ParameterDescriptor

namespace MemberDescriptor

/-- the member with default values of its parameters, and a value of its own, or with none -/
def valued (m : MemberDescriptor) (defaults : List (Option Literal)) (value : Option Literal) : MemberDescriptor :=
  { m with
    parameters := List.zipWith ParameterDescriptor.valued m.parameters defaults
    literal := value.map Literal.render }

/-- a constructor or a method shows its default values -/
theorem callable_valued {m : MemberDescriptor} (hkind : m.kind ≠ .field) {vs ws : List (Option Literal)}
    {v w : Option Literal} (hvs : vs.length = m.parameters.length) (hws : ws.length = m.parameters.length)
    (h : (m.valued vs v).id = (m.valued ws w).id) : shown vs = shown ws := by
  have htext := congrArg String.toList h
  rw [toList_id_callable (m := m.valued vs v) hkind, toList_id_callable (m := m.valued ws w) hkind] at htext
  have hlist := List.append_cancel_left (List.append_cancel_left htext)
  exact ParameterDescriptor.list_valued_cut hvs hws (List.cons.inj hlist).2

/-- a field shows its value -/
theorem field_valued {m : MemberDescriptor} (hkind : m.kind = .field) {vs ws : List (Option Literal)}
    {v w : Option Literal} (h : (m.valued vs v).id = (m.valued ws w).id) :
    v.map Literal.render = w.map Literal.render := by
  have htext := congrArg String.toList h
  rw [toList_id_field (m := m.valued vs v) hkind, toList_id_field (m := m.valued ws w) hkind] at htext
  have hassigned := List.append_cancel_left (List.append_cancel_left htext)
  exact assigned_inj hassigned

end MemberDescriptor

/-! ## Values of facts -/

/-- the facts with default values of the parameters, and a value of the member, or with none -/
def MemberEntry.valued (entry : MemberEntry) (defaults : List (Option Literal)) (value : Option Literal) : MemberEntry :=
  { entry with
    facts := { entry.facts with literal := value }
    parameters := List.zipWith (fun p default => { p with default := default }) entry.parameters defaults }

namespace FactSet

/-- parameters are described with their default values -/
theorem describeParameters_valued {ps : List ParameterFacts} {values : List (Option Literal)} (start : Nat) :
    ((List.zipWith (fun p default => { p with default := default }) ps values).zipIdx start).map
        (fun (p, position) => describeParameter p position) =
      List.zipWith ParameterDescriptor.valued ((ps.zipIdx start).map fun (p, position) => describeParameter p position)
        values := by
  induction ps generalizing values start with
  | nil => rfl
  | cons p ps ih =>
    cases values with
    | nil => rfl
    | cons value values =>
      rw [List.zipWith_cons_cons, List.zipIdx_cons, List.map_cons, List.zipIdx_cons, List.map_cons,
        List.zipWith_cons_cons, ih]
      rfl

/-- **A member is described with its values**, and nothing else depends on them. -/
theorem describeMember_valued (s : FactSet) (f : VisibilityFilter) (owner : TypeKind) (context : String)
    (interfaces : List TypeRef) (h : MemberHandle) {entry : MemberEntry} {values : List (Option Literal)}
    {value : Option Literal} (hvalue : value.isSome = entry.facts.literal.isSome) :
    s.describeMember f owner context interfaces h (entry.valued values value) =
      (fun m => m.valued values (if entry.facts.kind = .field then value else none)) <$>
        s.describeMember f owner context interfaces h entry := by
  have hparameters : ((entry.valued values value).parameters.zipIdx.map fun (p, position) => describeParameter p position) =
      List.zipWith ParameterDescriptor.valued (entry.parameters.zipIdx.map fun (p, position) => describeParameter p position)
        values := describeParameters_valued 0
  have hliteral : (if (entry.valued values value).facts.kind == .field then
        (entry.valued values value).facts.literal.map Literal.render else none) =
      (if entry.facts.kind = .field then value else none).map Literal.render := by
    change (if entry.facts.kind == .field then value.map Literal.render else none) = _
    by_cases hfield : entry.facts.kind = .field <;> simp [hfield]
  have hconstant : (entry.valued values value).facts.literal.isSome = entry.facts.literal.isSome := hvalue
  unfold describeMember
  simp only [map_bind, map_pure]
  refine congrArg _ (funext fun _ => congrArg _ (funext fun constraints => ?_))
  rw [hparameters, hconstant, hliteral]
  rfl

end FactSet

/-! ## What is shown -/

/-- **Constants are told by their text.** Wherever a quoted constant stands, what it is and where it ends can be read. A
constant that is no floating-point number has the text of another exactly when they have one value. So a default value is
told by the Id of its parameter, and the Id of a member tells the value of a field or the defaults of its parameters,
whatever else stands in it, as extraction puts the values of the facts there. -/
theorem values_shown :
    (∀ a b : Literal, a.IsQuoted → b.IsQuoted → ∀ s t : String, a.render ++ s = b.render ++ t → a = b ∧ s = t) ∧
      (∀ a b : Literal, a.IsExact → (a.render = b.render ↔ Literal.SameValue a b)) ∧
      (∀ (p : ParameterDescriptor) (a b : Literal), a.IsExact →
        ((p.withDefault a.render).id = (p.withDefault b.render).id ↔ Literal.SameValue a b)) ∧
      (∀ (m : MemberDescriptor) (vs ws : List (Option Literal)) (v w : Option Literal),
        vs.length = m.parameters.length → ws.length = m.parameters.length → (m.valued vs v).id = (m.valued ws w).id →
        (m.kind ≠ .field → ∀ (i : Nat) (a b : Literal), vs[i]? = some (some a) → ws[i]? = some (some b) →
          a.IsExact → Literal.SameValue a b) ∧
        (m.kind = .field → ∀ a ∈ v, ∀ b ∈ w, a.IsExact → Literal.SameValue a b)) ∧
      ∀ (s : FactSet) (f : VisibilityFilter) (owner : TypeKind) (context : String) (interfaces : List TypeRef)
        (h : MemberHandle) (entry : MemberEntry) (values : List (Option Literal)) (value : Option Literal),
        value.isSome = entry.facts.literal.isSome →
        s.describeMember f owner context interfaces h (entry.valued values value) =
          (fun m => m.valued values (if entry.facts.kind = .field then value else none)) <$>
            s.describeMember f owner context interfaces h entry := by
  have htold : ∀ {a b : Literal}, a.IsExact → some a.render = some b.render → Literal.SameValue a b :=
    fun ha h => (Literal.render_eq_iff ha).1 (Option.some.inj h)
  refine ⟨fun a b ha hb s t h => Literal.render_cut ha hb h, fun a b => Literal.render_eq_iff, fun p a b ha => ?_,
    fun m vs ws v w hvs hws h => ⟨fun hkind i a b hi hj ha => ?_, fun hkind a hv b hw ha => ?_⟩,
    fun s f owner context interfaces h entry values value => s.describeMember_valued f owner context interfaces h⟩
  · refine Iff.trans (ParameterDescriptor.valued_id_iff (v := some a) (w := some b)) ⟨htold ha, fun hab => ?_⟩
    exact congrArg some ((Literal.render_eq_iff ha).2 hab)
  · have hshown := congrArg (fun texts => texts[i]?) (MemberDescriptor.callable_valued hkind hvs hws h)
    simp only [shown, List.getElem?_map, hi, hj] at hshown
    exact htold ha (Option.some.inj hshown)
  · have hshown := MemberDescriptor.field_valued hkind h
    rw [hv, hw] at hshown
    exact htold ha hshown

/-- a method with a text and a level to write it at -/
def logging : MemberDescriptor :=
  ((MemberDescriptor.method "Log" "System.Void").withParameter (ParameterDescriptor.plain "text" "System.Object")).withParameter
    (ParameterDescriptor.plain "level" "System.Int32")

theorem values_shown_logging :
    (∀ s t : String, (Literal.char '"').render ++ s = (Literal.string "'").render ++ t → False) ∧
      (Literal.int 3).render = (Literal.uint 3).render ∧
      ((ParameterDescriptor.plain "mark" "System.Char").withDefault (Literal.char '\x7f').render).id ≠
        ((ParameterDescriptor.plain "mark" "System.Char").withDefault (Literal.string "\\u007f").render).id ∧
      (logging.valued [some .null, some (.int 3)] none).id ≠
        (logging.valued [some (.string "null"), some (.uint 3)] none).id := by
  obtain ⟨hquoted, hexact, hparameter, hmember, -⟩ := values_shown
  refine ⟨fun s t h => ?_, ?_, fun h => ?_, fun h => ?_⟩
  · cases (hquoted _ _ (.char '"') (.string "'") s t h).1
  · exact (hexact (.int 3) (.uint 3) fun d => nofun).2 (.int rfl)
  · cases (hparameter _ (.char '\x7f') (.string "\\u007f") fun d => nofun).1 h
  · have hsame := (hmember logging _ _ none none rfl rfl h).1 (by decide) 0 .null (.string "null") rfl rfl fun d => nofun
    cases hsame

end ApiSurface
