/-
The tokens of a written value. Both writers put down the same tokens; they differ in the blanks between them.

`spells_compact` and `spells_prettyAt`: the texts of a value have the tokens that spell it, as long as its numbers are
integers of 64 bits.
-/
import ApiSurface.Proofs.Json.Scalars
import Mathlib.Data.Bool.AllAny
import Mathlib.Data.List.Forall2

namespace ApiSurface.Json

/-! ## Values -/

/-- values nested at most so deep, whose numbers are integers of 64 bits -/
inductive Fits : Nat → Json → Prop
  | null (n : Nat) : Fits n .null
  | bool (n : Nat) (b : Bool) : Fits n (.bool b)
  | nat (n : Nat) {k : Nat} (h : k < UInt64.size) : Fits n (.nat k)
  | negSucc (n : Nat) {k : Nat} (h : 2 * (k + 1) ≤ UInt64.size) : Fits n (.number (.int (Int.negSucc k)))
  | string (n : Nat) (s : String) : Fits n (.string s)
  | array {n : Nat} {items : List Json} (h : ∀ item ∈ items, Fits n item) : Fits (n + 1) (.array items)
  | object {n : Nat} {members : Members} (h : ∀ m ∈ members, Fits n m.2) : Fits (n + 1) (.object members)

mutual

/-- the tokens of a value -/
def spelled : Json → List Token
  | .null => [.null]
  | .bool b => [.bool b]
  | .number n => [.number (.ok n)]
  | .string s => [.string (.ok s)]
  | .array items => .openArray :: (List.intercalate [.comma] (spelledItems items) ++ [.closeArray])
  | .object members => .openObject :: (List.intercalate [.comma] (spelledMembers members) ++ [.closeObject])

/-- the tokens of every item -/
def spelledItems : List Json → List (List Token)
  | [] => []
  | item :: rest => spelled item :: spelledItems rest

/-- the tokens of every member -/
def spelledMembers : List (String × Json) → List (List Token)
  | [] => []
  | (key, value) :: rest => (.string (.ok key) :: .colon :: spelled value) :: spelledMembers rest

end

/-! ## Tokens of a text -/

/-- a text has some tokens, whatever follows that does not go on with a number -/
def Spells (text : List Char) (ts : List Token) : Prop :=
  ∀ rest, EndsNumber rest → tokens (text ++ rest) = ts ++ tokens rest

theorem spells_nil : Spells [] [] := fun _ _ => rfl

theorem tokens_blank {c : Char} (hc : isBlank c = true) (text : List Char) : tokens (c :: text) = tokens text := by
  rw [tokens, if_pos hc]

/-- the first token of a text and those of the rest -/
theorem tokens_cons {c : Char} {text rest : List Char} {t : Token} (hc : isBlank c = false)
    (h : scanToken c text = (t, some rest)) : tokens (c :: text) = t :: tokens rest := by
  rw [tokens, if_neg (by rw [hc]; decide)]
  split
  · next heq =>
    rw [h] at heq
    cases heq
  · next heq =>
    rw [h] at heq
    cases heq
    rfl

/-- a punctuation mark is no blank, no quote and no part of a number -/
theorem punctuation?_spec {c : Char} {t : Token} (h : punctuation? c = some t) :
    isBlank c = false ∧ c ≠ '"' ∧ ∀ rest, EndsNumber (c :: rest) := by
  have hmarks : ∀ c ∈ ['[', ']', '\x7b', '\x7d', ',', ':'],
      isBlank c = false ∧ c ≠ '"' ∧ c.isDigit = false ∧ c ≠ '.' ∧ c ≠ 'e' ∧ c ≠ 'E' :=
    List.all_iff_forall_prop.1 (by decide)
  have hc : c ∈ ['[', ']', '\x7b', '\x7d', ',', ':'] := by
    unfold punctuation? at h
    grind
  obtain ⟨hblank, hquote, hends⟩ := hmarks c hc
  refine ⟨hblank, hquote, ?_⟩
  rintro rest b ⟨⟩
  exact hends

theorem tokens_punctuation {c : Char} {t : Token} (h : punctuation? c = some t) (text : List Char) :
    tokens (c :: text) = t :: tokens text := by
  obtain ⟨hblank, hquote, -⟩ := punctuation?_spec h
  refine tokens_cons hblank ?_
  unfold scanToken
  rw [if_neg hquote, h]

/-- nothing but blanks -/
def Blank (text : List Char) : Prop := ∀ c ∈ text, isBlank c = true

theorem blank_nil : Blank [] := nofun

theorem tokens_blanks {blanks : List Char} (h : Blank blanks) (text : List Char) :
    tokens (blanks ++ text) = tokens text := by
  induction blanks with
  | nil => rfl
  | cons c blanks ih =>
    rw [List.cons_append, tokens_blank (h c List.mem_cons_self), ih fun b hb => h b (List.mem_cons_of_mem _ hb)]

theorem endsNumber_blanks {blanks rest : List Char} (h : Blank blanks) (hrest : EndsNumber rest) :
    EndsNumber (blanks ++ rest) := by
  have hmarks : ∀ c ∈ [' ', '\n', '\t', '\r'], c.isDigit = false ∧ c ≠ '.' ∧ c ≠ 'e' ∧ c ≠ 'E' :=
    List.all_iff_forall_prop.1 (by decide)
  cases blanks with
  | nil => exact hrest
  | cons c blanks =>
    have hc : c ∈ [' ', '\n', '\t', '\r'] := by simpa [isBlank, or_assoc] using h c List.mem_cons_self
    rintro b ⟨⟩
    exact hmarks c hc

/-- entries with a comma and blanks between them -/
theorem spells_entries {blanks : List Char} (hblanks : Blank blanks) {texts : List (List Char)}
    {spellings : List (List Token)} (h : List.Forall₂ Spells texts spellings) :
    Spells (List.intercalate (',' :: blanks) texts) (List.intercalate [.comma] spellings) := by
  have hcomma : punctuation? ',' = some .comma := rfl
  induction h with
  | nil => exact spells_nil
  | @cons text ts texts spellings hfirst hothers ih =>
    cases hothers with
    | nil =>
      rw [List.intercalate_singleton, List.intercalate_singleton]
      exact hfirst
    | cons _ _ =>
      rw [List.intercalate_cons_cons, List.intercalate_cons_cons]
      intro rest hrest
      rw [List.append_assoc, List.append_assoc, List.append_assoc, List.append_assoc, List.cons_append,
        hfirst _ ((punctuation?_spec hcomma).2.2 _), tokens_punctuation hcomma, tokens_blanks hblanks, ih rest hrest]
      rfl

/-- entries in brackets, with blanks around them -/
theorem spells_bracketed {opening closing : Char} {t u : Token} (hopening : punctuation? opening = some t)
    (hclosing : punctuation? closing = some u) {before after text : List Char} {ts : List Token}
    (hbefore : Blank before) (hafter : Blank after) (h : Spells text ts) :
    Spells (opening :: (before ++ (text ++ (after ++ [closing])))) (t :: (ts ++ [u])) := by
  intro rest hrest
  obtain ⟨-, -, hends⟩ := punctuation?_spec hclosing
  have hrest' : EndsNumber (after ++ closing :: rest) := endsNumber_blanks hafter (hends rest)
  rw [List.cons_append, tokens_punctuation hopening]
  simp only [List.append_assoc, List.cons_append, List.nil_append]
  rw [tokens_blanks hbefore, h _ hrest', tokens_blanks hafter, tokens_punctuation hclosing]

/-! ## Scalars -/

theorem spells_quoted (s : String) : Spells (quoted s).toList [.string (.ok s)] := by
  intro rest _
  have htext : (quoted s).toList ++ rest = '"' :: (s.toList.flatMap escaped ++ '"' :: rest) := by simp [quoted]
  rw [htext]
  refine tokens_cons rfl ?_
  unfold scanToken
  rw [if_pos rfl, scanString_quoted]

/-- a digit is neither a blank nor a quote, and no mark and no word -/
theorem digit_spec {c : Char} (h : c.isDigit = true) :
    isBlank c = false ∧ c ≠ '"' ∧ punctuation? c = none ∧ word? c = none := by
  have hne : ∀ b : Char, b.isDigit = false → c ≠ b := by
    rintro b hb rfl
    rw [h] at hb
    cases hb
  refine ⟨?_, hne '"' rfl, ?_, ?_⟩
  · simp [isBlank, hne ' ' rfl, hne '\n' rfl, hne '\t' rfl, hne '\r' rfl]
  · simp [punctuation?, hne '[' rfl, hne ']' rfl, hne '\x7b' rfl, hne '\x7d' rfl, hne ',' rfl, hne ':' rfl]
  · simp [word?, hne 'n' rfl, hne 't' rfl, hne 'f' rfl]

theorem spells_nat {n : Nat} (hn : n < UInt64.size) : Spells n.repr.toList [.number (.ok (.int n))] := by
  intro rest hrest
  have hread := scanNumber_repr hn hrest
  rw [Nat.toList_repr] at hread ⊢
  obtain ⟨d, ds, hd⟩ := List.exists_cons_of_ne_nil (Nat.toDigits_ne_nil (n := n) (b := 10))
  have hdigit : d.isDigit = true :=
    Nat.isDigit_of_mem_toDigits (n := n) (by decide) (by decide) (hd ▸ List.mem_cons_self)
  obtain ⟨hblank, hquote, hmark, hword⟩ := digit_spec hdigit
  rw [hd, List.cons_append] at hread ⊢
  refine tokens_cons hblank ?_
  unfold scanToken
  rw [if_neg hquote, hmark, hword]
  dsimp only
  rw [if_pos (Or.inr hdigit), hread]

theorem spells_negSucc {n : Nat} (hn : 2 * (n + 1) ≤ UInt64.size) :
    Spells (Int.negSucc n).repr.toList [.number (.ok (.int (Int.negSucc n)))] := by
  intro rest hrest
  have htext : (Int.negSucc n).repr.toList ++ rest = '-' :: ((n + 1).repr.toList ++ rest) := by
    change ("-" ++ (n + 1).repr).toList ++ rest = _
    rw [String.toList_append]
    rfl
  rw [htext]
  have hread := scanNumber_negSucc hn hrest
  have hmark : punctuation? '-' = none := rfl
  have hword : word? '-' = none := rfl
  refine tokens_cons rfl ?_
  unfold scanToken
  rw [if_neg (by decide), hmark, hword]
  dsimp only
  rw [if_pos (Or.inl rfl), hread]

theorem spells_null : Spells "null".toList [.null] := by
  intro rest _
  exact tokens_cons rfl rfl

theorem spells_bool (b : Bool) : Spells (writeBool b).toList [.bool b] := by
  intro rest _
  cases b <;> exact tokens_cons rfl rfl

/-! ## Texts of values -/

theorem compactItems_eq (items : List Json) : compactItems items = items.map compact := by
  induction items with
  | nil => rfl
  | cons item rest ih => rw [compactItems, ih, List.map_cons]

theorem compactMembers_eq (members : Members) :
    compactMembers members = members.map fun m => quoted m.1 ++ ":" ++ compact m.2 := by
  induction members with
  | nil => rfl
  | cons m rest ih => rw [compactMembers, ih, List.map_cons]

theorem prettyItems_eq (level : Nat) (items : List Json) : prettyItems level items = items.map (prettyAt level) := by
  induction items with
  | nil => rfl
  | cons item rest ih => rw [prettyItems, ih, List.map_cons]

theorem prettyMembers_eq (level : Nat) (members : Members) :
    prettyMembers level members = members.map fun m => quoted m.1 ++ ": " ++ prettyAt level m.2 := by
  induction members with
  | nil => rfl
  | cons m rest ih => rw [prettyMembers, ih, List.map_cons]

theorem spelledItems_eq (items : List Json) : spelledItems items = items.map spelled := by
  induction items with
  | nil => rfl
  | cons item rest ih => rw [spelledItems, ih, List.map_cons]

theorem spelledMembers_eq (members : Members) :
    spelledMembers members = members.map fun m => .string (.ok m.1) :: .colon :: spelled m.2 := by
  induction members with
  | nil => rfl
  | cons m rest ih => rw [spelledMembers, ih, List.map_cons]

/-- a member is spelled by its key, a colon and its value -/
theorem spells_member {blanks : List Char} (hblanks : Blank blanks) (key : String) {text : List Char}
    {ts : List Token} (h : Spells text ts) :
    Spells ((quoted key).toList ++ ':' :: (blanks ++ text)) (.string (.ok key) :: .colon :: ts) := by
  intro rest hrest
  have hcolon : punctuation? ':' = some .colon := rfl
  rw [List.append_assoc, List.cons_append, spells_quoted key _ ((punctuation?_spec hcolon).2.2 _),
    tokens_punctuation hcolon, List.append_assoc, tokens_blanks hblanks, h rest hrest]
  rfl

/-- entries that are spelled one by one -/
theorem forall₂_spells {α : Type} {values : List α} {text : α → List Char} {spelling : α → List Token}
    (h : ∀ value ∈ values, Spells (text value) (spelling value)) :
    List.Forall₂ Spells (values.map text) (values.map spelling) := by
  rw [List.forall₂_map_left_iff, List.forall₂_map_right_iff, List.forall₂_same]
  exact h

/-- **The compact text of a value has the value's tokens.** -/
theorem spells_compact {n : Nat} {v : Json} (h : Fits n v) : Spells v.compact.toList v.spelled := by
  induction h with
  | null n => exact spells_null
  | bool n b => exact spells_bool b
  | nat n hk => exact spells_nat hk
  | negSucc n hk => exact spells_negSucc hk
  | string n s => exact spells_quoted s
  | @array n items _ ih =>
    have hopening : punctuation? '[' = some .openArray := rfl
    have hclosing : punctuation? ']' = some .closeArray := rfl
    have hentries := spells_bracketed hopening hclosing blank_nil blank_nil (spells_entries blank_nil (forall₂_spells ih))
    unfold compact spelled
    rw [compactItems_eq, spelledItems_eq]
    simpa [String.toList_intercalate, Function.comp_def] using hentries
  | @object n members _ ih =>
    have hmembers : ∀ m ∈ members, Spells (quoted m.1 ++ ":" ++ compact m.2).toList
        (.string (.ok m.1) :: .colon :: spelled m.2) := by
      intro m hm
      simpa using spells_member blank_nil m.1 (ih m hm)
    have hopening : punctuation? '\x7b' = some .openObject := rfl
    have hclosing : punctuation? '\x7d' = some .closeObject := rfl
    have hentries := spells_bracketed hopening hclosing blank_nil blank_nil
      (spells_entries blank_nil (forall₂_spells hmembers))
    unfold compact spelled
    rw [compactMembers_eq, spelledMembers_eq]
    simpa [String.toList_intercalate, Function.comp_def] using hentries

theorem blank_newline (level : Nat) : Blank (newline level).toList := by
  intro c hc
  have hcases : c = '\n' ∨ c ∈ List.replicate (2 * level) ' ' := by simpa [newline] using hc
  rcases hcases with rfl | hc
  · rfl
  · rw [List.eq_of_mem_replicate hc]
    rfl

/-- entries in brackets, one a line -/
theorem spells_block {opening closing : String} {o c : Char} {t u : Token} (ho : opening.toList = [o])
    (hc : closing.toList = [c]) (hopening : punctuation? o = some t) (hclosing : punctuation? c = some u) (level : Nat)
    {entries : List String} {spellings : List (List Token)}
    (h : List.Forall₂ Spells (entries.map String.toList) spellings) :
    Spells (block opening closing level entries).toList (t :: (List.intercalate [.comma] spellings ++ [u])) := by
  unfold block
  split
  · next hempty =>
    rw [List.isEmpty_iff.1 hempty, List.map_nil, List.forall₂_nil_left_iff] at h
    have hentries := spells_bracketed hopening hclosing blank_nil blank_nil spells_nil
    rw [h]
    simpa [ho, hc] using hentries
  · have hentries := spells_bracketed hopening hclosing (blank_newline (level + 1)) (blank_newline level)
      (spells_entries (blank_newline (level + 1)) h)
    simpa [ho, hc, String.toList_intercalate] using hentries

/-- **The pretty text of a value has the value's tokens**, on every level. -/
theorem spells_prettyAt {n : Nat} {v : Json} (h : Fits n v) (level : Nat) :
    Spells (prettyAt level v).toList v.spelled := by
  induction h generalizing level with
  | null n => exact spells_null
  | bool n b => exact spells_bool b
  | nat n hk => exact spells_nat hk
  | negSucc n hk => exact spells_negSucc hk
  | string n s => exact spells_quoted s
  | @array n items _ ih =>
    unfold prettyAt spelled
    rw [prettyItems_eq, spelledItems_eq]
    refine spells_block rfl rfl rfl rfl level ?_
    rw [List.map_map]
    exact forall₂_spells fun item hitem => ih item hitem (level + 1)
  | @object n members _ ih =>
    unfold prettyAt spelled
    rw [prettyMembers_eq, spelledMembers_eq]
    refine spells_block rfl rfl rfl rfl level ?_
    rw [List.map_map]
    refine forall₂_spells fun m hm => ?_
    have hblank : Blank [' '] := by
      intro c hc
      rw [List.mem_singleton.1 hc]
      rfl
    simpa using spells_member hblank m.1 (ih m hm (level + 1))

end ApiSurface.Json
