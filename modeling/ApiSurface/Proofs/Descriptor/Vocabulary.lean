/-
The words of declarations: the keywords that a declaration prints by itself, and the names that cannot be mistaken for
them.

`TypeName` and `Identifier` are the names that a declaration can be read back with.
`Visibility.shownWords_append_inj`: the visibility is told from the words after it.
-/
import ApiSurface.Descriptor.Vocabulary
import ApiSurface.Proofs.Text.Closed

namespace ApiSurface

open Text

/-- the words that a declaration prints by itself; the bound `new()` counts as one -/
def keywords : List String :=
  ["public", "protected", "internal", "private", "static", "abstract", "virtual", "override", "sealed", "new", "const",
    "readonly", "struct", "interface", "class", "enum", "this", "ref", "out", "params", "where", "new()"]

theorem closed_of_mem_keywords {w : String} (h : w ∈ keywords) : Closed w.toList := by
  revert w
  decide

/-- the name of a type in a declaration: brackets are paired, blanks stand in angle brackets only and commas in brackets
only, and it is no keyword -/
structure TypeName (s : String) : Prop where
  nonempty : s ≠ ""
  closed : Closed s.toList
  free : s ∉ keywords

instance (s : String) : Decidable (TypeName s) :=
  decidable_of_iff (s ≠ "" ∧ Closed s.toList ∧ s ∉ keywords)
    ⟨fun ⟨hne, hclosed, hfree⟩ => ⟨hne, hclosed, hfree⟩, fun h => ⟨h.nonempty, h.closed, h.free⟩⟩

/-- a name without blanks, commas, parentheses and equals signs -/
def Identifier (s : String) : Prop := ∀ c ∈ s.toList, c ∉ [' ', ',', '(', ')', '=']

instance (s : String) : Decidable (Identifier s) := List.decidableBAll _ s.toList

/-! ## Visibilities -/

namespace Visibility

/-- the keywords of a visibility, one by one -/
def words : Visibility → List String
  | .pub => ["public"]
  | .prot => ["protected"]
  | .internal => ["internal"]
  | .protInternal => ["protected", "internal"]
  | .priv => ["private"]

/-- the keywords of the visibility that a declaration shows, if it shows one -/
def shownWords : Option Visibility → List String
  | none => []
  | some v => v.words

/-- the keywords of visibilities -/
def allWords : List String := ["public", "protected", "internal", "private"]

theorem spaced_words (v : Visibility) (rest : List (List Char)) :
    spaced (v.keyword.toList :: rest) = spaced (v.words.map String.toList ++ rest) := by
  cases v <;> rfl

theorem shownWords_subset (v : Option Visibility) : ∀ w ∈ shownWords v, w ∈ allWords := by
  rcases v with _ | v
  · decide
  · cases v <;> decide

theorem shownWords_inj {v w : Option Visibility} (h : shownWords v = shownWords w) : v = w := by
  revert h
  rcases v with _ | v <;> rcases w with _ | w
  · decide
  · cases w <;> decide
  · cases v <;> decide
  · cases v <;> cases w <;> decide

/-- the words before others are a visibility's as far as they are keywords of one -/
theorem shownWords_append_inj {v v' : Option Visibility} {others others' : List String}
    (ho : ∀ w ∈ others, w ∉ allWords) (ho' : ∀ w ∈ others', w ∉ allWords)
    (h : shownWords v ++ others = shownWords v' ++ others') : v = v' ∧ others = others' := by
  obtain ⟨hwords, hothers⟩ := split_inj (shownWords_subset v) ho (shownWords_subset v') ho' h
  exact ⟨shownWords_inj hwords, hothers⟩

end Visibility

end ApiSurface
