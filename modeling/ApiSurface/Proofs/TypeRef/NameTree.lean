/-
Canonical names as trees, and how a name is read.

A name is read from its end: its last character tells a nullable type, an array and a pointer from a level with
arguments and one without, and what stands before is read in turn, up to the bracket or the comma where an argument begins.

`Readable.cuts`: a name before such a place is read in one way.
`text_inj`: so trees of one text are one tree.
-/
import ApiSurface.Proofs.Text.Closed
import ApiSurface.Proofs.TypeRef.WellFormed
import Mathlib.Data.List.Induction

namespace ApiSurface

open TypeRef

/-- a name by its levels and suffixes, with the arguments at the levels that show them -/
inductive NameTree where
  | topLevel (ns : Option String) (name : String) (arguments : List NameTree)
  | nested (outer : NameTree) (name : String) (arguments : List NameTree)
  | nullable (element : NameTree)
  | array (element : NameTree) (commas : Nat)
  | pointer (element : NameTree)

namespace NameTree

mutual

def text : NameTree → String
  | .topLevel ns name arguments => qualifier ns ++ name ++ angled (texts arguments)
  | .nested outer name arguments => text outer ++ "+" ++ name ++ angled (texts arguments)
  | .nullable element => text element ++ "?"
  | .array element commas => text element ++ "[" ++ String.ofList (List.replicate commas ',') ++ "]"
  | .pointer element => text element ++ "*"

def texts : List NameTree → List String
  | [] => []
  | t :: rest => text t :: texts rest

end

theorem texts_eq (ts : List NameTree) : texts ts = ts.map text := by
  induction ts with
  | nil => rfl
  | cons t rest ih => rw [texts, ih, List.map_cons]

/-- a text of words and dots -/
def Dotted (words : String) : Prop := words ≠ "" ∧ ∀ c ∈ words.toList, c = '.' ∨ c ∉ signs

/-- the words of a tree are identifiers -/
inductive Readable : NameTree → Prop
  | topLevel {ns : Option String} {name : String} {arguments : List NameTree} :
    (∀ words ∈ ns, Dotted words) → IsIdentifier name → (∀ t ∈ arguments, Readable t) →
      Readable (.topLevel ns name arguments)
  | nested {outer : NameTree} {name : String} {arguments : List NameTree} :
    Readable outer → IsIdentifier name → (∀ t ∈ arguments, Readable t) → Readable (.nested outer name arguments)
  | nullable {element : NameTree} : Readable element → Readable (.nullable element)
  | array {element : NameTree} (commas : Nat) : Readable element → Readable (.array element commas)
  | pointer {element : NameTree} : Readable element → Readable (.pointer element)

/-! ## Texts from the end -/

/-- the text of a tree, from its end -/
def backward (t : NameTree) : List Char := t.text.toList.reverse

/-- what stands before an argument, from its end, up to the bracket; the arguments before it come nearest first -/
def opening : List NameTree → List Char
  | [] => ['<']
  | t :: rest => ' ' :: ',' :: (t.backward ++ opening rest)

/-- the arguments of a level, from their end -/
def closing (ts : List NameTree) : List Char := (angled (texts ts)).toList.reverse

theorem joined_concat (us : List (List Char)) (u : List Char) :
    Text.joined (us ++ [u]) = (us.flatMap fun v => v ++ [',', ' ']) ++ u := by
  induction us with
  | nil => simp [Text.joined_singleton]
  | cons v us ih =>
    cases us with
    | nil => simp [Text.joined_cons_cons, Text.joined_singleton]
    | cons w us =>
      rw [List.cons_append, List.cons_append, Text.joined_cons_cons, ← List.cons_append, ih]
      simp

theorem opening_eq (ts : List NameTree) :
    opening ts.reverse = ((ts.flatMap fun t => t.text.toList ++ [',', ' ']).reverse) ++ ['<'] := by
  induction ts using List.reverseRecOn with
  | nil => rfl
  | append_singleton ts t ih =>
    rw [List.reverse_append, List.reverse_singleton, List.singleton_append, opening, ih]
    simp [backward]

theorem closing_concat (ts : List NameTree) (t : NameTree) :
    closing (ts ++ [t]) = '>' :: (t.backward ++ opening ts.reverse) := by
  have hjoined : (String.intercalate ", " (texts (ts ++ [t]))).toList =
      (ts.flatMap fun u => u.text.toList ++ [',', ' ']) ++ t.text.toList := by
    rw [String.toList_intercalate, texts_eq, List.map_append, List.map_append]
    refine (joined_concat _ _).trans ?_
    simp [List.flatMap_map]
  unfold closing angled
  rw [texts_eq, if_neg (by simp), ← texts_eq, String.toList_append, String.toList_append, hjoined, opening_eq]
  simp [backward]

theorem backward_topLevel (ns : Option String) (name : String) (ts : List NameTree) :
    backward (.topLevel ns name ts) = closing ts ++ (name.toList.reverse ++ (qualifier ns).toList.reverse) := by
  simp [backward, text, closing]

theorem backward_nested (outer : NameTree) (name : String) (ts : List NameTree) :
    backward (.nested outer name ts) = closing ts ++ (name.toList.reverse ++ '+' :: outer.backward) := by
  simp [backward, text, closing]

theorem backward_nullable (t : NameTree) : backward (.nullable t) = '?' :: t.backward := by
  simp [backward, text]

theorem backward_array (t : NameTree) (commas : Nat) :
    backward (.array t commas) = ']' :: (List.replicate commas ',' ++ '[' :: t.backward) := by
  simp [backward, text]

theorem backward_pointer (t : NameTree) : backward (.pointer t) = '*' :: t.backward := by
  simp [backward, text]

/-! ## Reading -/

/-- a place where the reading of a name stops: the end of the text, a bracket, or the blank after a comma -/
def Stops (x : List Char) : Prop := ∀ c ∈ x.head?, c = '<' ∨ c = ' '

/-- a place where an identifier ends: the end of the text, or a sign -/
def EndsWord (x : List Char) : Prop := ∀ c ∈ x.head?, c ∈ signs

/-- before such a place the tree is read in one way -/
def Cuts (t : NameTree) : Prop :=
  ∀ u x y, u.Readable → Stops x → Stops y → t.backward ++ x = u.backward ++ y → t = u ∧ x = y

theorem stops_opening (ts : List NameTree) (x : List Char) : Stops (opening ts ++ x) := by
  cases ts <;> simp [Stops, opening]

theorem opening_cut {ts us : List NameTree} {x y : List Char} (hts : ∀ t ∈ ts, Cuts t) (hus : ∀ u ∈ us, u.Readable)
    (h : opening ts ++ x = opening us ++ y) : ts = us ∧ x = y := by
  induction ts generalizing us with
  | nil =>
    cases us with
    | nil => exact ⟨rfl, (List.cons.inj h).2⟩
    | cons u us => cases (List.cons.inj h).1
  | cons t ts ih =>
    cases us with
    | nil => cases (List.cons.inj h).1
    | cons u us =>
      rw [List.forall_mem_cons] at hts hus
      have hitems : t.backward ++ (opening ts ++ x) = u.backward ++ (opening us ++ y) := by
        simpa [opening] using h
      obtain ⟨rfl, hrest⟩ := hts.1 u _ _ hus.1 (stops_opening ts x) (stops_opening us y) hitems
      obtain ⟨rfl, hxy⟩ := ih hts.2 hus.2 hrest
      exact ⟨rfl, hxy⟩

/-- the letters of a name from its end, up to a sign -/
theorem name_cut {n m : String} {x y : List Char} (hn : IsIdentifier n) (hm : IsIdentifier m)
    (hx : EndsWord x) (hy : EndsWord y) (h : n.toList.reverse ++ x = m.toList.reverse ++ y) : n = m ∧ x = y := by
  have hreverse : ∀ {s : String}, IsIdentifier s → ∀ c ∈ s.toList.reverse, c ∉ signs :=
    fun hs c hc => hs.2 c (List.mem_reverse.1 hc)
  have hend : ∀ {z : List Char}, EndsWord z → ∀ c ∈ z.head?, ¬c ∉ signs := fun hz c hc => not_not_intro (hz c hc)
  obtain ⟨hname, hxy⟩ := Text.cut_run (hreverse hn) (hreverse hm) (hend hx) (hend hy) h
  exact ⟨String.toList_inj.1 (List.reverse_inj.1 hname), hxy⟩

/-- the first letter of a name from its end -/
theorem head_name {n : String} (hn : IsIdentifier n) (x : List Char) :
    ∃ c rest, n.toList.reverse ++ x = c :: rest ∧ c ∉ signs := by
  have hne : n.toList.reverse ≠ [] := by
    rw [ne_eq, List.reverse_eq_nil_iff, String.toList_eq_nil_iff]
    exact hn.1
  obtain ⟨c, rest, hc⟩ := List.exists_cons_of_ne_nil hne
  refine ⟨c, rest ++ x, by rw [hc, List.cons_append], hn.2 c ?_⟩
  rw [← List.mem_reverse, hc]
  exact List.mem_cons_self

/-- a level with arguments ends in a bracket, one without in a letter -/
theorem closing_ne_name {k : String} (hk : IsIdentifier k) (ts : List NameTree) (t : NameTree) (w z : List Char) :
    closing (ts ++ [t]) ++ w ≠ k.toList.reverse ++ z := by
  intro h
  obtain ⟨c, rest, hc, hsign⟩ := head_name hk z
  rw [closing_concat, hc] at h
  rw [← (List.cons.inj h).1] at hsign
  exact hsign (by decide)

/-- **One level.** Its arguments and its name are read in one way, up to a sign. -/
theorem level_cut {ts us : List NameTree} {n m : String} {x y : List Char} (hts : ∀ t ∈ ts, Cuts t)
    (hus : ∀ u ∈ us, u.Readable) (hn : IsIdentifier n) (hm : IsIdentifier m) (hx : EndsWord x) (hy : EndsWord y)
    (h : closing ts ++ (n.toList.reverse ++ x) = closing us ++ (m.toList.reverse ++ y)) : ts = us ∧ n = m ∧ x = y := by
  rcases List.eq_nil_or_concat' ts with rfl | ⟨ts, t, rfl⟩
  · rcases List.eq_nil_or_concat' us with rfl | ⟨us, u, rfl⟩
    · exact ⟨rfl, name_cut hn hm hx hy h⟩
    · exact absurd h.symm (closing_ne_name hn us u _ x)
  · rcases List.eq_nil_or_concat' us with rfl | ⟨us, u, rfl⟩
    · exact absurd h (closing_ne_name hm ts t _ y)
    · rw [List.forall_mem_append, List.forall_mem_singleton] at hts hus
      have hitems : t.backward ++ (opening ts.reverse ++ (n.toList.reverse ++ x)) =
          u.backward ++ (opening us.reverse ++ (m.toList.reverse ++ y)) := by
        simpa [closing_concat] using h
      obtain ⟨rfl, hrest⟩ := hts.2 u _ _ hus.2 (stops_opening _ _) (stops_opening _ _) hitems
      obtain ⟨hreverse, hnames⟩ := opening_cut (fun v hv => hts.1 v (List.mem_reverse.1 hv))
        (fun v hv => hus.1 v (List.mem_reverse.1 hv)) hrest
      rw [List.reverse_inj.1 hreverse]
      exact ⟨rfl, name_cut hn hm hx hy hnames⟩

/-! ## Namespaces -/

theorem reverse_qualifier {words : String} (h : words ≠ "") :
    (qualifier (some words)).toList.reverse = '.' :: words.toList.reverse := by
  simp [qualifier, h]

/-- before a level's name stands a dot, or what stands before the whole name -/
theorem head_qualifier (ns : Option String) {x : List Char} (hx : Stops x) :
    ∀ c ∈ ((qualifier ns).toList.reverse ++ x).head?, c = '.' ∨ c = '<' ∨ c = ' ' := by
  intro c hc
  cases ns with
  | none => exact Or.inr (hx c hc)
  | some words =>
    by_cases hne : words = ""
    · subst hne
      exact Or.inr (hx c hc)
    · rw [reverse_qualifier hne] at hc
      cases hc
      exact Or.inl rfl

theorem endsWord_qualifier (ns : Option String) {x : List Char} (hx : Stops x) :
    EndsWord ((qualifier ns).toList.reverse ++ x) := by
  intro c hc
  rcases head_qualifier ns hx c hc with rfl | rfl | rfl <;> decide

theorem endsWord_plus (x : List Char) : EndsWord ('+' :: x) := by
  intro c hc
  cases hc
  decide

theorem qualifier_ne_plus (ns : Option String) {x : List Char} (hx : Stops x) (w : List Char) :
    (qualifier ns).toList.reverse ++ x ≠ '+' :: w := by
  intro h
  have hhead := head_qualifier ns hx
  rw [h] at hhead
  rcases hhead '+' rfl with hc | hc | hc <;> cases hc

/-- a namespace and its dot, from the end, up to a place where the reading stops -/
theorem qualifier_cut {ns ms : Option String} {x y : List Char}
    (hns : ∀ words ∈ ns, Dotted words) (hms : ∀ words ∈ ms, Dotted words) (hx : Stops x) (hy : Stops y)
    (h : (qualifier ns).toList.reverse ++ x = (qualifier ms).toList.reverse ++ y) : ns = ms ∧ x = y := by
  have hdot : ∀ {z w : List Char}, Stops z → z ≠ '.' :: w := by
    intro z w hz heq
    subst heq
    rcases hz '.' rfl with hc | hc <;> cases hc
  cases ns with
  | none =>
    cases ms with
    | none => exact ⟨rfl, h⟩
    | some words =>
      rw [reverse_qualifier (hms words rfl).1] at h
      exact absurd h (hdot hx)
  | some words =>
    obtain ⟨hne, hwords⟩ := hns words rfl
    rw [reverse_qualifier hne] at h
    cases ms with
    | none => exact absurd h.symm (hdot hy)
    | some words' =>
      obtain ⟨hne', hwords'⟩ := hms words' rfl
      rw [reverse_qualifier hne'] at h
      have hstop : ∀ {z : List Char}, Stops z → ∀ c ∈ z.head?, ¬(c = '.' ∨ c ∉ signs) := by
        intro z hz c hc
        rcases hz c hc with rfl | rfl <;> decide
      obtain ⟨hreverse, hxy⟩ := Text.cut_run (fun c hc => hwords c (List.mem_reverse.1 hc))
        (fun c hc => hwords' c (List.mem_reverse.1 hc)) (hstop hx) (hstop hy) (List.cons.inj h).2
      rw [String.toList_inj.1 (List.reverse_inj.1 hreverse)]
      exact ⟨rfl, hxy⟩

/-! ## Unique reading -/

/-- what a name ends in when it is the name of something built on another type -/
def ending : NameTree → Option Char
  | .nullable _ => some '?'
  | .array _ _ => some ']'
  | .pointer _ => some '*'
  | .topLevel _ _ _ => none
  | .nested _ _ _ => none

theorem head_level {n : String} (hn : IsIdentifier n) (ts : List NameTree) (x : List Char) :
    ∃ c rest, closing ts ++ (n.toList.reverse ++ x) = c :: rest ∧ c ∉ ['?', ']', '*'] := by
  rcases List.eq_nil_or_concat' ts with rfl | ⟨ts, t, rfl⟩
  · obtain ⟨c, rest, hc, hsign⟩ := head_name hn x
    refine ⟨c, rest, hc, fun hmem => hsign ?_⟩
    simp only [List.mem_cons, List.not_mem_nil, or_false] at hmem
    rcases hmem with rfl | rfl | rfl <;> decide
  · exact ⟨'>', _, by rw [closing_concat, List.cons_append], by decide⟩

/-- the last character of a name tells what it ends in -/
theorem head_backward {t : NameTree} (ht : t.Readable) (x : List Char) :
    ∃ c rest, t.backward ++ x = c :: rest ∧ t.ending = if c ∈ ['?', ']', '*'] then some c else none := by
  cases ht with
  | @topLevel ns name arguments _ hname _ =>
    obtain ⟨c, rest, hc, hplain⟩ := head_level hname arguments ((qualifier ns).toList.reverse ++ x)
    refine ⟨c, rest, by simpa [backward_topLevel] using hc, ?_⟩
    rw [if_neg hplain]
    rfl
  | @nested outer name arguments _ hname _ =>
    obtain ⟨c, rest, hc, hplain⟩ := head_level hname arguments ('+' :: (outer.backward ++ x))
    refine ⟨c, rest, by simpa [backward_nested] using hc, ?_⟩
    rw [if_neg hplain]
    rfl
  | nullable _ => exact ⟨_, _, by rw [backward_nullable, List.cons_append], rfl⟩
  | array _ _ => exact ⟨_, _, by rw [backward_array, List.cons_append], rfl⟩
  | pointer _ => exact ⟨_, _, by rw [backward_pointer, List.cons_append], rfl⟩

theorem ending_eq {t u : NameTree} (ht : t.Readable) (hu : u.Readable) {x y : List Char}
    (h : t.backward ++ x = u.backward ++ y) : t.ending = u.ending := by
  obtain ⟨c, rest, hc, htending⟩ := head_backward ht x
  obtain ⟨d, rest', hd, huending⟩ := head_backward hu y
  rw [hc, hd] at h
  rw [htending, huending, (List.cons.inj h).1]

theorem cuts_topLevel {ns : Option String} {name : String} {arguments : List NameTree}
    (hns : ∀ words ∈ ns, Dotted words) (hname : IsIdentifier name) (harguments : ∀ t ∈ arguments, Readable t)
    (ih : ∀ t ∈ arguments, Cuts t) : Cuts (.topLevel ns name arguments) := by
  intro u x y hu hx hy h
  have hending := ending_eq (.topLevel hns hname harguments) hu h
  cases hu with
  | topLevel hns' hname' harguments' =>
    simp only [backward_topLevel, List.append_assoc] at h
    obtain ⟨rfl, rfl, hrest⟩ :=
      level_cut ih harguments' hname hname' (endsWord_qualifier ns hx) (endsWord_qualifier _ hy) h
    obtain ⟨rfl, hxy⟩ := qualifier_cut hns hns' hx hy hrest
    exact ⟨rfl, hxy⟩
  | nested houter' hname' harguments' =>
    simp only [backward_topLevel, backward_nested, List.append_assoc, List.cons_append] at h
    obtain ⟨-, -, hrest⟩ := level_cut ih harguments' hname hname' (endsWord_qualifier ns hx) (endsWord_plus _) h
    exact absurd hrest (qualifier_ne_plus ns hx _)
  | _ => cases hending

theorem cuts_nested {outer : NameTree} {name : String} {arguments : List NameTree} (houter : outer.Readable)
    (hname : IsIdentifier name) (harguments : ∀ t ∈ arguments, Readable t) (ihouter : Cuts outer)
    (ih : ∀ t ∈ arguments, Cuts t) : Cuts (.nested outer name arguments) := by
  intro u x y hu hx hy h
  have hending := ending_eq (.nested houter hname harguments) hu h
  cases hu with
  | topLevel hns' hname' harguments' =>
    simp only [backward_topLevel, backward_nested, List.append_assoc, List.cons_append] at h
    obtain ⟨-, -, hrest⟩ := level_cut ih harguments' hname hname' (endsWord_plus _) (endsWord_qualifier _ hy) h
    exact absurd hrest.symm (qualifier_ne_plus _ hy _)
  | nested houter' hname' harguments' =>
    simp only [backward_nested, List.append_assoc, List.cons_append] at h
    obtain ⟨rfl, rfl, hrest⟩ := level_cut ih harguments' hname hname' (endsWord_plus _) (endsWord_plus _) h
    obtain ⟨rfl, hxy⟩ := ihouter _ x y houter' hx hy (List.cons.inj hrest).2
    exact ⟨rfl, hxy⟩
  | _ => cases hending

theorem cuts_nullable {element : NameTree} (helement : element.Readable) (ih : Cuts element) :
    Cuts (.nullable element) := by
  intro u x y hu hx hy h
  have hending := ending_eq (.nullable helement) hu h
  cases hu with
  | nullable helement' =>
    simp only [backward_nullable, List.cons_append] at h
    obtain ⟨rfl, hxy⟩ := ih _ x y helement' hx hy (List.cons.inj h).2
    exact ⟨rfl, hxy⟩
  | _ => cases hending

theorem cuts_array {element : NameTree} (commas : Nat) (helement : element.Readable) (ih : Cuts element) :
    Cuts (.array element commas) := by
  intro u x y hu hx hy h
  have hending := ending_eq (.array commas helement) hu h
  cases hu with
  | array commas' helement' =>
    simp only [backward_array, List.append_assoc, List.cons_append] at h
    have hcommas : ∀ k, '[' ∉ List.replicate k ',' := by simp [List.mem_replicate]
    obtain ⟨hreplicate, hrest⟩ := Text.cut_at (hcommas _) (hcommas _) (List.cons.inj h).2
    obtain ⟨rfl, hxy⟩ := ih _ x y helement' hx hy hrest
    have hlength := congrArg List.length hreplicate
    rw [List.length_replicate, List.length_replicate] at hlength
    exact ⟨by rw [hlength], hxy⟩
  | _ => cases hending

theorem cuts_pointer {element : NameTree} (helement : element.Readable) (ih : Cuts element) :
    Cuts (.pointer element) := by
  intro u x y hu hx hy h
  have hending := ending_eq (.pointer helement) hu h
  cases hu with
  | pointer helement' =>
    simp only [backward_pointer, List.cons_append] at h
    obtain ⟨rfl, hxy⟩ := ih _ x y helement' hx hy (List.cons.inj h).2
    exact ⟨rfl, hxy⟩
  | _ => cases hending

/-- **A name is read in one way** up to a place where the reading stops. -/
theorem Readable.cuts {t : NameTree} (ht : t.Readable) : Cuts t := by
  -- the last character settles the constructor; the element, or the outer level and the arguments, are read before it
  induction ht with
  | topLevel hns hname harguments ih => exact cuts_topLevel hns hname harguments ih
  | nested houter hname harguments ihouter ih => exact cuts_nested houter hname harguments ihouter ih
  | nullable helement ih => exact cuts_nullable helement ih
  | array commas helement ih => exact cuts_array commas helement ih
  | pointer helement ih => exact cuts_pointer helement ih

/-- **The text tells the tree.** -/
theorem text_inj {t u : NameTree} (ht : t.Readable) (hu : u.Readable) (h : t.text = u.text) : t = u := by
  have hstops : Stops [] := nofun
  exact (ht.cuts u [] [] hu hstops hstops (by simp [backward, h])).1

end NameTree

end ApiSurface
