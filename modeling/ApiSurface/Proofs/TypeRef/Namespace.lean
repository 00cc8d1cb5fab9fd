/-
The namespace of a type can be read from its canonical name.

A name begins with the namespace and a dot, then comes the outermost level: its word, its arguments in angle brackets, and
a plus sign before the next level, if there is one. Within brackets the search for the last dot passes over whatever names
stand there, as their brackets come in pairs.

`passed_canonicalName`: names are passed over within brackets.
`exists_canonicalName`: what a canonical name begins with.
`namespace_kept`: so the namespace that is found, and the one that types are left out by, is that of the reference.
-/
import ApiSurface.Comparison.Basic
import ApiSurface.Proofs.Text.Closed
import ApiSurface.Proofs.TypeRef.Levels

namespace ApiSurface

open TypeDescriptor

namespace TypeRef

/-! ## Words -/

/-- the characters that put the words of canonical names together -/
def joints : List Char := ['.', '+', '<', '>', ',', '[', ']', '*', '?', ' ']

def IsWord (s : String) : Prop := s ≠ "" ∧ ∀ c ∈ s.toList, c ∉ joints

instance (s : String) : Decidable (IsWord s) :=
  decidable_of_iff (s ≠ "" ∧ (s.toList.all fun c => decide (c ∉ joints)) = true) (by simp [IsWord])

/-- words with dots between -/
def IsDotted (ns : String) : Prop :=
  ∃ words, words ≠ [] ∧ (∀ w ∈ words, IsWord w) ∧ ns = String.intercalate "." words

/-- the namespace and the name that a reference states itself -/
def spelling : TypeRef → List String
  | .named ns name _ _ => ns.toList ++ [name]
  | .parameter name _ _ => [name]
  | _ => []

/-- nothing in the reference is spelt with an angle bracket -/
abbrev Unbracketed : TypeRef → Prop := Throughout fun q => ∀ s ∈ q.spelling, '<' ∉ s.toList ∧ '>' ∉ s.toList

/-- the levels have words for names and the namespace is made of words; in the arguments, whatever is named or a parameter
is spelt without angle brackets -/
inductive IsSpelt : TypeRef → Prop
  | topLevel {ns : Option String} {name : String} {own : List TypeRef} :
    (∀ words ∈ ns, IsDotted words) → IsWord name → (∀ a ∈ own, Unbracketed a) → IsSpelt (.named ns name none own)
  | nested (ns : Option String) {name : String} {declaring : TypeRef} {own : List TypeRef} :
    IsSpelt declaring → IsWord name → (∀ a ∈ own, Unbracketed a) → IsSpelt (.named ns name (some declaring) own)

theorem IsSpelt.isChain {r : TypeRef} (h : r.IsSpelt) : r.IsChain := by
  induction h with
  | topLevel _ _ _ => exact .topLevel _ _ _
  | nested ns _ _ _ ih => exact .nested ns _ _ ih

/-- a namespace has characters, and none of them but dots puts words together -/
theorem IsDotted.chars {ns : String} (h : IsDotted ns) : ns ≠ "" ∧ ∀ c ∈ ns.toList, c = '.' ∨ c ∉ joints := by
  obtain ⟨words, hne, hwords, rfl⟩ := h
  exact Text.dots_between hne hwords

/-- a name without its marker has no characters that the name has not -/
theorem mem_of_mem_stripArity {name : String} {c : Char} (h : c ∈ (stripArity name).toList) : c ∈ name.toList := by
  unfold stripArity splitArity at h
  dsimp only at h
  split at h
  · next rest hrest =>
    rw [String.toList_ofList, List.mem_reverse] at h
    rw [← List.mem_reverse]
    exact List.dropWhile_subset Char.isDigit (hrest ▸ List.mem_cons_of_mem _ h)
  · exact h

/-! ## The search within brackets -/

/-- within angle brackets the search for the last dot passes over the text -/
def Passed (text : List Char) : Prop :=
  ∀ depth place found rest,
    lastDot? (depth + 1) place found (text ++ rest) = lastDot? (depth + 1) (place + text.length) found rest

theorem passed_nil : Passed [] := fun _ _ _ _ => rfl

theorem Passed.append {u v : List Char} (hu : Passed u) (hv : Passed v) : Passed (u ++ v) := by
  intro depth place found rest
  rw [List.append_assoc, hu, hv, List.length_append, Nat.add_assoc]

theorem passed_of_unbracketed {text : List Char} (h : '<' ∉ text ∧ '>' ∉ text) : Passed text := by
  intro depth place found rest
  induction text generalizing place with
  | nil => rfl
  | cons c text ih =>
    obtain ⟨hopen, hclose⟩ := h
    rw [List.mem_cons, not_or] at hopen hclose
    rw [List.cons_append, lastDot?, if_neg (Ne.symm hopen.1), if_neg (Ne.symm hclose.1), if_neg (by omega),
      if_neg (by omega), ih ⟨hopen.2, hclose.2⟩, List.length_cons]
    congr 1
    omega

/-- brackets around a text are a pair -/
theorem Passed.bracketed {text : List Char} (h : Passed text) (depth place : Nat) (found : Option Nat) (rest : List Char) :
    lastDot? depth place found ('<' :: (text ++ '>' :: rest)) = lastDot? depth (place + text.length + 2) found rest := by
  rw [lastDot?, if_pos rfl, h, lastDot?, if_neg (by decide), if_pos rfl, Nat.add_sub_cancel]
  congr 1
  omega

theorem toList_angled {names : List String} (h : names ≠ []) :
    (angled names).toList = '<' :: ((String.intercalate ", " names).toList ++ ['>']) := by
  rw [angled, if_neg (mt List.isEmpty_iff.1 h)]
  simp

/-- the search passes over arguments, inside brackets or not -/
theorem lastDot?_angled {names : List String} (h : ∀ s ∈ names, Passed s.toList) (depth place : Nat) (found : Option Nat)
    (rest : List Char) : lastDot? depth place found ((angled names).toList ++ rest) =
      lastDot? depth (place + (angled names).toList.length) found rest := by
  by_cases hempty : names = []
  · subst hempty
    rfl
  · have hjoined : Passed (String.intercalate ", " names).toList :=
      Text.intercalate_of_append passed_nil (fun u v hu hv => hu.append hv) (passed_of_unbracketed (by decide)) h
    rw [toList_angled hempty, List.cons_append, List.append_assoc, List.singleton_append, hjoined.bracketed]
    simp only [List.length_cons, List.length_append, List.length_nil]
    congr 1

theorem passed_angled {names : List String} (h : ∀ s ∈ names, Passed s.toList) : Passed (angled names).toList :=
  fun depth => lastDot?_angled h (depth + 1)

theorem passed_qualifier {ns : Option String} (h : ∀ s ∈ ns, '<' ∉ s.toList ∧ '>' ∉ s.toList) :
    Passed (qualifier ns).toList := by
  cases ns with
  | none => exact passed_nil
  | some s =>
    rw [qualifier]
    split
    · exact passed_nil
    · rw [String.toList_append]
      exact (passed_of_unbracketed (h s rfl)).append (passed_of_unbracketed (by decide))

theorem passed_stripArity {name : String} (h : '<' ∉ name.toList ∧ '>' ∉ name.toList) : Passed (stripArity name).toList :=
  passed_of_unbracketed ⟨mt mem_of_mem_stripArity h.1, mt mem_of_mem_stripArity h.2⟩

/-- **Names are passed over** within brackets, whatever they show. -/
theorem passed_nameWith {r : TypeRef} (h : r.Unbracketed) {given : Option (List String)}
    (hgiven : ∀ names ∈ given, ∀ s ∈ names, Passed s.toList) : Passed (nameWith given r).toList := by
  have hnone : ∀ names ∈ (none : Option (List String)), ∀ s ∈ names, Passed s.toList :=
    fun names hnames => absurd hnames (Option.not_mem_none names)
  induction h generalizing given with
  | @intro r hr hinside ih =>
    cases r with
    | named ns name declaring own =>
      have hname := passed_stripArity (hr name (List.mem_append_right _ (List.mem_singleton_self name)))
      have hqualifier : Passed (qualifier ns).toList :=
        passed_qualifier fun s hs => hr s (List.mem_append_left _ (Option.mem_toList.2 hs))
      have hnames : ∀ s ∈ given.getD (namesOf own), Passed s.toList := by
        cases given with
        | none =>
          rw [Option.getD_none, namesOf_eq, List.forall_mem_map]
          exact fun a ha => ih a (List.mem_append_right _ ha) hnone
        | some names => exact hgiven names rfl
      cases declaring with
      | none =>
        have hlevel : Passed (qualifier ns ++ stripArity name ++ angled (given.getD (namesOf own))).toList := by
          rw [String.toList_append, String.toList_append]
          exact (hqualifier.append hname).append (passed_angled hnames)
        rw [nameWith]
        split
        · next only honly =>
          rw [honly] at hnames
          split
          · rw [String.toList_append]
            exact (hnames only List.mem_cons_self).append (passed_of_unbracketed (by decide))
          · exact hlevel
        · exact hlevel
      | some declaring =>
        have hlevel : ∀ {outer : String} {names : List String}, Passed outer.toList → (∀ s ∈ names, Passed s.toList) →
            Passed (outer ++ "+" ++ stripArity name ++ angled names).toList := by
          intro outer names houter hnames
          simp only [String.toList_append]
          exact ((houter.append (passed_of_unbracketed (by decide))).append hname).append (passed_angled hnames)
        have houter : declaring ∈ (TypeRef.named ns name (some declaring) own).inside :=
          List.mem_append_left _ List.mem_cons_self
        rw [nameWith]
        split
        · refine hlevel (ih declaring houter ?_) fun s hs => hnames s (List.mem_of_mem_drop hs)
          rintro _ ⟨⟩ s hs
          exact hnames s (List.mem_of_mem_take hs)
        · exact hlevel (ih declaring houter hnone) hnames
    | parameter name position ofMethod =>
      rw [nameWith]
      exact passed_of_unbracketed (hr name (List.mem_singleton_self name))
    | array element rank =>
      have hcommas : Passed (commas rank).toList := by
        rw [commas, String.toList_ofList]
        refine passed_of_unbracketed ⟨fun h => ?_, fun h => ?_⟩ <;> exact absurd (List.eq_of_mem_replicate h) (by decide)
      rw [nameWith]
      simp only [String.toList_append]
      exact (((ih element List.mem_cons_self hnone).append (passed_of_unbracketed (by decide))).append hcommas).append
        (passed_of_unbracketed (by decide))
    | byRef element =>
      rw [nameWith]
      exact ih element List.mem_cons_self hnone
    | pointer element =>
      rw [nameWith, String.toList_append]
      exact (ih element List.mem_cons_self hnone).append (passed_of_unbracketed (by decide))

theorem passed_canonicalName {r : TypeRef} (h : r.Unbracketed) : Passed r.canonicalName.toList :=
  passed_nameWith h fun names hnames => absurd hnames (Option.not_mem_none names)

/-! ## What a name begins with -/

theorem IsSpelt.dotted {r : TypeRef} (h : r.IsSpelt) : ∀ words ∈ r.outerNamespace, IsDotted words := by
  induction h with
  | topLevel hns _ _ => exact hns
  | nested ns _ _ _ ih => exact ih

/-- the outermost level has a word for a name -/
theorem IsSpelt.exists_shares {r : TypeRef} (h : r.IsSpelt) {given : Option (List TypeRef)}
    (hgiven : ∀ as ∈ given, ∀ a ∈ as, Unbracketed a) :
    ∃ name arguments rest, shares given r = (name, arguments) :: rest ∧ IsWord name ∧ ∀ a ∈ arguments, Unbracketed a := by
  have harguments : ∀ {given : Option (List TypeRef)} {own : List TypeRef}, (∀ as ∈ given, ∀ a ∈ as, Unbracketed a) →
      (∀ a ∈ own, Unbracketed a) → ∀ a ∈ given.getD own, Unbracketed a := by
    intro given own hgiven hown
    cases given with
    | none => exact hown
    | some as => exact hgiven as rfl
  induction h generalizing given with
  | @topLevel ns name own _ hname hown => exact ⟨name, given.getD own, [], rfl, hname, harguments hgiven hown⟩
  | @nested ns name declaring own _ _ hown ih =>
    have hinner : ∀ (inner : Option (List TypeRef)) (share : String × List TypeRef),
        (∀ as ∈ inner, ∀ a ∈ as, Unbracketed a) →
        ∃ first arguments rest, shares inner declaring ++ [share] = (first, arguments) :: rest ∧ IsWord first ∧
          ∀ a ∈ arguments, Unbracketed a := by
      intro inner share hin
      obtain ⟨first, as, rest, hshares, hfirst⟩ := ih hin
      exact ⟨first, as, rest ++ [share], by rw [hshares, List.cons_append], hfirst⟩
    rw [shares]
    split
    · refine hinner _ _ fun as has a ha => harguments hgiven hown a ?_
      rw [← Option.some.inj has] at ha
      exact List.mem_of_mem_take ha
    · exact hinner none _ fun as has => absurd has (Option.not_mem_none as)

/-- **A canonical name begins** with the namespace and its dot, then a word and its arguments; then it ends, or comes to a
plus sign. -/
theorem exists_canonicalName {r : TypeRef} (h : r.IsSpelt) (hplain : ¬ShowsNullable none r) :
    ∃ (name : String) (arguments : List TypeRef) (tail : List Char),
      IsWord name ∧ (∀ a ∈ arguments, Unbracketed a) ∧ (∀ c ∈ tail.head?, c = '+') ∧ r.canonicalName.toList = (qualifier r.outerNamespace).toList ++
        ((stripArity name).toList ++ ((angled (arguments.map canonicalName)).toList ++ tail)) := by
  obtain ⟨name, arguments, rest, hshares, hname, harguments⟩ :=
    @IsSpelt.exists_shares r h none fun as has => absurd has (Option.not_mem_none as)
  refine ⟨name, arguments, if rest = [] then [] else '+' :: (String.intercalate "+" (rest.map levelText)).toList,
    hname, harguments, ?_, ?_⟩
  · intro c hc
    split at hc
    · cases hc
    · exact (Option.some.inj hc).symm
  · rw [canonicalName_shares h.isChain hplain, hshares, List.map_cons, String.toList_append]
    refine congrArg _ ?_
    by_cases hempty : rest = []
    · rw [if_pos hempty, hempty, List.map_nil, String.intercalate_singleton, levelText, String.toList_append,
        List.append_nil]
    · rw [if_neg hempty, String.intercalate_cons_of_ne_nil (mt List.map_eq_nil_iff.1 hempty), levelText]
      simp

/-! ## Reading the namespace -/

/-- outside brackets a word has no dot -/
theorem lastDot?_word {text : List Char} (h : ∀ c ∈ text, c ∉ joints) (place : Nat) (found : Option Nat)
    (rest : List Char) : lastDot? 0 place found (text ++ rest) = lastDot? 0 (place + text.length) found rest := by
  induction text generalizing place with
  | nil => rfl
  | cons c text ih =>
    obtain ⟨hc, htext⟩ := List.forall_mem_cons.1 h
    have hplain : c ≠ '<' ∧ c ≠ '>' ∧ c ≠ '+' ∧ c ≠ '.' := by
      refine ⟨?_, ?_, ?_, ?_⟩ <;> rintro rfl <;> exact hc (by decide)
    rw [List.cons_append, lastDot?, if_neg hplain.1, if_neg hplain.2.1, if_neg fun h => hplain.2.2.1 h.1,
      if_neg fun h => hplain.2.2.2 h.1, ih htext, List.length_cons]
    congr 1
    omega

/-- the dot after words and dots is found last -/
theorem lastDot?_dotted {text : List Char} (h : ∀ c ∈ text, c = '.' ∨ c ∉ joints) (place : Nat) (found : Option Nat)
    (rest : List Char) : lastDot? 0 place found (text ++ '.' :: rest) =
      lastDot? 0 (place + text.length + 1) (some (place + text.length)) rest := by
  induction text generalizing place found with
  | nil => rfl
  | cons c text ih =>
    obtain ⟨hc, htext⟩ := List.forall_mem_cons.1 h
    have hstep : ∃ found', lastDot? 0 place found (c :: (text ++ '.' :: rest)) =
        lastDot? 0 (place + 1) found' (text ++ '.' :: rest) := by
      rcases hc with rfl | hc
      · exact ⟨some place, rfl⟩
      · have hletter := lastDot?_word (List.forall_mem_singleton.2 hc) place found (text ++ '.' :: rest)
        exact ⟨found, hletter⟩
    obtain ⟨found', hfound⟩ := hstep
    rw [List.cons_append, hfound, ih htext, List.length_cons]
    congr 2 <;> omega

/-- the search ends with the name, or at the plus sign before a nested level -/
theorem lastDot?_tail {tail : List Char} (h : ∀ c ∈ tail.head?, c = '+') (place : Nat) (found : Option Nat) :
    lastDot? 0 place found tail = found := by
  cases tail with
  | nil => rfl
  | cons c tail =>
    rw [h c rfl]
    rfl

theorem toList_qualifier {words : String} (h : words ≠ "") :
    (qualifier (some words)).toList = words.toList ++ ['.'] := by
  simp [qualifier, h]

/-- **The namespace that is found** in a name is that of the reference. -/
theorem namespace?_canonicalName {r : TypeRef} (h : r.IsSpelt) (hplain : ¬ShowsNullable none r) {t : TypeDescriptor}
    (hname : t.name = r.canonicalName) : t.namespace? = r.outerNamespace := by
  obtain ⟨name, arguments, tail, hword, harguments, htail, htext⟩ := exists_canonicalName h hplain
  have hlevel : ∀ place found, lastDot? 0 place found
      ((stripArity name).toList ++ ((angled (arguments.map canonicalName)).toList ++ tail)) = found := by
    intro place found
    have hpassed : ∀ s ∈ arguments.map canonicalName, Passed s.toList :=
      List.forall_mem_map.2 fun a ha => passed_canonicalName (harguments a ha)
    rw [lastDot?_word fun c hc => hword.2 c (mem_of_mem_stripArity hc), lastDot?_angled hpassed, lastDot?_tail htail]
  rw [namespace?, hname, htext]
  cases hns : r.outerNamespace with
  | none => rw [qualifier, String.toList_empty, List.nil_append, hlevel, Option.map_none]
  | some words =>
    obtain ⟨hne, hchars⟩ := (h.dotted words hns).chars
    rw [toList_qualifier hne, List.append_assoc, List.singleton_append, lastDot?_dotted hchars, hlevel, Option.map_some,
      Nat.zero_add, List.take_left, String.ofList_toList]

/-! ## Leaving out namespaces -/

/-- a prefix ends before the second text or goes on in it -/
theorem prefix_append_cases {u v w : List Char} (h : u <+: v ++ w) :
    u <+: v ∨ ∃ q, q ≠ [] ∧ q <+: w ∧ u = v ++ q := by
  rcases List.prefix_or_prefix_of_prefix h (List.prefix_append v w) with hprefix | ⟨q, rfl⟩
  · exact Or.inl hprefix
  · by_cases hempty : q = []
    · rw [hempty, List.append_nil]
      exact Or.inl List.prefix_rfl
    · exact Or.inr ⟨q, hempty, (List.prefix_append_right_inj v).1 h, rfl⟩

/-- a prefix without some characters ends before the first of them -/
theorem prefix_before {p : Char → Prop} {u v w : List Char} (hu : ∀ c ∈ u, ¬p c) (hw : ∀ c ∈ w.head?, p c)
    (h : u <+: v ++ w) : u <+: v := by
  rcases prefix_append_cases h with hprefix | ⟨q, hne, ⟨rest, rfl⟩, rfl⟩
  · exact hprefix
  · obtain ⟨c, q, rfl⟩ := List.exists_cons_of_ne_nil hne
    exact absurd (hw c rfl) (hu c (List.mem_append_right _ List.mem_cons_self))

/-- a prefix ends before a text without its last character -/
theorem concat_prefix_before {u v w : List Char} {c : Char} (hc : c ∉ w) (h : u ++ [c] <+: v ++ w) : u ++ [c] <+: v := by
  rcases prefix_append_cases h with hprefix | ⟨q, hne, hq, heq⟩
  · exact hprefix
  · have hlast := congrArg List.getLast? heq
    rw [List.getLast?_concat, List.getLast?_append_of_ne_nil _ hne] at hlast
    exact absurd (hq.subset (List.mem_of_getLast? hlast.symm)) hc

/-- **A name lies in a namespace** exactly when the namespace of the reference is it or stands in it. -/
theorem inNamespace_canonicalName {r : TypeRef} (h : r.IsSpelt) (hplain : ¬ShowsNullable none r) {ns : String}
    (hns : '<' ∉ ns.toList ∧ '+' ∉ ns.toList) : DescriptorFilter.inNamespace ns r.canonicalName = true ↔
      ∃ words, r.outerNamespace = some words ∧ (words = ns ∨ ∃ rest, words = ns ++ "." ++ rest) := by
  obtain ⟨name, arguments, tail, hword, -, htail, htext⟩ := exists_canonicalName h hplain
  rw [DescriptorFilter.inNamespace, List.isPrefixOf_iff_prefix, htext, ← List.append_assoc]
  -- neither a bracket nor a plus sign stands in the prefix, so it ends before the arguments; its last character is a dot,
  -- so it ends before the word
  have hqualifier : ns.toList ++ ['.'] <+: (qualifier r.outerNamespace).toList ++ (stripArity name).toList ++
      ((angled (arguments.map canonicalName)).toList ++ tail) ↔ ns.toList ++ ['.'] <+: (qualifier r.outerNamespace).toList := by
    constructor
    · intro hprefix
      refine concat_prefix_before (w := (stripArity name).toList) (fun hdot => ?_) ?_
      · exact hword.2 '.' (mem_of_mem_stripArity hdot) (by decide)
      · refine prefix_before (p := fun c => c = '<' ∨ c = '+') ?_ ?_ hprefix
        · rintro c hc (rfl | rfl)
          · exact (List.mem_append.1 hc).elim hns.1 (by decide)
          · exact (List.mem_append.1 hc).elim hns.2 (by decide)
        · intro c hc
          by_cases hempty : arguments.map canonicalName = []
          · rw [hempty] at hc
            exact Or.inr (htail c hc)
          · rw [toList_angled hempty] at hc
            exact Or.inl (Option.some.inj hc).symm
    · rw [List.append_assoc]
      exact fun hprefix => hprefix.trans (List.prefix_append _ _)
  rw [hqualifier]
  cases hnamespace : r.outerNamespace with
  | none => simp [qualifier]
  | some words =>
    rw [toList_qualifier (h.dotted words hnamespace).chars.1, List.prefix_concat_iff, List.append_left_inj]
    constructor
    · rintro (heq | ⟨rest, hrest⟩)
      · exact ⟨words, rfl, Or.inl (String.toList_inj.1 heq.symm)⟩
      · refine ⟨words, rfl, Or.inr ⟨String.ofList rest, String.toList_inj.1 ?_⟩⟩
        rw [← hrest]
        simp
    · rintro ⟨_, ⟨⟩, rfl | ⟨rest, rfl⟩⟩
      · exact Or.inl rfl
      · exact Or.inr ⟨rest.toList, by simp⟩

/-- **Namespaces stay in names.** Of a named type whose declaring types are named types, spelt in words and with arguments
spelt without angle brackets, the canonical name tells the namespace, unless its outermost level is a nullable type. And
leaving out namespaces leaves out the types whose namespace is one of them or stands in one of them, and no others. -/
theorem namespace_kept {r : TypeRef} (h : r.IsSpelt) (hplain : ¬ShowsNullable none r) (t : TypeDescriptor)
    (hname : t.name = r.canonicalName) : t.namespace? = r.outerNamespace ∧
      ∀ namespaces : List String, (∀ ns ∈ namespaces, '<' ∉ ns.toList ∧ '+' ∉ ns.toList) →
        (DescriptorFilter.excludeNamespaces namespaces (.type t) = false ↔ ∃ ns ∈ namespaces, ∃ words,
          r.outerNamespace = some words ∧ (words = ns ∨ ∃ rest, words = ns ++ "." ++ rest)) := by
  refine ⟨namespace?_canonicalName h hplain hname, fun namespaces hnamespaces => ?_⟩
  rw [DescriptorFilter.excludeNamespaces, Bool.not_eq_false', List.any_eq_true, hname]
  constructor
  · rintro ⟨ns, hns, hin⟩
    exact ⟨ns, hns, (inNamespace_canonicalName h hplain (hnamespaces ns hns)).1 hin⟩
  · rintro ⟨ns, hns, hin⟩
    exact ⟨ns, hns, (inNamespace_canonicalName h hplain (hnamespaces ns hns)).2 hin⟩

/-- a part of a whole, in another namespace -/
def wholePart : TypeRef := (TypeRef.topLevel "N.M" "Whole").nestedIn "Part"

/-- the entries of a map from such parts; the type that declares them carries a parameter of its own -/
def partEntry : TypeRef :=
  .named none "Entry" (some (.named (some "Lib.Core") "Map\x601" none [.parameter "K" 0 false])) [.array wholePart 2]

theorem namespace_kept_entries :
    partEntry.canonicalName = "Lib.Core.Map<N.M.Whole+Part[,]>+Entry" ∧
      (TypeDescriptor.ofClass partEntry.canonicalName).namespace? = some "Lib.Core" ∧
      DescriptorFilter.excludeNamespaces ["N", "Lib"] (.type (TypeDescriptor.ofClass partEntry.canonicalName)) = false := by
  have hwhole : Unbracketed (.topLevel "N.M" "Whole") := ⟨by decide, nofun⟩
  have hpart : Unbracketed wholePart := ⟨by decide, List.forall_mem_singleton.2 hwhole⟩
  have hdeclaring : IsSpelt (.named (some "Lib.Core") "Map\x601" none [.parameter "K" 0 false]) := by
    refine .topLevel ?_ (by decide) (List.forall_mem_singleton.2 ⟨by decide, nofun⟩)
    rintro _ ⟨⟩
    exact ⟨["Lib", "Core"], by decide, by decide, by decide⟩
  have hspelt : partEntry.IsSpelt :=
    .nested none hdeclaring (by decide) (List.forall_mem_singleton.2 ⟨by decide, List.forall_mem_singleton.2 hpart⟩)
  have hplain : ¬ShowsNullable none partEntry := fun h => absurd h.1 (by decide)
  obtain ⟨hnamespace, hexclude⟩ := namespace_kept hspelt hplain (.ofClass partEntry.canonicalName) rfl
  refine ⟨by decide, hnamespace, (hexclude ["N", "Lib"] (by decide)).2 ⟨"Lib", by decide, "Lib.Core", rfl, ?_⟩⟩
  exact Or.inr ⟨"Core", by decide⟩

/-- a nullable type has the name of its element, and so its namespace -/
example :
    let nullable := (TypeRef.topLevel "System" "Nullable\x601").withArguments [.topLevel "N" "S"]
    (TypeDescriptor.ofClass nullable.canonicalName).namespace? = some "N" := by
  decide

end TypeRef

end ApiSurface
