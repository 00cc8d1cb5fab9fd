/-
Written values are read back.

`readValue_spelled`: the tokens of a value are read as the draft of the value, whatever follows them.
`read_compact` and `read_pretty`: so a decoder sees the value again that a text was written for.
-/
import ApiSurface.Json.Decoder
import ApiSurface.Proofs.Json.Spelling

namespace ApiSurface.Json

open Draft

/-! ## Drafts of values -/

theorem ofItems_eq (items : List Json) : ofItems items = items.map ofJson := by
  induction items with
  | nil => rfl
  | cons item rest ih => rw [ofItems, ih, List.map_cons]

/-! ## Steps of the reader -/

/-- tokens that begin a value, so that no bracket closes before it -/
def BeginsValue (ts : List Token) : Prop := ∃ t rest, ts = t :: rest ∧ t ≠ .closeArray

theorem BeginsValue.append {ts : List Token} (h : BeginsValue ts) (us : List Token) : BeginsValue (ts ++ us) := by
  obtain ⟨t, rest, rfl, ht⟩ := h
  exact ⟨t, rest ++ us, rfl, ht⟩

theorem beginsValue_spelled (v : Json) : BeginsValue v.spelled := by
  cases v <;> exact ⟨_, _, rfl, nofun⟩

/-- entering an array -/
theorem readValue_openArray {fuel depth : Nat} {ts : List Token} (h : BeginsValue ts) :
    readValue (fuel + 1) depth (.openArray :: ts) =
      (.array (decide (depthLimit ≤ depth + 1)) (readItems fuel (depth + 1) ts).1
        (endingOf (readItems fuel (depth + 1) ts).2), (readItems fuel (depth + 1) ts).2) := by
  obtain ⟨t, rest, rfl, ht⟩ := h
  rw [readValue]
  · nofun
  · rintro rest' heq
    exact ht (List.cons.inj heq).1

/-- entering an object -/
theorem readValue_openObject (fuel depth : Nat) (key : Except TextFault String) (ts : List Token) :
    readValue (fuel + 1) depth (.openObject :: .string key :: ts) =
      (.object (decide (depthLimit ≤ depth + 1)) (readMembers fuel (depth + 1) key ts).1
        (endingOf (readMembers fuel (depth + 1) key ts).2), (readMembers fuel (depth + 1) key ts).2) := by
  rw [readValue]

/-- the last item -/
theorem readItems_last {fuel depth : Nat} {ts rest : List Token} {item : Draft}
    (h : readValue fuel depth ts = (item, .ok (.closeArray :: rest))) :
    readItems (fuel + 1) depth ts = ([item], .ok rest) := by
  rw [readItems, h]

/-- an item before others -/
theorem readItems_more {fuel depth : Nat} {ts us : List Token} {item : Draft} (hus : BeginsValue us)
    (h : readValue fuel depth ts = (item, .ok (.comma :: us))) :
    readItems (fuel + 1) depth ts = (item :: (readItems fuel depth us).1, (readItems fuel depth us).2) := by
  obtain ⟨t, rest, rfl, ht⟩ := hus
  rw [readItems, h]
  split
  · next heq => cases heq
  · next heq => cases heq
  · next heq => cases heq
  · next heq =>
    cases heq
    exact absurd rfl ht
  · next heq =>
    cases heq
    rfl
  · next hcomma heq =>
    cases heq
    exact absurd rfl (hcomma _)

/-- the last member -/
theorem readMembers_last {fuel depth : Nat} {key : Except TextFault String} {ts rest : List Token} {value : Draft}
    (h : readValue fuel depth ts = (value, .ok (.closeObject :: rest))) :
    readMembers (fuel + 1) depth key (.colon :: ts) = ([(key, value)], .ok rest) := by
  rw [readMembers, h]

/-- a member before others -/
theorem readMembers_more {fuel depth : Nat} {key next : Except TextFault String} {ts us : List Token} {value : Draft}
    (h : readValue fuel depth ts = (value, .ok (.comma :: .string next :: us))) :
    readMembers (fuel + 1) depth key (.colon :: ts) =
      ((key, value) :: (readMembers fuel depth next us).1, (readMembers fuel depth next us).2) := by
  rw [readMembers, h]

/-! ## Reading spelled values -/

/-- the tokens of a value are read as its draft, given fuel for all tokens that there are -/
def ReadsAt (depth : Nat) (v : Json) : Prop :=
  ∀ fuel rest, 2 * (v.spelled ++ rest).length ≤ fuel →
    readValue fuel depth (v.spelled ++ rest) = (ofJson v, .ok rest)

/-- scalars take one token -/
theorem readsAt_scalar {depth : Nat} {v : Json} {t : Token} (hspelled : v.spelled = [t])
    (h : scalar? t = some (ofJson v)) : ReadsAt depth v := by
  intro fuel rest hfuel
  rw [hspelled] at hfuel ⊢
  obtain ⟨fuel, rfl⟩ : ∃ f, fuel = f + 1 := ⟨fuel - 1, by simp at hfuel; omega⟩
  cases t <;> first | (rw [List.singleton_append, readValue, h] <;> nofun) | cases h

theorem beginsValue_items (item : Json) (items : List Json) :
    BeginsValue (List.intercalate [.comma] ((item :: items).map spelled)) := by
  cases items with
  | nil =>
    rw [List.map_singleton, List.intercalate_singleton]
    exact beginsValue_spelled item
  | cons next items =>
    rw [List.map_cons, List.map_cons, List.intercalate_cons_cons, List.append_assoc]
    exact (beginsValue_spelled item).append _

/-- items are read one by one -/
theorem readItems_spelled {depth : Nat} (item : Json) (items : List Json)
    (h : ∀ i ∈ item :: items, ReadsAt depth i) (fuel : Nat) (rest : List Token)
    (hfuel : 2 * (List.intercalate [Token.comma] ((item :: items).map spelled) ++ .closeArray :: rest).length < fuel) :
    readItems fuel depth (List.intercalate [.comma] ((item :: items).map spelled) ++ .closeArray :: rest) =
      ((item :: items).map ofJson, .ok rest) := by
  induction items generalizing item fuel with
  | nil =>
    obtain ⟨fuel, rfl⟩ : ∃ f, fuel = f + 1 := ⟨fuel - 1, by omega⟩
    rw [List.map_singleton, List.intercalate_singleton] at hfuel ⊢
    exact readItems_last (h item List.mem_cons_self fuel _ (by omega))
  | cons next items ih =>
    obtain ⟨fuel, rfl⟩ : ∃ f, fuel = f + 1 := ⟨fuel - 1, by omega⟩
    obtain ⟨us, hus⟩ : ∃ us, us = List.intercalate [Token.comma] ((next :: items).map spelled) ++ .closeArray :: rest :=
      ⟨_, rfl⟩
    have htokens : List.intercalate [.comma] ((item :: next :: items).map spelled) ++ .closeArray :: rest =
        item.spelled ++ .comma :: us := by
      rw [hus, List.map_cons, List.map_cons, List.intercalate_cons_cons]
      simp
    have hlength : (item.spelled ++ .comma :: us).length = item.spelled.length + us.length + 1 := by
      rw [List.length_append, List.length_cons, Nat.add_assoc]
    have hbegins : BeginsValue us := hus ▸ (beginsValue_items next items).append _
    have hothers : readItems fuel depth us = ((next :: items).map ofJson, .ok rest) := by
      rw [hus] at htokens hlength ⊢
      refine ih next (fun i hi => h i (List.mem_cons_of_mem _ hi)) fuel ?_
      rw [htokens] at hfuel
      omega
    rw [htokens] at hfuel ⊢
    rw [readItems_more hbegins (h item List.mem_cons_self fuel _ (by omega)), hothers]
    rfl

/-- the tokens of members begin with the first key -/
theorem spelledMembers_begin (m : String × Json) (members : Members) (rest : List Token) :
    ∃ ts, List.intercalate [Token.comma] (spelledMembers (m :: members)) ++ rest = .string (.ok m.1) :: ts := by
  cases members with
  | nil => exact ⟨_, rfl⟩
  | cons next members => exact ⟨_, rfl⟩

/-- members are read one by one; the key of the first has been read already -/
theorem readMembers_spelled {depth : Nat} (m : String × Json) (members : Members)
    (h : ∀ m' ∈ m :: members, ReadsAt depth m'.2) (fuel : Nat) (rest : List Token) {ts : List Token}
    (hts : List.intercalate [Token.comma] (spelledMembers (m :: members)) ++ .closeObject :: rest =
      .string (.ok m.1) :: ts) (hfuel : 2 * ts.length < fuel) :
    readMembers fuel depth (.ok m.1) ts = (ofMembers (m :: members), .ok rest) := by
  induction members generalizing m fuel ts with
  | nil =>
    obtain ⟨fuel, rfl⟩ : ∃ f, fuel = f + 1 := ⟨fuel - 1, by omega⟩
    have htokens : ts = .colon :: (m.2.spelled ++ .closeObject :: rest) := by
      rw [spelledMembers_eq, List.map_singleton, List.intercalate_singleton] at hts
      exact (List.cons.inj hts).2.symm
    rw [htokens] at hfuel ⊢
    rw [List.length_cons] at hfuel
    exact readMembers_last (h m List.mem_cons_self fuel _ (by omega))
  | cons next members ih =>
    obtain ⟨fuel, rfl⟩ : ∃ f, fuel = f + 1 := ⟨fuel - 1, by omega⟩
    obtain ⟨us, hus⟩ := spelledMembers_begin next members (.closeObject :: rest)
    have htokens : ts = .colon :: (m.2.spelled ++ .comma :: .string (.ok next.1) :: us) := by
      rw [← hus]
      rw [spelledMembers, spelledMembers, List.intercalate_cons_cons, ← spelledMembers] at hts
      simpa using (List.cons.inj hts).2.symm
    have hlength : (m.2.spelled ++ .comma :: .string (.ok next.1) :: us).length = m.2.spelled.length + us.length + 2 := by
      rw [List.length_append, List.length_cons, List.length_cons]
      omega
    rw [htokens] at hfuel ⊢
    rw [List.length_cons] at hfuel
    have hothers := ih next (fun m' hm' => h m' (List.mem_cons_of_mem _ hm')) fuel hus (by omega)
    rw [readMembers_more (h m List.mem_cons_self fuel _ (by omega)), hothers]
    rfl

/-- **The tokens of a value are read as the value**, as long as the value is not nested too deep. -/
theorem readsAt_of_fits {n : Nat} {v : Json} (h : Fits n v) {depth : Nat} (hdepth : depth + n < depthLimit) :
    ReadsAt depth v := by
  induction h generalizing depth with
  | null n => exact readsAt_scalar rfl rfl
  | bool n b => exact readsAt_scalar rfl rfl
  | nat n hk => exact readsAt_scalar rfl rfl
  | negSucc n hk => exact readsAt_scalar rfl rfl
  | string n s => exact readsAt_scalar rfl rfl
  | @array n items _ ih =>
    intro fuel rest hfuel
    have hshallow : decide (depthLimit ≤ depth + 1) = false := decide_eq_false (by omega)
    unfold spelled at hfuel ⊢
    rw [spelledItems_eq, List.cons_append, List.append_assoc, List.singleton_append] at hfuel ⊢
    rw [List.length_cons] at hfuel
    obtain ⟨fuel, rfl⟩ : ∃ f, fuel = f + 1 := ⟨fuel - 1, by omega⟩
    cases items with
    | nil =>
      rw [List.map_nil, List.intercalate_nil, List.nil_append, readValue, ofJson, hshallow]
      rfl
    | cons item items =>
      have hread : ∀ i ∈ item :: items, ReadsAt (depth + 1) i := fun i hi => ih i hi (by omega)
      have hitems := readItems_spelled item items hread fuel rest (by omega)
      rw [readValue_openArray ((beginsValue_items item items).append _), hitems, ofJson, ofItems_eq, hshallow]
      rfl
  | @object n members _ ih =>
    intro fuel rest hfuel
    have hshallow : decide (depthLimit ≤ depth + 1) = false := decide_eq_false (by omega)
    unfold spelled at hfuel ⊢
    rw [List.cons_append, List.append_assoc, List.singleton_append] at hfuel ⊢
    rw [List.length_cons] at hfuel
    obtain ⟨fuel, rfl⟩ : ∃ f, fuel = f + 1 := ⟨fuel - 1, by omega⟩
    cases members with
    | nil =>
      rw [spelledMembers, List.intercalate_nil, List.nil_append, readValue, ofJson, hshallow]
      rfl
    | cons m members =>
      obtain ⟨ts, hts⟩ := spelledMembers_begin m members (.closeObject :: rest)
      rw [hts, List.length_cons] at hfuel
      have hread : ∀ m' ∈ m :: members, ReadsAt (depth + 1) m'.2 := fun m' hm' => ih m' hm' (by omega)
      have hmembers := readMembers_spelled m members hread fuel rest hts (by omega)
      rw [hts, readValue_openObject, hmembers, ofJson, hshallow]
      rfl

/-! ## Reading texts -/

/-- a text that spells a value, and then has nothing but blanks, is read as the value -/
theorem ofText_of_spells {n : Nat} {v : Json} (h : Fits n v) (hn : n < depthLimit) {text : String}
    {written blanks : List Char} (htext : text.toList = written ++ blanks) (hwritten : Spells written v.spelled)
    (hblanks : Blank blanks) : Draft.ofText text = (ofJson v, none) := by
  have hend : EndsNumber blanks := by
    have hnil : EndsNumber [] := nofun
    have h := endsNumber_blanks hblanks hnil
    rwa [List.append_nil] at h
  have hblank : tokens blanks = [] := by
    have h := tokens_blanks hblanks []
    rwa [List.append_nil, tokens] at h
  have htokens : tokens text.toList = v.spelled ++ [] := by rw [htext, hwritten blanks hend, hblank]
  have hreads : ReadsAt 0 v := readsAt_of_fits h (by omega)
  have hread := hreads (2 * (v.spelled ++ []).length + 1) [] (by omega)
  unfold Draft.ofText
  rw [htokens]
  dsimp only
  rw [hread]

theorem read_of_ofText {α : Type} {decoder : Decoder α} {text : String} {draft : Draft}
    (h : Draft.ofText text = (draft, none)) : read decoder text = decoder .streamed draft := by
  unfold read
  rw [h]
  dsimp only
  cases decoder .streamed draft <;> simp [bind, Except.bind, stopAt, pure, Except.pure]

/-- **A compact text is read as the value that it was written for.** -/
theorem read_compact {α : Type} (decoder : Decoder α) {n : Nat} {v : Json} (h : Fits n v) (hn : n < depthLimit) :
    read decoder v.compact = decoder .streamed (ofJson v) :=
  read_of_ofText (ofText_of_spells h hn (List.append_nil _).symm (spells_compact h) blank_nil)

/-- **So is a pretty text**, also with a line break at its end. -/
theorem read_pretty {α : Type} (decoder : Decoder α) {n : Nat} {v : Json} (h : Fits n v) (hn : n < depthLimit) :
    read decoder v.pretty = decoder .streamed (ofJson v) ∧
      read decoder (v.pretty ++ "\n") = decoder .streamed (ofJson v) := by
  have hnewline : Blank ['\n'] := by
    intro c hc
    rw [List.mem_singleton.1 hc]
    rfl
  refine ⟨read_of_ofText (ofText_of_spells h hn (List.append_nil _).symm (spells_prettyAt h 0) blank_nil), ?_⟩
  exact read_of_ofText (ofText_of_spells h hn (by rw [String.toList_append]; rfl) (spells_prettyAt h 0) hnewline)

end ApiSurface.Json
