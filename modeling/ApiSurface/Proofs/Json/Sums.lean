/-
Sums, and records that share an object, are read back from the values that they are written as, wherever the members of an
object stand.

`Writes.exists_tagged`: a tagged value is taken apart into its variant and content.
`reads_labelled`: a labelled value is read whether its label comes first or its content.
`Writes.reads_flattened`: two records in one object.
-/
import ApiSurface.Json.Tagged
import ApiSurface.Proofs.Json.Records
import Mathlib.Data.List.Nodup
import Mathlib.Data.List.Permutation

namespace ApiSurface.Json

open Draft

variable {α β γ : Type}

/-! ## Members in any order -/

/-- leaving out members under other keys leaves the value under a key -/
theorem lookup_filter (keep : String → Bool) {key : String} (hkey : keep key = true) (members : Members) :
    (members.filter fun m => keep m.1).lookup key = members.lookup key := by
  induction members with
  | nil => rfl
  | cons m rest ih =>
    obtain ⟨k, value⟩ := m
    by_cases hkept : keep k = true
    · simp only [List.filter_cons, hkept, if_true, lookup_cons_if, ih]
    · have hne : key ≠ k := by
        rintro rfl
        exact hkept hkey
      simp only [List.filter_cons, hkept, Bool.false_eq_true, if_false, lookup_cons_if, hne, ih]

theorem nodup_keysOf_filter {members : Members} (h : (keysOf members).Nodup) (keep : String × Json → Bool) :
    (keysOf (members.filter keep)).Nodup :=
  h.sublist (List.filter_sublist.map Prod.fst)

/-- a member under distinct keys is the one that is found -/
theorem mem_iff_lookup {members : Members} (h : (keysOf members).Nodup) (m : String × Json) :
    m ∈ members ↔ members.lookup m.1 = some m.2 := by
  obtain ⟨key, value⟩ := m
  induction members with
  | nil => exact iff_of_false List.not_mem_nil nofun
  | cons first rest ih =>
    obtain ⟨k, v⟩ := first
    obtain ⟨hk, hrest⟩ := List.nodup_cons.1 h
    rw [List.mem_cons, lookup_cons_if]
    by_cases heq : key = k
    · subst heq
      have hnot : (key, value) ∉ rest := fun hmem => hk (List.mem_map.2 ⟨_, hmem, rfl⟩)
      simp [hnot, eq_comm]
    · rw [if_neg heq, ← ih hrest]
      simp [heq]

/-- members are known by what is found under each key, but for their order -/
theorem perm_of_lookup {members moved : Members} (hmembers : (keysOf members).Nodup) (hmoved : (keysOf moved).Nodup)
    (hlookup : ∀ key, moved.lookup key = members.lookup key) : moved.Perm members := by
  refine (List.perm_ext_iff_of_nodup (List.Nodup.of_map _ hmoved) (List.Nodup.of_map _ hmembers)).2 fun m => ?_
  rw [mem_iff_lookup hmoved, mem_iff_lookup hmembers, hlookup]

/-! ## Values that there may not be -/

/-- a value that there may not be, of a kind that is never `null` -/
theorem Fields.writes_optional_value {key : String} {decoder : Decoder α} {write : α → Json}
    (hnull : ∀ source x, decoder source .null ≠ .ok x) {o : Option α} (h : ∀ x ∈ o, Reads decoder (write x) x) :
    (optional key decoder).Writes (Json.optional key write o) o := by
  cases o with
  | none => exact writes_nothing
  | some x =>
    change (field key (Decoder.optional decoder) (some none)).Writes (member key (write x)) (some x)
    refine writes_field fun t ht source => ?_
    have hread := h x rfl t ht source
    have hoption : ∀ draft, decoder source draft = .ok x → Decoder.optional decoder source draft = .ok (some x) := by
      intro draft hdraft
      cases draft with
      | null => exact absurd hdraft (hnull source x)
      | _ =>
        unfold Decoder.optional
        dsimp only
        rw [hdraft]
        rfl
    exact hoption _ hread

/-! ## Tags -/

section

variable {tag name : String} {known : List (String × β)} {v : β}

theorem splitTag_of_not_mem (source : Source) {members : Members} (h : tag ∉ keysOf members) :
    splitTag tag known source none (some v) (ofMembers members) = .ok (v, ofMembers members) := by
  induction members with
  | nil => rfl
  | cons m rest ih =>
    obtain ⟨k, value⟩ := m
    obtain ⟨hk, hrest⟩ := not_or.1 (mt List.mem_cons.2 h)
    have hbuffer : (ofJson value).buffer = .ok () := by rw [buffer, fault?_ofJson, stopAt]
    rw [ofMembers, splitTag]
    simp only [Except.mapError, bind, Except.bind, Ne.symm hk, if_false, hbuffer, ih hrest, pure, Except.pure]

/-- the tag is taken out of the members, wherever it stands -/
theorem splitTag_ofMembers (hname : known.lookup name = some v) (source : Source) {members : Members}
    (hnodup : (keysOf members).Nodup) (hlookup : members.lookup tag = some (.string name)) :
    splitTag tag known source none none (ofMembers members) =
      .ok (v, ofMembers (members.filter fun m => m.1 != tag)) := by
  induction members with
  | nil => cases hlookup
  | cons m rest ih =>
    obtain ⟨k, value⟩ := m
    obtain ⟨hk, hrest⟩ := List.nodup_cons.1 hnodup
    rw [lookup_cons_if] at hlookup
    rw [ofMembers, splitTag]
    by_cases heq : tag = k
    · subst heq
      rw [if_pos rfl] at hlookup
      obtain rfl := Option.some.inj hlookup
      have hvariant : tagName known source (.string name) = .ok v := by
        unfold tagName Decoder.variant
        cases source <;> simp [hname]
      have hkeep : rest.filter (fun m => m.1 != tag) = rest := by
        refine List.filter_eq_self.2 fun m hm => bne_iff_ne.2 ?_
        rintro rfl
        exact hk (List.mem_map.2 ⟨m, hm, rfl⟩)
      rw [List.filter_cons_of_neg (by simp), hkeep]
      simp only [Except.mapError, bind, Except.bind, if_true, Option.isSome_none, Bool.false_eq_true, if_false, ofJson,
        hvariant]
      exact splitTag_of_not_mem source hk
    · rw [if_neg heq] at hlookup
      have hbuffer : (ofJson value).buffer = .ok () := by rw [buffer, fault?_ofJson, stopAt]
      rw [List.filter_cons_of_pos (by simpa using Ne.symm heq), ofMembers]
      simp only [Except.mapError, bind, Except.bind, Ne.symm heq, if_false, hbuffer, ih hrest hlookup, pure, Except.pure]

/-- **A tagged value** is taken apart into its variant and the content that the fields of the variant read. -/
theorem Fields.Writes.exists_tagged {f : Fields α} {members : Members} {x : α} (h : f.Writes members x)
    (hname : known.lookup name = some v) (htag : tag ∉ f.keys) (title : String) {t : Json → Json} (ht : Rearranges t)
    (source : Source) :
    ∃ content, tagged tag known title source (ofJson (t (.object (member tag (.string name) ++ members)))) =
        .ok (v, content) ∧ ∀ own, f.decoder own .buffered content = .ok x := by
  have hdistinct : (keysOf (member tag (.string name) ++ members)).Nodup :=
    List.nodup_cons.2 ⟨fun hmem => htag (h.known tag hmem), h.distinct⟩
  obtain ⟨moved, hobject, hnodup, hlookup⟩ := ht.object _ hdistinct
  have htagged : moved.lookup tag = some (.string name) := by
    rw [hlookup, member, List.singleton_append, List.lookup_cons_self, Option.map_some, ht.string]
  refine ⟨.object false (Draft.ofMembers (moved.filter fun m => m.1 != tag)) none, ?_, fun own => ?_⟩
  · rw [hobject, ofJson, tagged]
    simp only [enter, Bool.false_eq_true, if_false, stopAt, bind, Except.bind,
      splitTag_ofMembers hname source hnodup htagged, pure, Except.pure]
  · have hothers : ∀ key ∈ f.keys, (moved.filter fun m => m.1 != tag).lookup key = (members.lookup key).map t := by
      intro key hkey
      have hne : key ≠ tag := fun heq => htag (heq ▸ hkey)
      rw [lookup_filter (fun k => k != tag) (bne_iff_ne.2 hne), hlookup, member, List.singleton_append, lookup_cons_if,
        if_neg hne]
    have hknown : ∀ m ∈ moved.filter fun m => m.1 != tag, m.1 ∈ f.keys := by
      intro m hm
      obtain ⟨hmem, hne⟩ := List.mem_filter.1 hm
      have hfound := hlookup m.1
      rw [(mem_iff_lookup hnodup m).1 hmem, member, List.singleton_append, lookup_cons_if, if_neg (bne_iff_ne.1 hne)] at hfound
      refine h.known m.1 (Classical.not_not.1 fun hnot => ?_)
      rw [lookup_eq_none_iff.2 hnot] at hfound
      cases hfound
    exact h.readMembers ht .buffered (fun m hm => Or.inl (hknown m hm)) (nodup_keysOf_filter hnodup _) hothers

end

/-! ## Labels -/

section

variable {label content name title : String} {known : List (String × α)} {decode : α → Decoder β} {bare : α → Option β}
  {v : α} {x : β}

theorem oneOf_string (hname : known.lookup name = some v) (source : Source) :
    Decoder.oneOf known source (.string name) = .ok v :=
  reads_oneOf hname id rearranges_id source

/-- **A labelled value**, whether the label comes first or the content. -/
theorem reads_labelled {value : Json} (hne : label ≠ content) (hname : known.lookup name = some v)
    (hvalue : Reads (decode v) value x) :
    Reads (labelled label content known title decode bare)
      (.object (member label (.string name) ++ member content value)) x := by
  intro t ht source
  have hdistinct : (keysOf (member label (.string name) ++ member content value)).Nodup :=
    List.nodup_cons.2 ⟨fun hmem => hne (List.mem_singleton.1 hmem), List.nodup_singleton _⟩
  obtain ⟨moved, hobject, hnodup, hlookup⟩ := ht.object _ hdistinct
  have hperm : moved.Perm [(label, .string name), (content, t value)] := by
    refine perm_of_lookup (List.nodup_cons.2 ⟨fun hmem => hne (List.mem_singleton.1 hmem), List.nodup_singleton _⟩) hnodup
      fun key => ?_
    rw [hlookup, member, member, List.singleton_append, lookup_cons_if, lookup_cons_if, lookup_cons_if, lookup_cons_if]
    split_ifs
    · rw [Option.map_some, ht.string]
    · rfl
    · rfl
  have hlabel := oneOf_string hname source
  have hbuffer : (ofJson (t value)).buffer = .ok () := by rw [buffer, fault?_ofJson, stopAt]
  rw [hobject]
  rcases List.perm_pair.1 hperm with rfl | rfl
  · simp only [ofJson, Draft.ofMembers, labelled, enter, stopAt, relevant, Bool.false_eq_true, if_false, if_true, Ne.symm hne,
      hlabel, hvalue t ht source, onceOnly, bind, Except.bind, pure, Except.pure]
  · simp only [ofJson, Draft.ofMembers, labelled, enter, stopAt, relevant, Bool.false_eq_true, if_false, if_true, Ne.symm hne,
      hbuffer, hlabel, hvalue t ht .buffered, onceOnly, bind, Except.bind, pure, Except.pure]

/-- a labelled value without content -/
theorem reads_labelled_bare (hname : known.lookup name = some v) (hbare : bare v = some x) :
    Reads (labelled label content known title decode bare) (.object (member label (.string name))) x := by
  intro t ht source
  obtain ⟨moved, hobject, hnodup, hlookup⟩ := ht.object (member label (.string name)) (List.nodup_singleton _)
  have hperm : moved.Perm [(label, .string name)] := by
    refine perm_of_lookup (List.nodup_singleton _) hnodup fun key => ?_
    rw [hlookup, member, lookup_cons_if]
    split_ifs
    · rw [Option.map_some, ht.string]
    · rfl
  have hlabel := oneOf_string hname source
  rw [hobject, List.perm_singleton.1 hperm]
  simp only [ofJson, Draft.ofMembers, labelled, enter, stopAt, relevant, Bool.false_eq_true, if_false, if_true, hlabel, hbare,
    bind, Except.bind, pure, Except.pure]

end

/-! ## Shared objects -/

namespace Fields

variable {outer : Fields α} {inner : Fields β} {us vs : Members} {o : α} {i : β}

/-- **Two records in one object**, under keys of their own. -/
theorem Writes.reads_flattened (ho : outer.Writes us o) (hi : inner.Writes vs i)
    (hdisjoint : ∀ key ∈ inner.keys, key ∉ outer.keys) (join : β → α → γ) (name : String) :
    Reads (outer.flattened inner join name) (.object (vs ++ us)) (join i o) := by
  intro t ht source
  have hdistinct : (keysOf (vs ++ us)).Nodup := by
    rw [keysOf, List.map_append]
    refine List.nodup_append.2 ⟨hi.distinct, ho.distinct, ?_⟩
    rintro key hkey _ hkey' rfl
    exact hdisjoint key (hi.known key hkey) (ho.known key hkey')
  obtain ⟨moved, hobject, hnodup, hlookup⟩ := ht.object _ hdistinct
  have houter : ∀ key ∈ outer.keys, moved.lookup key = (us.lookup key).map t := by
    intro key hkey
    have hnone : vs.lookup key = none := lookup_eq_none_iff.2 fun hmem => hdisjoint key (hi.known key hmem) hkey
    rw [hlookup, List.lookup_append, hnone, Option.none_or]
  have hothers : ∀ key, outer.keys.contains key = false → moved.lookup key = (vs.lookup key).map t := by
    intro key hkey
    have hnone : us.lookup key = none := lookup_eq_none_iff.2 fun hmem => by
      rw [List.contains_iff_mem.2 (ho.known key hmem)] at hkey
      cases hkey
    rw [hlookup, List.lookup_append, hnone, Option.or_none]
  have hreadOuter : outer.readMembers fault? source (Draft.ofMembers moved) none = .ok o :=
    ho.readMembers ht source (fun m _ => Or.inr (fault?_ofJson m.2)) hnodup houter
  have hfiltered : ∀ keeps, (∀ key d, keeps (.ok key, d) = !outer.keys.contains key) →
      (Draft.ofMembers moved).filter keeps = Draft.ofMembers (moved.filter fun m => !outer.keys.contains m.1) := by
    intro keeps hkeeps
    rw [ofMembers_eq, ofMembers_eq, List.filter_map]
    simp only [Function.comp_def, hkeeps]
  have hreadInner : inner.readMembers skipFault? .buffered
      (Draft.ofMembers (moved.filter fun m => !outer.keys.contains m.1)) none = .ok i := by
    refine hi.readMembers ht .buffered (fun m hm => Or.inl ?_) (nodup_keysOf_filter hnodup _) fun key hkey => ?_
    · obtain ⟨hmem, hkept⟩ := List.mem_filter.1 hm
      have hfound := hothers m.1 (Bool.not_eq_true' _ ▸ hkept)
      rw [(mem_iff_lookup hnodup m).1 hmem] at hfound
      refine hi.known m.1 (Classical.not_not.1 fun hnot => ?_)
      rw [lookup_eq_none_iff.2 hnot] at hfound
      cases hfound
    · have hnot : outer.keys.contains key = false := by
        rw [← Bool.not_eq_true, List.contains_iff_mem]
        exact hdisjoint key hkey
      rw [lookup_filter (fun k => !outer.keys.contains k) (by rw [hnot]; rfl), hothers key hnot]
  rw [hobject]
  simp only [ofJson, flattened, enter, stopAt, Bool.false_eq_true, if_false, bind, Except.bind, hreadOuter, pure, Except.pure]
  rw [hfiltered _ fun _ _ => rfl, hreadInner]

end Fields

end ApiSurface.Json
