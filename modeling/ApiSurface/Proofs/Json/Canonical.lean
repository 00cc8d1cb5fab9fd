/-
What the canonical text says about a value.

Two values are the same when they differ in the order of object members at most. The canonical text depends on nothing
else, and it tells all else apart: its tokens can be taken apart in one way only.

`sorted_eq_iff`: values have one form in memory exactly when they are the same.
`spelled_append_inj`: the tokens of a value, with anything after them, determine the value.
`canonical_eq_iff`: so does the canonical text.
`parse_canonical`: and it is read as the value again, unless the value is nested too deep.
-/
import ApiSurface.Proofs.Json.Reading
import ApiSurface.Proofs.Json.Sorted
import Mathlib.Data.List.Nodup

namespace ApiSurface.Json

open Draft

/-! ## Equality of values -/

/-- the values are equal, with objects as finite maps: the order of their members is nothing to them -/
inductive Same : Json → Json → Prop
  | null : Same .null .null
  | bool (b : Bool) : Same (.bool b) (.bool b)
  | number (n : Number) : Same (.number n) (.number n)
  | string (s : String) : Same (.string s) (.string s)
  | array {items items' : List Json} (hlength : items.length = items'.length)
      (h : ∀ (index : Nat) (item item' : Json), items[index]? = some item → items'[index]? = some item' → Same item item') :
      Same (.array items) (.array items')
  | object {members members' : Members} (hkeys : ∀ key, (members.lookup key).isSome = (members'.lookup key).isSome)
      (h : ∀ key value value', members.lookup key = some value → members'.lookup key = some value' → Same value value') :
      Same (.object members) (.object members')

/-- values without doubles: integers have 64 bits, and the keys of an object are distinct -/
inductive Exact : Json → Prop
  | null : Exact .null
  | bool (b : Bool) : Exact (.bool b)
  | int {n : Int} (hlow : -(UInt64.size : Int) ≤ 2 * n) (hhigh : n < UInt64.size) : Exact (.number (.int n))
  | string (s : String) : Exact (.string s)
  | array {items : List Json} (h : ∀ item ∈ items, Exact item) : Exact (.array items)
  | object {members : Members} (hkeys : (keysOf members).Nodup) (h : ∀ m ∈ members, Exact m.2) : Exact (.object members)

namespace Same

variable {u v w : Json}

theorem symm (h : Same v w) : Same w v := by
  induction h with
  | null => exact .null
  | bool b => exact .bool b
  | number n => exact .number n
  | string s => exact .string s
  | array hlength _ ih => exact .array hlength.symm fun index item item' h h' => ih index item' item h' h
  | object hkeys _ ih => exact .object (fun key => (hkeys key).symm) fun key value value' h h' => ih key value' value h' h

theorem trans (huv : Same u v) (hvw : Same v w) : Same u w := by
  induction huv generalizing w with
  | null => exact hvw
  | bool b => exact hvw
  | number n => exact hvw
  | string s => exact hvw
  | @array items items' hlength _ ih =>
    cases hvw with
    | array hlength' h' =>
      refine .array (hlength.trans hlength') fun index item item'' hitem hitem'' => ?_
      have hindex : index < items'.length := hlength ▸ (List.getElem?_eq_some_iff.1 hitem).1
      have hitem' : items'[index]? = some items'[index] := List.getElem?_eq_getElem hindex
      exact ih index item _ hitem hitem' (h' index _ item'' hitem' hitem'')
  | @object members members' hkeys _ ih =>
    cases hvw with
    | object hkeys' h' =>
      refine .object (fun key => (hkeys key).trans (hkeys' key)) fun key value value'' hvalue hvalue'' => ?_
      have hsome : (members'.lookup key).isSome = true := by rw [← hkeys key, hvalue, Option.isSome_some]
      obtain ⟨value', hvalue'⟩ := Option.isSome_iff_exists.1 hsome
      exact ih key value value' hvalue hvalue' (h' key value' value'' hvalue' hvalue'')

end Same

/-! ## Members -/

theorem mem_of_lookup {key : String} {value : Json} {members : Members} (h : members.lookup key = some value) :
    (key, value) ∈ members := by
  obtain ⟨before, after, rfl, -⟩ := List.lookup_eq_some_iff.1 h
  exact List.mem_append_right _ List.mem_cons_self

theorem lookup_of_mem {m : String × Json} {members : Members} (hkeys : (keysOf members).Nodup) (hm : m ∈ members) :
    members.lookup m.1 = some m.2 := by
  cases hlookup : members.lookup m.1 with
  | none => exact absurd (List.mem_map_of_mem hm) (lookup_eq_none_iff.1 hlookup)
  | some value => rw [← List.inj_on_of_nodup_map hkeys (mem_of_lookup hlookup) hm rfl]

/-- members in the order of their keys are determined by what stands under each key -/
theorem eq_of_keysAscend {members members' : Members} (h : KeysAscend members) (h' : KeysAscend members')
    (hlookup : ∀ key, members.lookup key = members'.lookup key) : members = members' := by
  have hkeys := nodup_of_keysAscend h
  have hkeys' := nodup_of_keysAscend h'
  have hmem : ∀ m, m ∈ members ↔ m ∈ members' := by
    intro m
    constructor
    · intro hm
      exact mem_of_lookup (hlookup m.1 ▸ lookup_of_mem hkeys hm)
    · intro hm
      exact mem_of_lookup (hlookup m.1 ▸ lookup_of_mem hkeys' hm)
  -- the same members in ascending order of their keys can stand in one way only
  have hperm : members.Perm members' :=
    (List.perm_ext_iff_of_nodup (List.Nodup.of_map _ hkeys) (List.Nodup.of_map _ hkeys')).2 hmem
  refine List.Perm.eq_of_pairwise (fun m n _ _ hmn hnm => ?_) h h' hperm
  have hgt := Std.OrientedCmp.gt_iff_lt.2 hmn
  rw [hnm] at hgt
  cases hgt

/-! ## The form held in memory -/

variable {v w : Json}

/-- a value is the same in memory -/
theorem same_sorted (hv : v.Exact) : Same v v.sorted := by
  induction hv with
  | null => exact rearranges_sorted.null ▸ .null
  | bool b => exact rearranges_sorted.bool b ▸ .bool b
  | @int n => exact rearranges_sorted.number (.int n) ▸ .number (.int n)
  | string s => exact rearranges_sorted.string s ▸ .string s
  | @array items _ ih =>
    rw [rearranges_sorted.array]
    refine .array (List.length_map _).symm fun index item item' hitem hitem' => ?_
    rw [List.getElem?_map, hitem, Option.map_some, Option.some.injEq] at hitem'
    exact hitem' ▸ ih item (List.mem_of_getElem? hitem)
  | @object members hkeys _ ih =>
    obtain ⟨moved, hmoved, -, hlookup⟩ := sorted_object hkeys
    rw [hmoved]
    refine .object (fun key => by rw [hlookup, Option.isSome_map]) fun key value value' hvalue hvalue' => ?_
    rw [hlookup, hvalue, Option.map_some, Option.some.injEq] at hvalue'
    exact hvalue' ▸ ih _ (mem_of_lookup hvalue)

/-- what is the same is one in memory -/
theorem Same.sorted_eq (h : Same v w) (hv : v.Exact) (hw : w.Exact) : v.sorted = w.sorted := by
  induction h with
  | null => rfl
  | bool b => rfl
  | number n => rfl
  | string s => rfl
  | @array items items' hlength _ ih =>
    cases hv with | array hitems =>
    cases hw with | array hitems' =>
    rw [rearranges_sorted.array, rearranges_sorted.array]
    congr 1
    refine List.ext_getElem (by simpa using hlength) fun index hindex hindex' => ?_
    have hindex : index < items.length := by simpa using hindex
    have hindex' : index < items'.length := hlength ▸ hindex
    rw [List.getElem_map, List.getElem_map]
    exact ih index _ _ (List.getElem?_eq_getElem hindex) (List.getElem?_eq_getElem hindex')
      (hitems _ (List.getElem_mem hindex)) (hitems' _ (List.getElem_mem hindex'))
  | @object members members' hkeys _ ih =>
    cases hv with | object hnodup hvalues =>
    cases hw with | object hnodup' hvalues' =>
    obtain ⟨moved, hmoved, hascend, hlookup⟩ := sorted_object hnodup
    obtain ⟨moved', hmoved', hascend', hlookup'⟩ := sorted_object hnodup'
    rw [hmoved, hmoved']
    congr 1
    refine eq_of_keysAscend hascend hascend' fun key => ?_
    rw [hlookup, hlookup']
    have hsome := hkeys key
    cases hvalue : members.lookup key with
    | none =>
      rw [hvalue, Option.isSome_none] at hsome
      have hnone : members'.lookup key = none := Option.not_isSome_iff_eq_none.1 (by rw [← hsome]; decide)
      rw [hnone]
    | some value =>
      rw [hvalue, Option.isSome_some] at hsome
      obtain ⟨value', hvalue'⟩ := Option.isSome_iff_exists.1 hsome.symm
      rw [hvalue', Option.map_some, Option.map_some, ih key value value' hvalue hvalue' (hvalues _ (mem_of_lookup hvalue))
        (hvalues' _ (mem_of_lookup hvalue'))]

/-- **Values have one form in memory exactly when they are the same.** -/
theorem sorted_eq_iff (hv : v.Exact) (hw : w.Exact) : v.sorted = w.sorted ↔ Same v w := by
  constructor
  · intro h
    have hsorted := same_sorted hv
    rw [h] at hsorted
    exact hsorted.trans (same_sorted hw).symm
  · intro h
    exact h.sorted_eq hv hw

theorem Exact.sorted (hv : v.Exact) : v.sorted.Exact := by
  induction hv with
  | null => exact rearranges_sorted.null ▸ .null
  | bool b => exact rearranges_sorted.bool b ▸ .bool b
  | @int n hlow hhigh => exact rearranges_sorted.number (.int n) ▸ .int hlow hhigh
  | string s => exact rearranges_sorted.string s ▸ .string s
  | array _ ih =>
    rw [rearranges_sorted.array]
    refine .array fun item hitem => ?_
    obtain ⟨item, hmem, rfl⟩ := List.mem_map.1 hitem
    exact ih item hmem
  | object hkeys _ ih =>
    obtain ⟨moved, hmoved, hascend, hlookup⟩ := sorted_object hkeys
    have hnodup := nodup_of_keysAscend hascend
    rw [hmoved]
    refine .object hnodup fun m hm => ?_
    have hfound := lookup_of_mem hnodup hm
    rw [hlookup, Option.map_eq_some_iff] at hfound
    obtain ⟨value, hvalue, hsorted⟩ := hfound
    exact hsorted ▸ ih _ (mem_of_lookup hvalue)

/-- sorting what is sorted changes nothing -/
theorem sorted_sorted (hv : v.Exact) : v.sorted.sorted = v.sorted :=
  (sorted_eq_iff hv.sorted hv).2 (same_sorted hv).symm

/-! ## Tokens -/

theorem intercalate_comma {α : Type} (f : α → List Token) (x : α) (xs : List α) :
    List.intercalate [.comma] ((x :: xs).map f) = f x ++ xs.flatMap fun y => .comma :: f y := by
  induction xs generalizing x with
  | nil => rw [List.map_singleton, List.intercalate_singleton, List.flatMap_nil, List.append_nil]
  | cons y ys ih =>
    rw [List.map_cons, List.map_cons, List.intercalate_cons_cons, ← List.map_cons, ih, List.flatMap_cons]
    simp

section

variable {α : Type} {f : α → List Token} {closing : Token} {xs ys : List α} {rest rest' : List Token}

/-- further entries and a closing bracket can be taken apart in one way, when each entry can -/
theorem furtherEntries_inj (hclosing : closing ≠ .comma)
    (hf : ∀ x ∈ xs, ∀ y rest rest', f x ++ rest = f y ++ rest' → x = y ∧ rest = rest')
    (h : (xs.flatMap fun x => .comma :: f x) ++ closing :: rest = (ys.flatMap fun y => .comma :: f y) ++ closing :: rest') :
    xs = ys ∧ rest = rest' := by
  induction xs generalizing ys with
  | nil =>
    cases ys with
    | nil => exact ⟨rfl, (List.cons.inj h).2⟩
    | cons y ys => exact absurd (List.cons.inj h).1 hclosing
  | cons x xs ih =>
    cases ys with
    | nil => exact absurd (List.cons.inj h).1.symm hclosing
    | cons y ys =>
      rw [List.flatMap_cons, List.flatMap_cons, List.cons_append, List.cons_append, List.cons_append, List.cons_append,
        List.append_assoc, List.append_assoc] at h
      obtain ⟨rfl, hothers⟩ := hf x List.mem_cons_self y _ _ (List.cons.inj h).2
      obtain ⟨rfl, hrest⟩ := ih (fun x hx => hf x (List.mem_cons_of_mem _ hx)) hothers
      exact ⟨rfl, hrest⟩

/-- so can entries up to a closing bracket, when no entry begins with one -/
theorem entries_inj (hclosing : closing ≠ .comma) (hbegins : ∀ x rest rest', f x ++ rest ≠ closing :: rest')
    (hf : ∀ x ∈ xs, ∀ y rest rest', f x ++ rest = f y ++ rest' → x = y ∧ rest = rest')
    (h : List.intercalate [.comma] (xs.map f) ++ closing :: rest = List.intercalate [.comma] (ys.map f) ++ closing :: rest') :
    xs = ys ∧ rest = rest' := by
  cases xs with
  | nil =>
    cases ys with
    | nil => exact ⟨rfl, (List.cons.inj h).2⟩
    | cons y ys =>
      rw [intercalate_comma, List.append_assoc] at h
      exact absurd h.symm (hbegins y _ _)
  | cons x xs =>
    cases ys with
    | nil =>
      rw [intercalate_comma, List.append_assoc] at h
      exact absurd h (hbegins x _ _)
    | cons y ys =>
      rw [intercalate_comma, intercalate_comma, List.append_assoc, List.append_assoc] at h
      obtain ⟨rfl, hothers⟩ := hf x List.mem_cons_self y _ _ h
      obtain ⟨rfl, hrest⟩ := furtherEntries_inj hclosing (fun x hx => hf x (List.mem_cons_of_mem _ hx)) hothers
      exact ⟨rfl, hrest⟩

end

/-- **The tokens of a value determine it**, and where it ends. -/
theorem spelled_append_inj (hv : v.Exact) {rest rest' : List Token} (h : v.spelled ++ rest = w.spelled ++ rest') :
    v = w ∧ rest = rest' := by
  -- the first token tells the kinds of values apart
  induction hv generalizing w rest rest' with
  | null =>
    cases w with
    | null => exact ⟨rfl, (List.cons.inj h).2⟩
    | _ => cases (List.cons.inj h).1
  | bool b =>
    cases w with
    | bool b' =>
      obtain ⟨htoken, hrest⟩ := List.cons.inj h
      exact ⟨congrArg Json.bool (Token.bool.inj htoken), hrest⟩
    | _ => cases (List.cons.inj h).1
  | int =>
    cases w with
    | number n =>
      obtain ⟨htoken, hrest⟩ := List.cons.inj h
      exact ⟨congrArg Json.number (Except.ok.inj (Token.number.inj htoken)), hrest⟩
    | _ => cases (List.cons.inj h).1
  | string s =>
    cases w with
    | string s' =>
      obtain ⟨htoken, hrest⟩ := List.cons.inj h
      exact ⟨congrArg Json.string (Except.ok.inj (Token.string.inj htoken)), hrest⟩
    | _ => cases (List.cons.inj h).1
  | @array items _ ih =>
    cases w with
    | array items' =>
      unfold spelled at h
      rw [spelledItems_eq, spelledItems_eq, List.cons_append, List.cons_append, List.append_assoc, List.append_assoc,
        List.singleton_append, List.singleton_append] at h
      have hclosing : Token.closeArray ≠ .comma := by
        intro heq
        cases heq
      have hbegins : ∀ (item : Json) rest rest', item.spelled ++ rest ≠ .closeArray :: rest' := by
        intro item rest rest' heq
        obtain ⟨t, ts, hts, hne⟩ := beginsValue_spelled item
        rw [hts] at heq
        exact hne (List.cons.inj heq).1
      obtain ⟨rfl, hrest⟩ := entries_inj hclosing hbegins (fun item hitem w rest rest' => ih item hitem) (List.cons.inj h).2
      exact ⟨rfl, hrest⟩
    | _ => cases (List.cons.inj h).1
  | @object members _ _ ih =>
    cases w with
    | object members' =>
      unfold spelled at h
      rw [spelledMembers_eq, spelledMembers_eq, List.cons_append, List.cons_append, List.append_assoc, List.append_assoc,
        List.singleton_append, List.singleton_append] at h
      have hclosing : Token.closeObject ≠ .comma := by
        intro heq
        cases heq
      have hbegins : ∀ (m : String × Json) rest rest',
          (.string (.ok m.1) :: .colon :: m.2.spelled) ++ rest ≠ Token.closeObject :: rest' := by
        intro m rest rest' heq
        cases (List.cons.inj heq).1
      refine (entries_inj hclosing hbegins ?_ (List.cons.inj h).2).imp_left (congrArg _)
      rintro ⟨key, value⟩ hm ⟨key', value'⟩ rest rest' hentry
      obtain ⟨hkey, hentry⟩ := List.cons.inj hentry
      obtain ⟨rfl, hrest⟩ := ih _ hm (List.cons.inj hentry).2
      exact ⟨Prod.ext (Except.ok.inj (Token.string.inj hkey)) rfl, hrest⟩
    | _ => cases (List.cons.inj h).1

/-! ## Depth -/

theorem Fits.mono {n m : Nat} (h : Fits n v) (hnm : n ≤ m) : Fits m v := by
  induction h generalizing m with
  | null => exact .null m
  | bool _ b => exact .bool m b
  | nat _ hk => exact .nat m hk
  | negSucc _ hk => exact .negSucc m hk
  | string _ s => exact .string m s
  | array _ ih =>
    obtain ⟨m, rfl⟩ := Nat.exists_eq_add_one_of_ne_zero (Nat.ne_zero_of_lt hnm)
    exact .array fun item hitem => ih item hitem (Nat.le_of_succ_le_succ hnm)
  | object _ ih =>
    obtain ⟨m, rfl⟩ := Nat.exists_eq_add_one_of_ne_zero (Nat.ne_zero_of_lt hnm)
    exact .object fun k hk => ih k hk (Nat.le_of_succ_le_succ hnm)

/-- sorting the members leaves the depth -/
theorem Fits.sorted {n : Nat} (h : Fits n v) : Fits n v.sorted := by
  induction h with
  | null n => exact rearranges_sorted.null ▸ .null n
  | bool n b => exact rearranges_sorted.bool b ▸ .bool n b
  | @nat n k hk => exact rearranges_sorted.number (.int k) ▸ .nat n hk
  | @negSucc n k hk => exact rearranges_sorted.number (.int (Int.negSucc k)) ▸ .negSucc n hk
  | string n s => exact rearranges_sorted.string s ▸ .string n s
  | array _ ih =>
    rw [rearranges_sorted.array]
    refine .array fun item hitem => ?_
    obtain ⟨item, hmem, rfl⟩ := List.mem_map.1 hitem
    exact ih item hmem
  | object _ ih =>
    rw [Json.sorted, sortedMembers_eq]
    refine .object fun m hm => ?_
    obtain ⟨k, hk, rfl⟩ := List.mem_map.1 (sortMembers_subset _ hm)
    exact ih k hk

theorem height_le_of_item {item : Json} {items : List Json} (h : item ∈ items) :
    (ofJson item).height ≤ heightOfItems (ofItems items) := by
  induction items with
  | nil => cases h
  | cons first rest ih =>
    rw [ofItems, heightOfItems]
    rcases List.mem_cons.1 h with rfl | h
    · exact Nat.le_max_left _ _
    · exact Nat.le_trans (ih h) (Nat.le_max_right _ _)

theorem height_le_of_member {m : String × Json} {members : Members} (h : m ∈ members) :
    (ofJson m.2).height ≤ heightOfMembers (ofMembers members) := by
  induction members with
  | nil => cases h
  | cons first rest ih =>
    rw [ofMembers, heightOfMembers]
    rcases List.mem_cons.1 h with rfl | h
    · exact Nat.le_max_left _ _
    · exact Nat.le_trans (ih h) (Nat.le_max_right _ _)

/-- a value without doubles can be written and read, as far as its depth allows -/
theorem Exact.fits (hv : v.Exact) : Fits (ofJson v).height v := by
  induction hv with
  | null => exact .null _
  | bool b => exact .bool _ b
  | @int n hlow hhigh =>
    cases n with
    | ofNat k =>
      have hk : (k : Int) < UInt64.size := hhigh
      exact .nat _ (by omega)
    | negSucc k => exact .negSucc _ (by omega)
  | string s => exact .string _ s
  | array _ ih => exact .array fun item hitem => (ih item hitem).mono (height_le_of_item hitem)
  | object _ _ ih => exact .object fun m hm => (ih m hm).mono (height_le_of_member hm)

/-! ## Canonical texts -/

/-- the canonical text has the tokens of the sorted value -/
theorem spells_canonical {n : Nat} (h : Fits n v) : Spells v.canonical.toList v.sorted.spelled := spells_compact h.sorted

/-- **Canonical texts tell values apart.** -/
theorem canonical_eq_iff (hv : v.Exact) (hw : w.Exact) : v.canonical = w.canonical ↔ Same v w := by
  rw [← sorted_eq_iff hv hw]
  constructor
  · intro h
    have hend : EndsNumber [] := nofun
    have htokens : v.sorted.spelled ++ tokens [] = w.sorted.spelled ++ tokens [] := by
      rw [← spells_canonical hv.fits [] hend, ← spells_canonical hw.fits [] hend, h]
    exact (spelled_append_inj hv.sorted htokens).1
  · intro h
    rw [canonical, canonical, h]

theorem stripItems_ofItems (items : List Json) : stripItems (ofItems items) = items.map fun item => strip (ofJson item) := by
  induction items with
  | nil => rfl
  | cons item rest ih => rw [ofItems, stripItems, ih, List.map_cons]

theorem stripMembers_ofMembers (members : Members) :
    stripMembers (ofMembers members) = members.map fun m => (m.1, strip (ofJson m.2)) := by
  induction members with
  | nil => rfl
  | cons m rest ih => rw [ofMembers, stripMembers, ih, List.map_cons]

/-- the draft of a value stands for its form in memory -/
theorem strip_ofJson {n : Nat} (h : Fits n v) : strip (ofJson v) = v.sorted := by
  induction h with
  | null => rw [ofJson, strip, rearranges_sorted.null]
  | bool _ b => rw [ofJson, strip, rearranges_sorted.bool]
  | nat => rw [Json.nat, ofJson, strip, rearranges_sorted.number]
  | negSucc => rw [ofJson, strip, rearranges_sorted.number]
  | string _ s => rw [ofJson, strip, rearranges_sorted.string]
  | array _ ih => rw [ofJson, strip, stripItems_ofItems, rearranges_sorted.array, List.map_congr_left ih]
  | object _ ih =>
    rw [ofJson, strip, stripMembers_ofMembers, Json.sorted, sortedMembers_eq]
    congr 2
    exact List.map_congr_left fun m hm => by rw [ih m hm]

/-- **Canonical texts are read as their values**, unless the values are nested deeper than is read. -/
theorem parse_canonical (hv : v.Exact) (hdepth : (ofJson v).height < depthLimit) : parse v.canonical = .ok v.sorted := by
  have hfits := hv.fits.sorted
  have hread : Draft.ofText v.canonical = (ofJson v.sorted, none) :=
    ofText_of_spells hfits hdepth (List.append_nil _).symm (spells_canonical hv.fits) blank_nil
  unfold parse
  rw [hread]
  dsimp only
  rw [fault?_ofJson, strip_ofJson hfits, sorted_sorted hv]
  rfl

end ApiSurface.Json
