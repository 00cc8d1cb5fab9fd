/-
Records are read back from the values that they are written as, whatever way the value reaches its decoder and wherever
the members of its objects stand.

`Reads`: a decoder reads a value as something. `Fields.Writes`: the fields of a record read some members as something.
`Fields.Writes.and` adds one field, `Fields.Writes.reads` makes a record of the fields.
-/
import ApiSurface.Proofs.Json.Objects
import Mathlib.Data.List.Nodup

namespace ApiSurface.Json

open Draft

/-! ## Values laid out anew -/

/-- the keys of members -/
def keysOf (members : Members) : List String := members.map Prod.fst

/-- scalars stay, arrays keep their items in order, and the members of an object may change places -/
structure Rearranges (t : Json → Json) : Prop where
  null : t .null = .null
  bool : ∀ b, t (.bool b) = .bool b
  number : ∀ n, t (.number n) = .number n
  string : ∀ s, t (.string s) = .string s
  array : ∀ items, t (.array items) = .array (items.map t)
  object : ∀ members, (keysOf members).Nodup → ∃ moved, t (.object members) = .object moved ∧ (keysOf moved).Nodup ∧
    ∀ key, moved.lookup key = (members.lookup key).map t

/-- a value as it was written -/
theorem rearranges_id : Rearranges id where
  null := rfl
  bool _ := rfl
  number _ := rfl
  string _ := rfl
  array items := by rw [List.map_id]; rfl
  object members h := ⟨members, rfl, h, fun key => by rw [Option.map_id]; rfl⟩

/-- a decoder reads a value as something, however the value is laid out -/
def Reads {α : Type} (decoder : Decoder α) (v : Json) (x : α) : Prop :=
  ∀ t, Rearranges t → ∀ source, decoder source (ofJson (t v)) = .ok x

/-! ## Scalars and lists -/

theorem reads_string (s : String) : Reads Decoder.string (.string s) s := by
  intro t ht source
  rw [ht.string]
  rfl

theorem reads_bool (b : Bool) : Reads Decoder.bool (.bool b) b := by
  intro t ht source
  rw [ht.bool]
  rfl

theorem Reads.map {α β : Type} {decoder : Decoder α} {v : Json} {x : α} (h : Reads decoder v x) (f : α → β) :
    Reads (fun source draft => (decoder source draft).map f) v (f x) := by
  intro t ht source
  dsimp only
  rw [h t ht source]
  rfl

theorem reads_integer (expected : String) {least bound n : Int} (hleast : least ≤ n) (hbound : n < bound) :
    Reads (Decoder.integer expected least bound) (.number (.int n)) n := by
  intro t ht source
  rw [ht.number]
  unfold Decoder.integer ofJson
  dsimp only
  rw [if_pos ⟨hleast, hbound⟩]

theorem reads_word64 (expected : String) (n : UInt64) : Reads (Decoder.word64 expected) (.nat n.toNat) n := by
  have hbound : (n.toNat : Int) < UInt64.size := by exact_mod_cast n.toNat_lt_size
  have hread := (reads_integer expected (Int.natCast_nonneg n.toNat) hbound).map fun n => UInt64.ofNat n.toNat
  rwa [Int.toNat_natCast, UInt64.ofNat_toNat] at hread

theorem reads_word32 (n : UInt32) : Reads Decoder.word32 (.nat n.toNat) n := by
  have hbound : (n.toNat : Int) < UInt32.size := by exact_mod_cast n.toNat_lt_size
  have hread := (reads_integer "u32" (Int.natCast_nonneg n.toNat) hbound).map fun n => UInt32.ofNat n.toNat
  rwa [Int.toNat_natCast, UInt32.ofNat_toNat] at hread

theorem reads_int64 (n : Int64) : Reads Decoder.int64 (.number (.int n.toInt)) n := by
  have hhigh : n.toInt < Int64.maxValue.toInt + 1 := Int.lt_add_one_of_le n.toInt_le
  have hread := (reads_integer "i64" n.le_toInt hhigh).map Int64.ofInt
  rwa [Int64.ofInt_toInt] at hread

theorem reads_oneOf {α : Type} {known : List (String × α)} {name : String} {x : α} (h : known.lookup name = some x) :
    Reads (Decoder.oneOf known) (.string name) x := by
  intro t ht source
  rw [ht.string]
  unfold Decoder.oneOf Decoder.variant ofJson
  cases source <;> simp [h]

theorem reads_list {α : Type} {decoder : Decoder α} {write : α → Json} {xs : List α}
    (h : ∀ x ∈ xs, Reads decoder (write x) x) : Reads (Decoder.list decoder) (.array (xs.map write)) xs := by
  intro t ht source
  have hitems : ((ofItems ((xs.map write).map t)).mapM (decoder source) : Outcome (List α)) = .ok xs := by
    induction xs with
    | nil => rfl
    | cons x xs ih =>
      have hx := h x List.mem_cons_self t ht source
      have hxs := ih fun y hy => h y (List.mem_cons_of_mem _ hy)
      rw [List.map_cons, List.map_cons, ofItems, List.mapM_cons, hx, hxs]
      rfl
  rw [ht.array]
  unfold Decoder.list ofJson
  dsimp only
  rw [hitems]
  rfl

/-! ## Members of objects -/

theorem lookup_cons_if {α : Type} (key k : String) (v : α) (members : List (String × α)) :
    ((k, v) :: members).lookup key = if key = k then some v else members.lookup key := by
  rw [List.lookup_cons]
  by_cases h : key = k
  · rw [if_pos h, h, beq_self_eq_true]
  · rw [if_neg h, beq_false_of_ne h]

theorem lookup_eq_none_iff {α : Type} {key : String} {members : List (String × α)} :
    members.lookup key = none ↔ key ∉ members.map Prod.fst := by
  rw [List.lookup_eq_none_iff]
  constructor
  · intro h hmem
    obtain ⟨m, hm, rfl⟩ := List.mem_map.1 hmem
    simpa using h m hm
  · intro h m hm
    refine bne_iff_ne.2 ?_
    rintro rfl
    exact h (List.mem_map.2 ⟨m, hm, rfl⟩)

theorem ofMembers_eq (members : Members) : ofMembers members = members.map fun m => (.ok m.1, ofJson m.2) := by
  induction members with
  | nil => rfl
  | cons m rest ih => rw [ofMembers, ih, List.map_cons]

/-- the first value under a key in a draft is the one under it in the value -/
theorem head?_valuesUnder (key : String) (members : Members) :
    (Fields.valuesUnder key (ofMembers members)).head? = (members.lookup key).map ofJson := by
  induction members with
  | nil => rfl
  | cons m rest ih =>
    obtain ⟨k, value⟩ := m
    rw [ofMembers, Fields.valuesUnder_cons, lookup_cons_if]
    by_cases hk : k = key
    · rw [if_pos hk, if_pos hk.symm]
      rfl
    · rw [if_neg hk, if_neg (Ne.symm hk), ih]

theorem length_valuesUnder (key : String) (members : Members) :
    (Fields.valuesUnder key (ofMembers members)).length = (keysOf members).count key := by
  induction members with
  | nil => rfl
  | cons m rest ih =>
    obtain ⟨k, value⟩ := m
    rw [ofMembers, Fields.valuesUnder_cons, keysOf, List.map_cons, List.count_cons, ← keysOf, ← ih]
    by_cases hk : k = key <;> simp [hk]

mutual

/-- the draft of a value has no faults -/
theorem fault?_ofJson : ∀ v : Json, (ofJson v).fault? = none
  | .null => rfl
  | .bool _ => rfl
  | .number _ => rfl
  | .string _ => rfl
  | .array items => by
    rw [ofJson, fault?, faultInItems?_ofItems items]
    rfl
  | .object members => by
    rw [ofJson, fault?, faultInMembers?_ofMembers members]
    rfl

theorem faultInItems?_ofItems : ∀ items : List Json, faultInItems? (ofItems items) = none
  | [] => rfl
  | item :: rest => by
    rw [ofItems, faultInItems?, fault?_ofJson item, faultInItems?_ofItems rest]
    rfl

theorem faultInMembers?_ofMembers : ∀ members : Members, faultInMembers? (ofMembers members) = none
  | [] => rfl
  | (key, value) :: rest => by
    rw [ofMembers, faultInMembers?, fault?_ofJson value, faultInMembers?_ofMembers rest]
    rfl

end

/-- members under distinct keys are no obstacle, if those under other keys may be passed over -/
theorem obstacle_ofMembers {known : List String} {pass : Draft → Option TextFault} {members : Members}
    (hpass : ∀ m ∈ members, m.1 ∈ known ∨ pass (ofJson m.2) = none) (hnodup : (keysOf members).Nodup) :
    Fields.obstacle known pass none [] 0 (ofMembers members) = .ok () := by
  refine Fields.obstacle_eq_ok [] 0 (fun m hm => ?_) (fun key _ => ?_) nofun
  · obtain ⟨⟨key, value⟩, hmember, rfl⟩ := List.mem_map.1 (ofMembers_eq members ▸ hm)
    exact ⟨key, rfl, hpass _ hmember⟩
  · rw [length_valuesUnder]
    exact List.nodup_iff_count_le_one.1 hnodup key

namespace Fields

/-! ## Fields -/

/-- fields read some members as something, among whatever members under other keys -/
structure Writes {α : Type} (f : Fields α) (members : Members) (x : α) : Prop where
  known : ∀ key ∈ keysOf members, key ∈ f.keys
  distinct : (keysOf members).Nodup
  reads : ∀ t, Rearranges t → ∀ source (moved : Members),
    (∀ key ∈ f.keys, moved.lookup key = (members.lookup key).map t) →
    f.ofMembers source (Draft.ofMembers moved) = .ok x

variable {α β : Type}

theorem writes_record (x : α) : (record x).Writes [] x where
  known := nofun
  distinct := List.nodup_nil
  reads _ _ _ _ _ := rfl

/-- **One more field**, whose keys are its own. -/
theorem Writes.and {f : Fields (α → β)} {g : Fields α} {us vs : Members} {y : α → β} {x : α} (hf : f.Writes us y)
    (hg : g.Writes vs x) (hdisjoint : ∀ key ∈ g.keys, key ∉ f.keys) : (f.and g).Writes (us ++ vs) (y x) where
  known := by
    intro key hkey
    rw [keysOf, List.map_append] at hkey
    rcases List.mem_append.1 hkey with hkey | hkey
    · exact List.mem_append_left _ (hf.known key hkey)
    · exact List.mem_append_right _ (hg.known key hkey)
  distinct := by
    rw [keysOf, List.map_append]
    refine List.nodup_append.2 ⟨hf.distinct, hg.distinct, ?_⟩
    rintro key hkey _ hkey' rfl
    exact hdisjoint key (hg.known key hkey') (hf.known key hkey)
  reads := by
    intro t ht source moved hmoved
    have hleft : ∀ key ∈ f.keys, moved.lookup key = (us.lookup key).map t := by
      intro key hkey
      have hnone : vs.lookup key = none := lookup_eq_none_iff.2 fun h => hdisjoint key (hg.known key h) hkey
      rw [hmoved key (List.mem_append_left _ hkey), List.lookup_append, hnone, Option.or_none]
    have hright : ∀ key ∈ g.keys, moved.lookup key = (vs.lookup key).map t := by
      intro key hkey
      have hnone : us.lookup key = none := lookup_eq_none_iff.2 fun h => hdisjoint key hkey (hf.known key h)
      rw [hmoved key (List.mem_append_right _ hkey), List.lookup_append, hnone, Option.none_or]
    unfold Fields.and
    dsimp only
    rw [hf.reads t ht source moved hleft, hg.reads t ht source moved hright]
    rfl

/-- a field that is written -/
theorem writes_field {key : String} {decoder : Decoder α} {alternative : Option α} {v : Json} {x : α}
    (h : Reads decoder v x) : (field key decoder alternative).Writes (member key v) x where
  known := fun _ hkey => hkey
  distinct := List.nodup_cons.2 ⟨List.not_mem_nil, List.nodup_nil⟩
  reads := by
    intro t ht source moved hmoved
    have hlookup : moved.lookup key = some (t v) := by
      rw [hmoved key List.mem_cons_self, member, List.lookup_cons_self]
      rfl
    have hfirst := head?_valuesUnder key moved
    rw [hlookup] at hfirst
    obtain ⟨more, hvalues⟩ := List.head?_eq_some_iff.1 hfirst
    exact field_eq_ok hvalues (h t ht source)

/-- a field that is left out, as its default is meant -/
theorem writes_nothing {key : String} {decoder : Decoder α} {x : α} : (field key decoder (some x)).Writes [] x where
  known := nofun
  distinct := List.nodup_nil
  reads := by
    intro t ht source moved hmoved
    have hlookup : moved.lookup key = none := hmoved key List.mem_cons_self
    have hfirst := head?_valuesUnder key moved
    rw [hlookup] at hfirst
    exact field_eq_default (List.head?_eq_none_iff.1 hfirst)

theorem writes_required {key : String} {decoder : Decoder α} {v : Json} {x : α} (h : Reads decoder v x) :
    (required key decoder).Writes (member key v) x :=
  writes_field h

/-- a field that is left out when it has its default -/
theorem writes_orElse [DecidableEq α] {key : String} {decoder : Decoder α} {alternative x : α} {v : Json}
    (h : Reads decoder v x) :
    (orElse key decoder alternative).Writes (if x = alternative then [] else member key v) x := by
  split
  · next heq =>
    rw [← heq]
    exact writes_nothing
  · exact writes_field h

theorem writes_flag (key : String) (b : Bool) : (flag key).Writes (Json.flag key b) b := by
  cases b with
  | false => exact writes_nothing
  | true =>
    change (field key Decoder.bool (some false)).Writes (member key (.bool true)) true
    exact writes_field (reads_bool true)

/-- a value that there may not be; it is written as a string -/
theorem writes_optional {key : String} {decoder : Decoder α} {name : α → String}
    (h : ∀ x, Reads decoder (.string (name x)) x) (o : Option α) :
    (optional key decoder).Writes (Json.optional key (fun x => .string (name x)) o) o := by
  cases o with
  | none => exact writes_nothing
  | some x =>
    change (field key (Decoder.optional decoder) (some none)).Writes (member key (.string (name x))) (some x)
    refine writes_field fun t ht source => ?_
    have hread := h x t ht source
    rw [ht.string] at hread ⊢
    change (decoder source (ofJson (.string (name x)))).map some = .ok (some x)
    rw [hread]
    rfl

theorem writes_list {key : String} {decoder : Decoder α} {write : α → Json} {xs : List α}
    (h : ∀ x ∈ xs, Reads decoder (write x) x) : (list key decoder).Writes (Json.list key write xs) xs := by
  cases xs with
  | nil => exact writes_nothing
  | cons x xs =>
    change (field key (Decoder.list decoder) (some [])).Writes (member key (.array ((x :: xs).map write))) (x :: xs)
    exact writes_field (reads_list h)

/-! ## Records -/

/-- the fields are read from members in any order, others among them that may be passed over -/
theorem Writes.readMembers {f : Fields α} {members moved : Members} {x : α} (h : f.Writes members x) {t : Json → Json}
    (ht : Rearranges t) {pass : Draft → Option TextFault} (source : Source)
    (hpass : ∀ m ∈ moved, m.1 ∈ f.keys ∨ pass (ofJson m.2) = none) (hnodup : (keysOf moved).Nodup)
    (hlookup : ∀ key ∈ f.keys, moved.lookup key = (members.lookup key).map t) :
    f.readMembers pass source (Draft.ofMembers moved) none = .ok x := by
  unfold Fields.readMembers
  rw [obstacle_ofMembers hpass hnodup, h.reads t ht source moved hlookup]
  rfl

/-- no member has a key that the fields do not know -/
theorem Writes.mem_keys {f : Fields α} {members moved : Members} {x : α} (h : f.Writes members x) {t : Json → Json}
    (hlookup : ∀ key, moved.lookup key = (members.lookup key).map t) : ∀ key ∈ keysOf moved, key ∈ f.keys := by
  intro key hkey
  refine h.known key (Classical.not_not.1 fun hnot => ?_)
  have hnone := hlookup key
  rw [lookup_eq_none_iff.2 hnot] at hnone
  exact lookup_eq_none_iff.1 hnone hkey

/-- **A record is read back** from an object with the members that its fields read. -/
theorem Writes.reads_object {f : Fields α} {members : Members} {x : α} (h : f.Writes members x) (name : String) :
    Reads (f.decoder name) (.object members) x := by
  intro t ht source
  obtain ⟨moved, hobject, hnodup, hlookup⟩ := ht.object members h.distinct
  have hread : f.readMembers skipFault? source (Draft.ofMembers moved) none = .ok x :=
    h.readMembers ht source (fun m hm => Or.inl (h.mem_keys hlookup m.1 (List.mem_map_of_mem hm))) hnodup
      fun key _ => hlookup key
  rw [hobject]
  exact hread

end Fields

end ApiSurface.Json
