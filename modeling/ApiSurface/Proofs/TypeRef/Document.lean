/-
References survive being written and read.

A reference is an object with its form and the members of that form. The reader counts down how deep references stand in each
other, beginning with the depth of what it reads, so it gets to the bottom of every reference that was written.

`reads`: a reference is read back from its value.
`within_decoder`: a reference that was read from a text fits where it stood when it is written.
-/
import ApiSurface.Proofs.Json.Canonical
import ApiSurface.Proofs.Json.Nesting
import ApiSurface.Proofs.Json.Sums
import ApiSurface.Proofs.TypeRef.Inside
import ApiSurface.TypeRef.Document

namespace ApiSurface.TypeRef

open Json Json.Fields

/-! ## Forms -/

/-- the form of a reference -/
def form : TypeRef → Form
  | .named _ _ _ _ => .named
  | .parameter _ _ _ => .parameter
  | .array _ _ => .array
  | .byRef _ => .byRef
  | .pointer _ => .pointer

/-- the name that a form has in a document -/
def Form.name : Form → String
  | .named => "named"
  | .parameter => "generic_parameter"
  | .array => "array"
  | .byRef => "by_ref"
  | .pointer => "pointer"

theorem lookup_names (form : Form) : Form.names.lookup form.name = some form := by cases form <;> rfl

/-- the members of a reference beside the one that names its form -/
def content : TypeRef → Members
  | .named ns name declaring own =>
    Json.optional "namespace" .string ns ++ member "name" (.string name) ++
      Json.optional "declaring_type" toJson declaring ++ Json.list "generic_arguments" toJson own
  | .parameter name position ofMethod =>
    member "name" (.string name) ++ member "position" (.nat position.toNat) ++ Json.flag "is_method" ofMethod
  | .array element rank => member "element" element.toJson ++ member "rank" (.nat rank.toNat)
  | .byRef element => member "element" element.toJson
  | .pointer element => member "element" element.toJson

theorem argumentsMember_toJsons (rs : List TypeRef) :
    argumentsMember (toJsons rs) = Json.list "generic_arguments" toJson rs := by
  have hmap : ∀ rs, toJsons rs = rs.map toJson := by
    intro rs
    induction rs with
    | nil => rfl
    | cons r rest ih => rw [toJsons, ih, List.map_cons]
  cases rs with
  | nil => rfl
  | cons r rest =>
    rw [hmap]
    rfl

/-- a reference is written as its form, and then its content -/
theorem toJson_eq (r : TypeRef) : r.toJson = .object (member "kind" (.string r.form.name) ++ r.content) := by
  cases r with
  | named ns name declaring own =>
    cases declaring <;>
      simp only [toJson, content, form, Form.name, argumentsMember_toJsons, Json.optional, member, List.append_assoc,
        List.nil_append]
  | parameter name position ofMethod => simp only [toJson, content, form, Form.name, List.append_assoc]
  | array element rank => simp only [toJson, content, form, Form.name, List.append_assoc]
  | byRef element => simp only [toJson, content, form, Form.name]
  | pointer element => simp only [toJson, content, form, Form.name]

/-! ## Reading back -/

/-- nothing is read as a reference where there is none -/
theorem readWithin_null (height : Nat) (source : Source) (r : TypeRef) : readWithin height source .null ≠ .ok r := by
  cases height with
  | zero => exact nofun
  | succ height =>
    intro h
    obtain ⟨_, htagged, -⟩ := bind_eq_ok.1 h
    exact refuse_ne_ok _ _ _ htagged

/-- the fields of a form read the content of a reference of that form, if what stands in it is read back -/
theorem writes_content {inner : Decoder TypeRef} (hnull : ∀ source r, inner source .null ≠ .ok r) (r : TypeRef)
    (h : ∀ q ∈ r.inside, Reads inner q.toJson q) : (fields inner r.form).Writes r.content r := by
  have helement : ∀ key ∈ ["element"], key ∉ ([] : List String) := fun _ _ => List.not_mem_nil
  cases r with
  | named ns name declaring own =>
    have hdeclaring : ∀ key ∈ ["declaring_type"], key ∉ ["namespace", "name"] := by decide
    have hown : ∀ key ∈ ["generic_arguments"], key ∉ ["namespace", "name", "declaring_type"] := by decide
    exact writes_record TypeRef.named
      |>.and (writes_optional reads_string ns) (by decide)
      |>.and (writes_required (reads_string name)) (by decide)
      |>.and (writes_optional_value hnull fun d hd => h d (List.mem_append_left _ (Option.mem_toList.2 hd))) hdeclaring
      |>.and (writes_list fun a ha => h a (List.mem_append_right _ ha)) hown
  | parameter name position ofMethod =>
    exact writes_record TypeRef.parameter
      |>.and (writes_required (reads_string name)) (by decide)
      |>.and (writes_required (reads_word64 "usize" position)) (by decide)
      |>.and (writes_flag "is_method" ofMethod) (by decide)
  | array element rank =>
    have hrank : ∀ key ∈ ["rank"], key ∉ ["element"] := by decide
    exact writes_record TypeRef.array
      |>.and (writes_required (h element List.mem_cons_self)) helement
      |>.and (writes_field (reads_word32 rank)) hrank
  | byRef element => exact writes_record TypeRef.byRef |>.and (writes_required (h element List.mem_cons_self)) helement
  | pointer element => exact writes_record TypeRef.pointer |>.and (writes_required (h element List.mem_cons_self)) helement

/-- a reference is read back in as many steps as references stand in each other -/
theorem reads_within (r : TypeRef) {height : Nat} (hheight : r.depth ≤ height) : Reads (readWithin height) r.toJson r := by
  induction r using inside_induction generalizing height with
  | step r ih =>
  cases height with
  | zero =>
    have hpos : 0 < r.depth := by cases r with
      | named ns name declaring own => cases declaring <;> exact Nat.succ_pos _
      | _ => exact Nat.succ_pos _
    omega
  | succ height =>
    have hinside : ∀ q ∈ r.inside, Reads (readWithin height) q.toJson q := fun q hq =>
      ih q hq (Nat.le_of_lt_succ (Nat.lt_of_lt_of_le (depth_lt_of_inside hq) hheight))
    have hwrites := writes_content (readWithin_null height) r hinside
    intro t ht source
    have hkind : "kind" ∉ (fields (readWithin height) r.form).keys := by
      cases r.form <;> simp [fields, Fields.record, Fields.and, Fields.optional, Fields.required, Fields.list, Fields.flag,
        Fields.orElse, Fields.field]
    obtain ⟨rest, htagged, hread⟩ := hwrites.exists_tagged (lookup_names r.form) hkind "internally tagged enum TypeRef" ht source
    rw [toJson_eq]
    unfold readWithin
    dsimp only
    rw [htagged]
    exact hread _

/-! ## How deep references stand -/

/-- what stands in a reference is one of its members, or an item of one -/
theorem exists_member_of_inside {q r : TypeRef} (h : q ∈ r.inside) :
    ∃ m ∈ r.content, m.2 = q.toJson ∨ ∃ items, m.2 = .array items ∧ q.toJson ∈ items := by
  cases r with
  | named ns name declaring own =>
    rcases List.mem_append.1 h with h | h
    · obtain rfl := Option.mem_toList.1 h
      exact ⟨_, List.mem_append_left _ (List.mem_append_right _ List.mem_cons_self), Or.inl rfl⟩
    · cases own with
      | nil => cases h
      | cons a rest =>
        exact ⟨_, List.mem_append_right _ List.mem_cons_self, Or.inr ⟨_, rfl, List.mem_map_of_mem h⟩⟩
  | parameter => cases h
  | array element => exact ⟨_, List.mem_cons_self, Or.inl (by rw [List.mem_singleton.1 h])⟩
  | byRef element => exact ⟨_, List.mem_cons_self, Or.inl (by rw [List.mem_singleton.1 h])⟩
  | pointer element => exact ⟨_, List.mem_cons_self, Or.inl (by rw [List.mem_singleton.1 h])⟩

theorem nodup_keysOf (r : TypeRef) : (keysOf (member "kind" (.string r.form.name) ++ r.content)).Nodup := by
  cases r with
  | named ns name declaring own =>
    cases ns <;> cases declaring <;> cases own <;> simp [keysOf, content, member, Json.optional, Json.list]
  | parameter name position ofMethod => cases ofMethod <;> simp [keysOf, content, member, Json.flag]
  | _ => simp [keysOf, content, member]

/-- there is a container for every reference -/
theorem depth_le_height (r : TypeRef) {t : Json → Json} (ht : Rearranges t) : r.depth ≤ (Draft.ofJson (t r.toJson)).height := by
  induction r using inside_induction with
  | step r ih =>
  obtain ⟨moved, hobject, -, hlookup⟩ := ht.object _ (nodup_keysOf r)
  rw [toJson_eq, hobject, Draft.ofJson, Draft.height]
  refine depth_le_succ fun q hq => Nat.le_trans (ih q hq) ?_
  obtain ⟨m, hm, hvalue⟩ := exists_member_of_inside hq
  have hmoved : (m.1, t m.2) ∈ moved := by
    refine mem_of_lookup ?_
    rw [hlookup, lookup_of_mem (nodup_keysOf r) (List.mem_append_right _ hm), Option.map_some]
  refine Nat.le_trans ?_ (height_le_of_member hmoved)
  rcases hvalue with hvalue | ⟨items, hvalue, hitem⟩
  · exact Nat.le_of_eq (by rw [hvalue])
  · dsimp only
    rw [hvalue, ht.array, Draft.ofJson, Draft.height]
    exact Nat.le_succ_of_le (height_le_of_item (List.mem_map_of_mem hitem))

/-- **A reference is read back** from its value, however the value is laid out. -/
theorem reads (r : TypeRef) : Reads decoder r.toJson r := by
  intro t ht source
  have hdepth : r.depth ≤ (Draft.ofJson (t r.toJson)).height + 1 := Nat.le_succ_of_le (depth_le_height r ht)
  exact r.reads_within hdepth t ht source

theorem decoder_null (source : Source) (r : TypeRef) : decoder source .null ≠ .ok r := readWithin_null _ source r

/-! ## References that were read -/

theorem within_fields {inner : Decoder TypeRef} (h : Json.Within inner fun n r => Fits n r.toJson) (form : Form) :
    (fields inner form).Within fun n r => FitsAll n r.content := by
  cases form with
  | named =>
    have hrecord : (Fields.record TypeRef.named).Within fun n y => ∀ ns : Option String, True → ∀ name : String, True →
        ∀ declaring : Option TypeRef, (∀ d ∈ declaring, Fits n d.toJson) →
        ∀ own : List TypeRef, (∀ a ∈ own, ∃ m, n = m + 1 ∧ Fits m a.toJson) → FitsAll n (y ns name declaring own).content :=
      within_record fun n ns _ name _ declaring hdeclaring own hown =>
        fitsAll_optional "namespace" ns
          |>.append (fitsAll_member "name" (.string n name))
          |>.append (fitsAll_optional_value "declaring_type" hdeclaring)
          |>.append (fitsAll_list_inside "generic_arguments" hown)
    exact hrecord
      |>.and (within_anything _ _ _)
      |>.and (within_anything _ _ _)
      |>.and (Fields.within_optional _ h)
      |>.and (Fields.within_list _ h)
  | parameter =>
    have hrecord : (Fields.record TypeRef.parameter).Within fun n y => ∀ name : String, True → ∀ position : UInt64, True →
        ∀ ofMethod : Bool, True → FitsAll n (y name position ofMethod).content :=
      within_record fun n name _ position _ ofMethod _ =>
        fitsAll_member "name" (.string n name)
          |>.append (fitsAll_member "position" (.nat n position.toNat_lt_size))
          |>.append (fitsAll_flag n "is_method" ofMethod)
    exact hrecord
      |>.and (within_anything _ _ _)
      |>.and (within_anything _ _ _)
      |>.and (within_flag _)
  | array =>
    have hrecord : (Fields.record TypeRef.array).Within fun n y => ∀ element : TypeRef, Fits n element.toJson →
        ∀ rank : UInt32, True → FitsAll n (y element rank).content :=
      within_record fun n element helement rank _ =>
        fitsAll_member "element" helement
          |>.append (fitsAll_member "rank" (.nat n (Nat.lt_trans rank.toNat_lt_size (by decide))))
    exact hrecord
      |>.and (within_required _ h)
      |>.and (within_anything _ _ _)
  | byRef =>
    have hrecord : (Fields.record TypeRef.byRef).Within fun n y => ∀ element : TypeRef, Fits n element.toJson →
        FitsAll n (y element).content :=
      within_record fun n element helement => fitsAll_member "element" helement
    exact hrecord.and (within_required _ h)
  | pointer =>
    have hrecord : (Fields.record TypeRef.pointer).Within fun n y => ∀ element : TypeRef, Fits n element.toJson →
        FitsAll n (y element).content :=
      within_record fun n element helement => fitsAll_member "element" helement
    exact hrecord.and (within_required _ h)

theorem within_readWithin (height : Nat) : Json.Within (readWithin height) fun n r => Fits n r.toJson := by
  induction height with
  | zero =>
    intro source d n draft r _ _ hread
    cases hread
  | succ height ih =>
    intro source d n draft r hd hdraft hread
    obtain ⟨⟨form, content⟩, htagged, hread⟩ := bind_eq_ok.1 hread
    have hfields := (within_fields ih form).decoder form.title
    obtain ⟨m, rfl, hcontent⟩ := hfields _ d n content r hd (leveled_of_tagged hdraft htagged) hread
    rw [toJson_eq]
    exact .object (fitsAll_member "kind" (.string m r.form.name) |>.append hcontent)

/-- **A reference that was read can be written where it stood.** -/
theorem within_decoder : Json.Within decoder fun n r => Fits n r.toJson := fun source d n draft =>
  within_readWithin _ source d n draft

end ApiSurface.TypeRef
