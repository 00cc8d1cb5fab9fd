/-
Files of exclusions: which are loaded, which fault is reported for the others, and what is written is loaded again.

`Document`: a text is an array of objects that stand for exclusions, whatever else the objects hold.
`ofText_eq_ok_iff`, `ofText_eq_error_iff`: the outcome of loading a document.
`ofText_written`: a set is loaded from what was written for it.
`file_exact`: these together, and approvals that are saved and loaded make a comparison pass.
-/
import ApiSurface.Comparison.ExclusionFile
import ApiSurface.Proofs.Comparison.Approval
import ApiSurface.Proofs.Comparison.Compatibility
import ApiSurface.Proofs.Descriptor.TypeId
import ApiSurface.Proofs.Json.Nesting
import ApiSurface.Proofs.Json.Objects
import ApiSurface.Proofs.Json.Reading
import ApiSurface.Proofs.Scan
import Mathlib.Data.List.Induction

namespace ApiSurface

open Json Json.Fields

/-! ## Documents -/

namespace Exclusion

/-- an object stands for an exclusion: its keys can be read, under `TypeId` is one string, and under `MemberId` one string,
one `null` or nothing. What stands under other keys is no matter, unless the text breaks off there. -/
structure Shows (object : Draft.Entries) (e : Exclusion) : Prop where
  keys : ∀ m ∈ object, ∃ key, m.1 = .ok key
  unbroken : ∀ m ∈ object, m.2.skipFault? = none
  typeId : valuesUnder "TypeId" object = [.string e.typeId]
  memberId : match e.memberId with
    | some id => valuesUnder "MemberId" object = [.string id]
    | none => valuesUnder "MemberId" object = [] ∨ valuesUnder "MemberId" object = [.null]

variable {object : Draft.Entries} {e : Exclusion}

theorem Shows.readTypeId (h : Shows object e) (source : Source) :
    (required "TypeId" Decoder.string).ofMembers source object = .ok e.typeId :=
  field_eq_ok h.typeId rfl

theorem Shows.readMemberId (h : Shows object e) (source : Source) :
    (Fields.optional "MemberId" Decoder.string).ofMembers source object = .ok e.memberId := by
  have hmember := h.memberId
  unfold Fields.optional orElse
  cases hid : e.memberId with
  | some id =>
    rw [hid] at hmember
    exact field_eq_ok hmember rfl
  | none =>
    rw [hid] at hmember
    rcases hmember with habsent | hnull
    · exact field_eq_default habsent
    · exact field_eq_ok hnull rfl

/-- no key of an exclusion comes twice -/
theorem Shows.known (h : Shows object e) : ∀ key ∈ fields.keys, (valuesUnder key object).length ≤ 1 := by
  have hmember : (valuesUnder "MemberId" object).length ≤ 1 := by
    have hmember := h.memberId
    cases hid : e.memberId with
    | some id =>
      rw [hid] at hmember
      exact Nat.le_of_eq (congrArg List.length hmember)
    | none =>
      rw [hid] at hmember
      rcases hmember with hvalues | hvalues <;> rw [hvalues] <;> decide
  intro key hkey
  rcases List.mem_cons.1 hkey with rfl | hkey
  · exact Nat.le_of_eq (congrArg List.length h.typeId)
  · rw [List.mem_singleton.1 hkey]
    exact hmember

/-- **An object is read** as the exclusion that it stands for. -/
theorem Shows.read (h : Shows object e) (source : Source) : decoder source (.object false object none) = .ok e := by
  have hfields : fields.ofMembers source object = .ok e := by
    change Placed.both (Placed.both (.ok Exclusion.mk) ((required "TypeId" Decoder.string).ofMembers source object))
      ((Fields.optional "MemberId" Decoder.string).ofMembers source object) = .ok e
    rw [h.readTypeId, h.readMemberId]
    rfl
  have hkeys : ∀ m ∈ object, ∃ key, m.1 = .ok key ∧ (key ∈ fields.keys ∨ m.2.skipFault? = none) := by
    intro m hm
    obtain ⟨key, hkey⟩ := h.keys m hm
    exact ⟨key, hkey, Or.inr (h.unbroken m hm)⟩
  have hobstacle := obstacle_eq_ok [] 0 hkeys h.known nofun
  change fields.readMembers Draft.skipFault? source object none = .ok e
  unfold readMembers
  rw [hobstacle, hfields]
  rfl

/-- the members that are written for an exclusion -/
def members (e : Exclusion) : Members :=
  member "TypeId" (.string e.typeId) ++ Json.optional "MemberId" .string e.memberId

/-- what is written for an exclusion stands for it -/
theorem shows_members (e : Exclusion) : Shows (Draft.ofMembers e.members) e := by
  obtain ⟨typeId, memberId⟩ := e
  have hwhole : ∀ m ∈ Draft.ofMembers (members ⟨typeId, memberId⟩),
      (∃ key, m.1 = .ok key) ∧ m.2.skipFault? = none := by
    cases memberId <;> simp [members, member, Json.optional, Draft.ofMembers, Draft.ofJson, Draft.skipFault?]
  refine ⟨fun m hm => (hwhole m hm).1, fun m hm => (hwhole m hm).2, ?_, ?_⟩
  · cases memberId <;> rfl
  · cases memberId with
    | none => exact Or.inl rfl
    | some id => rfl

theorem fits (n : Nat) (e : Exclusion) : Fits (n + 1) e.toJson :=
  .object (fitsAll_member "TypeId" (.string n e.typeId) |>.append (fitsAll_optional "MemberId" e.memberId))

/-- both Ids say something -/
structure Named (e : Exclusion) : Prop where
  typeId : Text.isAllBlank e.typeId = false
  memberId : ∀ id ∈ e.memberId, Text.isAllBlank id = false

end Exclusion

namespace ExclusionSet

/-- the text is an array of objects that stand for exclusions -/
def Document (text : String) (entries : List Exclusion) : Prop :=
  ∃ objects : List Draft.Entries,
    Draft.ofText text = (.array false (objects.map fun object => .object false object none) none, none) ∧
      List.Forall₂ Exclusion.Shows objects entries

variable {text : String} {entries : List Exclusion}

/-- **A document is read** as the exclusions that its objects stand for. -/
theorem Document.read (h : Document text entries) : Json.read (Decoder.list Exclusion.decoder) text = .ok entries := by
  obtain ⟨objects, htext, hshows⟩ := h
  have hitems : ((objects.map fun object => Draft.object false object none).mapM (Exclusion.decoder .streamed) :
      Json.Outcome (List Exclusion)) = .ok entries := by
    clear htext
    induction hshows with
    | nil => rfl
    | cons hobject _ ih =>
      rw [List.map_cons, List.mapM_cons, hobject.read, ih]
      rfl
  rw [read_of_ofText htext]
  unfold Decoder.list
  dsimp only
  rw [hitems]
  rfl

/-- an array that is written for exclusions is a document of them -/
theorem document_written (entries : List Exclusion)
    (h : Draft.ofText text = (Draft.ofJson (.array (entries.map Exclusion.toJson)), none)) : Document text entries := by
  refine ⟨entries.map fun e => Draft.ofMembers e.members, ?_, ?_⟩
  · rw [h, Draft.ofJson, ofItems_eq, List.map_map, List.map_map]
    rfl
  · rw [List.forall₂_map_left_iff, List.forall₂_same]
    exact fun e _ => e.shows_members

/-! ## Checking entries -/

/-- entries that make a set: they are named, and none comes twice -/
structure Sound (entries : List Exclusion) : Prop where
  named : ∀ e ∈ entries, e.Named
  distinct : entries.Nodup

/-- an entry that stands after some others is refused, with a fault that names its index: for the Id of its type, else for
that of its member, else as it repeats one of the others -/
inductive Refused (before : List Exclusion) (e : Exclusion) : ExclusionFault → Prop
  | emptyTypeId : Text.isAllBlank e.typeId = true → Refused before e (.emptyTypeId before.length)
  | emptyMemberId {id : String} : Text.isAllBlank e.typeId = false → e.memberId = some id → Text.isAllBlank id = true →
    Refused before e (.emptyMemberId before.length)
  | duplicate : e.Named → e ∈ before → Refused before e (.duplicate before.length)

/-- the fault of the first entry that is refused; those before it are sound -/
def FirstFault (entries : List Exclusion) (fault : ExclusionFault) : Prop :=
  ∃ before e after, entries = before ++ e :: after ∧ Sound before ∧ Refused before e fault

/-- an entry against those before it -/
def checkEntry (before : List Exclusion) (e : Exclusion) : Except ExclusionFault Unit :=
  if Text.isAllBlank e.typeId then .error (.emptyTypeId before.length)
  else if e.memberId.any Text.isAllBlank then .error (.emptyMemberId before.length)
  else if before.contains e then .error (.duplicate before.length)
  else .ok ()

theorem checkEntries_eq_scan {seen before : List Exclusion} (hseen : ∀ e, e ∈ seen ↔ e ∈ before)
    (entries : List Exclusion) : checkEntries seen before.length entries = scan checkEntry before entries := by
  induction entries generalizing seen before with
  | nil => rfl
  | cons e rest ih =>
    have hcontains : seen.contains e = before.contains e := by
      rw [Bool.eq_iff_iff, List.contains_iff_mem, List.contains_iff_mem, hseen]
    have hmore : ∀ x, x ∈ e :: seen ↔ x ∈ before ++ [e] := by
      intro x
      rw [List.mem_append, ← hseen, List.mem_singleton, List.mem_cons, or_comm]
    have hrest := ih hmore
    rw [List.length_append, List.length_singleton] at hrest
    rw [checkEntries, scan, checkEntry, hcontains]
    split
    · rfl
    · split
      · rfl
      · split
        · rfl
        · exact hrest

theorem named_iff {e : Exclusion} :
    e.Named ↔ Text.isAllBlank e.typeId = false ∧ e.memberId.any Text.isAllBlank = false := by
  obtain ⟨typeId, memberId⟩ := e
  cases memberId with
  | none => exact ⟨fun h => ⟨h.typeId, rfl⟩, fun h => ⟨h.1, nofun⟩⟩
  | some id =>
    refine ⟨fun h => ⟨h.typeId, h.memberId id rfl⟩, fun h => ⟨h.1, fun id' hid => ?_⟩⟩
    obtain rfl := Option.some.inj hid
    exact h.2

/-- an entry passes when it is named and new -/
theorem checkEntry_eq_ok_iff {before : List Exclusion} {e : Exclusion} :
    checkEntry before e = .ok () ↔ e.Named ∧ e ∉ before := by
  rw [named_iff]
  unfold checkEntry
  cases Text.isAllBlank e.typeId <;> cases e.memberId.any Text.isAllBlank <;> by_cases hold : e ∈ before <;> simp [hold]

/-- and otherwise the fault is that of the first check that it fails -/
theorem checkEntry_eq_error_iff {before : List Exclusion} {e : Exclusion} {fault : ExclusionFault} :
    checkEntry before e = .error fault ↔ Refused before e fault := by
  unfold checkEntry
  constructor
  · intro h
    split at h
    · next htype =>
      cases h
      exact .emptyTypeId htype
    next htype =>
    rw [Bool.not_eq_true] at htype
    split at h
    · next hmember =>
      cases h
      obtain ⟨id, hid, hblank⟩ := (Option.any_eq_true _ _).1 hmember
      exact .emptyMemberId htype hid hblank
    next hmember =>
    rw [Bool.not_eq_true] at hmember
    split at h
    · next hold =>
      cases h
      exact .duplicate (named_iff.2 ⟨htype, hmember⟩) (List.contains_iff_mem.1 hold)
    · cases h
  · intro h
    cases h with
    | emptyTypeId htype => rw [if_pos htype]
    | emptyMemberId htype hid hblank => simp [htype, hid, hblank]
    | duplicate hnamed hold =>
      obtain ⟨htype, hmember⟩ := named_iff.1 hnamed
      simp [htype, hmember, hold]

theorem sound_concat_iff {before : List Exclusion} {e : Exclusion} :
    Sound (before ++ [e]) ↔ Sound before ∧ e.Named ∧ e ∉ before := by
  constructor
  · rintro ⟨hnamed, hdistinct⟩
    rw [List.nodup_append] at hdistinct
    obtain ⟨hbefore, -, hnew⟩ := hdistinct
    refine ⟨⟨fun x hx => hnamed x (List.mem_append_left _ hx), hbefore⟩, hnamed e (by simp), fun hold => ?_⟩
    exact hnew e hold e (List.mem_singleton_self e) rfl
  · rintro ⟨⟨hnamed, hdistinct⟩, he, hnew⟩
    refine ⟨fun x hx => ?_, List.nodup_append.2 ⟨hdistinct, List.nodup_singleton e, ?_⟩⟩
    · rcases List.mem_append.1 hx with hx | hx
      · exact hnamed x hx
      · exact List.mem_singleton.1 hx ▸ he
    · rintro x hx y hy rfl
      exact hnew (List.mem_singleton.1 hy ▸ hx)

/-- **Entries pass** when they are sound. -/
theorem scan_eq_ok_iff (entries : List Exclusion) : scan checkEntry [] entries = .ok () ↔ Sound entries := by
  induction entries using List.reverseRecOn with
  | nil => exact ⟨fun _ => ⟨nofun, List.nodup_nil⟩, fun _ => rfl⟩
  | append_singleton before e ih =>
    rw [scan_concat_eq_ok_iff, sound_concat_iff, ih, List.nil_append, checkEntry_eq_ok_iff]

/-! ## Sets by their entries -/

theorem nodup_toList (s : ExclusionSet) : s.toList.Nodup := by
  refine s.ordered.imp fun hlt heq => ?_
  rw [heq] at hlt
  exact Std.OrientedCmp.not_lt_of_lt hlt hlt

/-- **A set is determined by its entries.** -/
theorem ext_mem {s t : ExclusionSet} (h : ∀ e, e ∈ s.toList ↔ e ∈ t.toList) : s = t := by
  have hperm : s.toList.Perm t.toList := (List.perm_ext_iff_of_nodup s.nodup_toList t.nodup_toList).2 h
  have hlist : s.toList = t.toList := by
    refine List.Perm.eq_of_pairwise (fun a b _ _ hab hba => ?_) s.ordered t.ordered hperm
    exact absurd hba (Std.OrientedCmp.not_lt_of_lt hab)
  cases s
  cases t
  cases hlist
  rfl

theorem ofList_toList (s : ExclusionSet) : ofList s.toList = s := ext_mem fun _ => mem_ofList

/-- a set made from distinct entries has these and no more -/
theorem perm_ofList (h : entries.Nodup) : (ofList entries).toList.Perm entries :=
  (List.perm_ext_iff_of_nodup (nodup_toList _) h).2 fun _ => mem_ofList

/-! ## Loading -/

theorem ofEntries_eq (entries : List Exclusion) :
    ofEntries entries = (scan checkEntry [] entries).map fun _ => ofList entries := by
  have hnone : ∀ e, e ∈ ([] : List Exclusion) ↔ e ∈ ([] : List Exclusion) := fun _ => Iff.rfl
  have hscan : checkEntries [] 0 entries = scan checkEntry [] entries := checkEntries_eq_scan hnone entries
  rw [ofEntries, hscan]

theorem Document.ofText_eq (h : Document text entries) :
    ofText text = (scan checkEntry [] entries).map fun _ => ofList entries := by
  rw [← ofEntries_eq, ofText, h.read]
  rfl

/-- **A document is loaded when its entries are sound**, as the set of them. -/
theorem ofText_eq_ok_iff (h : Document text entries) {s : ExclusionSet} :
    ofText text = .ok s ↔ Sound entries ∧ s = ofList entries := by
  rw [h.ofText_eq, ← scan_eq_ok_iff]
  cases scan checkEntry [] entries with
  | error fault => exact ⟨nofun, fun h => absurd h.1 nofun⟩
  | ok _ => exact ⟨fun h => ⟨rfl, (Except.ok.inj h).symm⟩, fun h => congrArg Except.ok h.2.symm⟩

/-- **Otherwise the fault is the first**: that of the first entry which is not sound along with those before it. -/
theorem ofText_eq_error_iff (h : Document text entries) {fault : ExclusionFault} :
    ofText text = .error fault ↔ FirstFault entries fault := by
  have hscan : ofText text = .error fault ↔ scan checkEntry [] entries = .error fault := by
    rw [h.ofText_eq]
    cases scan checkEntry [] entries with
    | error fault' => exact ⟨fun h => by cases h; rfl, fun h => by cases h; rfl⟩
    | ok _ => exact ⟨nofun, nofun⟩
  rw [hscan, scan_eq_error_iff]
  simp only [scan_eq_ok_iff, List.nil_append, checkEntry_eq_error_iff]
  rfl

theorem fits (s : ExclusionSet) : Fits 2 s.toJson := by
  refine .array fun item hitem => ?_
  obtain ⟨e, -, rfl⟩ := List.mem_map.1 hitem
  exact e.fits 0

/-- **What is written is loaded again**, if all Ids say something. -/
theorem ofText_written {s : ExclusionSet} (hnamed : ∀ e ∈ s.toList, e.Named) :
    ofText s.toJson.compact = .ok s ∧ ofText s.toJson.pretty = .ok s := by
  have hsound : Sound s.toList := ⟨hnamed, s.nodup_toList⟩
  have hload : ∀ {text : String}, Draft.ofText text = (Draft.ofJson s.toJson, none) → ofText text = .ok s := fun h =>
    (ofText_eq_ok_iff (document_written s.toList h)).2 ⟨hsound, s.ofList_toList.symm⟩
  exact ⟨hload (ofText_of_spells s.fits (by decide) (List.append_nil _).symm (spells_compact s.fits) blank_nil),
    hload (ofText_of_spells s.fits (by decide) (List.append_nil _).symm (spells_prettyAt s.fits 0) blank_nil)⟩

end ExclusionSet

/-! ## Approvals of a report -/

/-- the Id of a type says at least what kind of type it is -/
theorem TypeDescriptor.id_not_blank (t : TypeDescriptor) : Text.isAllBlank t.id = false := by
  have hkeyword : t.kind.keyword.toList.all Text.isBlank = false := by
    cases t.kind <;> decide
  rw [Text.isAllBlank, toList_id, List.all_append, List.all_append, hkeyword, Bool.false_and, Bool.and_false]

namespace Comparison

variable {baseline candidate : Listing} {exclusions : ExclusionSet} {keep : DescriptorFilter}

/-- approvals are named when the members of what is approved are -/
theorem named_of_mem_approvals
    (hmembers : ∀ v ∈ (baseline.compare candidate exclusions keep).violations, ∀ id ∈ v.memberId,
      Text.isAllBlank id = false) :
    ∀ e ∈ (baseline.compare candidate exclusions keep).approvals.toList, e.Named := by
  intro e he
  obtain ⟨v, hv, rfl⟩ := List.mem_map.1 (ExclusionSet.mem_ofList.1 he)
  obtain ⟨t, -, hfound⟩ := List.mem_flatMap.1 (mem_violations_iff.1 hv).1
  have htype : v.typeId = t.id := (finding_of_mem hfound).typeId_eq
  exact ⟨(congrArg Text.isAllBlank htype).trans t.id_not_blank, hmembers v hv⟩

/-- **With the approvals of a report** beside the exclusions that it was made with nothing is left to complain about. -/
theorem passed_of_approvals {all : ExclusionSet} (hexclusions : ∀ e ∈ exclusions.toList, e ∈ all.toList)
    (happrovals : ∀ e ∈ (baseline.compare candidate exclusions keep).approvals.toList, e ∈ all.toList) :
    (baseline.compare candidate all keep).passed = true := by
  refine List.isEmpty_iff.2 (List.eq_nil_iff_forall_not_mem.2 fun v hv => ?_)
  obtain ⟨hfound, hnot⟩ := mem_violations_iff.1 hv
  have hreported : v ∈ (baseline.compare candidate exclusions keep).violations :=
    mem_violations_iff.2 ⟨hfound, fun hexcluded => hnot (hexclusions _ hexcluded)⟩
  exact hnot (happrovals _ (ExclusionSet.mem_ofList.2 (List.mem_map_of_mem hreported)))

end Comparison

namespace ExclusionSet

/-- **Files of exclusions are exact.** A document is loaded exactly when all its Ids say something and no entry comes twice; the
set has the entries of the document and no others. Otherwise the fault is that of the first entry that breaks a rule, with its
index: an empty Id of the type before one of the member, and that before a repetition. A set whose Ids say something is loaded
from what was written for it. So the approvals of a report are loaded again, unless a member has a blank Id, and with them
beside the exclusions of the report, if there were any, the comparison passes. -/
theorem file_exact :
    (∀ (text : String) (entries : List Exclusion), Document text entries →
      ((∃ s, ofText text = .ok s) ↔ Sound entries) ∧
      (∀ s, ofText text = .ok s → s.toList.Perm entries ∧ s.size = entries.length) ∧
      ∀ fault, ofText text = .error fault ↔ FirstFault entries fault) ∧
    (∀ s : ExclusionSet, (∀ e ∈ s.toList, e.Named) → ofText s.toJson.compact = .ok s ∧ ofText s.toJson.pretty = .ok s) ∧
    ∀ (baseline candidate : Listing) (exclusions : ExclusionSet) (keep : DescriptorFilter),
      let report := baseline.compare candidate exclusions keep
      (∀ v ∈ report.violations, ∀ id ∈ v.memberId, Text.isAllBlank id = false) →
        (ofText report.approvals.toJson.compact = .ok report.approvals ∧
          ofText report.approvals.toJson.pretty = .ok report.approvals) ∧
        (exclusions = empty → (baseline.compare candidate report.approvals keep).passed = true) ∧
        ∀ all : ExclusionSet, (∀ e ∈ exclusions.toList, e ∈ all.toList) → (∀ e ∈ report.approvals.toList, e ∈ all.toList) →
          (baseline.compare candidate all keep).passed = true := by
  refine ⟨fun text entries h => ⟨?_, fun s hs => ?_, fun fault => ofText_eq_error_iff h⟩, fun s => ofText_written, ?_⟩
  · simp only [ofText_eq_ok_iff h, exists_and_left, exists_eq, and_true]
  · obtain ⟨hsound, rfl⟩ := (ofText_eq_ok_iff h).1 hs
    exact ⟨perm_ofList hsound.distinct, (perm_ofList hsound.distinct).length_eq⟩
  · intro baseline candidate exclusions keep report hmembers
    refine ⟨ofText_written (Comparison.named_of_mem_approvals hmembers), ?_, fun all => Comparison.passed_of_approvals⟩
    rintro rfl
    exact Comparison.passed_of_approvals (fun e he => absurd he List.not_mem_nil) fun e he => he

/-- the type twice, once with a `null` for its member and a remark -/
def remarked : Json :=
  .array [.object (member "MemberId" .null ++ member "Remark" (.array [.string "], ", .nat 1]) ++
      member "TypeId" (.string "public class A")),
    .object (member "TypeId" (.string "public class A"))]

/-- what comes twice is refused; the other conversion is approved, saved and loaded, beside the lost type -/
theorem file_exact_remarked :
    let lost : Exclusion := ⟨"public interface Z", none⟩
    let report := Comparison.convertible.compare Comparison.converted (ofList [lost]) .keepAll
    let more := ofList (lost :: report.approvals.toList)
    (∃ entries, Document remarked.pretty entries ∧ FirstFault entries (.duplicate 1)) ∧
      ofText remarked.pretty = .error (.duplicate 1) ∧
      (∀ e ∈ (ofList [lost]).toList, e.Named) ∧ ofText (ofList [lost]).toJson.compact = .ok (ofList [lost]) ∧
      (∀ v ∈ report.violations, ∀ id ∈ v.memberId, Text.isAllBlank id = false) ∧
      ofText report.approvals.toJson.pretty = .ok report.approvals ∧
      (Comparison.convertible.compare Comparison.converted more .keepAll).passed = true := by
  intro lost report more
  obtain ⟨hdocuments, hwritten, happroved⟩ := file_exact
  have hdocument : Document remarked.pretty [⟨"public class A", none⟩, ⟨"public class A", none⟩] := by
    have hfits : Fits 3 remarked := by
      simp [remarked, member, fits_array_iff, fits_object_iff, Fits.string, Fits.null, Fits.nat, UInt64.size]
    refine ⟨[Draft.ofMembers _, Draft.ofMembers _], ofText_of_spells hfits (by decide) (List.append_nil _).symm
      (spells_prettyAt hfits 0) blank_nil, .cons ⟨?_, ?_, rfl, Or.inr rfl⟩ (.cons ⟨?_, ?_, rfl, Or.inl rfl⟩ .nil)⟩ <;>
    simp [member, Draft.ofMembers, Draft.ofJson, Draft.ofItems, Draft.skipFault?, Draft.skipFaultInItems?, Json.nat]
  have hfirst : FirstFault [⟨"public class A", none⟩, ⟨"public class A", none⟩] (.duplicate 1) :=
    ⟨[⟨"public class A", none⟩], _, [], rfl, (scan_eq_ok_iff _).1 (by decide),
      .duplicate (named_iff.2 (by decide)) (List.mem_singleton_self _)⟩
  have hnamed : ∀ e ∈ (ofList [lost]).toList, e.Named := fun e he => by
    obtain rfl := List.mem_singleton.1 (mem_ofList.1 he)
    exact named_iff.2 (by decide)
  have hmembers : ∀ v ∈ report.violations, ∀ id ∈ v.memberId, Text.isAllBlank id = false := by
    have hfound : ∀ v ∈ Comparison.violations Comparison.convertible Comparison.converted .keepAll, ∀ id ∈ v.memberId,
        Text.isAllBlank id = false := by decide
    exact fun v hv => hfound v (Comparison.mem_violations_iff.1 hv).1
  obtain ⟨hloaded, -, hpassed⟩ := happroved _ _ _ _ hmembers
  refine ⟨⟨_, hdocument, hfirst⟩, ((hdocuments _ _ hdocument).2.2 _).2 hfirst, hnamed, (hwritten _ hnamed).1, hmembers,
    hloaded.2, hpassed more (fun e he => ?_) fun e he => mem_ofList.2 (List.mem_cons_of_mem _ he)⟩
  rw [List.mem_singleton.1 (mem_ofList.1 he)]
  exact mem_ofList.2 List.mem_cons_self

end ExclusionSet

end ApiSurface
