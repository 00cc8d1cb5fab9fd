/-
Listings that are written and loaded again: what was written comes back, and then it is checked.

`load_written`, `ofJson_written`: loading what was written for a listing gives the verdict of the check on that listing.
`listing_persists`: on all the ways that a listing is written, and with nothing lost before the check.
-/
import ApiSurface.Proofs.Listing.Document

namespace ApiSurface

open Json

/-! ## Layouts -/

/-- laying a value out anew twice is laying it out anew -/
theorem Json.Rearranges.comp {t u : Json → Json} (ht : Rearranges t) (hu : Rearranges u) :
    Rearranges fun v => u (t v) where
  null := by rw [ht.null, hu.null]
  bool b := by rw [ht.bool, hu.bool]
  number n := by rw [ht.number, hu.number]
  string s := by rw [ht.string, hu.string]
  array items := by rw [ht.array, hu.array, List.map_map]; rfl
  object members h := by
    obtain ⟨moved, hmoved, hnodup, hlookup⟩ := ht.object members h
    obtain ⟨again, hagain, hnodup', hlookup'⟩ := hu.object moved hnodup
    refine ⟨again, by rw [hmoved, hagain], hnodup', fun key => ?_⟩
    rw [hlookup', hlookup, Option.map_map]
    rfl

/-- a string is read back from its text, whatever has to be escaped in it -/
theorem Json.read_quoted (s : String) :
    read Decoder.string (Json.string s).compact = .ok s ∧ read Decoder.string (Json.string s).pretty = .ok s := by
  rw [read_compact Decoder.string (.string 0 s) (by decide), (read_pretty Decoder.string (.string 0 s) (by decide)).1]
  exact ⟨rfl, rfl⟩

namespace Listing

/-! ## Loading -/

/-- what is read as a listing is checked -/
theorem load_written {text : String} {l : Listing} (h : ofText text = .ok l) : load text = l.checked := by
  unfold load
  rw [h]
  rfl

theorem load_texts (l : Listing) :
    load l.toJson.compact = l.checked ∧ load (l.toJson.pretty ++ "\n") = l.checked :=
  ⟨load_written l.ofText_compact, load_written l.ofText_pretty.2⟩

/-- what is taken from a value is checked, however the value is laid out -/
theorem ofJson_written (l : Listing) {t : Json → Json} (ht : Rearranges t) : ofJson (t l.toJson) = l.checked := by
  have hdecode : decode decoder (t l.toJson) = .ok l := l.reads _ (ht.comp rearranges_sorted) .inMemory
  unfold ofJson
  rw [hdecode]
  rfl

theorem checked_eq_ok_iff (l : Listing) : l.checked = .ok l ↔ l.validate = .ok () := by
  unfold checked
  cases l.validate with
  | error fault => exact ⟨nofun, nofun⟩
  | ok u => exact ⟨fun _ => rfl, fun _ => rfl⟩

/-- the check gives the listing, or the fault that it finds -/
theorem checked_eq (l : Listing) : l.checked =
    match l.validate with
    | .ok () => .ok l
    | .error fault => .error fault := by
  unfold checked
  cases l.validate <;> rfl

/-- **Listings persist.** Whatever a listing holds, its texts and its values are read as that listing; loading any of
them gives the listing when the check passes it, and otherwise the fault that the check finds. In particular every string is
read back from its text. -/
theorem listing_persists (l : Listing) :
    let verdict : Except SchemaFault Listing :=
      match l.validate with
      | .ok () => .ok l
      | .error fault => .error fault
    (load l.toJson.compact = verdict ∧ load l.toJson.pretty = verdict ∧ ofJson l.toJson = verdict ∧
      ofJson l.toJson.sorted = verdict) ∧
    (ofText l.toJson.compact = .ok l ∧ ofText l.toJson.pretty = .ok l ∧ decode decoder l.toJson = .ok l) ∧
    ∀ s : String, read Decoder.string (Json.string s).compact = .ok s ∧
      read Decoder.string (Json.string s).pretty = .ok s := by
  intro verdict
  have hverdict : l.checked = verdict := l.checked_eq
  refine ⟨?_, ⟨l.ofText_compact, l.ofText_pretty.1, l.decode_toJson⟩, read_quoted⟩
  rw [← hverdict]
  exact ⟨load_written l.ofText_compact, load_written l.ofText_pretty.1, l.ofJson_written rearranges_id,
    l.ofJson_written rearranges_sorted⟩

/-- an empty base type is no missing one, and what breaks a rule is read before the rule is checked -/
example :
    let l : Listing := ⟨"\"\x01\"", [{ TypeDescriptor.ofInterface "I" with baseType := some "", isSealed := true }]⟩
    ofText l.toJson.compact = .ok l ∧ load l.toJson.compact = .error (.sealedInterface "I") := by
  decide +kernel

end Listing

end ApiSurface
