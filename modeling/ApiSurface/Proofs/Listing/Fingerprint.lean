/-
What a fingerprint identifies.

The text that is hashed is read back as the listing, so different listings have different texts, and one fingerprint only
if the hash collides.

`ofText_canonicalText`: the text of a listing is read as the listing.
`canonical_identifies`: canonical texts identify values, and those of listings the listings.
-/
import ApiSurface.Listing.Fingerprint
import ApiSurface.Proofs.Json.Canonical
import ApiSurface.Proofs.Listing.Document

namespace ApiSurface

open Json

/-- two texts have one hash -/
def Blake3.Collide (a b : String) : Prop := a ≠ b ∧ hashText a = hashText b

namespace Listing

/-- **A listing is read back from its canonical text.** -/
theorem ofText_canonicalText (l : Listing) : ofText l.canonicalText = .ok l := by
  unfold ofText canonicalText canonical
  rw [read_compact decoder l.fits.sorted (by decide), l.reads sorted rearranges_sorted .streamed]
  rfl

theorem canonicalText_inj {l l' : Listing} : l.canonicalText = l'.canonicalText ↔ l = l' := by
  constructor
  · intro h
    have hread := l.ofText_canonicalText
    rw [h, ofText_canonicalText] at hread
    exact (Except.ok.inj hread).symm
  · intro h
    rw [h]

theorem fingerprint_eq_iff {l l' : Listing} :
    l.fingerprint = l'.fingerprint ↔ l = l' ∨ Blake3.Collide l.canonicalText l'.canonicalText := by
  constructor
  · intro h
    by_cases htext : l.canonicalText = l'.canonicalText
    · exact Or.inl (canonicalText_inj.1 htext)
    · exact Or.inr ⟨htext, h⟩
  · intro h
    rcases h with rfl | h
    · rfl
    · exact h.2

/-- **Canonical texts identify values.** Two values without doubles have one canonical text exactly when they are equal, with
objects as finite maps, and a strict reader gives the value back, unless it is nested deeper than is read. The texts that are
hashed are one for equal listings only, and so are fingerprints, short of a collision. -/
theorem canonical_identifies :
    (∀ v w : Json, v.Exact → w.Exact → (v.canonical = w.canonical ↔ v.Same w)) ∧
    (∀ v : Json, v.Exact → (Draft.ofJson v).height < Draft.depthLimit →
      ∃ w, Json.parse v.canonical = .ok w ∧ v.Same w) ∧
    ∀ l l' : Listing, (l.canonicalText = l'.canonicalText ↔ l = l') ∧
      (l.fingerprint = l'.fingerprint ↔ l = l' ∨ Blake3.Collide l.canonicalText l'.canonicalText) := by
  refine ⟨fun v w hv hw => canonical_eq_iff hv hw, fun v hv hdepth => ?_, fun l l' => ?_⟩
  · exact ⟨v.sorted, parse_canonical hv hdepth, same_sorted hv⟩
  · exact ⟨canonicalText_inj, fingerprint_eq_iff⟩

/-- an integer in an array, and the greatest one, under keys that are escaped -/
def extremes (least : Int) : Json :=
  .object [("\"", .array [.number (.int least), .null]), ("\n", .number (.int 18446744073709551615))]

/-- another least integer makes another text -/
theorem canonical_identifies_extremes :
    (extremes (-9223372036854775808)).canonical ≠ (extremes (-9223372036854775807)).canonical ∧
      ∃ w, Json.parse (extremes (-9223372036854775808)).canonical = .ok w ∧ (extremes (-9223372036854775808)).Same w := by
  have hexact : ∀ least : Int, -(UInt64.size : Int) ≤ 2 * least → least < 0 → (extremes least).Exact := by
    intro least hleast hnegative
    have hsize : (0 : Int) ≤ UInt64.size := by decide
    have hitems : ∀ item ∈ [Json.number (.int least), .null], item.Exact := by
      intro item hitem
      rcases List.mem_cons.1 hitem with rfl | hitem
      · exact .int hleast (by omega)
      · exact List.mem_singleton.1 hitem ▸ .null
    have hkeys : ["\"", "\n"].Nodup := by decide
    refine .object hkeys fun m hm => ?_
    rcases List.mem_cons.1 hm with rfl | hm
    · exact .array hitems
    · exact List.mem_singleton.1 hm ▸ .int (by decide) (by decide)
  obtain ⟨htexts, hread, -⟩ := canonical_identifies
  refine ⟨fun heq => ?_, hread _ (hexact _ (by decide) (by decide)) (by decide)⟩
  have hsame := (htexts _ _ (hexact _ (by decide) (by decide)) (hexact _ (by decide) (by decide))).1 heq
  cases hsame with | object _ hvalues =>
  cases hvalues "\"" _ _ rfl rfl with | array _ hitems =>
  cases hitems 0 _ _ rfl rfl

end Listing

end ApiSurface
