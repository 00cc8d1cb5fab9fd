/-
How deep things stood that were read from a text.

The reader of a text enters containers down to a limit. So whatever it made of a container, there was room for the container
and for those inside it: what is written with no more containers than were read can be read again.

`leveled_ofText`: the containers in the draft of a text are marked by how deep they stand.
`Within`: what a decoder reads has a property, given how many containers deep it may stand.
`Fields.Within.and`: of a record, field by field.
-/
import ApiSurface.Json.Tagged
import ApiSurface.Proofs.Json.Spelling

namespace ApiSurface.Json

open Draft

variable {α β γ : Type}

/-! ## Drafts of texts -/

/-- a draft that stands so deep; its containers are marked if they stand beyond the limit -/
inductive Leveled : Nat → Draft → Prop
  | null (d : Nat) : Leveled d .null
  | bool (d : Nat) (b : Bool) : Leveled d (.bool b)
  | number (d : Nat) (n : Number) : Leveled d (.number n)
  | string (d : Nat) (s : String) : Leveled d (.string s)
  | array {d : Nat} {items : List Draft} {ending : Option TextFault} (h : ∀ item ∈ items, Leveled (d + 1) item) :
      Leveled d (.array (decide (depthLimit ≤ d + 1)) items ending)
  | object {d : Nat} {members : Entries} {ending : Option TextFault} (h : ∀ m ∈ members, Leveled (d + 1) m.2) :
      Leveled d (.object (decide (depthLimit ≤ d + 1)) members ending)
  | unreadable (d : Nat) (fault : TextFault) : Leveled d (.unreadable fault)
  | broken (d : Nat) (fault : TextFault) : Leveled d (.broken fault)

theorem leveled_scalar {t : Token} {draft : Draft} (h : scalar? t = some draft) (d : Nat) : Leveled d draft := by
  unfold scalar? at h
  split at h <;> cases h
  · exact .null d
  · exact .bool d _
  · exact .number d _
  · exact .unreadable d _
  · exact .string d _
  · exact .unreadable d _

theorem leveled_read (fuel : Nat) :
    (∀ depth ts, Leveled depth (readValue fuel depth ts).1) ∧
      (∀ depth ts, ∀ item ∈ (readItems fuel depth ts).1, Leveled depth item) ∧
        ∀ depth key ts, ∀ m ∈ (readMembers fuel depth key ts).1, Leveled depth m.2 := by
  induction fuel with
  | zero =>
    refine ⟨fun depth ts => ?_, fun depth ts => ?_, fun depth key ts => ?_⟩
    · rw [readValue]
      exact .broken _ _
    · rw [readItems]
      exact List.forall_mem_nil _
    · rw [readMembers]
      exact List.forall_mem_nil _
  | succ fuel ih =>
    obtain ⟨hvalue, hitems, hmembers⟩ := ih
    refine ⟨fun depth ts => ?_, fun depth ts => ?_, fun depth key ts => ?_⟩
    · unfold readValue
      split
      · next heq => cases heq
      · exact .broken _ _
      · next heq =>
        cases heq
        refine .array ?_
        split
        · exact List.forall_mem_nil _
        · exact List.forall_mem_nil _
        · exact hitems (depth + 1) _
      · next heq =>
        cases heq
        refine .object ?_
        split
        · exact List.forall_mem_nil _
        · exact List.forall_mem_nil _
        · exact hmembers (depth + 1) _ _
        · exact List.forall_mem_nil _
        · exact List.forall_mem_nil _
      · split
        · next hscalar => exact leveled_scalar hscalar depth
        · exact .broken _ _
    · have hfirst := hvalue depth ts
      unfold readItems
      dsimp only
      split <;> next heq =>
        rw [heq] at hfirst
        first
          | exact List.forall_mem_singleton.2 hfirst
          | exact List.forall_mem_cons.2 ⟨hfirst, hitems depth _⟩
    · unfold readMembers
      split
      · next heq => cases heq
      · next heq =>
        cases heq
        rename_i rest
        have hfirst := hvalue depth rest
        split <;> next heq =>
          rw [heq] at hfirst
          first
            | exact List.forall_mem_singleton.2 hfirst
            | exact List.forall_mem_cons.2 ⟨hfirst, hmembers depth _ _⟩
      · exact List.forall_mem_singleton.2 (.broken _ _)
      · exact List.forall_mem_singleton.2 (.broken _ _)

theorem leveled_ofText (text : String) : Leveled 0 (Draft.ofText text).1 := by
  have hread := (leveled_read (2 * (tokens text.toList).length + 1)).1 0 (tokens text.toList)
  unfold Draft.ofText
  dsimp only
  split <;> next heq =>
    rw [heq] at hread
    exact hread

/-! ## Outcomes -/

theorem bind_eq_ok {x : Outcome α} {f : α → Outcome β} {b : β} : x >>= f = .ok b ↔ ∃ a, x = .ok a ∧ f a = .ok b := by
  cases x with
  | error problem => exact iff_of_false nofun (by rintro ⟨_, h, -⟩; cases h)
  | ok a => exact ⟨fun h => ⟨a, rfl, h⟩, fun ⟨_, ha, h⟩ => by cases ha; exact h⟩

theorem refuse_ne_ok (expected : String) (draft : Draft) (x : α) : refuse expected draft ≠ .ok x := by
  unfold refuse
  cases draft.found <;> exact nofun

theorem eq_false_of_enter {deep : Bool} {u : Unit} (h : enter deep = .ok u) : deep = false := by
  cases deep with
  | false => rfl
  | true => cases h

theorem both_eq_ok {f : Placed (α → β)} {x : Placed α} {b : β} (h : Placed.both f x = .ok b) :
    ∃ g a, f = .ok g ∧ x = .ok a ∧ g a = b := by
  unfold Placed.both at h
  split at h
  · cases h
    exact ⟨_, _, rfl, rfl, rfl⟩
  · cases h
  · cases h
  · split at h <;> cases h

theorem at_eq_ok {place : Nat} {outcome : Outcome α} {x : α} (h : Placed.at place outcome = .ok x) : outcome = .ok x := by
  cases outcome with
  | error problem => cases h
  | ok a =>
    cases h
    rfl

theorem outcome_eq_ok {x : Placed α} {a : α} (h : x.outcome = .ok a) : x = .ok a := by
  cases x with
  | error problem => cases h
  | ok a' =>
    cases h
    rfl

/-! ## Decoders -/

/-- what the decoder reads has a property, for the number of containers that may be entered from where it stands -/
def Within (decoder : Decoder α) (P : Nat → α → Prop) : Prop :=
  ∀ source d n draft x, d + n + 1 = depthLimit → Leveled d draft → decoder source draft = .ok x → P n x

theorem within_any (decoder : Decoder α) : Within decoder fun _ _ => True := fun _ _ _ _ _ _ _ _ => trivial

theorem Within.imp {decoder : Decoder α} {P Q : Nat → α → Prop} (h : Within decoder P) (hPQ : ∀ n x, P n x → Q n x) :
    Within decoder Q := fun source d n draft x hd hdraft hread => hPQ n x (h source d n draft x hd hdraft hread)

/-- inside a container that was entered, one container less may be entered -/
theorem exists_inside {d n : Nat} (hd : d + n + 1 = depthLimit) (hdeep : decide (depthLimit ≤ d + 1) = false) :
    ∃ m, n = m + 1 ∧ d + 1 + m + 1 = depthLimit := by
  have hlimit : ¬depthLimit ≤ d + 1 := of_decide_eq_false hdeep
  exact ⟨n - 1, by omega, by omega⟩

/-- what all results of a step have, all entries of the list have that it makes of a list -/
theorem forall_of_mapM {f : α → Outcome β} {P : β → Prop} {xs : List α} {ys : List β} (hrun : xs.mapM f = .ok ys)
    (h : ∀ x ∈ xs, ∀ y, f x = .ok y → P y) : ∀ y ∈ ys, P y := by
  induction xs generalizing ys with
  | nil =>
    cases hrun
    exact List.forall_mem_nil _
  | cons x rest ih =>
    rw [List.mapM_cons] at hrun
    obtain ⟨first, hfirst, hrun⟩ := bind_eq_ok.1 hrun
    obtain ⟨others, hothers, hrun⟩ := bind_eq_ok.1 hrun
    cases hrun
    obtain ⟨hx, hrest⟩ := List.forall_mem_cons.1 h
    exact List.forall_mem_cons.2 ⟨hx first hfirst, ih hothers hrest⟩

theorem within_list {decoder : Decoder α} {P : Nat → α → Prop} (h : Within decoder P) :
    Within (Decoder.list decoder) fun n xs => ∃ m, n = m + 1 ∧ ∀ x ∈ xs, P m x := by
  intro source d n draft xs hd hdraft hread
  cases hdraft with
  | array hitems =>
    obtain ⟨_, hdeep, hread⟩ := bind_eq_ok.1 hread
    obtain ⟨values, hvalues, hread⟩ := bind_eq_ok.1 hread
    obtain ⟨_, -, hread⟩ := bind_eq_ok.1 hread
    cases hread
    obtain ⟨m, hm, hinside⟩ := exists_inside hd (eq_false_of_enter hdeep)
    exact ⟨m, hm, forall_of_mapM hvalues fun item hitem x => h source (d + 1) m item x hinside (hitems item hitem)⟩
  | _ => exact absurd hread (refuse_ne_ok _ _ _)

theorem within_optional {decoder : Decoder α} {P : Nat → α → Prop} (h : Within decoder P) :
    Within (Decoder.optional decoder) fun n o => ∀ x ∈ o, P n x := by
  intro source d n draft o hd hdraft hread
  have hsome : ∀ {outcome : Outcome α}, outcome = decoder source draft → outcome.map some = .ok o → ∀ x ∈ o, P n x := by
    rintro (problem | y) houtcome hmap
    · cases hmap
    · cases hmap
      rintro x hx
      obtain rfl := Option.some.inj hx
      exact h source d n draft _ hd hdraft houtcome.symm
  cases draft with
  | null =>
    cases hread
    exact nofun
  | _ => exact hsome rfl hread

/-! ## Records -/

namespace Fields

/-- what the fields of a record read has a property, for the number of containers that may be entered inside the record -/
structure Within (f : Fields α) (P : Nat → α → Prop) : Prop where
  members : ∀ source d n (entries : Entries) x, d + n + 1 = depthLimit → (∀ m ∈ entries, Leveled d m.2) →
    f.ofMembers source entries = .ok x → P n x
  items : ∀ source d n (row : Row) place x, d + n + 1 = depthLimit → (∀ item ∈ row.items, Leveled d item) →
    f.ofItems source row place = .ok x → P n x

theorem within_record {P : Nat → α → Prop} {x : α} (h : ∀ n, P n x) : (record x).Within P where
  members _ _ n _ _ _ _ hread := by cases hread; exact h n
  items _ _ n _ _ _ _ _ hread := by cases hread; exact h n

/-- **One more field.** -/
theorem Within.and {f : Fields (α → β)} {g : Fields α} {P : Nat → β → Prop} {Q : Nat → α → Prop}
    (hf : f.Within fun n y => ∀ x, Q n x → P n (y x)) (hg : g.Within Q) : (f.and g).Within P where
  members := by
    intro source d n entries z hd hentries hread
    obtain ⟨y, x, hy, hx, rfl⟩ := both_eq_ok hread
    exact hf.members source d n entries y hd hentries hy x (hg.members source d n entries x hd hentries hx)
  items := by
    intro source d n row place z hd hitems hread
    obtain ⟨y, x, hy, hx, rfl⟩ := both_eq_ok hread
    exact hf.items source d n row place y hd hitems hy x (hg.items source d n row _ x hd hitems hx)

/-- the first value under a key is one of the members' values -/
theorem exists_of_first? {key : String} {entries : Entries} {value : Draft} {place : Nat}
    (h : first? key entries = some (value, place)) : ∃ m ∈ entries, m.2 = value := by
  obtain ⟨⟨m, place'⟩, hmem, hm⟩ := List.exists_of_findSome?_eq_some h
  refine ⟨m, (List.mem_zipIdx hmem).2.2 ▸ List.getElem_mem _, ?_⟩
  obtain ⟨k, draft⟩ := m
  cases k with
  | error fault => cases hm
  | ok k =>
    obtain ⟨-, hm⟩ := Option.ite_none_right_eq_some.1 hm
    exact (Prod.mk.inj (Option.some.inj hm)).1

theorem within_field {decoder : Decoder α} {P : Nat → α → Prop} (key : String) {alternative : Option α}
    (h : Json.Within decoder P) (halternative : ∀ x ∈ alternative, ∀ n, P n x) :
    (field key decoder alternative).Within P where
  members := by
    intro source d n entries x hd hentries hread
    unfold field at hread
    dsimp only at hread
    split at hread
    · next value place hfirst =>
      obtain ⟨m, hm, rfl⟩ := exists_of_first? hfirst
      exact h source d n m.2 x hd (hentries m hm) (at_eq_ok hread)
    · split at hread
      · cases hread
        exact halternative x rfl n
      · cases hread
  items := by
    intro source d n row place x hd hitems hread
    unfold field at hread
    dsimp only at hread
    split at hread
    · next value hvalue => exact h source d n value x hd (hitems value (List.mem_of_getElem? hvalue)) (at_eq_ok hread)
    · split at hread
      · cases hread
      · cases hread
        exact halternative x rfl n
      · cases hread

theorem within_required {decoder : Decoder α} {P : Nat → α → Prop} (key : String) (h : Json.Within decoder P) :
    (required key decoder).Within P := within_field key h nofun

/-- nothing is asked of a field -/
theorem within_anything (key : String) (decoder : Decoder α) (alternative : Option α) :
    (field key decoder alternative).Within fun _ _ => True := within_field key (within_any _) fun _ _ _ => trivial

theorem within_flag (key : String) : (flag key).Within fun _ _ => True := within_anything key Decoder.bool (some false)

theorem within_optional {decoder : Decoder α} {P : Nat → α → Prop} (key : String) (h : Json.Within decoder P) :
    (optional key decoder).Within fun n o => ∀ x ∈ o, P n x := by
  unfold optional orElse
  refine within_field key (Json.within_optional h) fun o ho n x hx => ?_
  obtain rfl := Option.some.inj ho
  cases hx

/-- the elements of a list stand inside one more container -/
theorem within_list {decoder : Decoder α} {P : Nat → α → Prop} (key : String) (h : Json.Within decoder P) :
    (list key decoder).Within fun n xs => ∀ x ∈ xs, ∃ m, n = m + 1 ∧ P m x := by
  have hlist : Json.Within (Decoder.list decoder) fun n xs => ∀ x ∈ xs, ∃ m, n = m + 1 ∧ P m x :=
    (Json.within_list h).imp fun n xs ⟨m, hm, hxs⟩ x hx => ⟨m, hm, hxs x hx⟩
  unfold list orElse
  refine within_field key hlist fun xs hxs n x hx => ?_
  obtain rfl := Option.some.inj hxs
  cases hx

variable {f : Fields α} {P : Nat → α → Prop} {d n : Nat}

theorem Within.readMembers (h : f.Within P) {pass : Draft → Option TextFault} {source : Source} {entries : Entries}
    {ending : Option TextFault} {x : α} (hd : d + n + 1 = depthLimit) (hentries : ∀ m ∈ entries, Leveled d m.2)
    (hread : f.readMembers pass source entries ending = .ok x) : P n x := by
  obtain ⟨g, y, hg, hy, rfl⟩ := both_eq_ok (outcome_eq_ok hread)
  have hid : g = id := by
    cases hobstacle : obstacle f.keys pass ending [] 0 entries with
    | error problem =>
      rw [hobstacle] at hg
      cases hg
    | ok u =>
      rw [hobstacle] at hg
      cases hg
      rfl
  rw [hid]
  exact h.members source d n entries y hd hentries hy

/-- **A record** stands inside one container. -/
theorem Within.decoder (h : f.Within P) (name : String) :
    Json.Within (f.decoder name) fun n x => ∃ m, n = m + 1 ∧ P m x := by
  intro source d n draft x hd hdraft hread
  cases hdraft with
  | object hmembers =>
    obtain ⟨_, hdeep, hread⟩ := bind_eq_ok.1 hread
    obtain ⟨m, hm, hinside⟩ := exists_inside hd (eq_false_of_enter hdeep)
    exact ⟨m, hm, h.readMembers hinside hmembers hread⟩
  | array hitems =>
    obtain ⟨_, hdeep, hread⟩ := bind_eq_ok.1 hread
    obtain ⟨m, hm, hinside⟩ := exists_inside hd (eq_false_of_enter hdeep)
    obtain ⟨value, hvalue, hread⟩ := bind_eq_ok.1 hread
    obtain ⟨_, -, hread⟩ := bind_eq_ok.1 hread
    cases hread
    exact ⟨m, hm, h.items source (d + 1) m _ 0 x hinside hitems (outcome_eq_ok hvalue)⟩
  | _ => exact absurd hread (refuse_ne_ok _ _ _)

/-- what is said of a record, counting its own container -/
theorem Within.inside (h : f.Within fun n x => P (n + 1) x) (name : String) : Json.Within (f.decoder name) P :=
  (h.decoder name).imp fun _ _ ⟨_, hm, hx⟩ => hm ▸ hx

/-- two records in one object stand inside one container -/
theorem Within.flattened {inner : Fields β} {Q : Nat → β → Prop} (h : f.Within P) (hinner : inner.Within Q)
    (join : β → α → γ) (name : String) :
    Json.Within (f.flattened inner join name) fun n z => ∃ m i o, n = m + 1 ∧ z = join i o ∧ Q m i ∧ P m o := by
  intro source d n draft z hd hdraft hread
  cases hdraft with
  | object hmembers =>
    obtain ⟨_, hdeep, hread⟩ := bind_eq_ok.1 hread
    obtain ⟨m, hm, hinside⟩ := exists_inside hd (eq_false_of_enter hdeep)
    obtain ⟨o, ho, hread⟩ := bind_eq_ok.1 hread
    obtain ⟨i, hi, hread⟩ := bind_eq_ok.1 hread
    cases hread
    refine ⟨m, i, o, hm, rfl, hinner.readMembers hinside ?_ hi, h.readMembers hinside hmembers ho⟩
    exact fun entry hentry => hmembers entry (List.mem_filter.1 hentry).1
  | _ => exact absurd hread (refuse_ne_ok _ _ _)

end Fields

/-! ## Sums -/

theorem subset_of_splitTag {tag : String} {known : List (String × α)} {source : Source} {ending : Option TextFault}
    {found : Option α} {entries others : Entries} {variant : α}
    (h : splitTag tag known source ending found entries = .ok (variant, others)) : others ⊆ entries := by
  induction entries generalizing found others with
  | nil =>
    unfold splitTag at h
    obtain ⟨_, -, h⟩ := bind_eq_ok.1 h
    split at h
    · cases h
      exact List.Subset.refl _
    · cases h
  | cons m rest ih =>
    obtain ⟨key, value⟩ := m
    unfold splitTag at h
    obtain ⟨name, -, h⟩ := bind_eq_ok.1 h
    split at h
    · split at h
      · cases h
      · obtain ⟨v, -, h⟩ := bind_eq_ok.1 h
        exact List.subset_cons_of_subset _ (ih h)
    · obtain ⟨_, -, h⟩ := bind_eq_ok.1 h
      obtain ⟨⟨v, rest'⟩, hrest, h⟩ := bind_eq_ok.1 h
      cases h
      exact List.cons_subset_cons _ (ih hrest)

/-- the content of a tagged value stands where the value does -/
theorem leveled_of_tagged {tag name : String} {known : List (String × α)} {source : Source} {d : Nat} {draft content : Draft}
    {variant : α} (hdraft : Leveled d draft) (h : tagged tag known name source draft = .ok (variant, content)) :
    Leveled d content := by
  cases hdraft with
  | object hmembers =>
    obtain ⟨_, hdeep, h⟩ := bind_eq_ok.1 h
    obtain ⟨⟨v, others⟩, hsplit, h⟩ := bind_eq_ok.1 h
    cases h
    rw [← eq_false_of_enter hdeep]
    exact .object fun m hm => hmembers m (subset_of_splitTag hsplit hm)
  | @array _ items ending hitems =>
    obtain ⟨_, hdeep, h⟩ := bind_eq_ok.1 h
    cases items with
    | nil =>
      obtain ⟨_, -, h⟩ := bind_eq_ok.1 h
      cases h
    | cons first rest =>
      obtain ⟨v, -, h⟩ := bind_eq_ok.1 h
      obtain ⟨_, -, h⟩ := bind_eq_ok.1 h
      cases h
      rw [← eq_false_of_enter hdeep]
      exact .array fun item hitem => hitems item (List.mem_cons_of_mem _ hitem)
  | _ => exact absurd h (refuse_ne_ok _ _ _)

/-- a labelled value stands inside one container -/
theorem exists_inside_labelled {label content name : String} {known : List (String × α)} {decode : α → Decoder β}
    {bare : α → Option β} {source : Source} {d n : Nat} {draft : Draft} {x : β} (hd : d + n + 1 = depthLimit)
    (hdraft : Leveled d draft) (h : labelled label content known name decode bare source draft = .ok x) :
    ∃ m, n = m + 1 := by
  have hentered : ∀ {f : Unit → Outcome β}, enter (decide (depthLimit ≤ d + 1)) >>= f = .ok x → ∃ m, n = m + 1 := by
    intro f h
    obtain ⟨_, hdeep, -⟩ := bind_eq_ok.1 h
    obtain ⟨m, hm, -⟩ := exists_inside hd (eq_false_of_enter hdeep)
    exact ⟨m, hm⟩
  cases hdraft with
  | object => exact hentered h
  | array => exact hentered h
  | _ => exact absurd h (refuse_ne_ok _ _ _)

/-! ## What is written inside -/

theorem fits_array_iff {n : Nat} {items : List Json} : Fits (n + 1) (.array items) ↔ ∀ item ∈ items, Fits n item := by
  refine ⟨fun h => ?_, .array⟩
  cases h
  assumption

theorem fits_object_iff {n : Nat} {members : Members} : Fits (n + 1) (.object members) ↔ ∀ m ∈ members, Fits n m.2 := by
  refine ⟨fun h => ?_, .object⟩
  cases h
  assumption

/-- the values of members fit -/
def FitsAll (n : Nat) (members : Members) : Prop := ∀ m ∈ members, Fits n m.2

theorem FitsAll.append {n : Nat} {us vs : Members} (hu : FitsAll n us) (hv : FitsAll n vs) : FitsAll n (us ++ vs) := by
  intro m hm
  rcases List.mem_append.1 hm with hm | hm
  · exact hu m hm
  · exact hv m hm

theorem fitsAll_member {n : Nat} (key : String) {v : Json} (h : Fits n v) : FitsAll n (member key v) := by
  intro m hm
  rw [List.mem_singleton.1 hm]
  exact h

theorem fitsAll_flag (n : Nat) (key : String) (b : Bool) : FitsAll n (Json.flag key b) := by
  cases b with
  | false => exact nofun
  | true => exact fitsAll_member key (.bool n true)

/-- a value that there may not be -/
theorem fitsAll_optional_value {n : Nat} (key : String) {write : α → Json} {o : Option α} (h : ∀ x ∈ o, Fits n (write x)) :
    FitsAll n (Json.optional key write o) := by
  cases o with
  | none => exact nofun
  | some x => exact fitsAll_member key (h x rfl)

theorem fitsAll_optional {n : Nat} (key : String) {name : α → String} (o : Option α) :
    FitsAll n (Json.optional key (fun x => .string (name x)) o) :=
  fitsAll_optional_value key fun x _ => .string n (name x)

theorem fitsAll_list {n : Nat} (key : String) {write : α → Json} (xs : List α)
    (h : ∀ x ∈ xs, Fits n (write x)) : FitsAll (n + 1) (Json.list key write xs) := by
  cases xs with
  | nil => exact nofun
  | cons x xs =>
    refine fitsAll_member key (.array fun item hitem => ?_)
    obtain ⟨y, hy, rfl⟩ := List.mem_map.1 hitem
    exact h y hy

/-- a list of what stands inside one more container -/
theorem fitsAll_list_inside {n : Nat} (key : String) {write : α → Json} {xs : List α}
    (h : ∀ x ∈ xs, ∃ m, n = m + 1 ∧ Fits m (write x)) : FitsAll n (Json.list key write xs) := by
  cases xs with
  | nil => exact nofun
  | cons x xs =>
    obtain ⟨m, rfl, -⟩ := h x List.mem_cons_self
    refine fitsAll_list key (x :: xs) fun y hy => ?_
    obtain ⟨m', heq, hfits⟩ := h y hy
    exact Nat.succ.inj heq ▸ hfits

end ApiSurface.Json
