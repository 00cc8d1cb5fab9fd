/-
What the lines of a text are, said apart from the reading of the text.

`LaidOut`: a text is some lines, each with its ending.
`lines_eq_iff`: the lines of a text are those that it is laid out in. So two texts with the same lines differ in the endings
of lines at most.
-/
import ApiSurface.Text.Lines

namespace ApiSurface.Text

/-! ## Layouts -/

/-- the text is laid out in lines: each ends with a line feed, or with a carriage return and a line feed, only the last may
end with the text unless it is empty. No line holds a line feed, and a carriage return before a line feed is no part of the
line. -/
inductive LaidOut : List String → String → Prop
  | nothing : LaidOut [] ""
  | unended {line : String} (hline : '\n' ∉ line.toList) (hsome : line ≠ "") : LaidOut [line] line
  | lineFeed {line : String} {lines : List String} {rest : String} (hline : '\n' ∉ line.toList)
    (hreturn : line.toList.getLast? ≠ some '\r') (h : LaidOut lines rest) : LaidOut (line :: lines) (line ++ "\n" ++ rest)
  | returnLineFeed {line : String} {lines : List String} {rest : String} (hline : '\n' ∉ line.toList)
    (h : LaidOut lines rest) : LaidOut (line :: lines) (line ++ "\r\n" ++ rest)

/-! ## Reading lines -/

theorem withoutReturn_concat (line : List Char) : withoutReturn (line ++ ['\r']) = line := by
  simp [withoutReturn]

theorem withoutReturn_of_ne {line : List Char} (h : line.getLast? ≠ some '\r') : withoutReturn line = line := by
  unfold withoutReturn
  split
  · next rest hrest =>
    rw [List.getLast?_eq_head?_reverse, hrest] at h
    exact absurd rfl h
  · rfl

/-- what has no line feed adds to the line that has begun -/
theorem linesAfter_append {body : List Char} (h : '\n' ∉ body) (begun rest : List Char) :
    linesAfter begun (body ++ rest) = linesAfter (body.reverse ++ begun) rest := by
  induction body generalizing begun with
  | nil => rfl
  | cons c body ih =>
    rw [List.mem_cons, not_or] at h
    rw [List.cons_append, linesAfter, if_neg (Ne.symm h.1), ih h.2, List.reverse_cons, List.append_assoc]
    rfl

/-- a line up to its line feed -/
theorem linesAfter_line {body : List Char} (h : '\n' ∉ body) (rest : List Char) :
    linesAfter [] (body ++ '\n' :: rest) = withoutReturn body :: linesAfter [] rest := by
  rw [linesAfter_append h, linesAfter, if_pos rfl, List.append_nil, List.reverse_reverse]

/-- a line up to the end of the text -/
theorem linesAfter_end {body : List Char} (h : '\n' ∉ body) : linesAfter [] body = if body = [] then [] else [body] := by
  have hend := linesAfter_append h [] []
  rw [List.append_nil, List.append_nil, linesAfter, List.reverse_reverse, List.isEmpty_reverse] at hend
  rw [hend]
  cases body <;> rfl

theorem lines_of_linesAfter {text : String} {line : List Char} {rest : String}
    (h : linesAfter [] text.toList = line :: linesAfter [] rest.toList) : lines text = String.ofList line :: lines rest := by
  rw [lines, h, List.map_cons, lines]

theorem lines_of_laidOut {ls : List String} {text : String} (h : LaidOut ls text) : lines text = ls := by
  induction h with
  | nothing => rfl
  | @unended line hline hsome =>
    rw [lines, linesAfter_end hline, if_neg (mt String.toList_eq_nil_iff.1 hsome), List.map_singleton, String.ofList_toList]
  | @lineFeed line lines rest hline hreturn _ ih =>
    have htext : (line ++ "\n" ++ rest).toList = line.toList ++ '\n' :: rest.toList := by simp
    rw [lines_of_linesAfter (htext ▸ linesAfter_line hline rest.toList), withoutReturn_of_ne hreturn, ih, String.ofList_toList]
  | @returnLineFeed line lines rest hline _ ih =>
    have htext : (line ++ "\r\n" ++ rest).toList = (line.toList ++ ['\r']) ++ '\n' :: rest.toList := by simp
    have hbody : '\n' ∉ line.toList ++ ['\r'] := by simpa using hline
    rw [lines_of_linesAfter (htext ▸ linesAfter_line hbody rest.toList), withoutReturn_concat, ih, String.ofList_toList]

/-- every text is laid out in some lines -/
theorem exists_laidOut (text : List Char) : ∃ ls, LaidOut ls (String.ofList text) := by
  by_cases hfeed : '\n' ∈ text
  · obtain ⟨body, rest, htext, hbody⟩ := List.eq_append_cons_of_mem hfeed
    have hshorter : rest.length < text.length := by
      rw [htext, List.length_append, List.length_cons]
      omega
    obtain ⟨ls, hrest⟩ := exists_laidOut rest
    by_cases hreturn : body.getLast? = some '\r'
    · obtain ⟨line, rfl⟩ := List.getLast?_eq_some_iff.1 hreturn
      have hline : '\n' ∉ (String.ofList line).toList := by simpa using hbody
      have hsplit : String.ofList text = String.ofList line ++ "\r\n" ++ String.ofList rest :=
        String.toList_inj.1 (by simp [htext])
      exact hsplit ▸ ⟨_, .returnLineFeed hline hrest⟩
    · have hline : '\n' ∉ (String.ofList body).toList := by simpa using hbody
      have hsplit : String.ofList text = String.ofList body ++ "\n" ++ String.ofList rest :=
        String.toList_inj.1 (by simp [htext])
      exact hsplit ▸ ⟨_, .lineFeed hline (by simpa using hreturn) hrest⟩
  · cases text with
    | nil => exact ⟨[], .nothing⟩
    | cons c rest =>
      refine ⟨_, .unended (by simpa using hfeed) fun hempty => ?_⟩
      have hnil := congrArg String.toList hempty
      rw [String.toList_ofList] at hnil
      cases hnil
termination_by text.length

/-- **The lines of a text** are those that it is laid out in. -/
theorem lines_eq_iff {ls : List String} {text : String} : lines text = ls ↔ LaidOut ls text := by
  refine ⟨?_, lines_of_laidOut⟩
  rintro rfl
  obtain ⟨ls, h⟩ := exists_laidOut text.toList
  rw [String.ofList_toList] at h
  rwa [lines_of_laidOut h]

/-- the texts are laid out in the same lines, so they differ in the endings of lines at most -/
def SameLines (a b : String) : Prop := ∃ ls, LaidOut ls a ∧ LaidOut ls b

theorem sameLines_iff {a b : String} : SameLines a b ↔ lines a = lines b := by
  constructor
  · rintro ⟨ls, ha, hb⟩
    rw [lines_of_laidOut ha, lines_of_laidOut hb]
  · intro h
    exact ⟨lines a, lines_eq_iff.1 rfl, lines_eq_iff.1 h.symm⟩

end ApiSurface.Text
