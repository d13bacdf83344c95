import NullFlow.Report.Excerpt
/-!
Positions of characters. The line and the column of a character lead back to it, and every line and
column leads to some character of the text, which is the one that a drawing marks.
-/

namespace NullFlow.Report

/-- The line of the character after the text: one more than the line feeds before it. -/
def lineAfter (before : List Char) : Nat := before.count '\n' + 1

/-- The column of the character after the text: one more than the characters between the last line
feed and it. -/
def columnAfter (before : List Char) : Nat := (before.reverse.takeWhile (· ≠ '\n')).length + 1

/-- Lines with the line feeds that end them. -/
inductive WholeLines : List Char → Prop where
  | nil : WholeLines []
  | line {content rest : List Char} (plain : '\n' ∉ content) (others : WholeLines rest) :
      WholeLines (content ++ '\n' :: rest)

section Lines

variable {content whole : List Char}

/-- A line ends with its line feed. -/
theorem lines_line (plain : '\n' ∉ content) (rest : List Char) :
    lines (content ++ '\n' :: rest) = (content ++ ['\n']) :: lines rest := by
  induction content with
  | nil => rfl
  | cons char others ih =>
      obtain ⟨different, plainOthers⟩ := List.ne_and_not_mem_of_not_mem_cons plain
      rw [List.cons_append, lines, if_neg (Ne.symm different), ih plainOthers]
      rfl

/-- A text consists of whole lines and the beginning of one more. -/
theorem exists_wholeLines (before : List Char) :
    ∃ whole begun, before = whole ++ begun ∧ WholeLines whole ∧ '\n' ∉ begun := by
  induction before with
  | nil => exact ⟨[], [], rfl, .nil, List.not_mem_nil⟩
  | cons char rest ih =>
      obtain ⟨whole, begun, rfl, isWhole, plain⟩ := ih
      by_cases feed : char = '\n'
      · subst feed
        exact ⟨'\n' :: whole, begun, rfl, .line List.not_mem_nil isWhole, plain⟩
      · cases isWhole with
        | nil =>
            have plainLine := List.not_mem_cons_of_ne_of_not_mem (Ne.symm feed) plain
            exact ⟨[], char :: begun, rfl, .nil, plainLine⟩
        | @line content rest plainContent others =>
            have plainLine : '\n' ∉ char :: content :=
              List.not_mem_cons_of_ne_of_not_mem (Ne.symm feed) plainContent
            exact ⟨(char :: content) ++ '\n' :: rest, begun, rfl, .line plainLine others, plain⟩

/-- Whole lines are lines of their own, whatever follows. -/
theorem WholeLines.lines_append (isWhole : WholeLines whole) (rest : List Char) :
    lines (whole ++ rest) = lines whole ++ lines rest := by
  induction isWhole with
  | nil => rfl
  | line plain others ih =>
      rw [List.append_assoc, List.cons_append, lines_line plain, lines_line plain, ih,
        List.cons_append]

/-- Whole lines together are the text. -/
theorem WholeLines.flatten_lines (isWhole : WholeLines whole) : (lines whole).flatten = whole := by
  induction isWhole with
  | nil => rfl
  | line plain others ih =>
      rw [lines_line plain, List.flatten_cons, ih, List.append_assoc, List.singleton_append]

/-- A text of whole lines has as many as it has line feeds. -/
theorem WholeLines.length_lines (isWhole : WholeLines whole) :
    (lines whole).length = whole.count '\n' := by
  induction isWhole with
  | nil => rfl
  | line plain others ih =>
      rw [lines_line plain, List.length_cons, ih, List.count_append, List.count_eq_zero.mpr plain,
        List.count_cons_self, Nat.zero_add]

theorem WholeLines.eq_nil_or_snoc (isWhole : WholeLines whole) :
    whole = [] ∨ ∃ before, whole = before ++ ['\n'] := by
  induction isWhole with
  | nil => exact Or.inl rfl
  | @line content rest plain others ih =>
      rcases ih with rfl | ⟨before, rfl⟩
      · exact Or.inr ⟨content, rfl⟩
      · exact Or.inr ⟨content ++ '\n' :: before, by simp⟩

section Begun

variable {begun : List Char} (isWhole : WholeLines whole) (plain : '\n' ∉ begun)

include isWhole plain

/-- The line of a character is one more than the number of whole lines before it. -/
theorem lineAfter_append : lineAfter (whole ++ begun) = (lines whole).length + 1 := by
  rw [lineAfter, List.count_append, List.count_eq_zero.mpr plain, isWhole.length_lines, Nat.add_zero]

/-- The column of a character is one more than what its line has begun with. -/
theorem columnAfter_append : columnAfter (whole ++ begun) = begun.length + 1 := by
  have within : ∀ char ∈ begun.reverse, decide (char ≠ '\n') = true := by
    intro char member
    rw [decide_eq_true_iff]
    rintro rfl
    exact plain (List.mem_reverse.mp member)
  have ended : whole.reverse.takeWhile (· ≠ '\n') = [] := by
    rcases isWhole.eq_nil_or_snoc with rfl | ⟨before, rfl⟩
    · rfl
    · simp
  rw [columnAfter, List.reverse_append, List.takeWhile_append_of_pos within, ended, List.append_nil,
    List.length_reverse]

end Begun

/-- The line and the column of a character lead back to it. -/
theorem offset_after (before : List Char) (char : Char) (rest : List Char) :
    offset (before ++ char :: rest) (lineAfter before) (columnAfter before) = before.length := by
  obtain ⟨whole, begun, rfl, isWhole, plain⟩ := exists_wholeLines before
  have start : ((lines (whole ++ begun ++ char :: rest)).take (lines whole).length).flatten = whole := by
    rw [List.append_assoc, isWhole.lines_append, List.take_left, isWhole.flatten_lines]
  rw [offset, lineAfter_append isWhole plain, columnAfter_append isWhole plain, Nat.add_sub_cancel,
    Nat.add_sub_cancel, start]
  simp only [List.length_append, List.length_cons]
  omega

/-- A place is never behind the text. -/
theorem offset_lt {source : List Char} (nonempty : source ≠ []) (line column : Nat) :
    offset source line column < source.length := by
  have positive := List.length_pos_iff.mpr nonempty
  unfold offset
  omega

end Lines

section Drawings

/-- The lines that are drawn together are the source. -/
theorem flatten_drawnLines (source : List Char) : (drawnLines source).flatten = source := by
  fun_induction drawnLines source with
  | case1 => rfl
  | case2 rest ih => rw [List.flatten_cons, ih]; rfl
  | case3 char rest _ ends ih => rw [List.flatten_cons, ih]; rfl
  | case4 char rest _ ends none ih =>
      rw [none] at ih
      rw [← ih]
      rfl
  | case5 char rest _ ends line others some ih =>
      rw [some] at ih
      rw [← ih]
      rfl

/-- The place that is found among the lines is that of the character. -/
theorem findPlace_shows (number : Nat) (lines : List (List Char)) (indent : Nat)
    (inside : indent < lines.flatten.length) :
    (findPlace number lines indent).line[(findPlace number lines indent).indent]? =
      lines.flatten[indent]? := by
  fun_induction findPlace number lines indent with
  | case1 number indent => cases inside
  | case2 number line indent => rw [List.flatten_singleton]
  | case3 number line next rest indent inLine =>
      rw [List.flatten_cons, List.getElem?_append_left inLine]
  | case4 number line next rest indent past ih =>
      have reached := Nat.le_of_not_lt past
      have first : (line :: next :: rest).flatten = line ++ (next :: rest).flatten :=
        List.flatten_cons
      rw [first, List.length_append] at inside
      rw [ih (by omega), first, List.getElem?_append_right reached]

end Drawings

/-- Every line and column leads to a character of a text that has any, and the line and the column of
a character lead to that one. So a label of one character never is empty and never leaves the text,
and a drawing shows the character at the place that it marks. -/
theorem offset_inverts_positions (source : List Char) (nonempty : source ≠ []) :
    (∀ index < source.length,
      offset source (lineAfter (source.take index)) (columnAfter (source.take index)) = index) ∧
    ∀ line column,
      let start := offset source line column
      let stop := min (start + 1) source.length
      let place := findPlace 1 (drawnLines source) start
      start < stop ∧ stop ≤ source.length ∧ place.line[place.indent]? = source[start]? := by
  refine ⟨fun index inside => ?_, fun line column => ?_⟩
  · have back := offset_after (source.take index) source[index] (source.drop (index + 1))
    rwa [List.getElem_cons_drop, List.take_append_drop, List.length_take_of_le (Nat.le_of_lt inside)] at back
  · intro start stop place
    have inside : start < source.length := offset_lt nonempty line column
    have shown := findPlace_shows 1 (drawnLines source) start
    rw [flatten_drawnLines] at shown
    exact ⟨Nat.lt_min.mpr ⟨Nat.lt_succ_self start, inside⟩, Nat.min_le_right _ _, shown inside⟩

section Example

/-- The second character of the third line is the sixth character of the text, whatever ends the
lines before it. A line after the last one leads to a character as well. -/
theorem mixedLines_position :
    let source := "é\r\n\n→𝕏\n".toList
    source ≠ [] ∧ lineAfter (source.take 5) = 3 ∧ columnAfter (source.take 5) = 2 ∧
      offset source 3 2 = 5 ∧ offset source 9 1 < source.length := by
  intro source
  have nonempty : source ≠ [] := by decide
  obtain ⟨backs, places⟩ := offset_inverts_positions source nonempty
  have back := backs 5 (by decide)
  exact ⟨nonempty, by decide, by decide, back, Nat.lt_of_lt_of_le (places 9 1).1 (places 9 1).2.1⟩

end Example

end NullFlow.Report
