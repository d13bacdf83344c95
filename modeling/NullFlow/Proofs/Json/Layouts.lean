import NullFlow.Json.Reader
/-!
Layouts of JSON texts. A text without blanks and a text with one line for every item are the same up
to the blanks between their parts.
-/

namespace NullFlow.Json

/-- Where a text has blanks. -/
structure Layout where
  /-- The blanks before the items and names of a container and before its end. They depend on how
  many containers are around. -/
  gap : Nat → List Char
  /-- The blanks behind a colon. -/
  colon : List Char
  blankGap : ∀ level, ∀ char ∈ gap level, Machine.isBlank char = true
  blankColon : ∀ char ∈ colon, Machine.isBlank char = true

namespace Layout

/-- No blanks. -/
def compact : Layout where
  gap _ := []
  colon := []
  blankGap := nofun
  blankColon := nofun

/-- A new line and its indentation are blank. -/
theorem isBlank_newline (level : Nat) : ∀ char ∈ newline level, Machine.isBlank char = true := by
  refine List.forall_mem_cons.mpr ⟨rfl, fun char member => ?_⟩
  rw [List.eq_of_mem_replicate member]
  rfl

/-- One line for every item and field. -/
def indented : Layout where
  gap := newline
  colon := [' ']
  blankGap := isBlank_newline
  blankColon := List.forall_mem_singleton.mpr rfl

mutual

/-- The text of a value inside a number of containers. -/
def chars (layout : Layout) (level : Nat) : Json → List Char
  | array (item :: rest) =>
      '[' :: (layout.gap (level + 1) ++
        (chars layout (level + 1) item ++ itemsChars layout level rest))
  | object ((name, value) :: rest) =>
      '\x7b' :: (layout.gap (level + 1) ++ (quoteChars name ++ ':' :: (layout.colon ++
        (chars layout (level + 1) value ++ fieldsChars layout level rest))))
  | value => Json.chars value

def itemsChars (layout : Layout) (level : Nat) : List Json → List Char
  | [] => layout.gap level ++ [']']
  | item :: rest =>
      ',' :: (layout.gap (level + 1) ++
        (chars layout (level + 1) item ++ itemsChars layout level rest))

def fieldsChars (layout : Layout) (level : Nat) : List (String × Json) → List Char
  | [] => layout.gap level ++ ['\x7d']
  | (name, value) :: rest =>
      ',' :: (layout.gap (level + 1) ++ (quoteChars name ++ ':' :: (layout.colon ++
        (chars layout (level + 1) value ++ fieldsChars layout level rest))))

end

mutual

/-- The compact layout is the one without blanks. -/
theorem chars_compact : ∀ (level : Nat) (value : Json), compact.chars level value = value.chars
  | _, null => rfl
  | _, bool _ => rfl
  | _, integer _ => rfl
  | _, decimal _ => rfl
  | _, string _ => rfl
  | _, array [] => rfl
  | level, array (item :: rest) => by
      rw [chars, Json.chars, chars_compact _ item, itemsChars_compact level rest]
      simp only [compact, List.cons_append, List.nil_append]
  | _, object [] => rfl
  | level, object ((name, value) :: rest) => by
      rw [chars, Json.chars, chars_compact _ value, fieldsChars_compact level rest]
      simp only [compact, List.cons_append, List.append_assoc, List.nil_append]

theorem itemsChars_compact : ∀ (level : Nat) (items : List Json),
    compact.itemsChars level items = Json.itemsChars items
  | _, [] => rfl
  | level, item :: rest => by
      rw [itemsChars, Json.itemsChars, chars_compact _ item, itemsChars_compact level rest]
      simp only [compact, List.cons_append, List.nil_append]

theorem fieldsChars_compact : ∀ (level : Nat) (fields : List (String × Json)),
    compact.fieldsChars level fields = Json.fieldsChars fields
  | _, [] => rfl
  | level, (name, value) :: rest => by
      rw [fieldsChars, Json.fieldsChars, chars_compact _ value, fieldsChars_compact level rest]
      simp only [compact, List.cons_append, List.append_assoc, List.nil_append]

end

mutual

/-- The indented layout is the one for people. -/
theorem chars_indented : ∀ (level : Nat) (value : Json),
    indented.chars level value = prettyChars level value
  | _, null => rfl
  | _, bool _ => rfl
  | _, integer _ => rfl
  | _, decimal _ => rfl
  | _, string _ => rfl
  | _, array [] => rfl
  | level, array (item :: rest) => by
      rw [chars, prettyChars, chars_indented _ item, itemsChars_indented level rest]
      simp only [indented, List.cons_append, List.append_assoc]
  | _, object [] => rfl
  | level, object ((name, value) :: rest) => by
      rw [chars, prettyChars, chars_indented _ value, fieldsChars_indented level rest]
      simp only [indented, List.cons_append, List.append_assoc, List.nil_append]

theorem itemsChars_indented : ∀ (level : Nat) (items : List Json),
    indented.itemsChars level items = prettyItems level items
  | _, [] => rfl
  | level, item :: rest => by
      rw [itemsChars, prettyItems, chars_indented _ item, itemsChars_indented level rest]
      simp only [indented, List.cons_append, List.append_assoc]

theorem fieldsChars_indented : ∀ (level : Nat) (fields : List (String × Json)),
    indented.fieldsChars level fields = prettyFields level fields
  | _, [] => rfl
  | level, (name, value) :: rest => by
      rw [fieldsChars, prettyFields, chars_indented _ value, fieldsChars_indented level rest]
      simp only [indented, List.cons_append, List.append_assoc, List.nil_append]

end

end Layout
end NullFlow.Json
