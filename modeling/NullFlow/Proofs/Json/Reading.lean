import Mathlib.Data.List.TakeWhile
import NullFlow.Proofs.Json.Layouts
/-!
The reader undoes the printer, whatever the layout of the text. A printed value is read as it is if
the reader expects all that is in it and its arrays and objects nest less deep than the limit. A
value that nests deeper is refused.
-/

namespace NullFlow.Json

section Definitions

mutual

/-- The greatest number of arrays and objects around a part of the value. -/
def depth : Json → Nat
  | null => 0
  | bool _ => 0
  | integer _ => 0
  | decimal _ => 0
  | string _ => 0
  | array items => depthAll items + 1
  | object fields => depthFields fields + 1

def depthAll : List Json → Nat
  | [] => 0
  | item :: rest => max (depth item) (depthAll rest)

def depthFields : List (String × Json) → Nat
  | [] => 0
  | (_, value) :: rest => max (depth value) (depthFields rest)

end

mutual

/-- A reader that expects the shape reads the value with all that is in it. Its numbers are natural
numbers of 64 bits. -/
def Keeps (shape : Shape) : Json → Prop
  | null => shape.isSkipped = false
  | bool _ => shape.isSkipped = false
  | integer value => shape.isSkipped = false ∧ 0 ≤ value ∧ value < 1 <<< 64
  | decimal _ => False
  | string _ => shape.isSkipped = false
  | array items => shape.ofArray.isSkipped = false ∧ KeepsAll shape.ofArray [] items
  | object fields => shape.ofObject.isSkipped = false ∧ KeepsFields shape.ofObject fields

/-- The items that follow other ones in an array of the shape. -/
def KeepsAll (shape : Shape) (before : List Json) : List Json → Prop
  | [] => True
  | item :: rest => Keeps (shape.item before) item ∧ KeepsAll shape (item :: before) rest

def KeepsFields (shape : Shape) : List (String × Json) → Prop
  | [] => True
  | (name, value) :: rest => Keeps (shape.field name) value ∧ KeepsFields shape rest

end

end Definitions

/-- A value that is kept is not skipped. -/
theorem Keeps.notSkipped {shape : Shape} {value : Json} (keeps : Keeps shape value) :
    shape.isSkipped = false := by
  cases shape with
  | skipped => cases value <;> simp [Keeps, Shape.isSkipped, Shape.ofArray, Shape.ofObject] at keeps
  | _ => rfl

namespace Machine

section Strings

variable {root : Shape} {containers : List Container}

/-- A text is read in two parts. -/
theorem run_append (root : Shape) (machine : Machine) (first second : List Char) :
    run root machine (first ++ second) =
      (run root machine first).bind fun machine => run root machine second :=
  List.foldlM_append

theorem run_cons (root : Shape) (machine : Machine) (char : Char) (rest : List Char) :
    run root machine (char :: rest) =
      (step root machine char).bind fun machine => run root machine rest :=
  List.foldlM_cons

/-- A digit is read as the number it was written for. -/
theorem hexDigit?_digitChar {digit : Nat} (isDigit : digit < 16) :
    hexDigit? (Nat.digitChar digit) = some digit := by
  decide +revert

/-- Inside a string every character but the closing quote goes to the string. -/
theorem step_string (isName : Bool) {part : StringPart} (read : List Char) {char : Char}
    (goesOn : ¬(char = '"' ∧ part = .plain)) :
    step root ⟨containers, .string isName false part read⟩ char =
      (continueString false part read char).map fun (part, read) =>
        ⟨containers, .string isName false part read⟩ := by
  rw [step]
  exact if_neg (by simpa using goesOn)

theorem continue_digit {missing code digit : Nat} (high? : Option Nat) (read : List Char)
    (isDigit : digit < 16) (more : 1 < missing) :
    continueString false (.unicode missing code high?) read (Nat.digitChar digit) =
      some (.unicode (missing - 1) (16 * code + digit) high?, read) := by
  rw [continueString, hexDigit?_digitChar isDigit]
  exact if_neg (Nat.not_le.mpr more)

theorem completeUnit_of_lt {code : Nat} (noSurrogate : code < 0xD800) (read : List Char) :
    completeUnit false code none read = some (.plain, Char.ofNat code :: read) := by
  have notHigh : (0xD800 ≤ code && code < 0xDC00) = false := by
    rw [Bool.and_eq_false_iff]
    exact Or.inl (decide_eq_false (Nat.not_le.mpr noSurrogate))
  have notLow : (0xDC00 ≤ code && code < 0xE000) = false := by
    rw [Bool.and_eq_false_iff]
    exact Or.inl (decide_eq_false (by omega))
  simp only [completeUnit, notHigh, notLow, Bool.false_eq_true, if_false]

/-- An escaped control character is read back. -/
theorem run_control {code : Nat} (isControl : code < 32) (isName : Bool) (read : List Char) :
    run root ⟨containers, .string isName false .plain read⟩
        (['\\', 'u', '0', '0'] ++ hexPair code) =
      some ⟨containers, .string isName false .plain (Char.ofNat code :: read)⟩ := by
  have opened : run root ⟨containers, .string isName false .plain read⟩ ['\\', 'u', '0', '0'] =
      some ⟨containers, .string isName false (.unicode 2 0 none) read⟩ := rfl
  have high : step root ⟨containers, .string isName false (.unicode 2 0 none) read⟩
      (Nat.digitChar (code / 16)) =
      some ⟨containers, .string isName false (.unicode 1 (code / 16) none) read⟩ := by
    rw [step_string isName read (by simp), continue_digit none read (by omega) (by omega),
      Nat.mul_zero, Nat.zero_add]
    rfl
  have low : step root ⟨containers, .string isName false (.unicode 1 (code / 16) none) read⟩
      (Nat.digitChar (code % 16)) =
      some ⟨containers, .string isName false .plain (Char.ofNat code :: read)⟩ := by
    rw [step_string isName read (by simp), continueString, hexDigit?_digitChar (by omega)]
    simp only [Nat.le_refl, if_true, Nat.div_add_mod]
    rw [completeUnit_of_lt (by omega)]
    rfl
  rw [run_append, opened, Option.bind_some, hexPair, run_cons, high, Option.bind_some, run_cons,
    low]
  rfl

/-- The escape of a character is read as the character. -/
theorem run_escapeChar (isName : Bool) (read : List Char) (char : Char) :
    run root ⟨containers, .string isName false .plain read⟩ (escapeChar char) =
      some ⟨containers, .string isName false .plain (char :: read)⟩ := by
  unfold escapeChar
  repeat' split
  all_goals try (subst_vars; rfl)
  · rename_i isControl
    have plain : run root ⟨containers, .string isName false .plain read⟩
        (['\\', 'u', '0', '0'] ++ hexPair char.toNat) =
        some ⟨containers, .string isName false .plain (Char.ofNat char.toNat :: read)⟩ :=
      run_control isControl isName read
    rwa [Char.ofNat_toNat] at plain
  · rename_i noQuote noBackslash _ _ _ _ _ noControl
    rw [run_cons, step_string isName read fun isQuote => noQuote isQuote.1, continueString,
      if_neg noBackslash, if_neg noControl]
    rfl

/-- An escaped text is read back, character by character. -/
theorem run_escaped (isName : Bool) (text read : List Char) :
    run root ⟨containers, .string isName false .plain read⟩ (text.flatMap escapeChar) =
      some ⟨containers, .string isName false .plain (text.reverse ++ read)⟩ := by
  induction text generalizing read with
  | nil => rfl
  | cons char rest ih =>
      rw [List.flatMap_cons, run_append, run_escapeChar, Option.bind_some, ih, List.reverse_cons,
        List.append_assoc]
      rfl

/-- A string is read from behind its first quote up to the last one. -/
theorem run_string (isName : Bool) (text : String) :
    run root ⟨containers, .string isName false .plain []⟩
        (text.toList.flatMap escapeChar ++ ['"']) =
      completeString containers isName text.toList.reverse := by
  have closed : step root ⟨containers, .string isName false .plain text.toList.reverse⟩ '"' =
      completeString containers isName text.toList.reverse := rfl
  rw [run_append, run_escaped, Option.bind_some, List.append_nil, run_cons, closed]
  exact Option.bind_fun_some _

end Strings

section Numbers

variable {root : Shape} {containers : List Container}

/-- The digits of a number are all taken in. -/
theorem run_digits {digits : List Char} (areDigits : ∀ digit ∈ digits, digit.isDigit = true)
    (read : List Char) :
    run root ⟨containers, .number false .whole read⟩ digits =
      some ⟨containers, .number false .whole (digits.reverse ++ read)⟩ := by
  induction digits generalizing read with
  | nil => rfl
  | cons digit rest ih =>
      have isDigit := areDigits digit List.mem_cons_self
      have first : step root ⟨containers, .number false .whole read⟩ digit =
          some ⟨containers, .number false .whole (digit :: read)⟩ := by
        simp only [step, NumberPart.next?, isDigit, if_true]
      rw [run_cons, first, Option.bind_some,
        ih (fun other member => areDigits other (List.mem_cons_of_mem _ member)),
        List.reverse_cons, List.append_assoc]
      rfl

/-- The digits of a positive number begin with none that is zero. -/
theorem toDigits_eq_cons {value : Nat} (positive : 0 < value) :
    ∃ first rest, Nat.toDigits 10 value = first :: rest ∧ first ≠ '0' := by
  induction value using Nat.strongRecOn with
  | ind value ih =>
      by_cases single : value < 10
      · refine ⟨Nat.digitChar value, [], Nat.toDigits_of_lt_base single, ?_⟩
        intro isZero
        have code := Nat.toNat_digitChar_of_lt_ten single
        rw [isZero] at code
        change 48 = _ at code
        omega
      · obtain ⟨first, rest, digits, notZero⟩ := ih (value / 10) (by omega) (by omega)
        refine ⟨first, rest ++ Nat.toDigits 10 (value % 10), ?_, notZero⟩
        rw [← List.cons_append, ← digits, Nat.toDigits_append_toDigits (by omega) (by omega)
          (by omega), Nat.div_add_mod]

theorem ne_of_isDigit {char : Char} (isDigit : char.isDigit = true) (other : Char)
    (isOther : other.isDigit = false) : char ≠ other := by
  rintro rfl
  rw [isDigit] at isOther
  cases isOther

/-- A digit other than zero begins a number. -/
theorem beginValue_digit (shape : Shape) {char : Char} (isDigit : char.isDigit = true)
    (notZero : char ≠ '0') :
    beginValue shape containers char =
      some ⟨containers, .number shape.isSkipped .whole [char]⟩ := by
  simp only [beginValue, ne_of_isDigit isDigit '[' rfl, ne_of_isDigit isDigit '\x7b' rfl,
    ne_of_isDigit isDigit '"' rfl, ne_of_isDigit isDigit '-' rfl, notZero, isDigit, if_false,
    if_true]

theorem isBlank_digit {char : Char} (isDigit : char.isDigit = true) : isBlank char = false := by
  simp [isBlank, ne_of_isDigit isDigit ' ' rfl, ne_of_isDigit isDigit '\n' rfl,
    ne_of_isDigit isDigit '\r' rfl, ne_of_isDigit isDigit '\t' rfl]

/-- The digits of a natural number are read as a number that may end behind them. -/
theorem run_natural (value : Nat) (expects : (expected root containers).isSkipped = false) :
    ∃ part : NumberPart, part.isWhole = true ∧
      run root ⟨containers, .value⟩ (Nat.toDigits 10 value) =
        some ⟨containers, .number false part (Nat.toDigits 10 value).reverse⟩ := by
  cases value with
  | zero =>
      refine ⟨.zero, rfl, ?_⟩
      change some (Machine.mk containers
        (.number (expected root containers).isSkipped .zero ['0'])) = _
      rw [expects]
      rfl
  | succ value =>
      obtain ⟨first, rest, digits, notZero⟩ := toDigits_eq_cons (Nat.succ_pos value)
      have areDigits : ∀ digit ∈ first :: rest, digit.isDigit = true := fun digit member =>
        Nat.isDigit_of_mem_toDigits (by omega) (by omega) (digits ▸ member)
      obtain ⟨isDigit, others⟩ := List.forall_mem_cons.mp areDigits
      have begun : step root ⟨containers, .value⟩ first =
          some ⟨containers, .number false .whole [first]⟩ := by
        simp only [step, stepBetween, isBlank_digit isDigit, Bool.false_eq_true, if_false,
          beginValue_digit _ isDigit notZero, expects]
      refine ⟨.whole, rfl, ?_⟩
      rw [digits, run_cons, begun, Option.bind_some, run_digits others, List.reverse_cons]

/-- A test that all digits pass stops at none. -/
theorem takeWhile_digits {digits : List Char} (areDigits : ∀ digit ∈ digits, digit.isDigit = true)
    {test : Char → Bool} (passes : ∀ digit : Char, digit.isDigit = true → test digit = true) :
    digits.takeWhile test = digits :=
  List.takeWhile_eq_self_iff.mpr fun digit member => passes digit (areDigits digit member)

/-- The digits of a natural number of 64 bits stand for the number. -/
theorem ofNumber?_natural {value : Nat} (inRange : value < 1 <<< 64) {part : NumberPart}
    (isWhole : part.isWhole = true) :
    ofNumber? part (Nat.toDigits 10 value) = some (.integer value) := by
  have areDigits : ∀ digit ∈ Nat.toDigits 10 value, digit.isDigit = true := fun digit member =>
    Nat.isDigit_of_mem_toDigits (by omega) (by omega) member
  have unsigned : (Nat.toDigits 10 value).head? ≠ some '-' := by
    intro isSign
    exact ne_of_isDigit (areDigits '-' (List.mem_of_mem_head? isSign)) '-' rfl rfl
  have mantissa : (Nat.toDigits 10 value).takeWhile (fun char => char != 'e' && char != 'E') =
      Nat.toDigits 10 value := takeWhile_digits areDigits fun digit isDigit => by
    simp [ne_of_isDigit isDigit 'e' rfl, ne_of_isDigit isDigit 'E' rfl]
  have whole : (Nat.toDigits 10 value).takeWhile (fun char => char != '.') =
      Nat.toDigits 10 value := takeWhile_digits areDigits fun digit isDigit => by
    simp [ne_of_isDigit isDigit '.' rfl]
  have integer : integer? false (Nat.toDigits 10 value) = some (value : Int) := by
    rw [integer?, Nat.ofDigitChars_toDigits (by omega) (by omega)]
    exact if_pos inRange
  simp only [ofNumber?, unsigned, decide_false, if_false, mantissa, whole, isWhole, if_true,
    integer]

end Numbers

section Values

/-- The characters that may follow a value. -/
def followers : List Char := [',', ']', '\x7d', ' ', '\n', '\r', '\t']

/-- A blank may follow any value. -/
theorem mem_followers {char : Char} (blank : isBlank char = true) : char ∈ followers := by
  simp only [isBlank, Bool.or_eq_true, decide_eq_true_eq] at blank
  rcases blank with ((rfl | rfl) | rfl) | rfl <;> decide

/-- The machine has read a value. The end of a number only shows in what follows. -/
structure Holds (root : Shape) (machine : Machine) (value : Json) (containers : List Container) :
    Prop where
  goesOn : ∀ char ∈ followers,
    step root machine char = stepBetween root (complete value containers) char
  ends : containers = [] → machine.finish = .ok value

variable {root : Shape} {containers : List Container}

/-- Blanks change nothing between strings, numbers and words. -/
theorem run_blanks {machine : Machine}
    (between : ∀ char, step root machine char = stepBetween root machine char) {blanks : List Char}
    (areBlank : ∀ char ∈ blanks, isBlank char = true) (rest : List Char) :
    run root machine (blanks ++ rest) = run root machine rest := by
  induction blanks with
  | nil => rfl
  | cons blank others ih =>
      obtain ⟨isBlank, areOthers⟩ := List.forall_mem_cons.mp areBlank
      have same : step root machine blank = some machine := by
        rw [between, stepBetween, if_pos isBlank]
      rw [List.cons_append, run_cons, same, Option.bind_some, ih areOthers]

/-- A complete value is held. -/
theorem holds_complete (root : Shape) (value : Json) (containers : List Container) :
    Holds root (complete value containers) value containers := by
  cases containers with
  | nil => exact ⟨fun _ _ => rfl, fun _ => rfl⟩
  | cons container outer => exact ⟨fun _ _ => rfl, nofun⟩

/-- Once its digits are read, a number that fits into 64 bits is held. -/
theorem holds_natural {value : Nat} (inRange : value < 1 <<< 64) {part : NumberPart}
    (isWhole : part.isWhole = true) :
    Holds root ⟨containers, .number false part (Nat.toDigits 10 value).reverse⟩ (.integer value)
      containers := by
  have number := ofNumber?_natural inRange isWhole
  have complete : part.isComplete = true := by cases part <;> simp_all [NumberPart.isWhole] <;> rfl
  refine ⟨fun char member => ?_, ?_⟩
  · have ended : part.next? char = none := by
      simp only [followers, List.mem_cons, List.not_mem_nil, or_false] at member
      rcases member with rfl | rfl | rfl | rfl | rfl | rfl | rfl <;> cases part <;> rfl
    simp only [step, ended, complete, if_true, List.reverse_reverse, number, Bool.false_eq_true,
      if_false]
    rfl
  · rintro rfl
    simp only [finish, finishNumber, complete, List.reverse_reverse, number]
    rfl

theorem step_complete (root : Shape) (value : Json) (containers : List Container) (char : Char) :
    step root (complete value containers) char =
      stepBetween root (complete value containers) char := by
  cases containers <;> rfl

/-- Blanks may stand between a value and what comes behind it. -/
theorem Holds.run_gap {machine : Machine} {value : Json}
    (holds : Holds root machine value containers) {gap : List Char} (areBlank : ∀ char ∈ gap, isBlank char = true) {char : Char}
    (follows : char ∈ followers) :
    run root machine (gap ++ [char]) = stepBetween root (complete value containers) char := by
  cases gap with
  | nil =>
      rw [List.nil_append, run_cons, holds.goesOn char follows]
      exact Option.bind_fun_some _
  | cons blank others =>
      obtain ⟨isBlank, areOthers⟩ := List.forall_mem_cons.mp areBlank
      have completed : step root machine blank = some (complete value containers) := by
        rw [holds.goesOn blank (mem_followers isBlank), stepBetween, if_pos isBlank]
      rw [List.cons_append, run_cons, completed, Option.bind_some,
        run_blanks (step_complete root value containers) areOthers, run_cons,
        step_complete root value containers]
      exact Option.bind_fun_some _

/-- The text of a value begins with a character that is no blank and ends no array. -/
theorem chars_eq_cons (layout : Layout) (level : Nat) {shape : Shape} {value : Json}
    (keeps : Keeps shape value) :
    ∃ first rest, layout.chars level value = first :: rest ∧ isBlank first = false ∧
      first ≠ ']' := by
  cases value with
  | null => exact ⟨_, _, rfl, rfl, by decide⟩
  | bool value => cases value <;> exact ⟨_, _, rfl, rfl, by decide⟩
  | integer value =>
      obtain ⟨-, positive, -⟩ := keeps
      obtain ⟨value, rfl⟩ := Int.eq_ofNat_of_zero_le positive
      obtain ⟨first, rest, digits⟩ := List.exists_cons_of_ne_nil
        (Nat.toDigits_ne_nil (n := value) (b := 10))
      have isDigit : first.isDigit = true :=
        Nat.isDigit_of_mem_toDigits (by omega) (by omega) (digits ▸ List.mem_cons_self)
      exact ⟨first, rest, digits, isBlank_digit isDigit, ne_of_isDigit isDigit ']' rfl⟩
  | decimal text => exact keeps.elim
  | string text => exact ⟨_, _, rfl, rfl, by decide⟩
  | array items => cases items <;> exact ⟨_, _, rfl, rfl, by decide⟩
  | object fields => cases fields <;> exact ⟨_, _, rfl, rfl, by decide⟩

/-- The first item of an array is read like the other ones. -/
theorem run_firstItem (layout : Layout) (level : Nat) {shape : Shape} {outer : List Container}
    {item : Json} (keeps : Keeps (shape.item []) item) (rest : List Char) :
    run root ⟨.array shape [] :: outer, .firstItem⟩
        (layout.gap level ++ (layout.chars level item ++ rest)) =
      run root ⟨.array shape [] :: outer, .value⟩ (layout.chars level item ++ rest) := by
  obtain ⟨first, others, text, notBlank, notEnd⟩ := chars_eq_cons layout level keeps
  have same : step root ⟨.array shape [] :: outer, .firstItem⟩ first =
      step root ⟨.array shape [] :: outer, .value⟩ first := by
    simp only [step, stepBetween, notBlank, Bool.false_eq_true, if_false, notEnd]
    rfl
  rw [run_blanks (fun _ => rfl) (layout.blankGap level), text, List.cons_append, run_cons, same,
    run_cons]

/-- The name of a field is read up to the value behind it. -/
theorem run_name (layout : Layout) (level : Nat) {shape : Shape}
    (notSkipped : shape.isSkipped = false) {fields : List (String × Json)} {before : String}
    {outer : List Container} {mode : Mode} (atName : mode = .firstName ∨ mode = .name)
    (name : String) (rest : List Char) :
    run root ⟨.object shape fields before :: outer, mode⟩
        (layout.gap level ++ (quoteChars name ++ ':' :: (layout.colon ++ rest))) =
      run root ⟨.object shape fields name :: outer, .value⟩ rest := by
  have between : ∀ char, step root ⟨.object shape fields before :: outer, mode⟩ char =
      stepBetween root ⟨.object shape fields before :: outer, mode⟩ char := by
    rcases atName with rfl | rfl <;> exact fun _ => rfl
  have opened : step root ⟨.object shape fields before :: outer, mode⟩ '"' =
      some ⟨.object shape fields before :: outer, .string true false .plain []⟩ := by
    rw [← notSkipped]
    rcases atName with rfl | rfl <;> rfl
  have named : completeString (.object shape fields before :: outer) true name.toList.reverse =
      some ⟨.object shape fields name :: outer, .colon⟩ := by
    rw [completeString, List.reverse_reverse, String.ofList_toList]
    rfl
  have colon : step root ⟨.object shape fields name :: outer, .colon⟩ ':' =
      some ⟨.object shape fields name :: outer, .value⟩ := rfl
  rw [run_blanks between (layout.blankGap level), quoteChars, run_append, List.cons_append,
    run_cons, opened, Option.bind_some, run_string, named, Option.bind_some, run_cons, colon,
    Option.bind_some, run_blanks (fun _ => rfl) layout.blankColon]

/-- An array opens unless too many containers are open. -/
theorem open_array (notSkipped : (expected root containers).ofArray.isSkipped = false) :
    step root ⟨containers, .value⟩ '[' = if containers.length + 1 < nestingLimit then
      some ⟨.array (expected root containers).ofArray [] :: containers, .firstItem⟩ else none := by
  change openContainer (.array (expected root containers).ofArray []) .firstItem containers = _
  simp only [openContainer, Container.shape, notSkipped, Bool.false_or, decide_eq_true_eq]

/-- An object opens unless too many containers are open. -/
theorem open_object (notSkipped : (expected root containers).ofObject.isSkipped = false) :
    step root ⟨containers, .value⟩ '\x7b' = if containers.length + 1 < nestingLimit then
      some ⟨.object (expected root containers).ofObject [] "" :: containers, .firstName⟩
    else none := by
  change openContainer (.object (expected root containers).ofObject [] "") .firstName containers = _
  simp only [openContainer, Container.shape, notSkipped, Bool.false_or, decide_eq_true_eq]

/-- An item that is kept is added to its array. -/
theorem add_array {shape : Shape} {before : List Json} {item : Json}
    (keeps : Keeps (shape.item before) item) :
    (Container.array shape before).add item = .array shape (item :: before) := by
  have notSkipped : (Container.array shape before).expected.isSkipped = false := keeps.notSkipped
  simp only [Container.add, notSkipped, Bool.false_eq_true, if_false]

/-- A value that is kept is added to its object under its name. -/
theorem add_object {shape : Shape} {fields : List (String × Json)} {name : String} {value : Json}
    (keeps : Keeps (shape.field name) value) :
    (Container.object shape fields name).add value =
      .object shape ((name, value) :: fields) name := by
  have notSkipped : (Container.object shape fields name).expected.isSkipped = false :=
    keeps.notSkipped
  simp only [Container.add, notSkipped, Bool.false_eq_true, if_false]

/-- The next item of an array follows behind a comma. -/
theorem Holds.run_nextItem (layout : Layout) (level : Nat) {machine : Machine} {shape : Shape}
    {before : List Json} {item : Json} {outer : List Container}
    (holds : Holds root machine item (.array shape before :: outer))
    (keeps : Keeps (shape.item before) item) (rest : List Char) :
    run root machine (',' :: (layout.gap level ++ rest)) =
      run root ⟨.array shape (item :: before) :: outer, .value⟩ rest := by
  have comma : step root machine ',' = some ⟨.array shape (item :: before) :: outer, .value⟩ := by
    rw [holds.goesOn ',' (by decide), complete, add_array keeps]
    rfl
  rw [run_cons, comma, Option.bind_some, run_blanks (fun _ => rfl) (layout.blankGap level)]

/-- The end of an array holds the array with its last item. -/
theorem Holds.end_array (layout : Layout) (level : Nat) {machine : Machine} {shape : Shape}
    {before : List Json} {item : Json} {outer : List Container}
    (holds : Holds root machine item (.array shape before :: outer))
    (keeps : Keeps (shape.item before) item) :
    run root machine (layout.gap level ++ [']']) =
      some (complete (.array (before.reverse ++ [item])) outer) := by
  rw [holds.run_gap (layout.blankGap level) (by decide), complete, add_array keeps,
    ← List.reverse_cons]
  rfl

/-- The next field of an object follows behind a comma. -/
theorem Holds.run_nextField (layout : Layout) (level : Nat) {machine : Machine} {shape : Shape}
    {fields : List (String × Json)} {name next : String} {value : Json} {outer : List Container}
    (holds : Holds root machine value (.object shape fields name :: outer))
    (notSkipped : shape.isSkipped = false) (keeps : Keeps (shape.field name) value)
    (rest : List Char) :
    run root machine
        (',' :: (layout.gap level ++ (quoteChars next ++ ':' :: (layout.colon ++ rest)))) =
      run root ⟨.object shape ((name, value) :: fields) next :: outer, .value⟩ rest := by
  have comma : step root machine ',' =
      some ⟨.object shape ((name, value) :: fields) name :: outer, .name⟩ := by
    rw [holds.goesOn ',' (by decide), complete, add_object keeps]
    rfl
  rw [run_cons, comma, Option.bind_some, run_name layout level notSkipped (Or.inr rfl)]

/-- The end of an object holds the object with its last field. -/
theorem Holds.end_object (layout : Layout) (level : Nat) {machine : Machine} {shape : Shape}
    {fields : List (String × Json)} {name : String} {value : Json} {outer : List Container}
    (holds : Holds root machine value (.object shape fields name :: outer))
    (keeps : Keeps (shape.field name) value) :
    run root machine (layout.gap level ++ ['\x7d']) =
      some (complete (.object (fields.reverse ++ [(name, value)])) outer) := by
  rw [holds.run_gap (layout.blankGap level) (by decide), complete, add_object keeps,
    ← List.reverse_cons]
  rfl

variable (layout : Layout)

mutual

/-- The text of a value is read as the value, if it does not nest too deep. -/
theorem run_chars : ∀ (value : Json) (level : Nat) (containers : List Container),
    Keeps (expected root containers) value → containers.length + value.depth < nestingLimit →
    ∃ machine, run root ⟨containers, .value⟩ (layout.chars level value) = some machine ∧
      Holds root machine value containers
  | .null, _, containers, _, _ => ⟨_, rfl, holds_complete root .null containers⟩
  | .bool true, _, containers, _, _ => ⟨_, rfl, holds_complete root (.bool true) containers⟩
  | .bool false, _, containers, _, _ => ⟨_, rfl, holds_complete root (.bool false) containers⟩
  | .integer value, _, containers, keeps, _ => by
      obtain ⟨notSkipped, positive, inRange⟩ := keeps
      obtain ⟨value, rfl⟩ := Int.eq_ofNat_of_zero_le positive
      obtain ⟨part, isWhole, reads⟩ := run_natural value notSkipped
      exact ⟨_, reads, holds_natural (by exact_mod_cast inRange) isWhole⟩
  | .decimal _, _, _, keeps, _ => keeps.elim
  | .string text, _, containers, keeps, _ => by
      have notSkipped : (expected root containers).isSkipped = false := keeps
      have opened : step root ⟨containers, .value⟩ '"' =
          some ⟨containers, .string false false .plain []⟩ := by
        change some (Machine.mk containers
          (.string false (expected root containers).isSkipped _ _)) = _
        rw [notSkipped]
      have completed : completeString containers false text.toList.reverse =
          some (complete (.string text) containers) := by
        simp only [completeString, List.reverse_reverse, String.ofList_toList, Bool.false_eq_true,
          if_false]
      refine ⟨complete (.string text) containers, ?_, holds_complete root _ containers⟩
      rw [Layout.chars, Json.chars, quoteChars, List.cons_append, run_cons, opened,
        Option.bind_some, run_string, completed]
      all_goals nofun
  | .array [], _, containers, keeps, shallow => by
      obtain ⟨notSkipped, -⟩ := keeps
      have room : containers.length + 1 < nestingLimit := shallow
      refine ⟨complete (.array []) containers, ?_, holds_complete root _ containers⟩
      change run root ⟨containers, .value⟩ ['[', ']'] = _
      rw [run_cons, open_array notSkipped, if_pos room]
      rfl
  | .array (item :: rest), level, containers, keeps, shallow => by
      obtain ⟨notSkipped, keepsItem, keepsRest⟩ := keeps
      simp only [depth, depthAll] at shallow
      obtain ⟨machine, reads, holds⟩ := run_chars item (level + 1)
        (.array (expected root containers).ofArray [] :: containers) keepsItem
        (by simp only [List.length_cons]; omega)
      refine ⟨_, ?_, holds_complete root _ containers⟩
      rw [Layout.chars, run_cons, open_array notSkipped, if_pos (by omega), Option.bind_some,
        run_firstItem layout (level + 1) keepsItem, run_append, reads, Option.bind_some,
        run_itemsChars rest keepsItem keepsRest (by omega) holds]
      rfl
  | .object [], _, containers, keeps, shallow => by
      obtain ⟨notSkipped, -⟩ := keeps
      have room : containers.length + 1 < nestingLimit := shallow
      refine ⟨complete (.object []) containers, ?_, holds_complete root _ containers⟩
      change run root ⟨containers, .value⟩ ['\x7b', '\x7d'] = _
      rw [run_cons, open_object notSkipped, if_pos room]
      rfl
  | .object ((name, value) :: rest), level, containers, keeps, shallow => by
      obtain ⟨notSkipped, keepsValue, keepsRest⟩ := keeps
      simp only [depth, depthFields] at shallow
      obtain ⟨machine, reads, holds⟩ := run_chars value (level + 1)
        (.object (expected root containers).ofObject [] name :: containers) keepsValue
        (by simp only [List.length_cons]; omega)
      refine ⟨_, ?_, holds_complete root _ containers⟩
      rw [Layout.chars, run_cons, open_object notSkipped, if_pos (by omega), Option.bind_some,
        run_name layout (level + 1) notSkipped (Or.inl rfl), run_append, reads, Option.bind_some,
        run_fieldsChars rest notSkipped keepsValue keepsRest (by omega) holds]
      rfl

/-- The items of an array are read one by one, up to its end. -/
theorem run_itemsChars : ∀ (items : List Json) {level : Nat} {machine : Machine} {shape : Shape}
    {before : List Json} {item : Json} {outer : List Container},
    Keeps (shape.item before) item → KeepsAll shape (item :: before) items →
    outer.length + depthAll items + 1 < nestingLimit →
    Holds root machine item (.array shape before :: outer) →
    run root machine (layout.itemsChars level items) =
      some (complete (.array (before.reverse ++ item :: items)) outer)
  | [], level, _, _, _, _, _, keepsItem, _, _, holds => by
      rw [Layout.itemsChars, holds.end_array layout level keepsItem]
  | next :: rest, level, machine, shape, before, item, outer, keepsItem, keeps, shallow, holds => by
      obtain ⟨keepsNext, keepsRest⟩ := keeps
      simp only [depthAll] at shallow
      obtain ⟨later, reads, holdsNext⟩ := run_chars next (level + 1)
        (.array shape (item :: before) :: outer) keepsNext
        (by simp only [List.length_cons]; omega)
      rw [Layout.itemsChars, holds.run_nextItem layout (level + 1) keepsItem, run_append, reads,
        Option.bind_some, run_itemsChars rest keepsNext keepsRest (by omega) holdsNext,
        List.reverse_cons, List.append_assoc]
      rfl

/-- The fields of an object are read one by one, up to its end. -/
theorem run_fieldsChars : ∀ (rest : List (String × Json)) {level : Nat} {machine : Machine}
    {shape : Shape} {before : List (String × Json)} {name : String} {value : Json}
    {outer : List Container},
    shape.isSkipped = false → Keeps (shape.field name) value → KeepsFields shape rest →
    outer.length + depthFields rest + 1 < nestingLimit →
    Holds root machine value (.object shape before name :: outer) →
    run root machine (layout.fieldsChars level rest) =
      some (complete (.object (before.reverse ++ (name, value) :: rest)) outer)
  | [], level, _, _, _, _, _, _, _, keepsValue, _, _, holds => by
      rw [Layout.fieldsChars, holds.end_object layout level keepsValue]
  | (next, item) :: rest, level, machine, shape, before, name, value, outer, notSkipped, keepsValue,
      keeps, shallow, holds => by
      obtain ⟨keepsItem, keepsRest⟩ := keeps
      simp only [depthFields] at shallow
      obtain ⟨later, reads, holdsItem⟩ := run_chars item (level + 1)
        (.object shape ((name, value) :: before) next :: outer) keepsItem
        (by simp only [List.length_cons]; omega)
      rw [Layout.fieldsChars, holds.run_nextField layout (level + 1) notSkipped keepsValue,
        run_append, reads, Option.bind_some,
        run_fieldsChars rest notSkipped keepsItem keepsRest (by omega) holdsItem, List.reverse_cons,
        List.append_assoc]
      rfl

end

mutual

/-- The text of a value that nests too deep is refused. -/
theorem run_deep : ∀ (value : Json) (level : Nat) (containers : List Container),
    Keeps (expected root containers) value → containers.length < nestingLimit →
    nestingLimit ≤ containers.length + value.depth →
    run root ⟨containers, .value⟩ (layout.chars level value) = none
  | .null, _, _, _, inside, deep => absurd inside (Nat.not_lt.mpr deep)
  | .bool _, _, _, _, inside, deep => absurd inside (Nat.not_lt.mpr deep)
  | .integer _, _, _, _, inside, deep => absurd inside (Nat.not_lt.mpr deep)
  | .decimal _, _, _, keeps, _, _ => keeps.elim
  | .string _, _, _, _, inside, deep => absurd inside (Nat.not_lt.mpr deep)
  | .array [], _, containers, keeps, _, deep => by
      have full : ¬containers.length + 1 < nestingLimit := Nat.not_lt.mpr deep
      change run root ⟨containers, .value⟩ ['[', ']'] = _
      rw [run_cons, open_array keeps.1, if_neg full]
      rfl
  | .array (item :: rest), level, containers, keeps, _, deep => by
      obtain ⟨notSkipped, keepsItem, keepsRest⟩ := keeps
      simp only [depth, depthAll] at deep
      rw [Layout.chars, run_cons, open_array notSkipped]
      by_cases room : containers.length + 1 < nestingLimit
      · let inner := .array (expected root containers).ofArray [] :: containers
        rw [if_pos room, Option.bind_some, run_firstItem layout (level + 1) keepsItem, run_append]
        by_cases shallow : inner.length + item.depth < nestingLimit
        · obtain ⟨machine, reads, holds⟩ :=
            run_chars layout item (level + 1) inner keepsItem shallow
          simp only [inner, List.length_cons] at shallow
          rw [reads, Option.bind_some,
            run_itemsChars_deep rest keepsItem keepsRest room (by omega) holds]
        · rw [run_deep item (level + 1) inner keepsItem room (Nat.not_lt.mp shallow)]
          rfl
      · rw [if_neg room]
        rfl
  | .object [], _, containers, keeps, _, deep => by
      have full : ¬containers.length + 1 < nestingLimit := Nat.not_lt.mpr deep
      change run root ⟨containers, .value⟩ ['\x7b', '\x7d'] = _
      rw [run_cons, open_object keeps.1, if_neg full]
      rfl
  | .object ((name, value) :: rest), level, containers, keeps, _, deep => by
      obtain ⟨notSkipped, keepsValue, keepsRest⟩ := keeps
      simp only [depth, depthFields] at deep
      rw [Layout.chars, run_cons, open_object notSkipped]
      by_cases room : containers.length + 1 < nestingLimit
      · let inner := .object (expected root containers).ofObject [] name :: containers
        rw [if_pos room, Option.bind_some, run_name layout (level + 1) notSkipped (Or.inl rfl),
          run_append]
        by_cases shallow : inner.length + value.depth < nestingLimit
        · obtain ⟨machine, reads, holds⟩ :=
            run_chars layout value (level + 1) inner keepsValue shallow
          simp only [inner, List.length_cons] at shallow
          rw [reads, Option.bind_some,
            run_fieldsChars_deep rest notSkipped keepsValue keepsRest room (by omega) holds]
        · rw [run_deep value (level + 1) inner keepsValue room (Nat.not_lt.mp shallow)]
          rfl
      · rw [if_neg room]
        rfl

/-- Items that nest too deep for the reader leave it nowhere. -/
theorem run_itemsChars_deep : ∀ (items : List Json) {level : Nat} {machine : Machine}
    {shape : Shape} {before : List Json} {item : Json} {outer : List Container},
    Keeps (shape.item before) item → KeepsAll shape (item :: before) items →
    outer.length + 1 < nestingLimit → nestingLimit ≤ outer.length + depthAll items + 1 →
    Holds root machine item (.array shape before :: outer) →
    run root machine (layout.itemsChars level items) = none
  | [], _, _, _, _, _, _, _, _, room, deep, _ => absurd room (Nat.not_lt.mpr deep)
  | next :: rest, level, machine, shape, before, item, outer, keepsItem, keeps, room, deep,
      holds => by
      obtain ⟨keepsNext, keepsRest⟩ := keeps
      simp only [depthAll] at deep
      let inner := .array shape (item :: before) :: outer
      rw [Layout.itemsChars, holds.run_nextItem layout (level + 1) keepsItem, run_append]
      by_cases shallow : inner.length + next.depth < nestingLimit
      · obtain ⟨later, reads, holdsNext⟩ :=
          run_chars layout next (level + 1) inner keepsNext shallow
        simp only [inner, List.length_cons] at shallow
        rw [reads, Option.bind_some,
          run_itemsChars_deep rest keepsNext keepsRest room (by omega) holdsNext]
      · rw [run_deep next (level + 1) inner keepsNext room (Nat.not_lt.mp shallow)]
        rfl

/-- Fields that nest too deep for the reader leave it nowhere. -/
theorem run_fieldsChars_deep : ∀ (rest : List (String × Json)) {level : Nat} {machine : Machine}
    {shape : Shape} {before : List (String × Json)} {name : String} {value : Json}
    {outer : List Container},
    shape.isSkipped = false → Keeps (shape.field name) value → KeepsFields shape rest →
    outer.length + 1 < nestingLimit → nestingLimit ≤ outer.length + depthFields rest + 1 →
    Holds root machine value (.object shape before name :: outer) →
    run root machine (layout.fieldsChars level rest) = none
  | [], _, _, _, _, _, _, _, _, _, _, room, deep, _ => absurd room (Nat.not_lt.mpr deep)
  | (next, item) :: rest, level, machine, shape, before, name, value, outer, notSkipped, keepsValue,
      keeps, room, deep, holds => by
      obtain ⟨keepsItem, keepsRest⟩ := keeps
      simp only [depthFields] at deep
      let inner := .object shape ((name, value) :: before) next :: outer
      rw [Layout.fieldsChars, holds.run_nextField layout (level + 1) notSkipped keepsValue,
        run_append]
      by_cases shallow : inner.length + item.depth < nestingLimit
      · obtain ⟨later, reads, holdsItem⟩ :=
          run_chars layout item (level + 1) inner keepsItem shallow
        simp only [inner, List.length_cons] at shallow
        rw [reads, Option.bind_some,
          run_fieldsChars_deep rest notSkipped keepsItem keepsRest room (by omega) holdsItem]
      · rw [run_deep item (level + 1) inner keepsItem room (Nat.not_lt.mp shallow)]
        rfl

end

end Values

end Machine

section Reading

variable {shape : Shape} {value : Json}

/-- A text of the value, without blanks or with one line for every item. -/
inductive Prints (value : Json) : String → Prop where
  | compact : Prints value value.render
  | indented : Prints value value.pretty

/-- Every text of the value is a text in some layout. -/
theorem Prints.layout {text : String} (prints : Prints value text) :
    ∃ layout : Layout, text.toList = layout.chars 0 value := by
  cases prints with
  | compact => exact ⟨.compact, String.toList_ofList.trans (Layout.chars_compact 0 value).symm⟩
  | indented => exact ⟨.indented, String.toList_ofList.trans (Layout.chars_indented 0 value).symm⟩

/-- Reading undoes printing, if the value does not nest too deep. -/
theorem read_print (keeps : Keeps shape value) (shallow : value.depth < Machine.nestingLimit)
    {text : String} (prints : Prints value text) : read shape text = .ok value := by
  obtain ⟨layout, isText⟩ := prints.layout
  obtain ⟨machine, reads, holds⟩ : ∃ machine,
      Machine.run shape ⟨[], .value⟩ (layout.chars 0 value) = some machine ∧
        Machine.Holds shape machine value [] :=
    Machine.run_chars layout value 0 [] keeps (by simpa using shallow)
  have whole : Machine.start.run shape text.toList = some machine := by
    rw [isText]
    exact reads
  simp only [read, whole]
  exact holds.ends rfl

/-- A value that nests too deep can be printed, but not be read. -/
theorem read_print_deep (keeps : Keeps shape value) (deep : Machine.nestingLimit ≤ value.depth)
    {text : String} (prints : Prints value text) : read shape text = .error .syntaxError := by
  obtain ⟨layout, isText⟩ := prints.layout
  have refused : Machine.run shape ⟨[], .value⟩ (layout.chars 0 value) = none :=
    Machine.run_deep layout value 0 [] keeps (by decide) (by simpa using deep)
  have whole : Machine.start.run shape text.toList = none := by
    rw [isText]
    exact refused
  simp only [read, whole]

end Reading

end NullFlow.Json
