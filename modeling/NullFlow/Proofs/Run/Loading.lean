import NullFlow.Input
import NullFlow.Proofs.Body.Formats
/-!
Loading undoes printing. An input whose print does not nest too deep is loaded from its print, or
refused for the defect that it has. The print of a loaded input may nest deeper than the text that
the input was loaded from, because it shows empty lists of type arguments that the text leaves out.
Then the print is refused.
-/

namespace NullFlow

open Json (Format Prints Machine.nestingLimit)

namespace Input

/-- The numbers of the input have 32 bits, and its classes are found by their names. -/
structure Fits (input : Input) : Prop where
  classes : ClassTable.IsNamed input.classes
  methods : ∀ body ∈ input.methods, body.Fits

theorem format : Format shape toJson ofJson Fits where
  isPresent := nofun
  keeps fit :=
    ⟨rfl, ClassTable.format.keeps fit.classes, Body.format.list.keeps fit.methods, trivial⟩
  reads fit shallow := by
    refine Json.bind_ok rfl ?_
    refine Json.bind_ok
      (ClassTable.format.withDefault "types" SortedMap.empty rfl fit.classes shallow) ?_
    exact Json.bind_ok (Body.format.list.required "methods" rfl fit.methods shallow) rfl
  assures value := by
    refine .bind .any fun record _ => ?_
    refine .bind (ClassTable.format.assures_withDefault record "types" nofun) fun classes first => ?_
    refine .bind (Body.format.list.assures_required record "methods") fun methods second => ?_
    exact .pure ⟨first, second⟩

section Loading

variable {input : Input} {text : String}

theorem ofValue_eq {value : Json} (decoded : ofJson value = .ok input) :
    ofValue value = (input.validate.mapError .malformed).map fun _ => input := by
  have validated : ofValue value =
      (input.validate.mapError .malformed >>= fun _ => Except.ok input) := by
    rw [ofValue, decoded]
    rfl
  rw [validated]
  cases input.validate <;> rfl

theorem load_eq {value : Json} (read : Json.read shape text = .ok value)
    (decoded : ofJson value = .ok input) :
    load text = (input.validate.mapError .malformed).map fun _ => input := by
  rw [load, read, ← ofValue_eq decoded]
  rfl

/-- What is loaded has been decoded and has no defect. -/
theorem decoded_of_load (loads : load text = .ok input) :
    (∃ value, ofJson value = .ok input) ∧ input.validate = .ok () := by
  rw [load] at loads
  cases read : Json.read shape text with
  | error fault =>
      rw [read] at loads
      cases loads
  | ok value =>
      rw [read] at loads
      change ofValue value = .ok input at loads
      cases decoded : ofJson value with
      | error fault =>
          rw [ofValue, decoded] at loads
          cases loads
      | ok other =>
          rw [ofValue_eq decoded] at loads
          cases valid : other.validate with
          | error fault =>
              rw [valid] at loads
              cases loads
          | ok =>
              rw [valid] at loads
              obtain rfl : other = input := Except.ok.inj loads
              exact ⟨⟨value, decoded⟩, valid⟩

theorem fits_of_load (loads : load text = .ok input) : input.Fits := by
  obtain ⟨⟨value, found⟩, -⟩ := decoded_of_load loads
  exact format.assures value input found

theorem read_print (fit : input.Fits) (shallow : input.toJson.depth < Machine.nestingLimit)
    (prints : Prints input.toJson text) : Json.read shape text = .ok input.toJson :=
  Json.read_print (format.keeps fit) shallow prints

theorem ofJson_toJson (fit : input.Fits) (shallow : input.toJson.depth < Machine.nestingLimit) :
    ofJson input.toJson = .ok input := format.reads fit (Nat.le_of_lt shallow)

theorem refused_of_deep (fit : input.Fits) (deep : Machine.nestingLimit ≤ input.toJson.depth)
    (prints : Prints input.toJson text) : load text = .error (.json .syntaxError) := by
  rw [load, Json.read_print_deep (format.keeps fit) deep prints]
  rfl

end Loading

/-- The print of an input that does not nest too deep is decoded as the input, and loaded as it if
the input is valid. Otherwise it is refused for the defect of the input. The print of a loaded input
is loaded as the input if it does not nest too deep, and is refused as a text if it does. -/
theorem load_print :
    (∀ (input : Input) (text : String), input.Fits →
      input.toJson.depth < Machine.nestingLimit → Prints input.toJson text →
        (Json.read shape text >>= ofJson) = .ok input ∧
        (input.validate = .ok () → load text = .ok input) ∧
        ∀ fault, input.validate = .error fault → load text = .error (.malformed fault)) ∧
    ∀ (source : String) (input : Input) (text : String), load source = .ok input →
      Prints input.toJson text →
        (input.toJson.depth < Machine.nestingLimit → load text = .ok input) ∧
        (Machine.nestingLimit ≤ input.toJson.depth → load text = .error (.json .syntaxError)) := by
  refine ⟨fun input text fit shallow prints => ?_, fun source input text loads prints => ?_⟩
  · have read := read_print fit shallow prints
    have decoded := ofJson_toJson fit shallow
    refine ⟨Json.bind_ok read decoded, fun valid => ?_, fun fault defective => ?_⟩
    · rw [load_eq read decoded, valid]
      rfl
    · rw [load_eq read decoded, defective]
      rfl
  · have fit := fits_of_load loads
    refine ⟨fun shallow => ?_, fun deep => ?_⟩
    · rw [load_eq (read_print fit shallow prints) (ofJson_toJson fit shallow),
        (decoded_of_load loads).2]
      rfl
    · exact refused_of_deep fit deep prints

/-- A class with a base, and a method that returns null. -/
def nullReturn : Input where
  classes := .ofList [⟨"D", ["T"], some (.named "C" [.parameter "T" .nullable] .plain)⟩]
  methods := [{
    name := "M"
    span? := some (.point "M.cs" 1 1)
    thisType? := none
    parameters := [0]
    returnType := .named "C" [.value "int" .plain] .nullable
    locals := #[⟨"p", .dynamic .oblivious, false⟩]
    exprs := #[⟨.literal .null, some (.null .plain), .point "M.cs" 2 3⟩]
    stmts := #[⟨.returnValue (some 0), .none⟩]
    root := 0 }]

/-- The same input with a method whose body lies outside the arena. -/
def rootless : Input := { nullReturn with
  methods := nullReturn.methods.map fun body => { body with root := 1 } }

theorem load_print_nullReturn :
    load nullReturn.toJson.pretty = .ok nullReturn ∧
      load nullReturn.toJson.render = .ok nullReturn ∧
      load rootless.toJson.render = .error (.malformed ⟨"M", .outOfRange (.stmt 1)⟩) := by
  have fits : nullReturn.Fits := format.assures nullReturn.toJson nullReturn rfl
  have alsoFits : rootless.Fits := format.assures rootless.toJson rootless rfl
  have loads : load nullReturn.toJson.pretty = .ok nullReturn :=
    (load_print.1 nullReturn _ fits (by decide) .indented).2.1 rfl
  refine ⟨loads, (load_print.2 _ nullReturn _ loads .compact).1 (by decide), ?_⟩
  exact (load_print.1 rootless _ alsoFits (by decide) .compact).2.2 _ rfl

end Input

namespace Ty

/-- Arrays of arrays of objects of a class. -/
def nestedArray : Nat → Ty
  | 0 => .named "C" [] .plain
  | count + 1 => .array (nestedArray count) .plain

/-- The type as it may be written: without marks and without an empty list of type arguments. -/
def briefArray : Nat → Json
  | 0 => .object [("kind", .string "named"), ("name", .string "C")]
  | count + 1 => .object [("kind", .string "array"), ("element", briefArray count)]

theorem keeps_briefArray : ∀ count : Nat, Json.Keeps .whole (briefArray count)
  | 0 => ⟨rfl, rfl, rfl, trivial⟩
  | count + 1 => ⟨rfl, rfl, keeps_briefArray count, trivial⟩

theorem depth_briefArray : ∀ count : Nat, (briefArray count).depth = count + 1
  | 0 => rfl
  | count + 1 => by
      simp only [briefArray, Json.depth, Json.depthFields, depth_briefArray count]
      omega

/-- The print nests one level deeper, because it has the list of type arguments. -/
theorem depth_nestedArray : ∀ count : Nat, (nestedArray count).toJson.depth = count + 2
  | 0 => rfl
  | count + 1 => by
      simp only [nestedArray, toJson, Mark.toJson, Json.depth, Json.depthFields,
        depth_nestedArray count]
      omega

theorem ofFields_brief (decodeMark : Json → Json.Decoded Mark) {decode : Json → Json.Decoded Ty} :
    ∀ {count : Nat}, (∀ inner < count, decode (briefArray inner) = .ok (nestedArray inner)) →
    ∃ fields, briefArray count = .object fields ∧
      ofFields decodeMark decode fields = .ok (nestedArray count)
  | 0, _ => ⟨_, rfl, rfl⟩
  | count + 1, decodes => by
      refine ⟨_, rfl, Json.bind_ok rfl <| Json.bind_ok rfl <| Json.bind_ok rfl ?_⟩
      exact Json.bind_ok rfl <| Json.bind_ok (decodes count (Nat.lt_succ_self count)) rfl

theorem ofJsonTo_brief : ∀ {limit count : Nat}, count < limit →
    ofJsonTo limit (briefArray count) = .ok (nestedArray count)
  | limit + 1, count, below => by
      obtain ⟨fields, written, decoded⟩ := ofFields_brief Mark.ofJson
        fun inner inside => ofJsonTo_brief (Nat.lt_of_lt_of_le inside (Nat.le_of_lt_succ below))
      rw [written]
      exact decoded

theorem ofOuterJson_brief {count : Nat} (below : count ≤ Machine.nestingLimit) :
    ofOuterJson (briefArray count) = .ok (nestedArray count) := by
  obtain ⟨fields, written, decoded⟩ := ofFields_brief Mark.ofOuterJson
    fun inner inside => ofJsonTo_brief (Nat.lt_of_lt_of_le inside below)
  rw [written]
  exact decoded

end Ty

namespace Input

/-- A method that returns deeply nested arrays. -/
def deepBody (count : Nat) : Body where
  name := "M"
  span? := none
  thisType? := none
  parameters := []
  returnType := .nestedArray count
  locals := #[]
  exprs := #[]
  stmts := #[⟨.empty, .none⟩]
  root := 0

def deepInput (count : Nat) : Input := ⟨.empty, [deepBody count]⟩

/-- The method without the fields that may be missing. -/
def briefBody (count : Nat) : Json := .object [
  ("name", .string "M"), ("return_type", Ty.briefArray count), ("exprs", .array []),
  ("stmts", .array [.object [("kind", .object [("kind", .string "empty")])]]),
  ("root", .natural 0)]

def briefInput (count : Nat) : Json := .object [("methods", .array [briefBody count])]

theorem keeps_briefInput (count : Nat) : Json.Keeps shape (briefInput count) := by
  have keepsBody : Json.Keeps Body.shape (briefBody count) :=
    ⟨rfl, rfl, Ty.keeps_briefArray count, ⟨rfl, trivial⟩,
      ⟨rfl, ⟨rfl, ⟨rfl, rfl, trivial⟩, trivial⟩, trivial⟩,
      (Format.word rfl).keeps .zero, trivial⟩
  exact ⟨rfl, ⟨rfl, keepsBody, trivial⟩, trivial⟩

theorem ofJson_briefInput {count : Nat} (below : count ≤ Machine.nestingLimit) :
    ofJson (briefInput count) = .ok (deepInput count) := by
  have body : Body.ofJson (briefBody count) = .ok (deepBody count) := by
    refine Json.bind_ok rfl <| Json.bind_ok rfl <| Json.bind_ok rfl <| Json.bind_ok rfl <|
      Json.bind_ok rfl ?_
    exact Json.bind_ok (Ty.ofOuterJson_brief below) rfl
  have methods : [briefBody count].mapM Body.ofJson = .ok [deepBody count] := by
    rw [List.mapM_cons]
    exact Json.bind_ok body rfl
  exact Json.bind_ok rfl <| Json.bind_ok rfl <| Json.bind_ok methods rfl

/-- The print of what the brief text is loaded as nests too deep. -/
theorem load_briefInput :
    load (briefInput 123).render = .ok (deepInput 123) ∧
      load (deepInput 123).toJson.render = .error (.json .syntaxError) := by
  have shallow : (briefInput 123).depth < Machine.nestingLimit := by
    simp only [briefInput, briefBody, Json.depth, Json.depthAll, Json.depthFields, Json.natural,
      Ty.depth_briefArray, Machine.nestingLimit]
    omega
  have loads : load (briefInput 123).render = .ok (deepInput 123) := by
    rw [load_eq (Json.read_print (keeps_briefInput 123) shallow .compact)
      (ofJson_briefInput (by decide))]
    rfl
  have deep : Machine.nestingLimit ≤ (deepInput 123).toJson.depth := by
    simp only [deepInput, deepBody, toJson, Json.list, List.map_cons, List.map_nil, Body.toJson,
      Json.depth, Json.depthAll, Json.depthFields, Ty.depth_nestedArray, Machine.nestingLimit]
    omega
  exact ⟨loads, refused_of_deep (fits_of_load loads) deep .compact⟩

end Input
end NullFlow
