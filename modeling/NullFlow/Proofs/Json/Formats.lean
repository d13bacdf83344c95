import NullFlow.Json.Decode
import NullFlow.Proofs.Json.Reading
/-!
Formats: encoders and decoders that agree. A decoder undoes the encoder on items that fit, such as
numbers of 32 bits, and decodes nothing but items that fit. The formats of records are put together
from those of their fields.
-/

namespace NullFlow.Json

variable {Item Result : Type}

/-- Every item that is decoded has the property. -/
def Assures (decoded : Decoded Item) (property : Item → Prop) : Prop :=
  ∀ item, decoded = .ok item → property item

namespace Assures

theorem any {decoded : Decoded Item} : Assures decoded fun _ => True := fun _ _ => trivial

theorem pure {item : Item} {property : Item → Prop} (holds : property item) :
    Assures (Pure.pure item) property := by
  intro other decoded
  obtain rfl := Except.ok.inj decoded
  exact holds

theorem misfit {property : Item → Prop} : Assures Json.misfit property := nofun

/-- What is decoded in two steps is assured by the second, given what the first assures. -/
theorem bind {decoded : Decoded Item} {next : Item → Decoded Result} {first : Item → Prop}
    {second : Result → Prop} (assures : Assures decoded first)
    (goesOn : ∀ item, first item → Assures (next item) second) :
    Assures (decoded >>= next) second := by
  intro result returned
  cases answer : decoded with
  | error fault =>
      rw [answer] at returned
      cases returned
  | ok item =>
      rw [answer] at returned
      exact goesOn item (assures item answer) result returned

/-- A required field is read back as it was written. -/
theorem required {decode : Json → Decoded Item} {property : Item → Prop}
    (assures : ∀ value, Assures (decode value) property) (record : Record) (name : String) :
    Assures (record.required name decode) property := by
  rw [Record.required]
  split
  · exact assures _
  · exact .misfit

end Assures

theorem bind_ok {decoded : Decoded Item} {next : Item → Decoded Result} {item : Item}
    {result : Result} (first : decoded = .ok item) (second : next item = .ok result) :
    (decoded >>= next) = .ok result := by
  rw [first]
  exact second

/-- An encoder and a decoder agree on the items that fit. -/
structure Format (shape : Shape) (encode : Item → Json) (decode : Json → Decoded Item)
    (fits : Item → Prop) : Prop where
  isPresent : ∀ item, encode item ≠ .null
  keeps : ∀ {item}, fits item → Keeps shape (encode item)
  reads : ∀ {item}, fits item → (encode item).depth ≤ Machine.nestingLimit →
    decode (encode item) = .ok item
  assures : ∀ value, Assures (decode value) fits

section Depth

variable {fields : List (String × Json)} {value : Json} {items : List Json}

/-- An item nests no deeper than its array. -/
theorem depth_le_depthAll (member : value ∈ items) : value.depth ≤ depthAll items := by
  induction items with
  | nil => cases member
  | cons item rest ih =>
      rw [depthAll]
      rcases List.mem_cons.mp member with rfl | later
      · exact Nat.le_max_left _ _
      · exact Nat.le_trans (ih later) (Nat.le_max_right _ _)

/-- A field nests no deeper than the others together with it. -/
theorem depth_le_depthFields {name : String} (found : fields.lookup name = some value) :
    value.depth ≤ depthFields fields := by
  induction fields with
  | nil => cases found
  | cons field rest ih =>
      obtain ⟨present, other⟩ := field
      rw [depthFields]
      rw [List.lookup_cons] at found
      split at found
      · obtain rfl := Option.some.inj found
        exact Nat.le_max_left _ _
      · exact Nat.le_trans (ih found) (Nat.le_max_right _ _)

/-- A field nests less deep than its object. -/
theorem depth_field_le {limit : Nat} (name : String) (found : fields.lookup name = some value)
    (shallow : (object fields).depth ≤ limit) : value.depth ≤ limit :=
  Nat.le_trans (depth_le_depthFields found) (Nat.le_of_succ_le shallow)

end Depth

namespace Format

variable {shape : Shape} {encode : Item → Json} {decode : Json → Decoded Item} {fits : Item → Prop}

section Fields

variable {fields : List (String × Json)} {item : Item} {item? : Option Item}
  (format : Format shape encode decode fits)

include format

theorem required (name : String) (found : fields.lookup name = some (encode item))
    (fit : fits item) (shallow : (object fields).depth ≤ Machine.nestingLimit) :
    Record.required (fun name => fields.lookup name) name decode = .ok item := by
  simp only [Record.required, found]
  exact format.reads fit (depth_field_le name found shallow)

/-- A field with a default is read back as it was written. -/
theorem withDefault (name : String) (default : Item)
    (found : fields.lookup name = some (encode item)) (fit : fits item)
    (shallow : (object fields).depth ≤ Machine.nestingLimit) :
    Record.withDefault (fun name => fields.lookup name) name default decode = .ok item := by
  simp only [Record.withDefault, found]
  exact format.reads fit (depth_field_le name found shallow)

/-- A field that may be missing is read back as it was written, or as missing. -/
theorem optional (name : String) (found : fields.lookup name = some (Json.optional encode item?))
    (fit : ∀ item ∈ item?, fits item) (shallow : (object fields).depth ≤ Machine.nestingLimit) :
    Record.optional (fun name => fields.lookup name) name decode = .ok item? := by
  cases item? with
  | none => simp only [Record.optional, found, Json.optional]
  | some item =>
      have decoded : decode (encode item) = .ok item := format.reads (fit item rfl)
        (depth_field_le name found shallow)
      rw [Record.optional.eq_def]
      simp only [found, Json.optional]
      split
      · rename_i isNull
        exact absurd (Option.some.inj isNull) (format.isPresent item)
      · rename_i other _ isValue
        obtain rfl := Option.some.inj isValue
        rw [decoded]
        rfl
      · contradiction

/-- The content of a choice is decoded. -/
theorem content {name : String} (fit : fits item)
    (shallow : (object [(name, encode item)]).depth ≤ Machine.nestingLimit) :
    decode (encode item) = .ok item := by
  have found : [(name, encode item)].lookup name = some (encode item) := List.lookup_cons_self
  exact format.reads fit (depth_field_le name found shallow)

/-- A required field that is read fits. -/
theorem assures_required (record : Record) (name : String) :
    Assures (record.required name decode) fits := .required format.assures record name

/-- A field with a default fits, if the default does. -/
theorem assures_withDefault (record : Record) (name : String) {default : Item}
    (fit : fits default) : Assures (record.withDefault name default decode) fits := by
  rw [Record.withDefault]
  split
  · exact format.assures _
  · exact .pure fit

theorem assures_optional (record : Record) (name : String) :
    Assures (record.optional name decode) fun item? => ∀ item ∈ item?, fits item := by
  rw [Record.optional.eq_def]
  split
  · exact .pure nofun
  · rename_i value _ _
    refine .bind (format.assures value) fun item fit => .pure ?_
    rintro _ ⟨⟩
    exact fit
  · exact .pure nofun

/-- A field that may be missing keeps all that a reader needs. -/
theorem keeps_optional (expects : shape.isSkipped = false) (fit : ∀ item ∈ item?, fits item) :
    Keeps shape (Json.optional encode item?) := by
  cases item? with
  | none => exact expects
  | some item => exact format.keeps (fit item rfl)

end Fields

section Scalars

theorem string (expects : shape.isSkipped = false) :
    Format shape Json.string asString fun _ => True where
  isPresent := nofun
  keeps _ := expects
  reads _ _ := rfl
  assures _ := .any

end Scalars

end Format

section Tagged

variable {decode : String → (List String → Decoded Record) → Decoded Result}

/-- A record with the name of its kind is decoded as the kind is. -/
theorem tagged_ok {kind : String} {fields : List (String × Json)} {result : Result}
    (single : (fields.filter fun field => field.1 == "kind") = [])
    (decoded : decode kind (fun names => objectRecord names (("kind", .string kind) :: fields)) =
      .ok result) : (tagged kind fields).asTagged decode = .ok result := by
  have record : objectRecord ["kind"] (("kind", .string kind) :: fields) =
      .ok fun name => (("kind", Json.string kind) :: fields).lookup name := by
    have once : ((("kind", Json.string kind) :: fields).filter fun field => field.1 == "kind") =
        [("kind", .string kind)] := by
      rw [List.filter_cons_of_pos rfl, single]
    rw [objectRecord, List.any_cons, once]
    rfl
  exact bind_ok record <| bind_ok rfl decoded

/-- A tagged value that is read fits, if its kind does. -/
theorem assures_asTagged {property : Result → Prop}
    (assures : ∀ kind fields, Assures (decode kind fields) property) (value : Json) :
    Assures (value.asTagged decode) property := by
  cases value with
  | object fields => exact .bind .any fun record _ => .bind .any fun kind _ => assures kind _
  | array items =>
      cases items with
      | nil => exact .misfit
      | cons tag items => exact .bind .any fun kind _ => assures kind _
  | _ => exact .misfit

end Tagged

/-- A number of 32 bits. -/
def IsWord (value : Nat) : Prop := value < 1 <<< 32

theorem IsWord.zero : IsWord 0 := by
  rw [IsWord]
  decide

namespace Format

variable {shape : Shape} {encode : Item → Json} {decode : Json → Decoded Item} {fits : Item → Prop}

/-- Numbers of a word are read back as they were written. -/
theorem word (expects : shape.isSkipped = false) : Format shape natural asWord IsWord where
  isPresent := nofun
  keeps {value} fit := by
    refine ⟨expects, Int.natCast_nonneg value, ?_⟩
    have small : value < 1 <<< 64 := Nat.lt_trans fit (by decide)
    exact_mod_cast small
  reads fit _ := if_pos fit
  assures value word decoded := by
    cases value with
    | integer number =>
        cases number with
        | ofNat number =>
            rw [asWord, asNatural] at decoded
            split at decoded
            · rename_i inRange
              obtain rfl := Except.ok.inj decoded
              exact inRange
            · cases decoded
        | negSucc number => cases decoded
    | _ => cases decoded

section Lists

/-- A list is read back if every item is. -/
theorem mapM_encode {items : List Item} (reads : ∀ item ∈ items, decode (encode item) = .ok item) :
    (items.map encode).mapM decode = .ok items := by
  induction items with
  | nil => rfl
  | cons item rest ih =>
      rw [List.map_cons, List.mapM_cons]
      refine bind_ok (reads item List.mem_cons_self) ?_
      exact bind_ok (ih fun other member => reads other (List.mem_cons_of_mem _ member)) rfl

theorem assures_mapM (assures : ∀ value, Assures (decode value) fits) (values : List Json) :
    Assures (values.mapM decode) fun items => ∀ item ∈ items, fits item := by
  induction values with
  | nil => exact .pure nofun
  | cons value rest ih =>
      rw [List.mapM_cons]
      refine .bind (assures value) fun item fit => .bind ih fun items fits => .pure ?_
      exact List.forall_mem_cons.mpr ⟨fit, fits⟩

/-- A list keeps all that a reader needs if every item does. -/
theorem keepsAll {list : Shape} (isItem : ∀ before, list.item before = shape) {items : List Item}
    (keeps : ∀ item ∈ items, Keeps shape (encode item)) (before : List Json) :
    KeepsAll list before (items.map encode) := by
  induction items generalizing before with
  | nil => trivial
  | cons item rest ih =>
      obtain ⟨keepsItem, keepsRest⟩ := List.forall_mem_cons.mp keeps
      exact ⟨(isItem before).symm ▸ keepsItem, ih keepsRest _⟩

/-- The format of lists of which every item has the format. -/
theorem listOf {list : Shape} (isItem : ∀ before, list.item before = shape)
    (isArray : list.ofArray = list) (expects : list.isSkipped = false)
    (format : Format shape encode decode fits) :
    Format list (Json.list encode) (asList decode) fun items => ∀ item ∈ items, fits item where
  isPresent := nofun
  keeps {items} fit := by
    rw [Json.list, Keeps, isArray]
    exact ⟨expects, keepsAll isItem (fun item member => format.keeps (fit item member)) []⟩
  reads {items} fit shallow := by
    refine mapM_encode fun item member => format.reads (fit item member) ?_
    have inside : (encode item).depth ≤ depthAll (items.map encode) :=
      depth_le_depthAll (List.mem_map_of_mem member)
    exact Nat.le_trans inside (Nat.le_of_succ_le shallow)
  assures value := by
    cases value with
    | array values => exact assures_mapM format.assures values
    | _ => exact .misfit

/-- Lists in a place where the items are expected. -/
theorem list (format : Format shape encode decode fits) :
    Format (.list shape) (Json.list encode) (asList decode)
      fun items => ∀ item ∈ items, fits item :=
  format.listOf (fun _ => rfl) rfl rfl

/-- Lists in a place where anything is expected. -/
theorem wholeList (format : Format .whole encode decode fits) :
    Format .whole (Json.list encode) (asList decode) fun items => ∀ item ∈ items, fits item :=
  format.listOf (fun _ => rfl) rfl rfl

/-- Arrays are written as lists. -/
theorem array (format : Format shape encode decode fits) :
    Format (.list shape) (fun items : Array Item => Json.list encode items.toList) (asArray decode)
      fun items => ∀ item ∈ items.toList, fits item where
  isPresent := nofun
  keeps fit := format.list.keeps fit
  reads fit shallow := by
    rw [asArray, format.list.reads fit shallow]
    rfl
  assures value := by
    refine .bind (format.list.assures value) fun items fit => .pure ?_
    exact fit

end Lists

end Format
end NullFlow.Json
