import NullFlow.Code.Format
import NullFlow.Proofs.Json.Formats
import NullFlow.Proofs.Store.Lookup
import NullFlow.Ty.Format
/-!
The formats of types and of class tables. A table of which every key is the name of its declaration
is written as the list of its declarations.
-/

namespace NullFlow

open Json (Format Machine.nestingLimit)

namespace Mark

/-- A mark is found by its name. -/
theorem ofName_name (mark : Mark) : ofName mark.name = .ok mark := by
  cases mark <;> rfl

theorem ofJson_toJson (mark : Mark) : ofJson mark.toJson = .ok mark := ofName_name mark

theorem ofOuterJson_toJson (mark : Mark) : ofOuterJson mark.toJson = .ok mark := ofName_name mark

end Mark

namespace Ty

theorem toJsonAll_eq_map (tys : List Ty) : toJsonAll tys = tys.map toJson := by
  induction tys with
  | nil => rfl
  | cons ty rest ih => rw [toJsonAll, List.map_cons, ih]

theorem toJson_isPresent (ty : Ty) : ty.toJson ≠ .null := by
  cases ty <;> exact nofun

mutual

/-- The text of a type keeps all that a reader needs of it. -/
theorem keeps_toJson : ∀ ty : Ty, Json.Keeps .whole ty.toJson
  | named _ arguments _ => ⟨rfl, rfl, rfl, ⟨rfl, keeps_toJsonAll arguments []⟩, rfl, trivial⟩
  | value _ _ => ⟨rfl, rfl, rfl, rfl, trivial⟩
  | array element _ => ⟨rfl, rfl, keeps_toJson element, rfl, trivial⟩
  | parameter _ _ => ⟨rfl, rfl, rfl, rfl, trivial⟩
  | delegate parameters result _ =>
      ⟨rfl, rfl, ⟨rfl, keeps_toJsonAll parameters []⟩, keeps_toJson result, rfl, trivial⟩
  | dynamic _ => ⟨rfl, rfl, rfl, trivial⟩
  | null _ => ⟨rfl, rfl, rfl, trivial⟩
  | error _ _ => ⟨rfl, rfl, rfl, rfl, trivial⟩

theorem keeps_toJsonAll : ∀ (tys : List Ty) (before : List Json),
    Json.KeepsAll .whole before (toJsonAll tys)
  | [], _ => trivial
  | ty :: rest, _ => ⟨keeps_toJson ty, keeps_toJsonAll rest _⟩

end

section Layers

variable {decodeMark : Json → Json.Decoded Mark} {decode : Json → Json.Decoded Ty} {limit : Nat}

/-- The types at the next level are decoded. -/
def Reads (decode : Json → Json.Decoded Ty) (limit : Nat) : Prop :=
  ∀ ty : Ty, ty.toJson.depth ≤ limit → decode ty.toJson = .ok ty

/-- Types in a list are read back if each one is. -/
theorem Reads.all (reads : Reads decode limit) {tys : List Ty}
    (shallow : Json.depthAll (toJsonAll tys) ≤ limit) :
    Json.asList decode (.array (toJsonAll tys)) = .ok tys := by
  rw [toJsonAll_eq_map] at shallow ⊢
  refine Format.mapM_encode fun ty member => reads ty ?_
  exact Nat.le_trans (Json.depth_le_depthAll (List.mem_map_of_mem member)) shallow

/-- A type is decoded if its mark and the types directly inside it are. -/
theorem ofFields_toJson (marks : ∀ mark : Mark, decodeMark mark.toJson = .ok mark)
    (reads : Reads decode limit) : ∀ ty : Ty, ty.toJson.depth ≤ limit + 1 →
    ∃ fields, ty.toJson = .object fields ∧ ofFields decodeMark decode fields = .ok ty
  | named name arguments mark, shallow => by
      refine ⟨_, rfl, Json.bind_ok rfl <| Json.bind_ok (marks mark) <| Json.bind_ok rfl ?_⟩
      simp only [toJson, Json.depth, Json.depthFields] at shallow
      have inside : Json.depthAll (toJsonAll arguments) ≤ limit := by omega
      exact Json.bind_ok rfl <| Json.bind_ok rfl <| Json.bind_ok (reads.all inside) rfl
  | value name mark, _ => by
      refine ⟨_, rfl, Json.bind_ok rfl <| Json.bind_ok (marks mark) <| Json.bind_ok rfl ?_⟩
      exact Json.bind_ok rfl <| Json.bind_ok rfl rfl
  | array element mark, shallow => by
      refine ⟨_, rfl, Json.bind_ok rfl <| Json.bind_ok (marks mark) <| Json.bind_ok rfl ?_⟩
      simp only [toJson, Json.depth, Json.depthFields] at shallow
      have below : element.toJson.depth ≤ limit := by omega
      exact Json.bind_ok rfl <| Json.bind_ok (reads element below) rfl
  | parameter name mark, _ => by
      refine ⟨_, rfl, Json.bind_ok rfl <| Json.bind_ok (marks mark) <| Json.bind_ok rfl ?_⟩
      exact Json.bind_ok rfl <| Json.bind_ok rfl rfl
  | delegate parameters result mark, shallow => by
      refine ⟨_, rfl, Json.bind_ok rfl <| Json.bind_ok (marks mark) <| Json.bind_ok rfl ?_⟩
      simp only [toJson, Json.depth, Json.depthFields] at shallow
      have inside : Json.depthAll (toJsonAll parameters) ≤ limit := by omega
      have below : result.toJson.depth ≤ limit := by omega
      refine Json.bind_ok rfl <| Json.bind_ok (reads.all inside) ?_
      exact Json.bind_ok (reads result below) rfl
  | dynamic mark, _ =>
      ⟨_, rfl, Json.bind_ok rfl <| Json.bind_ok (marks mark) <| Json.bind_ok rfl rfl⟩
  | null mark, _ =>
      ⟨_, rfl, Json.bind_ok rfl <| Json.bind_ok (marks mark) <| Json.bind_ok rfl rfl⟩
  | error name mark, _ => by
      refine ⟨_, rfl, Json.bind_ok rfl <| Json.bind_ok (marks mark) <| Json.bind_ok rfl ?_⟩
      exact Json.bind_ok rfl <| Json.bind_ok rfl rfl

/-- A type is read back as it was written, unless it nests deeper than the reader goes. -/
theorem reads_ofJsonTo : ∀ limit : Nat, Reads (ofJsonTo limit) limit
  | 0, ty, shallow => by
      cases ty <;> exact absurd shallow (Nat.not_succ_le_zero _)
  | limit + 1, ty, shallow => by
      obtain ⟨fields, written, decoded⟩ :=
        ofFields_toJson Mark.ofJson_toJson (reads_ofJsonTo limit) ty shallow
      rw [written]
      exact decoded

end Layers

/-- Types that stand in kinds. -/
theorem format : Format .whole toJson ofJson fun _ => True where
  isPresent := toJson_isPresent
  keeps _ := keeps_toJson _
  reads _ shallow := reads_ofJsonTo Machine.nestingLimit _ shallow
  assures _ := .any

/-- Types that stand in records. -/
theorem outerFormat : Format .whole toJson ofOuterJson fun _ => True where
  isPresent := toJson_isPresent
  keeps _ := keeps_toJson _
  reads {ty} _ shallow := by
    obtain ⟨fields, written, decoded⟩ := ofFields_toJson Mark.ofOuterJson_toJson
      (reads_ofJsonTo Machine.nestingLimit) ty (Nat.le_succ_of_le shallow)
    rw [written]
    exact decoded
  assures _ := .any

end Ty

namespace ClassDeclaration

theorem format : Format shape toJson ofJson fun _ => True where
  isPresent := nofun
  keeps {declaration} _ :=
    ⟨rfl, rfl, (Format.string rfl).list.keeps fun _ _ => trivial,
      Ty.outerFormat.keeps_optional rfl fun _ _ => trivial, trivial⟩
  reads {declaration} _ shallow := by
    refine Json.bind_ok rfl <| Json.bind_ok rfl ?_
    refine Json.bind_ok ((Format.string rfl).wholeList.withDefault "type_params" [] rfl
      (fun _ _ => trivial) shallow) ?_
    exact Json.bind_ok (Ty.outerFormat.optional "base" rfl (fun _ _ => trivial) shallow) rfl
  assures _ := .any

end ClassDeclaration

namespace SortedMap

variable {Key Item : Type} [Ord Key]

/-- Sorted maps with the same entries are the same. -/
theorem eq_of_entries {first second : SortedMap Key Item} (same : first.entries = second.entries) :
    first = second := by
  cases first
  cases second
  cases same
  rfl

variable [Std.OrientedOrd Key]

/-- A key above all others is put behind them. -/
theorem put_above {key : Key} (item : Item) {entries : List (Key × Item)}
    (above : ∀ entry ∈ entries, compare entry.1 key = .lt) :
    put key item entries = entries ++ [(key, item)] := by
  induction entries with
  | nil => rfl
  | cons head rest ih =>
      obtain ⟨present, old⟩ := head
      obtain ⟨below, others⟩ := List.forall_mem_cons.mp above
      have after : compare key present = .gt := Std.OrientedCmp.gt_of_lt below
      rw [put, after, ih others]
      rfl

end SortedMap

namespace ClassTable

/-- Every declaration has the name that it is found by. -/
def IsNamed (classes : ClassTable) : Prop :=
  ∀ entry ∈ SortedMap.entries classes, entry.2.name = entry.1

/-- A declaration goes under its own name. -/
theorem IsNamed.declare {classes : ClassTable} (named : classes.IsNamed)
    (declaration : ClassDeclaration) : (classes.declare declaration).IsNamed := by
  intro entry member
  rcases SortedMap.mem_put member with rfl | earlier
  · rfl
  · exact named entry earlier

theorem isNamed_foldl (declarations : List ClassDeclaration) {classes : ClassTable}
    (named : classes.IsNamed) : (declarations.foldl declare classes).IsNamed := by
  induction declarations generalizing classes with
  | nil => exact named
  | cons declaration rest ih => exact ih (named.declare declaration)

/-- Every class of a table that is read from a list is under its own name. -/
theorem isNamed_ofList (declarations : List ClassDeclaration) : (ofList declarations).IsNamed :=
  isNamed_foldl declarations nofun

/-- Classes that come in the order of their names are declared in that order. -/
theorem entries_foldl (rest : List (String × ClassDeclaration)) {classes : ClassTable}
    (named : ∀ entry ∈ rest, entry.2.name = entry.1)
    (ascending : Ascending (SortedMap.entries classes ++ rest)) :
    SortedMap.entries ((rest.map Prod.snd).foldl declare classes) =
      SortedMap.entries classes ++ rest := by
  induction rest generalizing classes with
  | nil => exact (List.append_nil _).symm
  | cons entry rest ih =>
      obtain ⟨name, declaration⟩ := entry
      obtain ⟨isName, others⟩ := List.forall_mem_cons.mp named
      dsimp only at isName
      subst isName
      have above : ∀ earlier ∈ SortedMap.entries classes,
          compare earlier.1 declaration.name = .lt := fun earlier member =>
        (List.pairwise_append.mp ascending).2.2 earlier member _ List.mem_cons_self
      have added : SortedMap.entries (classes.declare declaration) =
          SortedMap.entries classes ++ [(declaration.name, declaration)] :=
        SortedMap.put_above declaration above
      rw [List.map_cons, List.foldl_cons, ih others, added, List.append_assoc,
        List.singleton_append]
      rw [added, List.append_assoc]
      exact ascending

/-- A table is the table of its declarations. -/
theorem ofList_declarations {classes : ClassTable} (named : classes.IsNamed) :
    ofList classes.declarations = classes := by
  refine SortedMap.eq_of_entries ?_
  exact entries_foldl _ named (SortedMap.ascending classes)

theorem format : Format (.list ClassDeclaration.shape) toJson ofJson IsNamed where
  isPresent := nofun
  keeps _ := ClassDeclaration.format.list.keeps fun _ _ => trivial
  reads {classes} named shallow := by
    rw [ofJson, toJson, ClassDeclaration.format.list.reads (fun _ _ => trivial) shallow]
    exact congrArg Except.ok (ofList_declarations named)
  assures value := .bind .any fun declarations _ => .pure (isNamed_ofList declarations)

end ClassTable
end NullFlow

/-!
The formats of what expressions refer to. The only numbers in them are lines and columns.
-/

namespace NullFlow

open Json (Format Assures IsWord)

namespace Span

/-- The lines and columns are numbers of 32 bits. -/
structure Fits (span : Span) : Prop where
  startLine : IsWord span.startLine
  startColumn : IsWord span.startColumn
  endLine : IsWord span.endLine
  endColumn : IsWord span.endColumn

/-- The missing position fits into words. -/
theorem Fits.none : Fits .none := ⟨.zero, .zero, .zero, .zero⟩

theorem format : Format shape toJson ofJson Fits where
  isPresent := nofun
  keeps fit :=
    ⟨rfl, rfl, (Format.word rfl).keeps fit.startLine, (Format.word rfl).keeps fit.startColumn,
      (Format.word rfl).keeps fit.endLine, (Format.word rfl).keeps fit.endColumn, trivial⟩
  reads fit shallow := by
    have word : Format .whole Json.natural Json.asWord IsWord := .word rfl
    refine Json.bind_ok rfl <| Json.bind_ok rfl ?_
    refine Json.bind_ok (word.required "start_line" rfl fit.startLine shallow) ?_
    refine Json.bind_ok (word.required "start_col" rfl fit.startColumn shallow) ?_
    refine Json.bind_ok (word.withDefault "end_line" 0 rfl fit.endLine shallow) ?_
    exact Json.bind_ok (word.withDefault "end_col" 0 rfl fit.endColumn shallow) rfl
  assures value := by
    have word : Format .whole Json.natural Json.asWord IsWord := .word rfl
    refine .bind .any fun record _ => .bind .any fun file _ => ?_
    refine .bind (word.assures_required record "start_line") fun startLine first => ?_
    refine .bind (word.assures_required record "start_col") fun startColumn second => ?_
    refine .bind (word.assures_withDefault record "end_line" .zero) fun endLine third => ?_
    refine .bind (word.assures_withDefault record "end_col" .zero) fun endColumn fourth => ?_
    exact .pure ⟨first, second, third, fourth⟩

end Span

namespace Local

theorem format : Format shape toJson ofJson fun _ => True where
  isPresent := nofun
  keeps {declared} _ := ⟨rfl, rfl, Ty.outerFormat.keeps trivial, rfl, trivial⟩
  reads _ shallow := by
    refine Json.bind_ok rfl <| Json.bind_ok rfl ?_
    exact Json.bind_ok (Ty.outerFormat.required "ty" rfl trivial shallow) rfl
  assures _ := .any

end Local

namespace Literal

theorem format : Format .whole toJson ofJson fun _ => True where
  isPresent literal := by cases literal <;> exact nofun
  keeps {literal} _ := by
    cases literal with
    | null => exact rfl
    | _ => exact ⟨rfl, rfl, trivial⟩
  reads {literal} _ _ := by cases literal <;> rfl
  assures _ := .any

end Literal

namespace Pattern

theorem format : Format .whole toJson ofJson fun _ => True where
  isPresent pattern := by cases pattern <;> exact nofun
  keeps {pattern} _ := by
    cases pattern with
    | null => exact rfl
    | type ty => exact ⟨rfl, Ty.format.keeps trivial, trivial⟩
  reads {pattern} _ shallow := by
    cases pattern with
    | null => rfl
    | type ty =>
        exact Json.bind_ok rfl <| Json.bind_ok (Ty.format.content trivial shallow) rfl
  assures _ := .any

end Pattern

namespace BinaryOp

theorem format : Format .whole (fun operator => .string (name operator)) ofJson fun _ => True where
  isPresent := nofun
  keeps _ := rfl
  reads {operator} _ _ := by cases operator <;> rfl
  assures _ := .any

end BinaryOp

namespace UnaryOp

theorem format : Format .whole (fun operator => .string (name operator)) ofJson fun _ => True where
  isPresent := nofun
  keeps _ := rfl
  reads {operator} _ _ := by cases operator <;> rfl
  assures _ := .any

end UnaryOp

namespace Member

theorem format : Format .whole toJson ofJson fun _ => True where
  isPresent := nofun
  keeps _ :=
    ⟨rfl, rfl, (Format.string rfl).keeps_optional rfl fun _ _ => trivial, Ty.format.keeps trivial,
      trivial⟩
  reads _ shallow := by
    have text : Format .whole Json.string Json.asString fun _ => True := .string rfl
    refine Json.bind_ok rfl <| Json.bind_ok rfl ?_
    refine Json.bind_ok (text.optional "owner" rfl (fun _ _ => trivial) shallow) ?_
    exact Json.bind_ok (Ty.format.required "ty" rfl trivial shallow) rfl
  assures _ := .any

end Member

namespace Parameter

theorem format : Format .whole toJson ofJson fun _ => True where
  isPresent := nofun
  keeps _ := ⟨rfl, rfl, Ty.format.keeps trivial, trivial⟩
  reads _ shallow := by
    refine Json.bind_ok rfl <| Json.bind_ok rfl ?_
    exact Json.bind_ok (Ty.format.required "ty" rfl trivial shallow) rfl
  assures _ := .any

end Parameter

namespace Signature

theorem format : Format .whole toJson ofJson fun _ => True where
  isPresent := nofun
  keeps _ :=
    ⟨rfl, rfl, rfl, (Format.string rfl).keeps_optional rfl fun _ _ => trivial,
      (Format.string rfl).wholeList.keeps fun _ _ => trivial,
      Parameter.format.wholeList.keeps fun _ _ => trivial, Ty.format.keeps trivial, trivial⟩
  reads _ shallow := by
    have text : Format .whole Json.string Json.asString fun _ => True := .string rfl
    refine Json.bind_ok rfl <| Json.bind_ok rfl <| Json.bind_ok rfl ?_
    refine Json.bind_ok (text.optional "owner" rfl (fun _ _ => trivial) shallow) ?_
    refine Json.bind_ok
      (text.wholeList.withDefault "type_params" [] rfl (fun _ _ => trivial) shallow) ?_
    refine Json.bind_ok
      (Parameter.format.wholeList.withDefault "params" [] rfl (fun _ _ => trivial) shallow) ?_
    exact Json.bind_ok (Ty.format.required "return_type" rfl trivial shallow) rfl
  assures _ := .any

end Signature

end NullFlow
