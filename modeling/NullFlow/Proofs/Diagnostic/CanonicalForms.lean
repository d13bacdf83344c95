import Mathlib.Data.Prod.Lex
import NullFlow.Proofs.Diagnostic.Ranks
/-!
Reports as canonical forms. Texts compare as their bytes do, so a report ascends in the keys of its
diagnostics read byte by byte. It has one diagnostic of each key, the first that it is given, and
nothing changes if parts of a report are reports already.
-/

namespace NullFlow

section Bytes

open String (utf8EncodeChar)

/-- The bytes of a text. -/
def utf8 (text : String) : List UInt8 := text.toByteArray.data.toList

theorem utf8_eq (text : String) : utf8 text = text.toList.flatMap utf8EncodeChar := by
  rw [utf8, ← String.utf8Encode_toList, List.utf8Encode, List.data_toByteArray]

theorem utf8_inj {first second : String} : utf8 first = utf8 second ↔ first = second := by
  rw [utf8, utf8, Array.toList_inj, ← ByteArray.ext_iff, String.toByteArray_inj]

/-- To the base 64, the smaller of two numbers has the smaller digit where they first differ. -/
theorem digits_lt {first second : Nat} (below : first < second) :
    first / 262144 < second / 262144 ∨ first / 262144 = second / 262144 ∧
      (first / 4096 % 64 < second / 4096 % 64 ∨ first / 4096 % 64 = second / 4096 % 64 ∧
        (first / 64 % 64 < second / 64 % 64 ∨ first / 64 % 64 = second / 64 % 64 ∧
          first % 64 < second % 64)) := by
  omega

/-- A text that begins with the smaller character has the smaller bytes, whatever follows. -/
theorem utf8EncodeChar_lt {first second : Char} (below : first < second) (early late : List UInt8) :
    utf8EncodeChar first ++ early < utf8EncodeChar second ++ late := by
  have less : first.val.toNat < second.val.toNat := below
  have valid : second.val.toNat < 0x110000 := by
    rcases second.valid with low | ⟨-, high⟩
    · exact Nat.lt_trans low (by decide)
    · exact high
  have digits := digits_lt less
  -- More bytes begin with a larger one. As many bytes are the digits of the numbers.
  unfold utf8EncodeChar
  dsimp only
  repeat' split
  all_goals
    simp (disch := omega) only [List.cons_append, List.nil_append, List.cons_lt_cons_iff,
      UInt8.lt_iff_toNat_lt, ← UInt8.toNat_inj, UInt8.toNat_ofNat', Nat.mod_eq_of_lt]
    omega

theorem encodeAll_lt {first second : List Char} (below : first < second) :
    first.flatMap utf8EncodeChar < second.flatMap utf8EncodeChar := by
  induction first generalizing second with
  | nil =>
      cases second with
      | nil => cases below
      | cons char rest =>
          obtain ⟨byte, others, same⟩ :=
            List.exists_cons_of_ne_nil (String.utf8EncodeChar_ne_nil (c := char))
          rw [List.flatMap_nil, List.flatMap_cons, same]
          exact List.nil_lt_cons byte _
  | cons char rest ih =>
      cases second with
      | nil => cases below
      | cons other others =>
          rw [List.flatMap_cons, List.flatMap_cons]
          rcases List.cons_lt_cons_iff.mp below with less | ⟨rfl, later⟩
          · exact utf8EncodeChar_lt less _ _
          · exact List.append_left_lt (ih later)

theorem compare_eq_lt_iff_lt {first second : String} :
    compare first second = .lt ↔ first < second := compareOfLessAndEq_eq_lt

/-- Texts compare as their bytes do. -/
theorem compare_eq_lt_iff_utf8 {first second : String} :
    compare first second = .lt ↔ utf8 first < utf8 second := by
  rw [utf8_eq, utf8_eq]
  cases answer : compare first second with
  | lt => exact iff_of_true rfl (encodeAll_lt (compare_eq_lt_iff_lt.mp answer))
  | eq =>
      obtain rfl := Std.LawfulEqCmp.eq_of_compare answer
      exact iff_of_false Ordering.noConfusion (List.lt_irrefl _)
  | gt =>
      have below := compare_eq_lt_iff_lt.mp (Std.OrientedCmp.gt_iff_lt.mp answer)
      exact iff_of_false Ordering.noConfusion (List.lt_asymm (encodeAll_lt below))

/-- Lists of texts compare text by text. -/
theorem compare_eq_lt_iff_map_utf8 {first second : List String} :
    compare first second = .lt ↔ first.map utf8 < second.map utf8 := by
  rw [List.compare_eq_compareLex]
  induction first generalizing second with
  | nil =>
      cases second with
      | nil => simp [List.compareLex_nil_nil]
      | cons => simp [List.compareLex_nil_cons]
  | cons text rest ih =>
      cases second with
      | nil => simp [List.compareLex_cons_nil]
      | cons other others =>
          rw [List.compareLex_cons_cons, Ordering.then_eq_lt, compare_eq_lt_iff_utf8, ih,
            Std.LawfulEqOrd.compare_eq_iff_eq, List.map_cons, List.map_cons,
            List.cons_lt_cons_iff, utf8_inj]

end Bytes

namespace Diagnostic

/-- Keys compare part by part, and lists item by item. -/
abbrev ByteKey := List UInt8 ×ₗ Nat ×ₗ Nat ×ₗ Nat ×ₗ Nat ×ₗ List UInt8 ×ₗ List (List UInt8)

/-- The file of a diagnostic, the line and the column where it starts, those where it ends, its rule
and its arguments. -/
def byteKey (diagnostic : Diagnostic) : ByteKey :=
  let location := diagnostic.location
  toLex (utf8 location.file, toLex (location.startLine, toLex (location.startColumn,
    toLex (location.endLine, toLex (location.endColumn,
      toLex (utf8 diagnostic.rule, diagnostic.arguments.map utf8))))))

theorem order_eq_lt_iff {first second : Diagnostic} :
    order first second = .lt ↔ first.byteKey < second.byteKey := by
  simp only [order, byteKey, compareLex, compareOn, Ordering.then_eq_lt, compare_eq_lt_iff_utf8,
    compare_eq_lt_iff_map_utf8, Nat.compare_eq_lt, Prod.Lex.toLex_lt_toLex,
    Std.LawfulEqOrd.compare_eq_iff_eq, utf8_inj]

section Report

variable {diagnostics : List Diagnostic}

/-- An ascending list has at most one diagnostic of each rank. -/
theorem Ascending.filter_eq (ascending : Ascending diagnostics) (sought : Diagnostic) :
    diagnostics.filter sought.sharesRank = (diagnostics.find? sought.sharesRank).toList := by
  induction diagnostics with
  | nil => rfl
  | cons head rest ih =>
      obtain ⟨below, others⟩ := List.pairwise_cons.mp ascending
      cases shared : sought.sharesRank head with
      | false =>
          rw [List.filter_cons_of_neg (by simp [shared]), List.find?_cons_of_neg (by simp [shared]),
            ih others]
      | true =>
          have none : rest.filter sought.sharesRank = [] := by
            refine List.filter_eq_nil_iff.mpr fun other member sharedToo => ?_
            have above := below other member
            rw [← order_congr (sharesRank_iff.mp shared), sharesRank_iff.mp sharedToo] at above
            cases above
          rw [List.filter_cons_of_pos shared, List.find?_cons_of_pos shared, none]
          rfl

/-- Parts that are reports already make the same report. -/
theorem sortAndDedup_flatMap (parts : List (List Diagnostic)) :
    sortAndDedup (parts.flatMap sortAndDedup) = sortAndDedup parts.flatten := by
  have found (sought : Diagnostic) : (parts.flatMap sortAndDedup).find? sought.sharesRank =
      parts.flatten.find? sought.sharesRank := by
    induction parts with
    | nil => rfl
    | cons part rest ih =>
        rw [List.flatMap_cons, List.flatten_cons, List.find?_append, List.find?_append,
          find?_sortAndDedup, ih]
  refine (ascending_sortAndDedup _).eq_of_mem_iff (ascending_sortAndDedup _) fun diagnostic => ?_
  rw [mem_sortAndDedup_iff, mem_sortAndDedup_iff, found]

/-- A report is strictly ascending in the keys, byte by byte. It has of each key just the first
diagnostic that it is given, and nothing else. A report of a report is the same, and so is one of
parts that are reports already. -/
theorem sortAndDedup_canonical (diagnostics : List Diagnostic) :
    (sortAndDedup diagnostics).Pairwise (fun first second => first.byteKey < second.byteKey) ∧
    (∀ key, (sortAndDedup diagnostics).filter (fun other => other.sortKey = key) =
      (diagnostics.find? fun other => other.sortKey = key).toList) ∧
    sortAndDedup (sortAndDedup diagnostics) = sortAndDedup diagnostics ∧
    ∀ parts : List (List Diagnostic),
      sortAndDedup (parts.flatMap sortAndDedup) = sortAndDedup parts.flatten := by
  have ascending := ascending_sortAndDedup diagnostics
  refine ⟨ascending.imp order_eq_lt_iff.mp, fun key => ?_, ?_, sortAndDedup_flatMap⟩
  · cases found : diagnostics.find? fun other => other.sortKey = key with
    | none =>
        refine List.filter_eq_nil_iff.mpr fun other member => ?_
        exact List.find?_eq_none.mp found other (of_mem_sortAndDedup member)
    | some first =>
        obtain rfl : first.sortKey = key := by simpa using List.find?_some found
        rw [← sharesRank_eq] at found ⊢
        rw [ascending.filter_eq, find?_sortAndDedup, found]
  · have single := sortAndDedup_flatMap [diagnostics]
    rwa [List.flatMap_singleton, List.flatten_singleton] at single

end Report

end Diagnostic

end NullFlow
