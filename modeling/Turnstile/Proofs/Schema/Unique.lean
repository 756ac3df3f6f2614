import Mathlib
import Turnstile.Proofs.Schema.Canonical

/-!
When the items of an array pass as different. Items of one canonical text are equal, so different
items always pass (`unique_passes_different_items`). The other way round numbers stand in between:
an integer and a double that are one number have one text below `2 ^ 63` in magnitude only. Equal
items are found when no larger number is an integer in one and a double in the other
(`unique_fails_iff_repeated`).
-/

namespace Turnstile

namespace Json

namespace Number

def value : Number → ℚ
  | .integer i => i
  | .double x => x.value

def isInteger : Number → Bool
  | .integer _ => true
  | .double _ => false

/-- Both numbers are integers or both are doubles, unless they are small. -/
def SameForm (m n : Number) : Prop :=
  (signedBound : ℚ) ≤ |m.value| → m.isInteger = n.isInteger

theorem sameForm_of_eq {m n : Number} (one_form : m.isInteger = n.isInteger) : m.SameForm n :=
  fun _ => one_form

theorem sameForm_iff_of_ne {m n : Number} (two_forms : m.isInteger ≠ n.isInteger) :
    m.SameForm n ↔ |m.value| < signedBound := by
  simp [SameForm, two_forms]

end Number

/-- Deep equality: numbers are equal when they are one number, whichever form they have. -/
def Value.Equal : Value → Value → Prop := Value.Corresponds fun m n => m.value = n.value

/-- Numbers in corresponding places have one form, unless they are small. -/
def Value.SameForm : Value → Value → Prop := Value.Corresponds Number.SameForm

end Json

namespace Constraint

open Json (Value Number intChars doubleChars)

/-- The doubles that are written as integers. -/
def IsShort (x : Binary64) : Prop := x.isIntegral = true ∧ |x.value| < Number.signedBound

theorem canonical_short {x : Binary64} (short : IsShort x) :
    canonical (.number (.double x)) = intChars x.truncate := by
  rw [canonical, if_pos]
  rw [Bool.and_eq_true, Binary64.absBelow_iff]
  exact short

theorem canonical_long {x : Binary64} (long : ¬IsShort x) :
    canonical (.number (.double x)) = doubleChars x := by
  rw [canonical, if_neg]
  rw [Bool.and_eq_true, Binary64.absBelow_iff]
  exact long

/-- Only small doubles have the text of an integer, and these that of the integer that they are. -/
theorem canonical_double_eq_intChars {x : Binary64} {i : Int} :
    canonical (.number (.double x)) = intChars i ↔
      x.value = i ∧ |x.value| < Number.signedBound := by
  by_cases short : IsShort x
  · have whole := Binary64.value_of_isIntegral short.1
    rw [canonical_short short]
    constructor
    · intro same
      exact ⟨Json.intChars_inj same ▸ whole, short.2⟩
    · rintro ⟨same, -⟩
      rw [whole, Int.cast_inj] at same
      rw [same]
  · rw [canonical_long short]
    constructor
    · intro same
      exact absurd same.symm (Json.intChars_ne_doubleChars i x)
    · rintro ⟨same, small⟩
      exact absurd ⟨Binary64.isIntegral_of_value same, small⟩ short

theorem canonical_double_inj {x y : Binary64} (hx : x.IsRounded) (hy : y.IsRounded) :
    canonical (.number (.double x)) = canonical (.number (.double y)) ↔ x.value = y.value := by
  by_cases short : IsShort y
  · have whole := Binary64.value_of_isIntegral short.1
    rw [canonical_short short, canonical_double_eq_intChars, ← whole]
    constructor
    · rintro ⟨same, -⟩
      exact same
    · intro same
      exact ⟨same, same ▸ short.2⟩
  · constructor
    · intro same
      by_cases short' : IsShort x
      · rw [eq_comm, canonical_short short', canonical_double_eq_intChars] at same
        exact absurd ⟨Binary64.isIntegral_of_value same.1, same.2⟩ short
      · rw [canonical_long short, canonical_long short'] at same
        rw [Json.doubleChars_inj hx hy same]
    · intro same
      have some_value : y.value ≠ 0 := by
        intro zero
        refine short ⟨Binary64.isIntegral_of_value (zero.trans Int.cast_zero.symm), ?_⟩
        rw [zero, abs_zero]
        exact_mod_cast (by decide : 0 < Number.signedBound)
      rw [Binary64.eq_of_value_eq hy hx some_value same.symm]

/-- Numbers have one text when they are one number and, if they are large, in one form. -/
theorem sameText_iff {m n : Number} (hm : m.IsProper) (hn : n.IsProper) :
    SameText m n ↔ m.value = n.value ∧ m.SameForm n := by
  rw [SameText]
  cases m with
  | integer i =>
    cases n with
    | integer j =>
      constructor
      · intro same
        rw [Json.intChars_inj same]
        exact ⟨rfl, Number.sameForm_of_eq rfl⟩
      · rintro ⟨same, -⟩
        rw [Int.cast_inj.mp same]
    | double y =>
      rw [Number.sameForm_iff_of_ne (by simp [Number.isInteger]), eq_comm]
      refine canonical_double_eq_intChars.trans ?_
      constructor
      · rintro ⟨same, small⟩
        rw [same] at small
        exact ⟨same.symm, small⟩
      · rintro ⟨same : (i : ℚ) = y.value, small : |(i : ℚ)| < Number.signedBound⟩
        rw [same] at small
        exact ⟨same.symm, small⟩
  | double x =>
    cases n with
    | integer j =>
      rw [Number.sameForm_iff_of_ne (by simp [Number.isInteger])]
      exact canonical_double_eq_intChars
    | double y =>
      rw [canonical_double_inj hm hn]
      exact (and_iff_left (Number.sameForm_of_eq rfl)).symm

theorem canonical_eq_iff_equal {v w : Value} (hv : v.IsProper) (hw : w.IsProper) :
    canonical v = canonical w ↔ v.Equal w ∧ v.SameForm w := by
  rw [canonical_eq_iff hv hw, Value.Equal, Value.SameForm, ← Value.corresponds_and]
  constructor
  · exact Value.Corresponds.mono_of_isProper (fun m n hm hn => (sameText_iff hm hn).mp) hv hw
  · exact Value.Corresponds.mono_of_isProper (fun m n hm hn => (sameText_iff hm hn).mpr) hv hw

/-- Items pass unless two of them are equal, with every large number in one form. -/
theorem allDistinct_iff {items : List Value} (proper : ∀ v ∈ items, v.IsProper) :
    allDistinct items = true ↔ items.Pairwise fun v w => ¬(v.Equal w ∧ v.SameForm w) := by
  rw [allDistinct, decide_eq_true_eq, List.Nodup, List.pairwise_map]
  apply List.Pairwise.iff_of_mem
  intro v w hv hw
  exact not_congr (canonical_eq_iff_equal (proper v hv) (proper w hw))

theorem check_unique (items : List Value) (field : String) (object : List (String × Value)) :
    Constraint.unique.check field (some (.array items)) object =
      if allDistinct items then none else some (field ++ " must contain unique elements") := rfl

/-- Items that were read in a body are proper. -/
theorem isProper_of_body {body : List UInt8} {members : List (String × Value)} {items : List Value}
    (read : Value.parse? body = some (.object members)) (field : String)
    (found : Keyed.get? field members = some (.array items)) : ∀ v ∈ items, v.IsProper := by
  have proper := Value.isProper_of_parse? read
  cases proper with
  | object _ each =>
    have proper := each _ (Keyed.mem_of_get? found)
    cases proper with
    | array each => exact each

theorem check_of_different {items : List Value} (proper : ∀ v ∈ items, v.IsProper)
    (different : items.Pairwise fun v w => ¬v.Equal w) (field : String)
    (object : List (String × Value)) :
    Constraint.unique.check field (some (.array items)) object = none := by
  rw [check_unique, if_pos]
  rw [allDistinct_iff proper]
  exact different.imp fun ne both => ne both.1

/-- Values of one canonical text are equal, and items of which no two are equal pass. What is read
in a body needs no other condition. -/
theorem unique_passes_different_items :
    (∀ v w : Value, v.IsProper → w.IsProper → canonical v = canonical w → v.Equal w) ∧
      (∀ items : List Value, (∀ v ∈ items, v.IsProper) → (items.Pairwise fun v w => ¬v.Equal w) →
        ∀ field object, Constraint.unique.check field (some (.array items)) object = none) ∧
      ∀ body members, Value.parse? body = some (.object members) →
        ∀ field items, Keyed.get? field members = some (.array items) →
          (items.Pairwise fun v w => ¬v.Equal w) →
            Constraint.unique.check field (Keyed.get? field members) members = none := by
  refine ⟨?_, ?_, ?_⟩
  · intro v w hv hw same
    exact ((canonical_eq_iff_equal hv hw).mp same).1
  · intro items proper different field object
    exact check_of_different proper different field object
  · intro body members read field items found different
    rw [found]
    exact check_of_different (isProper_of_body read field found) different field members

def commaItems : List Value := [.array [.string "a,b"], .array [.string "a", .string "b"]]

theorem parse?_commaItems :
    Value.parse? (Utf8.encode "\x7b\"tags\": [[\"a,b\"], [\"a\", \"b\"]]\x7d") =
      some (.object [("tags", .array commaItems)]) := by
  cbv

/-- An integer is equal to its double. One text with a comma in it is not equal to two texts. -/
theorem comma_parts_no_items :
    (Value.number (.integer 1)).Equal (.number (.double ⟨false, Nat.pow 2 52, -52⟩)) ∧
      Constraint.unique.check "tags" (some (.array commaItems)) [] = none ∧
      ∃ members, Value.parse? (Utf8.encode "\x7b\"tags\": [[\"a,b\"], [\"a\", \"b\"]]\x7d") =
          some (.object members) ∧
        Constraint.unique.check "tags" (Keyed.get? "tags" members) members = none := by
  have different : commaItems.Pairwise fun v w => ¬v.Equal w := by
    refine List.pairwise_pair.mpr ?_
    rintro ⟨⟩
    contradiction
  refine ⟨?_, ?_, _, parse?_commaItems, ?_⟩
  · exact unique_passes_different_items.1 _ _ (.number (by decide)) (.number (by decide))
      (by decide +kernel)
  · have proper := isProper_of_body parse?_commaItems "tags" rfl
    exact unique_passes_different_items.2.1 commaItems proper different "tags" []
  · exact unique_passes_different_items.2.2 _ _ parse?_commaItems "tags" commaItems rfl different

/-- Items fail when two of them are equal and every large number in both has one form. -/
theorem unique_fails_iff_repeated {items : List Value} (proper : ∀ v ∈ items, v.IsProper)
    (field : String) (object : List (String × Value)) :
    Constraint.unique.check field (some (.array items)) object =
        some (field ++ " must contain unique elements") ↔
      ∃ (i j : Nat) (v w : Value), i < j ∧ items[i]? = some v ∧ items[j]? = some w ∧
        v.Equal w ∧ v.SameForm w := by
  rw [check_unique, Option.ite_none_left_eq_some, and_iff_left rfl, allDistinct_iff proper,
    List.pairwise_iff_getElem]
  constructor
  · intro repeated
    simp only [not_forall, not_not] at repeated
    obtain ⟨i, j, hi, hj, order, both⟩ := repeated
    exact ⟨i, j, _, _, order, List.getElem?_eq_getElem hi, List.getElem?_eq_getElem hj, both⟩
  · rintro ⟨i, j, v, w, order, at_v, at_w, both⟩ different
    obtain ⟨hi, rfl⟩ := List.getElem?_eq_some_iff.mp at_v
    obtain ⟨hj, rfl⟩ := List.getElem?_eq_some_iff.mp at_w
    exact different i j hi hj order both

/-- An integer, and the double that is the same number. -/
def oneTwice : List Value :=
  [.number (.integer 1), .number (.double ⟨false, Nat.pow 2 52, -52⟩)]

theorem parse?_oneTwice :
    Value.parse? (Utf8.encode "\x7b\"tags\": [1, 1.0]\x7d") =
      some (.object [("tags", .array oneTwice)]) := by
  have tree : Json.Tree.parse? (Utf8.encode "\x7b\"tags\": [1, 1.0]\x7d") =
      some (.object [((Utf8.encode "tags").map .byte,
        .array [.numeral ⟨false, [1], [], none⟩, .numeral ⟨false, [1], [0], none⟩])]) := by
    cbv
  have key : Json.piecesText? ((Utf8.encode "tags").map .byte) = some "tags" := by
    cbv
  have whole : Json.Numeral.toNumber? ⟨false, [1], [], none⟩ = some (.integer 1) := by
    decide +kernel
  have fraction : Json.Numeral.toNumber? ⟨false, [1], [0], none⟩ =
      some (.double ⟨false, Nat.pow 2 52, -52⟩) := by
    decide +kernel
  rw [Value.parse?, tree]
  simp only [Json.maxDepth, Option.bind_eq_bind, Option.bind_some, Json.Tree.value?,
    Json.memberValues?, Json.itemValues?, key, whole, fraction, Option.map_some]
  rfl

/-- A number is found again behind its integer. -/
theorem double_repeats_integer :
    ∃ members, Value.parse? (Utf8.encode "\x7b\"tags\": [1, 1.0]\x7d") = some (.object members) ∧
      Constraint.unique.check "tags" (Keyed.get? "tags" members) members =
        some ("tags" ++ " must contain unique elements") := by
  refine ⟨_, parse?_oneTwice, ?_⟩
  have proper := isProper_of_body parse?_oneTwice "tags" rfl
  refine (unique_fails_iff_repeated proper "tags" _).mpr
    ⟨0, 1, _, _, by decide, rfl, rfl, .number ?_, .number ?_⟩
  · norm_num [Number.value, Binary64.value, Binary64.magnitude]
  · refine (Number.sameForm_iff_of_ne (by simp [Number.isInteger])).mpr ?_
    norm_num [Number.value, Number.signedBound, Nat.pow_eq]

def leastInteger : Value := .number (.integer (-9223372036854775808))

def leastDouble : Value := .number (.double ⟨true, Nat.pow 2 52, 11⟩)

/-- The two are one number, and pass as different. -/
theorem least_integer_repeats_unseen :
    leastInteger.IsProper ∧ leastDouble.IsProper ∧ leastInteger.Equal leastDouble ∧
      Constraint.unique.check "items" (some (.array [leastInteger, leastDouble])) [] = none := by
  refine ⟨.number (by decide), .number (by decide), .number ?_, ?_⟩
  · norm_num [Number.value, Binary64.value, Binary64.magnitude]
  · rw [check_unique, if_pos]
    decide +kernel

end Constraint

end Turnstile
