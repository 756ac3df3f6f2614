import Mathlib.Data.List.Sort
import Turnstile.Proofs.Schema.Violations

/-!
When an object satisfies a schema, and what is reported of one that does not. `Satisfies` says it
without going through the rules one after another. What is reported are the violations, path by
path and no more and no less often than they are there; so the order of the rules, and of the
constraints of each, shows in nothing but the order of the messages under a path.
-/

namespace Turnstile

open Json (Value)

namespace Failures

/-- The messages that stand under a path, in their order. -/
def messagesAt (path : String) (vs : List (String × String)) : List String :=
  (vs.filter fun w => w.1 == path).map (·.2)

theorem messagesAt_append (path : String) (vs ws : List (String × String)) :
    messagesAt path (vs ++ ws) = messagesAt path vs ++ messagesAt path ws := by
  simp [messagesAt]

theorem messagesAt_under (path p : String) (ms : List String) :
    messagesAt path (ms.map fun m => (p, m)) = if p = path then ms else [] := by
  by_cases same : p = path <;> simp [messagesAt, List.filter_map, Function.comp_def, same]

/-- A table in order has all messages of a path in one place. -/
theorem messagesAt_entriesOf {fields : List (String × List String)}
    (ordered : Keyed.Ordered fields) (path : String) :
    messagesAt path (entriesOf fields) = (Keyed.get? path fields).getD [] := by
  induction fields with
  | nil => rfl
  | cons g rest ih =>
    obtain ⟨k, ms⟩ := g
    obtain ⟨first, later⟩ := Keyed.ordered_cons.mp ordered
    have here := messagesAt_under path k ms
    rw [entriesOf, List.flatMap_cons, messagesAt_append, here, Keyed.get?]
    have others : messagesAt path (rest.flatMap fun g => g.2.map fun m => (g.1, m)) = _ := ih later
    rw [others]
    by_cases same : k = path
    · subst same
      have absent : Keyed.get? k rest = none :=
        Keyed.get?_eq_none_of_notMem fun mem => String.lt_irrefl k (first k mem)
      simp [absent]
    · simp [same]

section Reports

variable {f g : Failures} {vs ws : List (String × String)}

/-- Under each path stand the messages that are reported there, each as often as it is. -/
theorem Reports.messages_perm (h : Reports f vs) (path : String) :
    (f.messages path).Perm (messagesAt path vs) := by
  rw [messages, ← messagesAt_entriesOf h.ordered]
  exact (h.complete.filter _).map _

/-- A path fails exactly if something is reported under it. -/
theorem Reports.mem_keys_iff (h : Reports f vs) {path : String} :
    path ∈ Keyed.keys f.fields ↔ messagesAt path vs ≠ [] := by
  have same : messagesAt path vs = [] ↔ f.messages path = [] :=
    ⟨fun none => (none ▸ h.messages_perm path).eq_nil,
      fun none => (none ▸ h.messages_perm path).symm.eq_nil⟩
  rw [Ne, same, messages, Keyed.mem_keys_iff]
  cases found : Keyed.get? path f.fields with
  | none => simp
  | some ms => simpa using h.filled _ (Keyed.mem_of_get? found)

/-- The same paths fail, with the same messages in whatever order. -/
def SameButOrder (f g : Failures) : Prop :=
  Keyed.keys f.fields = Keyed.keys g.fields ∧ ∀ path, (f.messages path).Perm (g.messages path)

theorem Reports.sameButOrder (hf : Reports f vs) (hg : Reports g ws) (perm : vs.Perm ws) :
    SameButOrder f g := by
  have same (path : String) : (messagesAt path vs).Perm (messagesAt path ws) :=
    (perm.filter _).map _
  constructor
  · apply hf.ordered.eq_of_mem_iff hg.ordered
    intro path
    rw [hf.mem_keys_iff, hg.mem_keys_iff]
    exact not_congr ⟨fun none => (none ▸ same path).symm.eq_nil,
      fun none => (none ▸ same path).eq_nil⟩
  · intro path
    exact ((hf.messages_perm path).trans (same path)).trans (hg.messages_perm path).symm

end Reports

end Failures

namespace Schema

open Failures (Reports inside messagesAt SameButOrder)

/-- The field of the rule is missing or null, and the rule allows that. -/
def LeavesOut (r : Rule) (object : List (String × Value)) : Prop :=
  isAbsent (Keyed.get? r.1 object) = true ∧ r.2.1.any Constraint.isOptional = true

/-- An object satisfies a schema if it has no member that the schema forbids, if all constraints
hold of each field that is not left out, and if the objects in its fields satisfy the nested
schemas. -/
inductive Satisfies : Schema → List (String × Value) → Prop
  | intro {s : Schema} {object : List (String × Value)}
    (declared : s.forbidsUnknown = true → ∀ m ∈ object, m.1 ∈ s.rules.map (·.1))
    (constrained : ∀ r ∈ s.rules, ¬ LeavesOut r object →
      ∀ c ∈ r.2.1, c.holds (Keyed.get? r.1 object) object = true)
    (nested : ∀ r ∈ s.rules, ¬ LeavesOut r object → ∀ inner members, r.2.2 = some inner →
      Keyed.get? r.1 object = some (.object members) → Satisfies inner members) :
    Satisfies s object

section Nil

variable {rules : List Rule} {object : List (String × Value)}

/-- What one rule finds wrong. -/
def violationsOf (object : List (String × Value)) (r : Rule) : List (String × String) :=
  let value := Keyed.get? r.1 object
  if isAbsent value && r.2.1.any Constraint.isOptional then []
  else (constraintMessages r.1 r.2.1 value object).map (fun m => (r.1, m))
    ++ innerViolations r.2.2 r.1 value

theorem ruleViolations_eq_flatMap (rules : List Rule) (object : List (String × Value)) :
    ruleViolations rules object = rules.flatMap (violationsOf object) := by
  induction rules with
  | nil => rfl
  | cons r rest ih => rw [ruleViolations, ih, List.flatMap_cons, violationsOf]

theorem innerViolations_eq_nil_iff {inner : Option Schema} {name : String}
    {value : Option Value} :
    innerViolations inner name value = [] ↔ ∀ s members, inner = some s →
      value = some (.object members) → s.violations members = [] := by
  unfold innerViolations
  split
  · simp [inside]
  · next other =>
    simp only [true_iff]
    intro s members same found
    exact absurd found (other s members same)

theorem violationsOf_eq_nil_iff {r : Rule} :
    violationsOf object r = [] ↔ ¬ LeavesOut r object →
      (∀ c ∈ r.2.1, c.holds (Keyed.get? r.1 object) object = true) ∧
      ∀ inner members, r.2.2 = some inner → Keyed.get? r.1 object = some (.object members) →
        inner.violations members = [] := by
  unfold violationsOf LeavesOut
  simp only
  split
  · next left_out => simp_all
  · next there =>
    rw [Bool.and_eq_true] at there
    rw [List.append_eq_nil_iff, List.map_eq_nil_iff, constraintMessages_eq_nil_iff,
      innerViolations_eq_nil_iff]
    exact ⟨fun fine _ => fine, fun fine => fine there⟩

end Nil

theorem sizeOf_lt_of_nested {s inner : Schema} {r : Rule} (mem : r ∈ s.rules)
    (found : r.2.2 = some inner) : sizeOf inner < sizeOf s := by
  obtain ⟨rules, forbids⟩ := s
  obtain ⟨name, constraints, nested⟩ := r
  obtain rfl : nested = some inner := found
  have bound := List.sizeOf_lt_of_mem (show (name, constraints, some inner) ∈ rules from mem)
  simp only [Prod.mk.sizeOf_spec, Option.some.sizeOf_spec] at bound
  rw [Schema.mk.sizeOf_spec]
  omega

theorem violations_eq_append (s : Schema) (object : List (String × Value)) :
    s.violations object = (if s.forbidsUnknown then undeclared s.rules object else []) ++
      s.rules.flatMap (violationsOf object) := by
  obtain ⟨rules, forbids⟩ := s
  rw [violations, ruleViolations_eq_flatMap]
  rfl

/-- Nothing is wrong with an object exactly if it satisfies the schema. -/
theorem violations_eq_nil_iff (s : Schema) (object : List (String × Value)) :
    s.violations object = [] ↔ s.Satisfies object := by
  have unknown : (if s.forbidsUnknown then undeclared s.rules object else []) = [] ↔
      (s.forbidsUnknown = true → ∀ m ∈ object, m.1 ∈ s.rules.map (·.1)) := by
    cases s.forbidsUnknown <;> simp [undeclared_eq_nil_iff]
  rw [violations_eq_append, List.append_eq_nil_iff, unknown, List.flatMap_eq_nil_iff]
  constructor
  · rintro ⟨declared, rules⟩
    refine ⟨declared, fun r mem there => ?_, fun r mem there inner members nested found => ?_⟩
    · exact (violationsOf_eq_nil_iff.mp (rules r mem) there).1
    · have smaller := sizeOf_lt_of_nested mem nested
      have fine := (violationsOf_eq_nil_iff.mp (rules r mem) there).2 inner members nested found
      exact (violations_eq_nil_iff inner members).mp fine
  · rintro ⟨declared, constrained, nested⟩
    refine ⟨declared, fun r mem => violationsOf_eq_nil_iff.mpr fun there => ?_⟩
    refine ⟨constrained r mem there, fun inner members same found => ?_⟩
    have smaller := sizeOf_lt_of_nested mem same
    exact (violations_eq_nil_iff inner members).mpr (nested r mem there inner members same found)
termination_by sizeOf s

/-- The schemas differ in nothing but the order of their rules, of the constraints of a rule, or of
what is nested in them. -/
inductive Reordered : Schema → Schema → Prop
  | rules {rs rs' : List Rule} (forbids : Bool) (perm : rs.Perm rs') :
    Reordered ⟨rs, forbids⟩ ⟨rs', forbids⟩
  | constraints (before after : List Rule) (name : String) {cs cs' : List Constraint}
    (inner : Option Schema) (forbids : Bool) (perm : cs.Perm cs') :
    Reordered ⟨before ++ (name, cs, inner) :: after, forbids⟩
      ⟨before ++ (name, cs', inner) :: after, forbids⟩
  | nested (before after : List Rule) (name : String) (cs : List Constraint) {s t : Schema}
    (forbids : Bool) (inner : Reordered s t) :
    Reordered ⟨before ++ (name, cs, some s) :: after, forbids⟩
      ⟨before ++ (name, cs, some t) :: after, forbids⟩
  | trans {s t u : Schema} (first : Reordered s t) (second : Reordered t u) : Reordered s u

theorem undeclared_congr {rs rs' : List Rule}
    (same : ∀ name, name ∈ rs.map (·.1) ↔ name ∈ rs'.map (·.1)) (object : List (String × Value)) :
    undeclared rs object = undeclared rs' object := by
  have named (name : String) : rs.any (·.1 == name) = rs'.any (·.1 == name) := by
    rw [Bool.eq_iff_iff]
    simpa [List.any_eq_true, List.mem_map] using same name
  simp only [undeclared, named]

theorem violations_perm_of_rule {before after : List Rule} {r r' : Rule} (named : r.1 = r'.1)
    {object : List (String × Value)}
    (perm : (violationsOf object r).Perm (violationsOf object r')) (forbids : Bool) :
    (violations ⟨before ++ r :: after, forbids⟩ object).Perm
      (violations ⟨before ++ r' :: after, forbids⟩ object) := by
  have names : undeclared (before ++ r :: after) object =
      undeclared (before ++ r' :: after) object := undeclared_congr (by simp [named]) object
  simp only [violations_eq_append, rules, forbidsUnknown, names, List.flatMap_append,
    List.flatMap_cons]
  exact ((perm.append_right _).append_left _).append_left _

theorem violationsOf_perm_of_constraints (object : List (String × Value)) (name : String)
    {cs cs' : List Constraint} (perm : cs.Perm cs') (inner : Option Schema) :
    (violationsOf object (name, cs, inner)).Perm (violationsOf object (name, cs', inner)) := by
  have optional : cs.any Constraint.isOptional = cs'.any Constraint.isOptional := perm.any_eq
  simp only [violationsOf, optional]
  split
  · exact .refl _
  · exact ((perm.filterMap _).map _).append_right _

theorem violationsOf_perm_of_nested (object : List (String × Value)) (name : String)
    (cs : List Constraint) {s t : Schema}
    (perm : ∀ members, (s.violations members).Perm (t.violations members)) :
    (violationsOf object (name, cs, some s)).Perm (violationsOf object (name, cs, some t)) := by
  simp only [violationsOf]
  split
  · exact .refl _
  · refine List.Perm.append_left _ ?_
    rcases Keyed.get? name object with _ | _ | _ | _ | _ | _ | members <;> try exact .refl _
    exact (perm members).map _

/-- Schemas that differ only in an order find the same wrong. -/
theorem Reordered.violations_perm {s t : Schema} (h : Reordered s t)
    (object : List (String × Value)) : (s.violations object).Perm (t.violations object) := by
  induction h generalizing object with
  | @rules rs rs' forbids perm =>
    have names : undeclared rs object = undeclared rs' object :=
      undeclared_congr (fun _ => (perm.map _).mem_iff) object
    simp only [violations_eq_append, Schema.rules, Schema.forbidsUnknown, names]
    exact (perm.flatMap_right _).append_left _
  | constraints before after name inner forbids perm =>
    refine violations_perm_of_rule ?_ ?_ forbids
    · rfl
    · exact violationsOf_perm_of_constraints object name perm inner
  | nested before after name cs forbids _ ih =>
    refine violations_perm_of_rule ?_ ?_ forbids
    · rfl
    · exact violationsOf_perm_of_nested object name cs ih
  | trans _ _ first second => exact (first object).trans (second object)

/-- What is reported of a value that fails are its violations, each as often as it is one. -/
theorem reports_of_error {s : Schema} {v : Value} {f : Failures}
    (failed : s.validate v = .error f) : Reports f (s.violations (membersOf v)) := by
  rw [validate, Failures.result] at failed
  split at failed
  · cases failed
  · cases failed
    exact reports_check s (membersOf v)

/-- A value is accepted exactly if the object that it is, or the empty one, satisfies the schema.
Otherwise each path has the messages of what is violated there, all of them and nothing else, and
every path that is named has one. The order of the rules and of the constraints of each changes
nothing but the order of the messages under a path. -/
theorem validate_reports_violations (s : Schema) (v : Value) :
    (s.validate v = .ok () ↔ s.Satisfies (membersOf v)) ∧
    (∀ f, s.validate v = .error f → Keyed.Ordered f.fields ∧ (∀ g ∈ f.fields, g.2 ≠ []) ∧
      ∀ path, (f.messages path).Perm (messagesAt path (s.violations (membersOf v)))) ∧
    ∀ t, Reordered s t → (s.validate v = .ok () ↔ t.validate v = .ok ()) ∧
      ∀ f g, s.validate v = .error f → t.validate v = .error g → SameButOrder f g := by
  refine ⟨validate_eq_ok_iff.trans (violations_eq_nil_iff s (membersOf v)), ?_, ?_⟩
  · intro f failed
    have reports := reports_of_error failed
    exact ⟨reports.ordered, reports.filled, reports.messages_perm⟩
  · intro t reordered
    have perm := reordered.violations_perm (membersOf v)
    constructor
    · rw [validate_eq_ok_iff, validate_eq_ok_iff]
      exact ⟨fun none => (none ▸ perm).symm.eq_nil, fun none => (none ▸ perm).eq_nil⟩
    · intro f g failed failed'
      exact (reports_of_error failed).sameButOrder (reports_of_error failed') perm

/-- A field with a dot in its name and a field of a nested object fail under one path, and neither
message is lost there; a member that is forbidden fails under its own. -/
theorem two_fields_fail_under_one_path :
    let inner := Schema.empty.field "b" [.notEmpty]
    let s := ((Schema.empty.nested "a" [] inner).field "a.b" [.isString]).forbidUnknown
    let v : Value := .object [("a", .object []), ("c", .null)]
    ¬ s.Satisfies [("a", .object []), ("c", .null)] ∧
    s.violations [("a", .object []), ("c", .null)] =
      [("c", "property c should not exist"), ("a.b", "b should not be empty"),
        ("a.b", "a.b must be a string")] ∧
    ∃ f, s.validate v = .error f ∧
      (f.messages "a.b").Perm ["b should not be empty", "a.b must be a string"] ∧
      (f.messages "c").Perm ["property c should not exist"] ∧ (f.messages "a").Perm [] := by
  intro inner s v
  obtain ⟨accepted, reported, -⟩ := validate_reports_violations s v
  have failed : s.validate v = .error ⟨[("a.b", ["b should not be empty", "a.b must be a string"]),
      ("c", ["property c should not exist"])]⟩ := rfl
  refine ⟨?_, rfl, _, failed, ?_⟩
  · intro satisfied
    have passed := accepted.mpr satisfied
    rw [failed] at passed
    cases passed
  · obtain ⟨-, -, messages⟩ := reported _ failed
    exact ⟨messages "a.b", messages "c", messages "a"⟩

end Schema

end Turnstile
