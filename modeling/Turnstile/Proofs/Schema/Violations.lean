import Turnstile.Proofs.Keyed
import Turnstile.Schema.Basic

/-!
What a schema finds wrong with an object, as a plain list of paths and messages: `violations` goes
through the rules and knows nothing of the table in which failures are gathered. The table holds
neither more nor less (`reports_check`), so an object passes exactly when it has no violations.
-/

namespace Turnstile

open Json (Value)

namespace Failures

def entriesOf (fields : List (String × List String)) : List (String × String) :=
  fields.flatMap fun g => g.2.map fun m => (g.1, m)

/-- The failures are these messages, each under its path. -/
structure Reports (f : Failures) (vs : List (String × String)) : Prop where
  ordered : Keyed.Ordered f.fields
  /-- A path stands in the table only with a message. -/
  filled : ∀ g ∈ f.fields, g.2 ≠ []
  complete : (entriesOf f.fields).Perm vs

/-- Messages put behind those of a path are the only ones that come in. -/
theorem entriesOf_insert {fields : List (String × List String)} (ordered : Keyed.Ordered fields)
    (path : String) (ms : List String) :
    (entriesOf (Keyed.insert path ((Keyed.get? path fields).getD [] ++ ms) fields)).Perm
      (entriesOf fields ++ ms.map fun m => (path, m)) := by
  induction fields with
  | nil => simp [entriesOf, Keyed.insert]
  | cons g rest ih =>
    obtain ⟨k, v⟩ := g
    obtain ⟨first, later⟩ := Keyed.ordered_cons.mp ordered
    by_cases same : k = path
    · subst same
      simp only [Keyed.insert, Keyed.get?, if_true, Option.getD_some, entriesOf, List.flatMap_cons,
        List.map_append, List.append_assoc]
      exact List.Perm.append_left _ List.perm_append_comm
    · rw [Keyed.insert, if_neg same, Keyed.get?, if_neg same]
      split
      · next before =>
        have absent : Keyed.get? path rest = none := by
          apply Keyed.get?_eq_none_of_notMem
          intro mem
          exact String.lt_irrefl path (String.lt_trans before (first path mem))
        simp only [absent, Option.getD_none, List.nil_append, entriesOf, List.flatMap_cons]
        exact List.perm_append_comm
      · simp only [entriesOf, List.flatMap_cons, List.append_assoc]
        exact List.Perm.append_left _ (ih later)

section Reports

variable {f g : Failures} {vs ws : List (String × String)}

theorem reports_empty : Reports empty [] := ⟨Keyed.ordered_nil, nofun, .refl _⟩

theorem Reports.append (h : Reports f vs) (path : String) {ms : List String} (some_ms : ms ≠ []) :
    Reports (f.append path ms) (vs ++ ms.map fun m => (path, m)) where
  ordered := Keyed.Ordered.insert h.ordered _ _
  filled := by
    intro g mem
    obtain rfl | before := Keyed.mem_insert mem
    · simp [some_ms]
    · exact h.filled g before
  complete := (entriesOf_insert h.ordered path ms).trans (h.complete.append_right _)

theorem Reports.add (h : Reports f vs) (path m : String) :
    Reports (f.add path m) (vs ++ [(path, m)]) :=
  h.append path (List.cons_ne_nil m [])

/-- The messages of a nested object, each under its path from outside. -/
def inside (field : String) (ws : List (String × String)) : List (String × String) :=
  ws.map fun w => (field ++ "." ++ w.1, w.2)

theorem Reports.merge (h : Reports f vs) (field : String) (inner : Reports g ws) :
    Reports (f.merge field g) (vs ++ inside field ws) := by
  have each : ∀ (fields : List (String × List String)) {f : Failures} {vs},
      (∀ m ∈ fields, m.2 ≠ []) → Reports f vs →
        Reports (fields.foldl (fun acc m => acc.append (nestedPath field m.1) m.2) f)
          (vs ++ inside field (entriesOf fields)) := by
    intro fields
    induction fields with
    | nil =>
      intro f vs _ h
      simpa [inside, entriesOf] using h
    | cons m fields ih =>
      intro f vs filled h
      obtain ⟨here, later⟩ := List.forall_mem_cons.mp filled
      have next := ih later (h.append (nestedPath field m.1) here)
      simpa [inside, entriesOf, nestedPath, List.append_assoc, Function.comp_def] using next
  have merged := each g.fields inner.filled h
  exact ⟨merged.ordered, merged.filled,
    merged.complete.trans ((inner.complete.map _).append_left vs)⟩

theorem Reports.isEmpty_iff (h : Reports f vs) : f.isEmpty = true ↔ vs = [] := by
  rw [isEmpty, List.isEmpty_iff]
  constructor
  · intro no_fields
    have complete := h.complete
    rw [no_fields] at complete
    exact complete.symm.eq_nil
  · rintro rfl
    rw [List.eq_nil_iff_forall_not_mem]
    intro g mem
    have nothing := h.complete.eq_nil
    simp only [entriesOf, List.flatMap_eq_nil_iff, List.map_eq_nil_iff] at nothing
    exact h.filled g mem (nothing g mem)

theorem Reports.mem_of_messages (h : Reports f vs) {path m : String} (mem : m ∈ f.messages path) :
    (path, m) ∈ vs := by
  have found : ∀ fields : List (String × List String),
      m ∈ (Keyed.get? path fields).getD [] → (path, m) ∈ entriesOf fields := by
    intro fields inside
    induction fields with
    | nil => cases inside
    | cons g rest ih =>
      rw [Keyed.get?] at inside
      rw [entriesOf, List.flatMap_cons]
      split at inside
      · next same => exact List.mem_append_left _ (List.mem_map.mpr ⟨m, inside, by rw [same]⟩)
      · exact List.mem_append_right _ (ih inside)
  exact h.complete.mem_iff.mp (found f.fields mem)

end Reports

end Failures

namespace Schema

open Failures (Reports inside)

/-- The members that no rule names, each with what is said of it. -/
def undeclared (rules : List Rule) (object : List (String × Value)) : List (String × String) :=
  (object.filter fun m => !rules.any fun r => r.1 == m.1).map
    fun m => (m.1, "property " ++ m.1 ++ " should not exist")

mutual

/-- What a schema finds wrong with an object, rule after rule. -/
def violations : Schema → List (String × Value) → List (String × String)
  | ⟨rules, forbids⟩, object =>
    (if forbids then undeclared rules object else []) ++ ruleViolations rules object

/-- What the rules find wrong: nothing of a field that may be left out and is. -/
def ruleViolations : List (String × List Constraint × Option Schema) → List (String × Value) →
    List (String × String)
  | [], _ => []
  | (name, constraints, inner) :: rest, object =>
    let value := Keyed.get? name object
    (if isAbsent value && constraints.any Constraint.isOptional then []
      else (constraintMessages name constraints value object).map (fun m => (name, m))
        ++ innerViolations inner name value)
      ++ ruleViolations rest object

/-- What is wrong with the object that a field holds. -/
def innerViolations : Option Schema → String → Option Value → List (String × String)
  | some s, name, some (.object members) => inside name (s.violations members)
  | _, _, _ => []

end

theorem reports_unknownFailures (rules : List Rule) (object : List (String × Value)) :
    Reports (unknownFailures rules object) (undeclared rules object) := by
  have each : ∀ (object : List (String × Value)) {f : Failures} {vs}, Reports f vs →
      Reports
        (object.foldl (fun acc m => acc.add m.1 ("property " ++ m.1 ++ " should not exist")) f)
        (vs ++ object.map fun m => (m.1, "property " ++ m.1 ++ " should not exist")) := by
    intro object
    induction object with
    | nil =>
      intro f vs h
      simpa using h
    | cons m object ih =>
      intro f vs h
      have next := ih (h.add m.1 ("property " ++ m.1 ++ " should not exist"))
      simpa [List.append_assoc] using next
  exact each _ Failures.reports_empty

theorem reports_report {acc : Failures} {vs : List (String × String)} (h : Reports acc vs)
    (path : String) (ms : List String) :
    Reports (report acc path ms) (vs ++ ms.map fun m => (path, m)) := by
  rw [report]
  split
  · next none_found =>
    obtain rfl := List.isEmpty_iff.mp none_found
    simpa using h
  · next some_found => exact h.append path (by simpa using some_found)

mutual

/-- The failures of an object are its violations. -/
theorem reports_check : ∀ (s : Schema) (object : List (String × Value)),
    Reports (s.check object) (s.violations object)
  | ⟨rules, true⟩, object => by
    rw [check, violations]
    exact reports_checkRules rules object (reports_unknownFailures rules object)
  | ⟨rules, false⟩, object => by
    rw [check, violations]
    exact reports_checkRules rules object Failures.reports_empty

theorem reports_checkRules : ∀ (rules : List (String × List Constraint × Option Schema))
    (object : List (String × Value)) {acc : Failures} {vs : List (String × String)},
    Reports acc vs → Reports (checkRules rules object acc) (vs ++ ruleViolations rules object)
  | [], object, acc, vs, h => by simpa [checkRules, ruleViolations] using h
  | (name, constraints, inner) :: rest, object, acc, vs, h => by
    rw [checkRules, ruleViolations]
    simp only
    split
    · exact reports_checkRules rest object h
    · have told := reports_report h name
        (constraintMessages name constraints (Keyed.get? name object) object)
      have here := reports_checkInner inner name (Keyed.get? name object) told
      simpa only [List.append_assoc] using reports_checkRules rest object here

theorem reports_checkInner : ∀ (inner : Option Schema) (name : String) (value : Option Value)
    {acc : Failures} {vs : List (String × String)}, Reports acc vs →
    Reports (checkInner inner name value acc) (vs ++ innerViolations inner name value)
  | some s, name, some (.object members), acc, vs, h => by
    rw [checkInner, innerViolations]
    exact h.merge name (reports_check s members)
  | none, name, value, acc, vs, h => by simpa [checkInner, innerViolations] using h
  | some s, name, none, acc, vs, h => by simpa [checkInner, innerViolations] using h
  | some s, name, some .null, acc, vs, h => by simpa [checkInner, innerViolations] using h
  | some s, name, some (.bool _), acc, vs, h => by simpa [checkInner, innerViolations] using h
  | some s, name, some (.number _), acc, vs, h => by simpa [checkInner, innerViolations] using h
  | some s, name, some (.string _), acc, vs, h => by simpa [checkInner, innerViolations] using h
  | some s, name, some (.array _), acc, vs, h => by simpa [checkInner, innerViolations] using h

end

def membersOf (v : Value) : List (String × Value) := v.asObject?.getD []

theorem validate_eq_ok_iff {s : Schema} {v : Value} :
    s.validate v = .ok () ↔ s.violations (membersOf v) = [] := by
  rw [validate, Failures.result, failures, ← (reports_check s (membersOf v)).isEmpty_iff, membersOf]
  split
  · next passed => exact ⟨fun _ => passed, fun _ => rfl⟩
  · next failed => exact ⟨nofun, fun passed => absurd passed failed⟩

/-- What is reported of a value that fails are its violations. -/
theorem mem_violations_of_messages {s : Schema} {v : Value} {f : Failures}
    (failed : s.validate v = .error f) {path m : String} (mem : m ∈ f.messages path) :
    (path, m) ∈ s.violations (membersOf v) := by
  rw [validate, Failures.result] at failed
  split at failed
  · cases failed
  · obtain rfl := Except.error.inj failed
    exact (reports_check s (membersOf v)).mem_of_messages mem

section Flat

variable {object : List (String × Value)}

theorem constraintMessages_eq_nil_iff {name : String} {constraints : List Constraint}
    {value : Option Value} :
    constraintMessages name constraints value object = [] ↔
      ∀ c ∈ constraints, c.holds value object = true := by
  simp only [constraintMessages, List.filterMap_eq_nil_iff, Constraint.check]
  refine forall₂_congr fun c _ => ?_
  split
  · next holds => simp [holds]
  · next fails => simp [fails]

theorem undeclared_eq_nil_iff {rules : List Rule} :
    undeclared rules object = [] ↔ ∀ m ∈ object, m.1 ∈ rules.map (·.1) := by
  simp only [undeclared, List.map_eq_nil_iff, List.filter_eq_nil_iff, Bool.not_eq_true,
    Bool.not_eq_false', List.any_eq_true, beq_iff_eq, List.mem_map]

/-- A field is as its constraints ask: it is left out where that is allowed, or all of them hold. -/
def Fulfils (constraints : List Constraint) (value : Option Value)
    (object : List (String × Value)) : Prop :=
  (isAbsent value = true ∧ constraints.any Constraint.isOptional = true) ∨
    ∀ c ∈ constraints, c.holds value object = true

theorem ruleViolations_eq_nil_iff_of_flat {rules : List Rule} (flat : ∀ r ∈ rules, r.2.2 = none) :
    ruleViolations rules object = [] ↔
      ∀ r ∈ rules, Fulfils r.2.1 (Keyed.get? r.1 object) object := by
  induction rules with
  | nil => exact ⟨nofun, fun _ => rfl⟩
  | cons r rest ih =>
    obtain ⟨name, constraints, inner⟩ := r
    obtain ⟨rfl, later⟩ := List.forall_mem_cons.mp flat
    rw [ruleViolations, List.append_eq_nil_iff, ih later, List.forall_mem_cons, Fulfils]
    refine and_congr_left fun _ => ?_
    split
    · next left_out => exact ⟨fun _ => .inl (Bool.and_eq_true_iff.mp left_out), fun _ => rfl⟩
    · next there =>
      rw [Bool.and_eq_true] at there
      rw [innerViolations, List.append_nil, List.map_eq_nil_iff, constraintMessages_eq_nil_iff,
        or_iff_right there]
      exact nofun

@[simp] theorem rules_empty : empty.rules = [] := rfl

@[simp] theorem rules_field (s : Schema) (name : String) (constraints : List Constraint) :
    (s.field name constraints).rules = s.rules ++ [(name, constraints, none)] := rfl

@[simp] theorem membersOf_object (members : List (String × Value)) :
    membersOf (.object members) = members := rfl

/-- A schema without nested ones, once it forbids all that it does not name, holds of an object that
has no other names and in which every field is as it is asked. -/
theorem validate_forbidUnknown_eq_ok_iff {s : Schema} (flat : ∀ r ∈ s.rules, r.2.2 = none)
    {v : Value} :
    s.forbidUnknown.validate v = .ok () ↔
      (∀ m ∈ membersOf v, m.1 ∈ s.rules.map (·.1)) ∧
        ∀ r ∈ s.rules, Fulfils r.2.1 (Keyed.get? r.1 (membersOf v)) (membersOf v) := by
  rw [validate_eq_ok_iff, forbidUnknown, violations, if_pos rfl, List.append_eq_nil_iff,
    undeclared_eq_nil_iff, ruleViolations_eq_nil_iff_of_flat flat]

theorem mem_ruleViolations_of_flat {rules : List Rule} (flat : ∀ r ∈ rules, r.2.2 = none)
    {path m : String} (mem : (path, m) ∈ ruleViolations rules object) :
    ∃ r ∈ rules, ∃ c ∈ r.2.1, m = c.message r.1 := by
  induction rules with
  | nil => cases mem
  | cons r rest ih =>
    obtain ⟨name, constraints, inner⟩ := r
    obtain ⟨rfl, later⟩ := List.forall_mem_cons.mp flat
    rw [ruleViolations, List.mem_append] at mem
    obtain here | mem := mem
    · simp only [innerViolations, List.append_nil] at here
      split at here
      · cases here
      · obtain ⟨_, found, same⟩ := List.mem_map.mp here
        cases same
        obtain ⟨c, inside, failed⟩ := List.mem_filterMap.mp found
        rw [Constraint.check, Option.ite_none_left_eq_some] at failed
        exact ⟨_, List.mem_cons_self, c, inside, (Option.some.inj failed.2).symm⟩
    · obtain ⟨r, inside, c, mem, same⟩ := ih later mem
      exact ⟨r, List.mem_cons_of_mem _ inside, c, mem, same⟩

/-- A message of a schema without nested ones speaks of a property or is that of a constraint. -/
theorem mem_violations_of_flat {rules : List Rule} (flat : ∀ r ∈ rules, r.2.2 = none)
    {forbids : Bool} {path m : String} (mem : (path, m) ∈ violations ⟨rules, forbids⟩ object) :
    (∃ name, m = "property " ++ name ++ " should not exist") ∨
      ∃ r ∈ rules, ∃ c ∈ r.2.1, m = c.message r.1 := by
  rw [violations, List.mem_append] at mem
  obtain unknown | broken := mem
  · left
    split at unknown
    · obtain ⟨member, -, same⟩ := List.mem_map.mp unknown
      exact ⟨member.1, (congrArg Prod.snd same).symm⟩
    · cases unknown
  · exact .inr (mem_ruleViolations_of_flat flat broken)

end Flat

end Schema

end Turnstile
