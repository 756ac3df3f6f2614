import Turnstile.Proofs.Schema.Satisfaction

/-!
What a nested schema finds wrong with the value of a field, as the schema around it reports it. An
object cannot escape its schema. Anything else does, whatever its schema would say of it by itself:
`nested_failures_kept_iff`.
-/

namespace Turnstile

open Json (Value)

namespace Failures

theorem dotted_inj {field a b : String} : field ++ "." ++ a = field ++ "." ++ b ↔ a = b := by
  constructor
  · intro same
    have chars := congrArg String.toList same
    simp only [String.toList_append, List.append_assoc] at chars
    exact String.toList_injective (List.append_cancel_left (List.append_cancel_left chars))
  · rintro rfl
    rfl

/-- A field of a nested object is not the field that holds it. -/
theorem dotted_ne (field child : String) : field ++ "." ++ child ≠ field := by
  intro same
  have lengths := congrArg String.length same
  simp only [String.length_append] at lengths
  have dot : ".".length = 1 := rfl
  omega

theorem messagesAt_inside (field path : String) (ws : List (String × String)) :
    messagesAt (field ++ "." ++ path) (inside field ws) = messagesAt path ws := by
  have same (a : String) : (field ++ "." ++ a == field ++ "." ++ path) = (a == path) := by
    rw [Bool.eq_iff_iff, beq_iff_eq, beq_iff_eq, dotted_inj]
  simp [messagesAt, inside, List.filter_map, Function.comp_def, same]

/-- What is reported of the value of a field is reported of the object that has the field, with
each message as often and under its path from outside. -/
def KeptUnder (name : String) (inner outer : Except Failures Unit) : Prop :=
  ∀ f, inner = .error f → ∃ g, outer = .error g ∧
    ∀ path, (f.messages path).Subperm (g.messages (name ++ "." ++ path))

end Failures

namespace Schema

open Failures (inside messagesAt KeptUnder)

theorem inside_sublist_violations {s inner : Schema} {r : Rule} (mem : r ∈ s.rules)
    (nested : r.2.2 = some inner) {object members : List (String × Value)}
    (found : Keyed.get? r.1 object = some (.object members)) :
    (inside r.1 (inner.violations members)).Sublist (s.violations object) := by
  have here : (inside r.1 (inner.violations members)).Sublist (violationsOf object r) := by
    simp only [violationsOf, found, nested, isAbsent, innerViolations, Bool.false_and,
      Bool.false_eq_true, if_false]
    exact List.sublist_append_right _ _
  have among : (violationsOf object r).Sublist (s.rules.flatMap (violationsOf object)) :=
    List.sublist_flatten_of_mem (List.mem_map_of_mem mem)
  rw [violations_eq_append s]
  exact (here.trans among).trans (List.sublist_append_right _ _)

theorem exists_failures {s : Schema} {v : Value} (wrong : s.violations (membersOf v) ≠ []) :
    ∃ f, s.validate v = .error f := by
  cases outcome : s.validate v with
  | error f => exact ⟨f, rfl⟩
  | ok => exact absurd (validate_eq_ok_iff.mp outcome) wrong

/-- A nested object fails from outside for all that it fails for by itself. -/
theorem keptUnder_of_object {s inner : Schema} {name : String} {constraints : List Constraint}
    (mem : (name, constraints, some inner) ∈ s.rules) {object members : List (String × Value)}
    (found : Keyed.get? name object = some (.object members)) :
    KeptUnder name (inner.validate (.object members)) (s.validate (.object object)) := by
  intro f failed
  have reports := reports_of_error failed
  have among := inside_sublist_violations mem rfl found
  have wrong : s.violations object ≠ [] := by
    intro nothing
    rw [nothing, List.sublist_nil, inside, List.map_eq_nil_iff] at among
    rw [validate_eq_ok_iff.mpr among] at failed
    cases failed
  obtain ⟨g, outer⟩ := exists_failures (s := s) (v := .object object) wrong
  refine ⟨g, outer, fun path => ?_⟩
  have kept : (messagesAt path (inner.violations members)).Sublist
      (messagesAt (name ++ "." ++ path) (s.violations object)) := by
    rw [← Failures.messagesAt_inside name]
    exact (among.filter _).map _
  exact ((reports.messages_perm path).subperm.trans kept.subperm).trans
    ((reports_of_error outer).messages_perm _).symm.subperm

/-- A schema of one nested field reports nothing under the paths of a value that is no object. -/
theorem messages_of_scalar {inner : Schema} {name : String} {constraints : List Constraint}
    {v : Value} (scalar : ∀ members, v ≠ .object members) {g : Failures}
    (failed : (empty.nested name constraints inner).validate (.object [(name, v)]) = .error g)
    (path : String) : g.messages (name ++ "." ++ path) = [] := by
  have nothing : innerViolations (some inner) name (some v) = [] := by
    rw [innerViolations_eq_nil_iff]
    intro _ members _ found
    exact absurd (Option.some.inj found) (scalar members)
  have own : ∀ w ∈ (Schema.empty.nested name constraints inner).violations [(name, v)],
      w.1 = name := by
    intro w mem
    have mem : w ∈ violationsOf [(name, v)] (name, constraints, some inner) := by
      simpa [violations_eq_append, Schema.nested, empty, rules, forbidsUnknown] using mem
    simp only [violationsOf, Keyed.get?, if_true, nothing, List.append_nil] at mem
    split at mem
    · cases mem
    · obtain ⟨m, -, rfl⟩ := List.mem_map.mp mem
      rfl
  have silent : messagesAt (name ++ "." ++ path)
      ((Schema.empty.nested name constraints inner).violations [(name, v)]) = [] := by
    rw [messagesAt, List.map_eq_nil_iff, List.filter_eq_nil_iff]
    intro w mem
    rw [own w mem, beq_iff_eq]
    exact (Failures.dotted_ne name path).symm
  have told := (reports_of_error failed).messages_perm (name ++ "." ++ path)
  rw [membersOf_object, silent] at told
  exact told.eq_nil

/-- What a schema finds wrong with a value is kept by every schema around it, in whatever object the
value stands, exactly if the value is an object or nothing is wrong with it. -/
theorem nested_failures_kept_iff (name : String) (constraints : List Constraint) (inner : Schema)
    (v : Value) :
    (∀ (s : Schema) (object : List (String × Value)),
        (name, constraints, some inner) ∈ s.rules → Keyed.get? name object = some v →
        KeptUnder name (inner.validate v) (s.validate (.object object))) ↔
      (∃ members, v = .object members) ∨ inner.validate v = .ok () := by
  constructor
  · intro kept
    by_contra escapes
    obtain ⟨scalar, wrong⟩ := not_or.mp escapes
    rw [validate_eq_ok_iff] at wrong
    obtain ⟨f, failed⟩ := exists_failures wrong
    -- The field alone, under a schema of nothing else, has only messages of its own.
    obtain ⟨g, outer, under⟩ := kept (Schema.empty.nested name constraints inner) [(name, v)]
      (by simp [Schema.nested, rules]) (by simp [Keyed.get?]) f failed
    obtain ⟨w, mem⟩ := List.exists_mem_of_ne_nil _ wrong
    have silent := messages_of_scalar (fun members same => scalar ⟨members, same⟩) outer w.1
    have inside := under w.1
    rw [silent, List.subperm_nil] at inside
    have told := (reports_of_error failed).messages_perm w.1
    rw [inside] at told
    have here : w.2 ∈ messagesAt w.1 (inner.violations (membersOf v)) :=
      List.mem_map.mpr ⟨w, List.mem_filter.mpr ⟨mem, beq_self_eq_true _⟩, rfl⟩
    rw [told.symm.eq_nil] at here
    cases here
  · rintro (⟨members, rfl⟩ | fine) s object mem found
    · exact keptUnder_of_object mem found
    · intro f failed
      rw [fine] at failed
      cases failed

/-- A text where a nested object is asked for: by itself it fails for the field that it does not
have, and as a field it passes. -/
theorem text_escapes_nested_schema :
    let inner := Schema.empty.field "asset" [.notEmpty]
    let outer := Schema.empty.nested "reward" [] inner
    let v : Value := .string "XLM"
    inner.validate v = .error ⟨[("asset", ["asset should not be empty"])]⟩ ∧
    outer.validate (.object [("reward", v)]) = .ok () ∧
    ¬ KeptUnder "reward" (inner.validate v) (outer.validate (.object [("reward", v)])) := by
  intro inner outer v
  have wrong : inner.validate v = .error ⟨[("asset", ["asset should not be empty"])]⟩ := rfl
  have fine : outer.validate (.object [("reward", v)]) = .ok () := rfl
  refine ⟨wrong, fine, fun kept => ?_⟩
  obtain ⟨g, failed, -⟩ := kept _ wrong
  rw [fine] at failed
  cases failed

end Schema

end Turnstile
