import Mathlib.Data.List.Forall2
import Turnstile.Throttle.Plan

namespace Turnstile

namespace RouteLimits

/-- The limits are for this request. -/
def Concerns (r : RouteLimits) (q : Request) : Prop :=
  (∀ m, r.method = some m → m = q.method) ∧ (Pattern.ofText r.source).isMatch q.path = true

theorem covers_iff {r : RouteLimits} {q : Request} : r.covers q = true ↔ r.Concerns q := by
  unfold covers Concerns
  rw [Bool.and_eq_true]
  refine and_congr_left fun _ => ?_
  cases r.method <;> simp

/-- A registered bucket counts on the route: it is not left out, and it is the default one or has a
rule. -/
def applies (r : RouteLimits) (b : Bucket) : Bool :=
  !r.skipped.contains b.name && (b.name == "default" || r.rules.any (·.name == b.name))

/-- What the rule makes of a bucket. With a limit or a window of its own, it counts on the route
apart from all others. -/
inductive Ruled (r : RouteLimits) (caller : String) (b : Bucket) (rule : LimitRule) : Charge → Prop
  | shared (limit : rule.limit = none) (window : rule.window = none) :
    Ruled r caller b rule
      ⟨⟨b.name, ⟨b.quota.limit, b.quota.window, rule.block.or b.quota.block⟩⟩,
        b.name ++ ":" ++ caller⟩
  | own (given : rule.limit ≠ none ∨ rule.window ≠ none) :
    Ruled r caller b rule
      ⟨⟨b.name, ⟨rule.limit.getD b.quota.limit, rule.window.getD b.quota.window,
          rule.block.or b.quota.block⟩⟩,
        b.name ++ ":" ++ r.source ++ ":" ++ caller⟩

/-- The charge on a registered bucket. Of its rules the first counts. -/
inductive Levied (r : RouteLimits) (caller : String) (b : Bucket) : Charge → Prop
  | plain (unruled : ∀ rule ∈ r.rules, rule.name ≠ b.name) :
    Levied r caller b ⟨b, b.name ++ ":" ++ caller⟩
  | ruled {before after : List LimitRule} {rule : LimitRule} {c : Charge}
    (rules : r.rules = before ++ rule :: after) (named : rule.name = b.name)
    (first : ∀ d ∈ before, d.name ≠ b.name) (h : r.Ruled caller b rule c) : Levied r caller b c

theorem ruled_chargeUnder (r : RouteLimits) (caller : String) (b : Bucket) (rule : LimitRule) :
    r.Ruled caller b rule (ThrottlePlan.chargeUnder b r.source rule caller) := by
  cases limit : rule.limit with
  | some l =>
    have own : r.Ruled caller b rule _ := .own (.inl (by rw [limit]; exact Option.some_ne_none l))
    simpa [ThrottlePlan.chargeUnder, LimitRule.override, LimitRule.isOwnWindow, limit] using own
  | none =>
    cases window : rule.window with
    | some w =>
      have own : r.Ruled caller b rule _ :=
        .own (.inr (by rw [window]; exact Option.some_ne_none w))
      simpa [ThrottlePlan.chargeUnder, LimitRule.override, LimitRule.isOwnWindow, limit, window]
        using own
    | none =>
      have shared : r.Ruled caller b rule _ := .shared limit window
      simpa [ThrottlePlan.chargeUnder, LimitRule.override, LimitRule.isOwnWindow, limit, window]
        using shared

end RouteLimits

namespace ThrottlePlan

/-- The rule counts without a registered bucket: it has a limit and a window, and the route does not
leave it out. -/
def standsAlone (p : ThrottlePlan) (r : RouteLimits) (rule : LimitRule) : Bool :=
  !(p.default :: p.more).any (·.name == rule.name) && !r.skipped.contains rule.name &&
    rule.limit.isSome && rule.window.isSome

/-- The charge of a rule that stands alone. -/
def Alone (r : RouteLimits) (caller : String) (rule : LimitRule) (c : Charge) : Prop :=
  ∃ limit window, rule.limit = some limit ∧ rule.window = some window ∧
    c = ⟨⟨rule.name, ⟨limit, window, rule.block⟩⟩, rule.name ++ ":" ++ r.source ++ ":" ++ caller⟩

/-- The charges of a request. On the first route that concerns it, these are on the registered
buckets that count there, in the order of their registration, and then those of the rules that stand
alone. Where no route does, they are on the default bucket. -/
inductive Levies (p : ThrottlePlan) (q : Request) (caller : String) : List Charge → Prop
  | unrouted (free : ∀ r ∈ p.routes, ¬ r.Concerns q) :
    Levies p q caller (((p.default :: p.more).filter (·.name == "default")).map
      fun b => ⟨b, b.name ++ ":" ++ caller⟩)
  | routed {before after : List RouteLimits} {r : RouteLimits} {registered alone : List Charge}
    (routes : p.routes = before ++ r :: after) (concerns : r.Concerns q)
    (first : ∀ d ∈ before, ¬ d.Concerns q)
    (levied : List.Forall₂ (r.Levied caller) ((p.default :: p.more).filter r.applies) registered)
    (others : List.Forall₂ (Alone r caller) (r.rules.filter (p.standsAlone r)) alone) :
    Levies p q caller (registered ++ alone)

theorem forall₂_filterMap {α β : Type} {R : α → β → Prop} {keep : α → Bool} {f : α → Option β}
    (h : ∀ a, (keep a = true ∧ ∃ b, f a = some b ∧ R a b) ∨ (keep a = false ∧ f a = none))
    (l : List α) : List.Forall₂ R (l.filter keep) (l.filterMap f) := by
  induction l with
  | nil => exact .nil
  | cons a l ih =>
    obtain ⟨kept, b, made, related⟩ | ⟨left, none⟩ := h a
    · rw [List.filter_cons_of_pos kept, List.filterMap_cons_some made]
      exact .cons related ih
    · rw [List.filter_cons_of_neg (by simp [left]), List.filterMap_cons_none none]
      exact ih

theorem registered?_some (r : RouteLimits) (caller : String) (b : Bucket) :
    (r.applies b = true ∧ ∃ c, registered? (some r) caller b = some c ∧ r.Levied caller b c) ∨
      (r.applies b = false ∧ registered? (some r) caller b = none) := by
  unfold registered? RouteLimits.applies
  cases skipped : r.skipped.contains b.name with
  | true => exact .inr ⟨rfl, if_pos skipped⟩
  | false =>
    have kept : ¬ r.skips b.name = true := by simpa [RouteLimits.skips] using skipped
    simp only [if_neg kept, Bool.not_false, Bool.true_and]
    cases found : r.ruleFor? b.name with
    | some rule =>
      obtain ⟨same, before, after, rules, first⟩ := List.find?_eq_some_iff_append.mp found
      have has_rule : r.rules.any (·.name == b.name) = true :=
        List.any_eq_true.mpr ⟨rule, List.mem_of_find?_eq_some found, same⟩
      left
      refine ⟨by rw [has_rule, Bool.or_true], _, rfl, ?_⟩
      refine .ruled rules (eq_of_beq same) ?_ (r.ruled_chargeUnder caller b rule)
      intro d mem
      simpa using first d mem
    | none =>
      have unruled : ∀ rule ∈ r.rules, rule.name ≠ b.name := by
        intro rule mem
        simpa using List.find?_eq_none.mp found rule mem
      have no_rule : r.rules.any (·.name == b.name) = false := by simpa using unruled
      rw [no_rule, Bool.or_false]
      cases plain : b.name == "default" with
      | true => exact .inl ⟨rfl, _, if_pos plain, .plain unruled⟩
      | false =>
        have special : ¬ b.isDefault = true := Bool.eq_false_iff.mp plain
        exact .inr ⟨rfl, if_neg special⟩

theorem standalone?_cases (p : ThrottlePlan) (r : RouteLimits) (caller : String)
    (rule : LimitRule) :
    (p.standsAlone r rule = true ∧
        ∃ c, p.standalone? r caller rule = some c ∧ Alone r caller rule c) ∨
      (p.standsAlone r rule = false ∧ p.standalone? r caller rule = none) := by
  unfold standalone? standsAlone RouteLimits.skips buckets
  cases (p.default :: p.more).any (·.name == rule.name) with
  | true => exact .inr ⟨rfl, rfl⟩
  | false =>
    cases r.skipped.contains rule.name with
    | true => exact .inr ⟨rfl, rfl⟩
    | false =>
      cases limit : rule.limit with
      | none => exact .inr ⟨rfl, rfl⟩
      | some l =>
        cases window : rule.window with
        | none => exact .inr ⟨rfl, rfl⟩
        | some w =>
          refine .inl ⟨rfl, _, rfl, l, w, limit, window, ?_⟩
          simp [chargeUnder, LimitRule.override, LimitRule.isOwnWindow, limit, window]

theorem registered?_none (caller : String) (bs : List Bucket) :
    bs.filterMap (registered? none caller) =
      (bs.filter (·.name == "default")).map fun b => ⟨b, b.name ++ ":" ++ caller⟩ := by
  induction bs with
  | nil => rfl
  | cons b bs ih =>
    cases plain : b.name == "default" with
    | true =>
      have made : registered? none caller b = some ⟨b, b.name ++ ":" ++ caller⟩ := if_pos plain
      rw [List.filterMap_cons_some made, List.filter_cons, if_pos plain, List.map_cons, ih]
    | false =>
      have left : ¬ (b.name == "default") = true := Bool.eq_false_iff.mp plain
      have none : registered? none caller b = none := if_neg left
      rw [List.filterMap_cons_none none, List.filter_cons, if_neg left, ih]

theorem levies_charges (p : ThrottlePlan) (q : Request) (caller : String) :
    p.Levies q caller (p.charges q caller) := by
  unfold charges
  cases found : p.routes.find? (·.covers q) with
  | none =>
    simp only [List.append_nil]
    rw [registered?_none]
    refine .unrouted fun r mem => ?_
    rw [← RouteLimits.covers_iff]
    exact List.find?_eq_none.mp found r mem
  | some r =>
    obtain ⟨covers, before, after, routes, first⟩ := List.find?_eq_some_iff_append.mp found
    refine .routed routes (RouteLimits.covers_iff.mp covers) ?_ ?_ ?_
    · intro d mem
      rw [← RouteLimits.covers_iff]
      simpa using first d mem
    · exact forall₂_filterMap (registered?_some r caller) _
    · exact forall₂_filterMap (p.standalone?_cases r caller) _

end ThrottlePlan

end Turnstile
