import Turnstile.Proofs.Gateway.Budget
import Turnstile.Proofs.Gateway.Course

/-!
Who is kept out of which routes. A request that a route would serve only for another caller is
turned away or refused by its counters, however its path is spelled and whatever the cache holds:
the origin policy answers no method that a route has, and the cache answers no path of one.
-/

namespace Turnstile

namespace Gateway

variable {s : Settings} {v : Token.Verifier} {o : Occasion} {r : Request} {m : Memory}

/-- The origin policy answers no request that a route takes. -/
theorem not_answers_of_takes {e : Endpoint} (taken : e.takes r.method r.path = true) :
    (policy s).answers r = false := by
  obtain ⟨method, -⟩ := Endpoint.takes_iff.mp taken
  have other : (r.method == .options) = false := by
    rw [← method]
    cases e <;> rfl
  rw [CorsPolicy.answers, other, Bool.false_and]

/-- Who is not admitted to the route that takes a request gets nothing else from behind the
counters. -/
theorem reply_of_shut {x : Exchange} {y : Run Memory Response} (h : Reply s o x y) {e : Endpoint}
    (taken : e.takes x.request.method x.request.path = true)
    (shut : e.audience.admits x.principal = false) : y = pure (Audience.turnedAway x.principal) := by
  -- The route that takes the request is the only one that it can be led to.
  have led := Endpoint.of?_eq_some_iff.mpr taken
  cases h with
  | sought unrouted | lost unrouted =>
    rw [led] at unrouted
    cases unrouted
  | turnedAway => rfl
  | served other admitted =>
    rw [led] at other
    cases other
    rw [shut] at admitted
    cases admitted

/-- A request is turned away from a route that does not serve its caller, if it gets so far. -/
theorem answer_of_shut {e : Endpoint} (fits : FitsClock s m.now)
    (taken : e.takes r.method r.path = true)
    (shut : e.audience.admits (principalOf v r) = false) :
    ∃ a n, (inMemory s v).answer o r m = (.ok a, n) ∧
      a.status.code ∈ [(Audience.turnedAway (principalOf v r)).status.code, 429] := by
  obtain ⟨a, n, answered, -⟩ := ends_answer s v o r fits
  refine ⟨a, n, answered, ?_⟩
  have course := course s v o r m
  rw [answered] at course
  generalize pair : (Except.ok a, n) = result, deeds s v o r m = ds at course
  cases course with
  | preflight asked =>
    rw [not_answers_of_takes taken] at asked
    cases asked
  | refused =>
    cases pair
    exact List.mem_cons_of_mem _ List.mem_cons_self
  | late => cases pair
  | entered passed request principal =>
    subst request
    rw [← principal] at shut ⊢
    have away := reply_of_shut (reply s o _) taken shut
    obtain ⟨own, came, rfl⟩ := Stage.withFields_eq_ok pair.symm
    rw [away] at came
    cases came
    exact List.mem_cons_self

/-- Without an accepted token a request gets nothing from the routes for callers and those for
administrators, and with one that is no administrator's nothing from the latter. -/
theorem guarded_routes_refuse (s : Settings) (v : Token.Verifier) (o : Occasion) (r : Request)
    (m : Memory) (fits : FitsClock s m.now) :
    (claimsOf v r = none →
      ∀ e ∈ [.submissions, .cacheStats, .clearCache, .clearPattern, .resetStats],
        Endpoint.takes r.method r.path e = true →
        ∃ a n, (inMemory s v).answer o r m = (.ok a, n) ∧ a.status.code ∈ [401, 429]) ∧
    ∀ c, claimsOf v r = some c → c.isAdmin = false →
      ∀ e ∈ [.clearCache, .clearPattern, .resetStats],
        Endpoint.takes r.method r.path e = true →
        ∃ a n, (inMemory s v).answer o r m = (.ok a, n) ∧ a.status.code ∈ [403, 429] := by
  constructor
  · intro unknown e guarded taken
    have nobody : principalOf v r = none := by rw [principalOf, unknown, Option.map_none]
    have shut : e.audience.admits (principalOf v r) = false := by
      rw [nobody]
      cases e with
      | health | challenge => simp at guarded
      | submissions | cacheStats | clearCache | clearPattern | resetStats => rfl
    have refused := answer_of_shut (o := o) fits taken shut
    rw [nobody] at refused
    exact refused
  · intro c claimed other e guarded taken
    have somebody : principalOf v r = some (.ofClaims c) := by
      rw [principalOf, claimed, Option.map_some]
    have shut : e.audience.admits (principalOf v r) = false := by
      have admins : e.audience = .admins := by
        cases e with
        | health | challenge | submissions | cacheStats => simp at guarded
        | clearCache | clearPattern | resetStats => rfl
      rw [admins]
      apply Audience.admits_admins
      apply isAdmin_principalOf
      intro d found
      rw [claimed] at found
      cases found
      exact other
    have refused := answer_of_shut (o := o) fits taken shut
    rw [somebody] at refused
    exact refused

section Case

/-- A request to clear the cache, its path written with a slash at the end. -/
def clearingBy (fields : List (String × String)) : Request :=
  ⟨⟨.delete, "/cache/clear/", some "all=1", .http11, ⟨fields⟩⟩, [], none, []⟩

/-- Neither a stranger nor a user clears the cache. -/
theorem clearing_refused :
    let stranger := clearingBy []
    let user := clearingBy [("Authorization", "Bearer 7")]
    let claims : Claims := ⟨some "7", none, none, 0⟩
    FitsClock strict Memory.empty.now ∧
    Endpoint.takes .delete "/cache/clear/" .clearCache = true ∧
    claimsOf acceptsSeven stranger = none ∧
    (∃ a n, (inMemory strict acceptsSeven).answer ⟨0, ""⟩ stranger .empty = (.ok a, n) ∧
      a.status.code ∈ [401, 429]) ∧
    claimsOf acceptsSeven user = some claims ∧ claims.isAdmin = false ∧
    ∃ a n, (inMemory strict acceptsSeven).answer ⟨0, ""⟩ user .empty = (.ok a, n) ∧
      a.status.code ∈ [403, 429] := by
  intro stranger user claims
  have fits : FitsClock strict Memory.empty.now := by decide +kernel
  have taken : Endpoint.takes .delete "/cache/clear/" .clearCache = true := by decide +kernel
  have unknown : claimsOf acceptsSeven stranger = none := by decide +kernel
  have claimed : claimsOf acceptsSeven user = some claims := by decide +kernel
  obtain ⟨toStranger, -⟩ := guarded_routes_refuse strict acceptsSeven ⟨0, ""⟩ stranger .empty fits
  obtain ⟨-, toUser⟩ := guarded_routes_refuse strict acceptsSeven ⟨0, ""⟩ user .empty fits
  exact ⟨fits, taken, unknown, toStranger unknown .clearCache (by decide) taken, claimed, rfl,
    toUser claims claimed rfl .clearCache (by decide) taken⟩

end Case

end Gateway

end Turnstile
