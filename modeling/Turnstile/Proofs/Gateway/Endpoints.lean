import Turnstile.Gateway.Basic

/-!
The routes of a gateway as a table: what each one asks for in a request, whom it serves and what it
does for them. `route_table` says that a request is led to the one route of this table that takes
it, and `of?_of_cacheable` that no route takes a request whose answer would be kept.
-/

namespace Turnstile

inductive Endpoint where
  | health
  | cacheStats
  | clearCache
  | clearPattern
  | resetStats
  | submissions
  | challenge
  deriving DecidableEq, Repr

inductive Audience where
  | anyone
  | callers
  | admins
  deriving DecidableEq, Repr

namespace Audience

def guard {σ : Type} : Audience → Stage σ
  | .anyone => fun next => next
  | .callers => Api.callerOnly
  | .admins => Api.adminOnly

def admits : Audience → Option Principal → Bool
  | .anyone, _ => true
  | .callers, p => p.isSome
  | .admins, p => p.any Principal.isAdmin

theorem admits_admins {principal : Option Principal}
    (others : ∀ p, principal = some p → p.isAdmin = false) :
    admins.admits principal = false := by
  cases principal with
  | none => rfl
  | some p => exact others p rfl

/-- The answer to those that are kept out. -/
def turnedAway : Option Principal → Response
  | none => Api.unauthorized
  | some _ => Api.forbidden

theorem turnedAway_eq_ofJson (p : Option Principal) : ∃ s v, turnedAway p = Response.ofJson s v := by
  cases p <;> exact ⟨_, _, rfl⟩

variable {σ : Type} {a : Audience} {x : Exchange}

theorem guard_of_admits (h : a.admits x.principal = true) (next : Handler σ) :
    a.guard next x = next x := by
  cases principal : x.principal with
  | none =>
    rw [principal] at h
    cases a with
    | anyone => rfl
    | callers | admins => cases h
  | some p =>
    rw [principal] at h
    cases a with
    | anyone => rfl
    | callers => simp only [guard, Api.callerOnly, principal]
    | admins =>
      have admin : p.isAdmin = true := h
      simp only [guard, Api.adminOnly, principal, admin, if_true]

theorem guard_of_not_admits (h : a.admits x.principal = false) (next : Handler σ) :
    a.guard next x = pure (turnedAway x.principal) := by
  cases principal : x.principal with
  | none =>
    rw [principal] at h
    cases a with
    | anyone => cases h
    | callers => simp only [guard, Api.callerOnly, principal, turnedAway]
    | admins => simp only [guard, Api.adminOnly, principal, turnedAway]
  | some p =>
    rw [principal] at h
    cases a with
    | anyone | callers => cases h
    | admins =>
      have other : p.isAdmin = false := h
      simp only [guard, Api.adminOnly, principal, other, turnedAway, Bool.false_eq_true, if_false]

end Audience

namespace Endpoint

def all : List Endpoint :=
  [.health, .cacheStats, .clearCache, .clearPattern, .resetStats, .submissions, .challenge]

theorem mem_all (e : Endpoint) : e ∈ all := by cases e <;> decide

def method : Endpoint → Method
  | .health | .cacheStats => .get
  | .clearCache | .clearPattern | .resetStats => .delete
  | .submissions | .challenge => .post

def path : Endpoint → String
  | .health => "/health"
  | .cacheStats => "/cache/stats"
  | .clearCache => "/cache/clear"
  | .clearPattern => "/cache/clear-pattern"
  | .resetStats => "/cache/reset-stats"
  | .submissions => "/submissions"
  | .challenge => "/auth/challenge"

def audience : Endpoint → Audience
  | .health | .challenge => .anyone
  | .cacheStats | .submissions => .callers
  | .clearCache | .clearPattern | .resetStats => .admins

/-- What the route does for those that it serves. -/
def service {σ : Type} (cache : Cache σ) (o : Occasion) : Endpoint → Handler σ
  | .health => Api.health o
  | .cacheStats => Api.cacheStats cache
  | .clearCache => Api.clearCache cache
  | .clearPattern => Api.clearPattern cache
  | .resetStats => Api.resetStats cache
  | .submissions => Api.submitProof o
  | .challenge => Api.issueChallenge o

def handler {σ : Type} (cache : Cache σ) (o : Occasion) (e : Endpoint) : Handler σ :=
  e.audience.guard (e.service cache o)

/-- The route takes requests of this method for this path. -/
def takes (m : Method) (path : String) (e : Endpoint) : Bool :=
  e.method == m && (Pattern.ofText e.path).isMatch path

/-- The route that a request is led to. -/
def of? (m : Method) (path : String) : Option Endpoint := all.find? (takes m path)

/-- A router with something for each route of the table. -/
def table {α : Type} (target : Endpoint → α) : Router α :=
  ⟨all.map fun e => ⟨e.method, Pattern.ofText e.path, target e⟩⟩

theorem router_eq_table {σ : Type} (cache : Cache σ) (o : Occasion) :
    Api.router cache o = table (handler cache o) := rfl

/-- No route captures anything. -/
theorem ofText_path (e : Endpoint) : Pattern.ofText e.path = .exact e.path.toList := by
  cases e <;> decide +kernel

theorem takes_iff {m : Method} {path : String} {e : Endpoint} :
    takes m path e = true ↔ e.method = m ∧ e.path.toList = Pattern.normalize path.toList := by
  rw [takes, Bool.and_eq_true, beq_iff_eq, ofText_path, Pattern.isMatch, Pattern.matchPath]
  by_cases same : e.path.toList = Pattern.normalize path.toList <;> simp [same]

theorem eq_of_path {e f : Endpoint} (same : e.path = f.path) : e = f := by
  have distinct : ∀ e ∈ all, ∀ f ∈ all, e.path = f.path → e = f := by decide +kernel
  exact distinct e (mem_all e) f (mem_all f) same

/-- No two routes take the same request, so their order does not matter. -/
theorem of?_eq_some_iff {m : Method} {path : String} {e : Endpoint} :
    of? m path = some e ↔ takes m path e = true := by
  constructor
  · exact List.find?_some
  · intro taken
    obtain ⟨f, found⟩ : ∃ f, of? m path = some f :=
      Option.isSome_iff_exists.mp (List.find?_isSome.mpr ⟨e, mem_all e, taken⟩)
    have same : f.path.toList = e.path.toList :=
      (takes_iff.mp (List.find?_some found)).2.trans (takes_iff.mp taken).2.symm
    rw [found, eq_of_path (String.toList_injective same)]

theorem find?_table {α : Type} (target : Endpoint → α) (m : Method) (path : String) :
    (table target).find? m path = (of? m path).map (target ·, []) := by
  rw [Router.find?, table, of?]
  induction all with
  | nil => rfl
  | cons e es ih =>
    have row : (if e.method = m then
        ((Pattern.ofText e.path).matchPath path).map (target e, ·) else none) =
          if takes m path e = true then some (target e, []) else none := by
      rw [takes, ofText_path, Pattern.isMatch, Pattern.matchPath]
      by_cases method : e.method = m <;>
        by_cases same : e.path.toList = Pattern.normalize path.toList <;> simp [method, same]
    rw [List.map_cons, List.findSome?_cons, List.find?_cons, row]
    cases takes m path e with
    | true => rfl
    | false => exact ih

theorem route_table {σ : Type} (target : Endpoint → Handler σ) (x : Exchange) :
    Handler.route (table target) x =
      match of? x.request.method x.request.path with
      | some e => target e { x with params := [] }
      | none => pure (Router.notFound x.request.method x.request.path) := by
  rw [Handler.route, find?_table]
  cases of? x.request.method x.request.path <;> rfl

/-- A route for reading stands on a path whose answers are never kept. -/
theorem uncached_of_takes {path : String} {e : Endpoint} (taken : takes .get path e = true) :
    Gateway.uncached.any (·.isMatch path) = true := by
  obtain ⟨reading, same⟩ := takes_iff.mp taken
  rw [List.any_eq_true]
  cases e with
  | health =>
    refine ⟨.ofText Gateway.healthPattern, List.mem_cons_self, ?_⟩
    exact (Bool.and_eq_true_iff.mp taken).2
  | cacheStats =>
    have below : Pattern.ofText Gateway.cachePattern = .below "/cache".toList := by decide +kernel
    refine ⟨.ofText Gateway.cachePattern, by simp [Gateway.uncached], ?_⟩
    rw [below, Pattern.isMatch, Pattern.matchPath, ← same]
    decide +kernel
  | clearCache | clearPattern | resetStats | submissions | challenge => cases reading

/-- No route takes a request whose answer would be kept. -/
theorem of?_of_cacheable {r : Head} (cacheable : ResponseCache.isCacheable r = true)
    (kept : Gateway.uncached.any (·.isMatch r.path) = false) : of? r.method r.path = none := by
  have reading : r.method = .get := by
    simp only [ResponseCache.isCacheable, Bool.and_eq_true, beq_iff_eq] at cacheable
    exact cacheable.1.1
  rw [Option.eq_none_iff_forall_not_mem]
  intro e found
  have taken := List.find?_some found
  rw [reading] at taken
  rw [uncached_of_takes taken] at kept
  cases kept

end Endpoint

end Turnstile
