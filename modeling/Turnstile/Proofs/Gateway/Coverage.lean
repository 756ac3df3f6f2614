import Turnstile.Proofs.Gateway.Budget
import Turnstile.Proofs.Gateway.Course

/-!
Which counters stand before which routes. Whatever comes to the cache and the routes has been
charged once on each of its caller's counters for the path, and nothing else charges a counter. The
paths are matched twice, for the counters and for the routes, and both agree on every spelling.
-/

namespace Turnstile

namespace Gateway

variable {s : Settings} {v : Token.Verifier} {o : Occasion} {r : Request} {m : Memory}

/-- Every spelling of the path for challenges is charged on both counters. -/
theorem keysFor_of_challenge {method : Method} {path : String}
    (taken : Endpoint.takes method path .challenge = true) (caller : String) :
    keysFor path caller = [defaultKey caller, authKey caller] := by
  -- Counters and routes see a path without the slash at its end, so one spelling stands for all.
  obtain ⟨-, same⟩ := Endpoint.takes_iff.mp taken
  have exact : Pattern.ofText healthPattern = .exact "/health".toList := by decide +kernel
  have below : Pattern.ofText authPattern = .below "/auth".toList := by decide +kernel
  have health : (Pattern.ofText healthPattern).isMatch path = false := by
    rw [exact, Pattern.isMatch, Pattern.matchPath, ← same]
    decide +kernel
  have auth : (Pattern.ofText authPattern).isMatch path = true := by
    rw [below, Pattern.isMatch, Pattern.matchPath, ← same]
    decide +kernel
  rw [keysFor, health, auth]
  rfl

theorem defaultKey_mem_keysFor {path : String}
    (other : (Pattern.ofText healthPattern).isMatch path = false) (caller : String) :
    defaultKey caller ∈ keysFor path caller := by
  rw [keysFor, other]
  split
  · contradiction
  · split <;> exact List.mem_cons_self

theorem nodup_chargedKeys (v : Token.Verifier) (r : Request) : (chargedKeys v r).Nodup := by
  rw [chargedKeys]
  split
  · exact List.nodup_nil
  · exact nodup_keysFor _ _

/-- The deeds of a request that comes to the routes, as far as they are charges. -/
theorem count_charge (keys : List String) (r : Request) (cs : Counters) (key : String) :
    (keys.map Deed.charge ++ .enter :: reached r cs).count (.charge key) = keys.count key := by
  have routed : (Deed.enter :: reached r cs).count (.charge key) = 0 := by
    rw [List.count_eq_zero, reached]
    cases Endpoint.of? r.method r.path <;> simp
  rw [List.count_append, routed, Nat.add_zero]
  induction keys with
  | nil => rfl
  | cons k keys ih => simp [List.count_cons, ih]

theorem serve_mem_reached {e : Endpoint} {cs after : Counters} :
    .serve e cs ∈ reached r after ↔ cs = after ∧ e.takes r.method r.path = true := by
  rw [reached, ← Endpoint.of?_eq_some_iff]
  cases Endpoint.of? r.method r.path with
  | none => simp
  | some f =>
    constructor
    · intro served
      cases List.mem_singleton.mp served
      exact ⟨rfl, rfl⟩
    · rintro ⟨rfl, led⟩
      cases led
      exact List.mem_cons_self

structure Coverage (s : Settings) (v : Token.Verifier) (r : Request) (m n : Memory) (a : Response)
    (ds : List Deed) : Prop where
  /-- The origin policy answers, a counter refuses the request, or it comes to the cache and the
  routes. -/
  enters : .enter ∈ ds ∨ (policy s).answers r = true ∨ a.status.code = 429
  /-- There the route that takes it serves it, and no other. -/
  serves : ∀ e, (∃ cs, .serve e cs ∈ ds) ↔ .enter ∈ ds ∧ Endpoint.takes r.method r.path e = true
  /-- Nobody but administrators comes there uncharged, unless it is for the gateway's health. -/
  default : isExempt v r = false → (Pattern.ofText healthPattern).isMatch r.path = false →
    .enter ∈ ds → ds.count (.charge (defaultKey (callerOf v r).key)) = 1
  /-- A request for a challenge is charged on both counters. -/
  challenge : ∀ cs, isExempt v r = false → .serve .challenge cs ∈ ds →
    ds.count (.charge (defaultKey (callerOf v r).key)) = 1 ∧
      ds.count (.charge (authKey (callerOf v r).key)) = 1
  /-- Neither of them was blocked before, and neither is when the challenge is served. -/
  free : ∀ cs, isExempt v r = false → .serve .challenge cs ∈ ds →
    ∀ key ∈ [defaultKey (callerOf v r).key, authKey (callerOf v r).key],
      m.counters.isBlocked m.now key = false ∧ cs.isBlocked m.now key = false
  /-- Requests of administrators, those for the gateway's health and those that the policy answers
  charge no counter. -/
  uncharged : isExempt v r = true ∨ (Pattern.ofText healthPattern).isMatch r.path = true ∨
    (policy s).answers r = true → n.counters = m.counters ∧ ∀ key, .charge key ∉ ds

section Courses

variable {n : Memory} {a : Response}

theorem chargedKeys_of_regular (regular : isExempt v r = false) :
    chargedKeys v r = keysFor r.path (callerOf v r).key := by
  rw [chargedKeys, regular]
  rfl

theorem chargedKeys_eq_nil (h : isExempt v r = true ∨
    (Pattern.ofText healthPattern).isMatch r.path = true) : chargedKeys v r = [] := by
  rw [chargedKeys]
  split
  · rfl
  · next regular =>
    obtain exempt | health := h
    · exact absurd exempt regular
    · rw [keysFor, if_pos health]

theorem coverage_of_preflight (asked : (policy s).answers r = true) :
    Coverage s v r m m a [] where
  enters := .inr (.inl asked)
  serves := by simp
  default := nofun
  challenge := nofun
  free := nofun
  uncharged := fun _ => ⟨rfl, nofun⟩

theorem coverage_of_refused (passed : (policy s).answers r = false) {keys : List String}
    (some : keys ≠ []) (first : keys <+: chargedKeys v r) (full : a.status.code = 429) :
    Coverage s v r m n a (keys.map .charge) where
  enters := .inr (.inr full)
  serves := by simp
  default := by simp
  challenge := by simp
  free := by simp
  uncharged := by
    intro free
    have counted : chargedKeys v r ≠ [] := by
      intro none
      rw [none] at first
      exact some (List.prefix_nil.mp first)
    obtain exempt | health | asked := free
    · exact absurd (chargedKeys_eq_nil (.inl exempt)) counted
    · exact absurd (chargedKeys_eq_nil (.inr health)) counted
    · rw [passed] at asked
      cases asked

theorem coverage_of_entered (passed : (policy s).answers r = false) {after : Counters}
    (free : ∀ key ∈ chargedKeys v r, m.counters.isBlocked m.now key = false ∧
      after.isBlocked m.now key = false)
    (untouched : chargedKeys v r = [] → after = m.counters) (kept : n.counters = after) :
    Coverage s v r m n a ((chargedKeys v r).map .charge ++ .enter :: reached r after) := by
  have once {key : String} (mem : key ∈ chargedKeys v r) :
      ((chargedKeys v r).map Deed.charge ++ .enter :: reached r after).count (.charge key) = 1 := by
    rw [count_charge, (nodup_chargedKeys v r).count, if_pos mem]
  have served {e : Endpoint} {cs : Counters} :
      .serve e cs ∈ (chargedKeys v r).map Deed.charge ++ .enter :: reached r after ↔
        cs = after ∧ e.takes r.method r.path = true := by
    rw [← serve_mem_reached]
    simp
  have forChallenge {cs : Counters} (regular : isExempt v r = false)
      (reaches : .serve .challenge cs ∈
        (chargedKeys v r).map Deed.charge ++ .enter :: reached r after) :
      chargedKeys v r = [defaultKey (callerOf v r).key, authKey (callerOf v r).key] := by
    rw [chargedKeys_of_regular regular, keysFor_of_challenge (served.mp reaches).2]
  constructor
  · exact .inl (List.mem_append_right _ List.mem_cons_self)
  · intro e
    constructor
    · rintro ⟨cs, reaches⟩
      exact ⟨List.mem_append_right _ List.mem_cons_self, (served.mp reaches).2⟩
    · rintro ⟨-, taken⟩
      exact ⟨after, served.mpr ⟨rfl, taken⟩⟩
  · intro regular other entered
    apply once
    rw [chargedKeys_of_regular regular]
    exact defaultKey_mem_keysFor other _
  · intro cs regular reaches
    have keys := forChallenge regular reaches
    exact ⟨once (by simp [keys]), once (by simp [keys])⟩
  · intro cs regular reaches key mem
    rw [(served.mp reaches).1]
    rw [← forChallenge regular reaches] at mem
    exact free key mem
  · intro uncharged
    have none : chargedKeys v r = [] := by
      obtain exempt | health | asked := uncharged
      · exact chargedKeys_eq_nil (.inl exempt)
      · exact chargedKeys_eq_nil (.inr health)
      · rw [passed] at asked
        cases asked
    refine ⟨kept.trans (untouched none), fun key => ?_⟩
    apply List.count_eq_zero.mp
    rw [count_charge, none, List.count_nil]

theorem coverage_of_course {ds : List Deed} (h : Course s v o r m (.ok a, n) ds) :
    Coverage s v r m n a ds := by
  generalize pair : (Except.ok a, n) = result at h
  cases h with
  | preflight asked =>
    cases pair
    exact coverage_of_preflight asked
  | refused passed some first =>
    cases pair
    exact coverage_of_refused passed some first rfl
  | late => cases pair
  | @entered passed x request principal after free untouched more plain =>
    subst request
    have kept : n.counters = after := by
      obtain ⟨own, came, -⟩ := Stage.withFields_eq_ok pair.symm
      obtain ⟨_, _, given, -, -, same⟩ :=
        quiet_behind s o x { m with counters := after }
      rw [given] at came
      cases came
      exact same
    exact coverage_of_entered passed free untouched kept

end Courses

/-- Under windows that fit the clock every request is answered, the record of a watched gateway
changes nothing, and the charges on it cover what the request comes to. -/
theorem charges_cover_routes (s : Settings) (v : Token.Verifier) (o : Occasion) (r : Request)
    (m : Memory) (fits : FitsClock s m.now) :
    ∃ a n ds, (inMemory s v).answer o r m = (.ok a, n) ∧
      Watched.answer s v o r ⟨m, []⟩ = (.ok a, ⟨n, ds⟩) ∧ Coverage s v r m n a ds := by
  obtain ⟨a, n, answered, -⟩ := ends_answer s v o r fits
  have taken := course s v o r m
  have watched := answer_watched s v o r m
  rw [answered] at taken watched
  exact ⟨a, n, deeds s v o r m, answered, watched, coverage_of_course taken⟩

section Case

/-- An account's request for a challenge, its path written with a slash at the end. -/
def challenging : Request :=
  ⟨⟨.post, "/auth/challenge/", none, .http11, ⟨[("Authorization", "Bearer 7")]⟩⟩, [], none, []⟩

/-- The counters when it has been charged. -/
def chargedOnce : Counters :=
  ⟨[("auth:user:7", ⟨1, 60 * Clock.second, none⟩),
    ("default:user:7", ⟨1, 60 * Clock.second, none⟩)]⟩

/-- A browser's question whether a page may ask for a challenge. -/
def asking : Request :=
  ⟨⟨.options, "/auth/challenge", none, .http11, ⟨[("Origin", "http://localhost:3000")]⟩⟩, [], none, []⟩

/-- The request reaches its route charged once on both counters of the account; the question is
answered and charged on none. -/
theorem challenge_charged_on_both :
    FitsClock strict Memory.empty.now ∧ isExempt acceptsSeven challenging = false ∧
    (∃ a n ds,
      (inMemory strict acceptsSeven).answer ⟨0, ""⟩ challenging .empty = (.ok a, n) ∧
      Watched.answer strict acceptsSeven ⟨0, ""⟩ challenging ⟨.empty, []⟩ = (.ok a, ⟨n, ds⟩) ∧
      Coverage strict acceptsSeven challenging .empty n a ds ∧
      .serve .challenge chargedOnce ∈ ds ∧
      ds.count (.charge "default:user:7") = 1 ∧ ds.count (.charge "auth:user:7") = 1) ∧
    ∃ a n ds,
      (inMemory strict acceptsSeven).answer ⟨0, ""⟩ asking .empty = (.ok a, n) ∧
      Watched.answer strict acceptsSeven ⟨0, ""⟩ asking ⟨.empty, []⟩ = (.ok a, ⟨n, ds⟩) ∧
      a.status.code = 204 ∧ n.counters = .empty ∧ ∀ key, .charge key ∉ ds := by
  have fits : FitsClock strict Memory.empty.now := by decide +kernel
  have regular : isExempt acceptsSeven challenging = false := by decide +kernel
  have caller : (callerOf acceptsSeven challenging).key = "user:7" := by decide +kernel
  have asked : (policy strict).answers asking = true := by decide +kernel
  refine ⟨fits, regular, ?_, ?_⟩
  · obtain ⟨a, n, ds, answered, watched, covers⟩ :=
      charges_cover_routes strict acceptsSeven ⟨0, ""⟩ challenging .empty fits
    have served : .serve .challenge chargedOnce ∈
        (Watched.answer strict acceptsSeven ⟨0, ""⟩ challenging ⟨.empty, []⟩).2.deeds := by
      decide +kernel
    rw [watched] at served
    have charged := covers.challenge chargedOnce regular served
    rw [caller] at charged
    exact ⟨a, n, ds, answered, watched, covers, served, charged⟩
  · obtain ⟨a, n, ds, answered, watched, covers⟩ :=
      charges_cover_routes strict acceptsSeven ⟨0, ""⟩ asking .empty fits
    have code : (Watched.answer strict acceptsSeven ⟨0, ""⟩ asking ⟨.empty, []⟩).1.map
        (·.status.code) = .ok 204 := by
      decide +kernel
    rw [watched] at code
    exact ⟨a, n, ds, answered, watched, Except.ok.inj code, covers.uncharged (.inr (.inr asked))⟩

end Case

end Gateway

end Turnstile
