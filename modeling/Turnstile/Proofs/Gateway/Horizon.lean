import Turnstile.Proofs.Gateway.Course
import Turnstile.Proofs.Settings.Seconds

namespace Turnstile

/-- The number of seconds, read as a duration, can be added to the clock. -/
def Binary64.EndsOnClock (x : Binary64) (now : Nat) : Prop := now + x.toDuration < Clock.horizon

namespace Environment

/-- The seconds of a window of the default bucket. -/
def windowSeconds (env : Environment) : Binary64 :=
  number (env.value? "RATE_LIMIT_TTL") (RateLimits.number 60)

/-- The seconds of a window for signing in. -/
def authWindowSeconds (env : Environment) : Binary64 :=
  number (env.value? "RATE_LIMIT_AUTH_TTL") env.windowSeconds

/-- The seconds that a cache keeps what it is given no time for. -/
def cacheSeconds (env : Environment) : Binary64 :=
  number (env.value? "CACHE_TTL") (RateLimits.number 300)

theorem isBounded_number {fallback : Binary64} (bounded : fallback.IsBounded)
    (value : Option String) : (number value fallback).IsBounded := by
  rw [number]
  cases h : value.bind Binary64.parse? with
  | none => exact bounded
  | some x =>
    obtain ⟨t, -, read⟩ := Option.bind_eq_some_iff.mp h
    exact Binary64.isBounded_of_parse? read

theorem isBounded_seconds (env : Environment) :
    env.windowSeconds.IsBounded ∧ env.authWindowSeconds.IsBounded ∧ env.cacheSeconds.IsBounded := by
  have window : env.windowSeconds.IsBounded :=
    isBounded_number (Binary64.isBounded_ofNat false 60) _
  exact ⟨window, isBounded_number window _, isBounded_number (Binary64.isBounded_ofNat false 300) _⟩

end Environment

/-- The durations of accepted settings are those of the seconds in the environment. -/
theorem Settings.durations_of_ofEnvironment {env : Environment} {s : Settings}
    (accepted : ofEnvironment env = .ok s) :
    s.rateLimits.window = env.windowSeconds.toDuration ∧
      s.rateLimits.authWindow = env.authWindowSeconds.toDuration ∧
      s.cacheTtl = env.cacheSeconds.toDuration := by
  rw [ofEnvironment] at accepted
  cases port : portIn env with
  | error e => simp [port, bind, Except.bind] at accepted
  | ok p =>
    cases secret : secretIn env with
    | error e => simp [port, secret, bind, Except.bind] at accepted
    | ok t =>
      rw [port, secret] at accepted
      obtain rfl := Except.ok.inj accepted
      exact ⟨rfl, rfl, rfl⟩

namespace Gateway

section Newcomer

/-- An address of this many letters and one more. -/
def farAddress (n : Nat) : String := String.ofList (List.replicate (n + 1) 'x')

/-- A request that says that it comes from there, without a token. -/
def newcomer (path : String) (n : Nat) : Request where
  method := .get
  path := path
  query := none
  version := .http11
  headers := ⟨[("X-Forwarded-For", farAddress n)]⟩
  body := []

theorem nonBlank?_farAddress (n : Nat) : Text.nonBlank? (farAddress n) = some (farAddress n) := by
  have same : Text.trim (farAddress n) = farAddress n := by
    rw [Text.trim, Text.trimChars_of_forall, String.ofList_toList]
    intro c mem
    rw [farAddress, String.toList_ofList] at mem
    obtain rfl := List.eq_of_mem_replicate mem
    decide
  have some_letter : (farAddress n).isEmpty = false := by
    simp [farAddress, List.replicate_succ]
  simp [Text.nonBlank?, same, some_letter]

theorem claimsOf_newcomer (v : Token.Verifier) (path : String) (n : Nat) :
    claimsOf v (newcomer path n) = none := by
  have none_given : (newcomer path n).headers.get? "authorization" = none := by
    have other : Ascii.sameWord "X-Forwarded-For" "authorization" = false := by decide +kernel
    simp [newcomer, Headers.get?, other]
  rw [claimsOf, Token.bearer?, none_given]
  rfl

theorem callerOf_newcomer (v : Token.Verifier) (path : String) (n : Nat) :
    callerOf v (newcomer path n) = .address (farAddress n) := by
  have line : (newcomer path n).headers.getAll "x-forwarded-for" = [farAddress n] := by
    have same : Ascii.sameWord "X-Forwarded-For" "x-forwarded-for" = true := by decide +kernel
    simp [newcomer, Headers.getAll, same]
  have whole : (farAddress n).toList.takeWhile (· != ',') = (farAddress n).toList := by
    simp [farAddress]
  have forwarded : Caller.forwardedFor? (newcomer path n).headers = some (farAddress n) := by
    simp only [Caller.forwardedFor?, line, List.head?_cons, Option.bind_eq_bind, Option.bind_some,
      whole, String.ofList_toList, nonBlank?_farAddress]
  simp only [callerOf, principalOf, claimsOf_newcomer, Caller.resolve, Caller.address?, forwarded,
    Option.map_none, Option.bind_none]

/-- Some address is in no key of a table. -/
theorem exists_newcomer (cs : Counters) :
    ∃ n, ∀ front, cs.get? (front ++ (Caller.address (farAddress n)).key) = none := by
  refine ⟨((Keyed.keys cs.table).map String.length).sum, fun front => ?_⟩
  apply Keyed.get?_eq_none_of_notMem
  intro mem
  set bound := ((Keyed.keys cs.table).map String.length).sum with bound_eq
  have short : (front ++ (Caller.address (farAddress bound)).key).length ≤ bound :=
    List.single_le_sum (fun _ _ => Nat.zero_le _) _ (List.mem_map_of_mem mem)
  simp only [Caller.key, farAddress, String.length_append, String.length_ofList,
    List.length_replicate] at short
  omega

end Newcomer

variable {s : Settings} {v : Token.Verifier} {m : Memory}

/-- If charging a newcomer comes to nothing, so does its request. -/
theorem answer_newcomer_of_late {path : String} {n : Nat} {e : ClockOverflow} {after : Memory}
    (late : Throttle.charge Memory.counterStore
      ((throttlePlan s.rateLimits).charges (newcomer path n) (Caller.address (farAddress n)).key)
        m = (.error e, after)) (o : Occasion) :
    (inMemory s v).answer o (newcomer path n) m = (.error e, after) := by
  have passed : (policy s).answers (newcomer path n) = false := rfl
  have regular : isExempt v (newcomer path n) = false := by
    simp [isExempt, principalOf, claimsOf_newcomer, Caller.isExempt]
  rw [front_inMemory, front_of_regular passed regular, callerOf_newcomer]
  exact Run.bind_of_error late _

theorem counterStore_hit_of_late {key : String} {q : Quota} (new : m.counters.get? key = none)
    (late : ¬ m.now + q.window < Clock.horizon) :
    Memory.counterStore.hit key q m = (.error .mk, m) := by
  have opening : Counter.isOpening m.now (m.counters.get? key) = true := by
    rw [new]
    rfl
  rw [counterStore_hit, Counters.hit_of_late opening late]
  rfl

/-- If a window of the default bucket does not end on the clock, some request has no answer. -/
theorem late_of_window (late : ¬ m.now + s.rateLimits.window < Clock.horizon) :
    ∃ r, ∀ o, (inMemory s v).answer o r m = (.error .mk, m) := by
  obtain ⟨n, new⟩ := exists_newcomer m.counters
  have health : (Pattern.ofText healthPattern).isMatch "/quests" = false := by decide +kernel
  have auth : (Pattern.ofText authPattern).isMatch "/quests" = false := by decide +kernel
  refine ⟨newcomer "/quests" n, answer_newcomer_of_late ?_⟩
  rw [charges_throttlePlan, if_neg (by simp [newcomer, health]), if_neg (by simp [newcomer, auth])]
  exact Throttle.charge_of_late (counterStore_hit_of_late (new _) late) []

/-- If one for signing in does not, the request of a newcomer that the default bucket admits has no
answer. -/
theorem late_of_authWindow (fits : m.now + s.rateLimits.window < Clock.horizon)
    (some_admitted : s.rateLimits.limit ≠ 0)
    (late : ¬ m.now + s.rateLimits.authWindow < Clock.horizon) :
    ∃ r after, ∀ o, (inMemory s v).answer o r m = (.error .mk, after) := by
  obtain ⟨n, new⟩ := exists_newcomer m.counters
  have health : (Pattern.ofText healthPattern).isMatch "/auth/challenge" = false := by
    decide +kernel
  have auth : (Pattern.ofText authPattern).isMatch "/auth/challenge" = true := by decide +kernel
  set caller := (Caller.address (farAddress n)).key with caller_eq
  have opening : Counter.isOpening m.now (m.counters.get? (defaultKey caller)) = true := by
    rw [defaultKey, new]
    rfl
  obtain ⟨h, counted, struck, through⟩ :=
    Counters.hit_of_opening (q := s.rateLimits.defaultBucket.quota) opening fits some_admitted
  have free : Memory.counterStore.hit (defaultKey caller) s.rateLimits.defaultBucket.quota m =
      (.ok (.ok h), { m with counters := counted }) := by
    rw [counterStore_hit, struck]
    rfl
  have still_new : counted.get? (authKey caller) = none := by
    have kept : (Counters.hit m.now (defaultKey caller) s.rateLimits.defaultBucket.quota
        m.counters).2.get? (authKey caller) = m.counters.get? (authKey caller) :=
      Counters.get?_hit_of_ne (defaultKey_ne_authKey caller caller)
    rwa [struck, authKey, new] at kept
  refine ⟨newcomer "/auth/challenge" n, { m with counters := counted },
    answer_newcomer_of_late ?_⟩
  rw [charges_throttlePlan, if_neg (by simp [newcomer, health]), if_pos (by simp [newcomer, auth])]
  rw [Throttle.charge_of_free free through, Run.map_apply, Throttle.charge_of_late]
  exact counterStore_hit_of_late still_new late

/-- Where the default bucket admits nothing, no request comes to a window for signing in. -/
theorem ends_answer_of_no_limit (fits : m.now + s.rateLimits.window < Clock.horizon)
    (nothing : s.rateLimits.limit = 0) (o : Occasion) (r : Request) :
    ((inMemory s v).answer o r).Ends m fun _ _ => True := by
  apply ends_answer_of_charge
  have refused (caller : String) (more : List Charge) :
      (Throttle.charge Memory.counterStore
        (ThrottlePlan.chargePlain s.rateLimits.defaultBucket caller :: more)).Ends m
          fun _ _ => True := by
    obtain ⟨h, counted, struck, blocked⟩ :=
      Counters.hit_of_no_limit (q := s.rateLimits.defaultBucket.quota) nothing rfl fits
        (defaultKey caller) m.counters
    have stopped : Memory.counterStore.hit (defaultKey caller) s.rateLimits.defaultBucket.quota m =
        (.ok (.ok h), { m with counters := counted }) := by
      rw [counterStore_hit, struck]
      rfl
    exact ⟨_, _, Throttle.charge_of_blocked stopped blocked more, trivial⟩
  rw [charges_throttlePlan]
  split
  · exact Run.ends_pure trivial
  · split
    · exact refused _ _
    · exact refused _ _

/-- The gateway serves every request just when its windows end on the clock, as far as it can come
to opening them. -/
theorem serves_all_iff :
    (∀ o r, ((inMemory s v).answer o r).Ends m fun _ _ => True) ↔
      m.now + s.rateLimits.window < Clock.horizon ∧
        (s.rateLimits.limit = 0 ∨ m.now + s.rateLimits.authWindow < Clock.horizon) := by
  constructor
  · intro serves
    have window : m.now + s.rateLimits.window < Clock.horizon := by
      by_contra late
      obtain ⟨r, silent⟩ := late_of_window (v := v) late
      obtain ⟨_, _, answered, -⟩ := serves ⟨0, ""⟩ r
      rw [silent] at answered
      cases answered
    refine ⟨window, ?_⟩
    by_contra neither
    obtain ⟨some_admitted, late⟩ := not_or.mp neither
    obtain ⟨r, _, silent⟩ := late_of_authWindow (v := v) window some_admitted late
    obtain ⟨_, _, answered, -⟩ := serves ⟨0, ""⟩ r
    rw [silent] at answered
    cases answered
  · rintro ⟨window, nothing | authWindow⟩ o r
    · exact ends_answer_of_no_limit window nothing o r
    · exact ends_answer s v o r ⟨window, authWindow⟩

/-- The memory with a value put into the cache. -/
def Memory.keeping (m : Memory) (key : String) (value : Json.Value) (expires : Nat) : Memory :=
  { m with entries := ⟨Keyed.insert key ⟨Utf8.encodeChars value.chars, expires⟩ m.entries.table⟩ }

/-- A cache stores by its default just when that ends on the clock. -/
theorem stores_iff {ttl : Nat} (key : String) (value : Json.Value) :
    (((Memory.cache ttl).set key (some value) none).Ends m fun stored n =>
        stored = .ok () ∧ n = m.keeping key value (m.now + ttl)) ↔
      m.now + ttl < Clock.horizon := by
  by_cases fits : m.now + ttl < Clock.horizon
  · have run : (Memory.cache ttl).set key (some value) none m =
        (.ok (.ok ()), m.keeping key value (m.now + ttl)) := by
      simp only [Cache.set, Memory.cache, Memory.entryStore, EntryStore.memory, Run.bind_apply,
        Run.state, Part.run, Entries.set, Memory.entriesPart, Option.getD_none,
        Clock.after_eq_ok fits]
      rfl
    exact ⟨fun _ => fits, fun _ => ⟨_, _, run, rfl, rfl⟩⟩
  · have run : (Memory.cache ttl).set key (some value) none m = (.error .mk, m) := by
      simp only [Cache.set, Memory.cache, Memory.entryStore, EntryStore.memory, Run.bind_apply,
        Run.state, Part.run, Entries.set, Memory.entriesPart, Option.getD_none, Clock.after,
        if_neg fits]
    constructor
    · rintro ⟨_, _, stored, -⟩
      rw [run] at stored
      cases stored
    · exact fun ends => absurd ends fits

/-- Settings that are accepted serve every request at a time, and let the cache store by its
default, just when the seconds in the environment end on the clock. At the start these are the
numbers below `2 ^ 63`, but any number is accepted. -/
theorem serves_all_iff_seconds_end {env : Environment} {s : Settings}
    (accepted : Settings.ofEnvironment env = .ok s) (v : Token.Verifier) (m : Memory) :
    ((∀ o r, ((inMemory s v).answer o r).Ends m fun _ _ => True) ↔
      env.windowSeconds.EndsOnClock m.now ∧
        (s.rateLimits.limit = 0 ∨ env.authWindowSeconds.EndsOnClock m.now)) ∧
    (∀ key value,
      ((inMemory s v).cache.set key (some value) none).Ends m (fun stored n =>
        stored = .ok () ∧ n = m.keeping key value (m.now + s.cacheTtl)) ↔
      env.cacheSeconds.EndsOnClock m.now) ∧
    ∀ x ∈ [env.windowSeconds, env.authWindowSeconds, env.cacheSeconds],
      x.EndsOnClock 0 ↔ x.negative = true ∨ x.absBelow (Nat.pow 2 63) = true := by
  obtain ⟨window, authWindow, cache⟩ := Settings.durations_of_ofEnvironment accepted
  refine ⟨?_, ?_, ?_⟩
  · rw [serves_all_iff, window, authWindow]
    rfl
  · intro key value
    rw [Binary64.EndsOnClock, ← cache]
    exact stores_iff key value
  · intro x mem
    have bounded : x.IsBounded := by
      obtain ⟨window, authWindow, cache⟩ := env.isBounded_seconds
      simp only [List.mem_cons, List.not_mem_nil, or_false] at mem
      obtain rfl | rfl | rfl := mem
      · exact window
      · exact authWindow
      · exact cache
    rw [Binary64.EndsOnClock, Nat.zero_add]
    exact Binary64.toDuration_lt_horizon_iff bounded

section Case

/-- A secret, and one text for the seconds of all windows and of the cache. -/
def lasting (seconds : String) : Environment := fun name =>
  Keyed.get? name [("JWT_SECRET", "secret"), ("RATE_LIMIT_TTL", seconds), ("CACHE_TTL", seconds)]

def lastingSettings (duration : Nat) : Settings where
  host := Settings.standardHost
  port := Settings.standardPort
  secret := "secret"
  cacheTtl := duration
  origins := Settings.standardOrigins
  rateLimits := { RateLimits.standard with window := duration, authWindow := duration }

/-- Windows of nine quintillion seconds end on the clock. -/
theorem long_windows_served :
    let s := lastingSettings (9 * Nat.pow 10 18 * Clock.second)
    let v : Token.Verifier := fun _ => .error .notConfigured
    Settings.ofEnvironment (lasting " 9e18 ") = .ok s ∧
    (∀ o r, ((inMemory s v).answer o r).Ends .empty fun _ _ => True) ∧
    ((inMemory s v).cache.set "k" (some (.ofNat 1)) none).Ends .empty fun stored n =>
      stored = .ok () ∧ n = Memory.empty.keeping "k" (.ofNat 1) (0 + s.cacheTtl) := by
  intro s v
  have accepted : Settings.ofEnvironment (lasting " 9e18 ") = .ok s := by decide +kernel
  obtain ⟨serves, stores, ends⟩ := serves_all_iff_seconds_end accepted v .empty
  have all : ∀ x ∈ [(lasting " 9e18 ").windowSeconds, (lasting " 9e18 ").authWindowSeconds,
      (lasting " 9e18 ").cacheSeconds], x.EndsOnClock 0 := by
    intro x mem
    have below : ∀ x ∈ [(lasting " 9e18 ").windowSeconds, (lasting " 9e18 ").authWindowSeconds,
        (lasting " 9e18 ").cacheSeconds], x.absBelow (Nat.pow 2 63) = true := by decide +kernel
    exact (ends x mem).mpr (.inr (below x mem))
  simp only [List.forall_mem_cons] at all
  obtain ⟨window, authWindow, cache, -⟩ := all
  exact ⟨accepted, serves.mpr ⟨window, .inr authWindow⟩, (stores "k" (.ofNat 1)).mpr cache⟩

/-- Windows of 10 ^ 30 seconds are accepted as well. Then the first request has no answer, and the
cache stores nothing. -/
theorem longest_windows_unserved :
    let s := lastingSettings Clock.maxDuration
    let v : Token.Verifier := fun _ => .error .notConfigured
    Settings.ofEnvironment (lasting "1e30") = .ok s ∧
    (inMemory s v).answer ⟨0, ""⟩ (newcomer "/quests" 0) .empty = (.error .mk, .empty) ∧
    (inMemory s v).cache.set "k" (some (.ofNat 1)) none .empty = (.error .mk, .empty) := by
  intro s v
  exact ⟨by decide +kernel, by decide +kernel, by decide +kernel⟩

end Case

end Gateway

end Turnstile
