import Turnstile.Proofs.Gateway.Charging
import Turnstile.Proofs.Gateway.Watched

/-!
The course of a request through a gateway. `course` says at once what a request is answered with,
what it leaves behind in memory and what is on the record of a watched gateway, in three cases: the
origin policy answers it, its counters stop it, or it comes to the cache and the routes. What holds
of every request is read off these cases; the stages need not be looked at again.
-/

namespace Turnstile

namespace Gateway

/-- What came of charging a request on some counters: the keys of those that were hit and the
verdict. Only the last hit of a request that is stopped may have been refused. -/
inductive Charging (m : Memory) (after : Counters) :
    List String → List String → Except ClockOverflow Throttle.Verdict → Prop
  | admitted {all : List String} {told : List (String × String)}
      (plain : ∀ f ∈ told, Response.isMarkName f.1 = false)
      (free : ∀ key ∈ all, m.counters.isBlocked m.now key = false ∧
        after.isBlocked m.now key = false)
      (untouched : all = [] → after = m.counters) : Charging m after all all (.ok (.admitted told))
  | refused {all keys : List String} (some : keys ≠ []) (first : keys <+: all) (b : Bucket)
      (h : Hit) : Charging m after all keys (.ok (.refused (Throttle.refusal b h)))
  | late {all keys : List String} (some : keys ≠ []) (first : keys <+: all) (e : ClockOverflow) :
      Charging m after all keys (.error e)

theorem records_hit (key : String) (q : Quota) :
    Watched.Records (Watched.counterStore.hit key q) (Memory.counterStore.hit key q)
      fun _ => [.charge key] := fun _ => rfl

/-- A free counter in front of others that a request was charged on. -/
theorem Charging.cons {m : Memory} {between after : Counters} {key : String}
    {all keys : List String} {result : Except ClockOverflow Throttle.Verdict}
    (h : Charging { m with counters := between } after all keys result) (notMem : key ∉ all)
    (before : m.counters.isBlocked m.now key = false)
    (behind : after.isBlocked m.now key = false)
    (others : ∀ k, key ≠ k → between.get? k = m.counters.get? k)
    {told : List (String × String)} (plain : ∀ f ∈ told, Response.isMarkName f.1 = false) :
    Charging m after (key :: all) (key :: keys) (result.map (Throttle.Verdict.behind told)) := by
  have first {keys : List String} (first : keys <+: all) : key :: keys <+: key :: all :=
    (List.cons_prefix_cons).mpr ⟨rfl, first⟩
  cases h with
  | admitted more free =>
    refine .admitted ?_ ?_ nofun
    · intro f mem
      obtain mem | mem := List.mem_append.mp mem
      · exact plain f mem
      · exact more f mem
    · intro k mem
      obtain rfl | mem := List.mem_cons.mp mem
      · exact ⟨before, behind⟩
      · have ne : key ≠ k := fun same => notMem (same ▸ mem)
        obtain ⟨was, is⟩ := free k mem
        rw [Counters.isBlocked_congr (others k ne)] at was
        exact ⟨was, is⟩
  | refused some start b hit => exact .refused (List.cons_ne_nil _ _) (first start) b hit
  | late some start e => exact .late (List.cons_ne_nil _ _) (first start) e

theorem charging {cs : List Charge} (distinct : (cs.map (·.key)).Nodup) (w : Watched) :
    ∃ result after keys,
      Throttle.charge Memory.counterStore cs w.memory =
        (result, { w.memory with counters := after }) ∧
      Throttle.charge Watched.counterStore cs w =
        (result, ⟨{ w.memory with counters := after }, w.deeds ++ keys.map .charge⟩) ∧
      Charging w.memory after (cs.map (·.key)) keys result := by
  induction cs generalizing w with
  | nil =>
    refine ⟨.ok (.admitted []), w.memory.counters, [], rfl, ?_, .admitted nofun nofun fun _ => rfl⟩
    simp [Throttle.charge]
  | cons c cs ih =>
    obtain ⟨notMem, distinct⟩ := List.nodup_cons.mp distinct
    have plain := counterStore_hit c.key c.bucket.quota w.memory
    have recorded := records_hit c.key c.bucket.quota w
    rw [plain] at recorded
    rcases struck : Counters.hit w.memory.now c.key c.bucket.quota w.memory.counters with
      ⟨e | h, between⟩
    · rw [struck] at plain recorded
      refine ⟨.error e, between, [c.key], Throttle.charge_of_late plain cs,
        Throttle.charge_of_late recorded cs, .late (List.cons_ne_nil _ _) ?_ e⟩
      exact ⟨cs.map (·.key), rfl⟩
    · rw [struck] at plain recorded
      cases through : h.isBlocked with
      | true =>
        refine ⟨_, between, [c.key], Throttle.charge_of_blocked plain through cs,
          Throttle.charge_of_blocked recorded through cs,
          .refused (List.cons_ne_nil _ _) ?_ c.bucket h⟩
        exact ⟨cs.map (·.key), rfl⟩
      | false =>
        obtain ⟨result, after, keys, runs, watched, charged⟩ :=
          ih distinct ⟨{ w.memory with counters := between }, w.deeds ++ [.charge c.key]⟩
        obtain ⟨before, free⟩ := Counters.isBlocked_of_hit struck through
        -- The later charges are on other keys, so this counter stays as its own hit has left it.
        refine ⟨result.map (Throttle.Verdict.behind (Throttle.fields c.bucket h)), after,
          c.key :: keys, ?_, ?_, ?_⟩
        · rw [Throttle.charge_of_free plain through, Run.map_apply, runs]
          cases result <;> rfl
        · rw [Throttle.charge_of_free recorded through, Run.map_apply, watched]
          cases result <;> simp [Except.map]
        · refine charged.cons notMem before ?_ ?_ (Throttle.isMarkName_fields c.bucket h)
          · have kept : after.get? c.key = between.get? c.key := by
              have others : ∀ d ∈ cs, d.key ≠ c.key :=
                fun d mem same => notMem (List.mem_map.mpr ⟨d, mem, same⟩)
              have keeps := keeps_charge others { w.memory with counters := between }
              rw [runs] at keeps
              exact keeps
            rwa [Counters.isBlocked_congr kept]
          · intro k ne
            have kept :
                (Counters.hit w.memory.now c.key c.bucket.quota w.memory.counters).2.get? k =
                  w.memory.counters.get? k := Counters.get?_hit_of_ne ne
            rwa [struck] at kept

/-- A request behind the stage that counts it. -/
def counted (v : Token.Verifier) (r : Request) : Exchange :=
  { identified v r with notes := (identified v r).notes.insert .caller (callerOf v r) }

def defaultKey (caller : String) : String := Bucket.defaultName ++ ":" ++ caller

def authKey (caller : String) : String := RateLimits.authName ++ ":" ++ caller

theorem defaultKey_ne_authKey (x y : String) : defaultKey x ≠ authKey y := by
  intro same
  have first := congrArg (fun k => k.toList.head?) same
  simp [defaultKey, authKey, Bucket.defaultName, RateLimits.authName] at first

/-- The keys that a request with a path is charged on. -/
def keysFor (path caller : String) : List String :=
  if (Pattern.ofText healthPattern).isMatch path then []
  else if (Pattern.ofText authPattern).isMatch path then [defaultKey caller, authKey caller]
  else [defaultKey caller]

/-- A request is charged on the default bucket, unless it is for the gateway's health, and on the
one for signing in behind that. -/
theorem charges_throttlePlan (limits : RateLimits) (r : Request) (caller : String) :
    (throttlePlan limits).charges r caller =
      if (Pattern.ofText healthPattern).isMatch r.path then []
      else if (Pattern.ofText authPattern).isMatch r.path then
        [ThrottlePlan.chargePlain limits.defaultBucket caller,
          ThrottlePlan.chargePlain limits.authBucket caller]
      else [ThrottlePlan.chargePlain limits.defaultBucket caller] := by
  have names : (RateLimits.authName == Bucket.defaultName) = false := by decide
  cases health : (Pattern.ofText healthPattern).isMatch r.path <;>
    cases auth : (Pattern.ofText authPattern).isMatch r.path <;>
    simp [ThrottlePlan.charges, throttlePlan, RouteLimits.covers, health, auth, names,
      ThrottlePlan.buckets, ThrottlePlan.registered?, RouteLimits.skips, RouteLimits.ruleFor?,
      RateLimits.defaultBucket, RateLimits.authBucket, Bucket.isDefault, ThrottlePlan.chargePlain,
      ThrottlePlan.chargeUnder, LimitRule.isOwnWindow, LimitRule.override, ThrottlePlan.standalone?]

theorem keys_charges (limits : RateLimits) (r : Request) (caller : String) :
    ((throttlePlan limits).charges r caller).map (·.key) = keysFor r.path caller := by
  rw [charges_throttlePlan, keysFor]
  split
  · rfl
  · split <;> rfl

theorem nodup_keysFor (path caller : String) : (keysFor path caller).Nodup := by
  rw [keysFor]
  split
  · exact List.nodup_nil
  · split
    · simp [defaultKey_ne_authKey]
    · simp

def chargedKeys (v : Token.Verifier) (r : Request) : List String :=
  if isExempt v r then [] else keysFor r.path (callerOf v r).key

def policy (s : Settings) : CorsPolicy := { origins := s.origins }

/-- All stages that a request passes before the cache, in front of a handler. -/
def front {σ : Type} (s : Settings) (v : Token.Verifier) (store : CounterStore σ)
    (next : Handler σ) (r : Request) : Run σ Response :=
  Stage.cors (policy s)
    (Stage.authenticate (TokenCheck.ofVerifier v)
      (Stage.throttle (throttlePlan s.rateLimits) store (TokenCheck.ofVerifier v) next))
    (Exchange.ofRequest r)

section Front

variable {σ : Type} {s : Settings} {v : Token.Verifier} {store : CounterStore σ} {r : Request}

theorem front_of_asked (asked : (policy s).answers r = true) (next : Handler σ) :
    front s v store next r = pure ((policy s).preflight (((policy s).origin? r).getD "")) :=
  CorsPolicy.cors_of_answers (x := Exchange.ofRequest r) asked _

theorem front_of_passed (passed : (policy s).answers r = false) (next : Handler σ) :
    front s v store next r =
      Stage.withFields ((policy s).marks r)
        (Stage.throttle (throttlePlan s.rateLimits) store (TokenCheck.ofVerifier v) next)
        (identified v r) := by
  rw [front, CorsPolicy.cors_of_not_answers (x := Exchange.ofRequest r) passed, Stage.withFields,
    authenticate_ofRequest]
  rfl

theorem front_of_exempt (passed : (policy s).answers r = false) (exempt : isExempt v r = true)
    (next : Handler σ) :
    front s v store next r = Stage.withFields ((policy s).marks r) next (identified v r) := by
  rw [front_of_passed passed, Stage.withFields, throttle_identified, if_pos exempt]
  rfl

theorem front_of_regular (passed : (policy s).answers r = false) (regular : isExempt v r = false)
    (next : Handler σ) :
    front s v store next r =
      Throttle.charge store ((throttlePlan s.rateLimits).charges r (callerOf v r).key) >>= fun
        | .refused refusal => pure (refusal.addHeaders ((policy s).marks r))
        | .admitted told => Stage.withFields (told ++ (policy s).marks r) next (counted v r) := by
  rw [front_of_passed passed, Stage.withFields, throttle_identified, if_neg (by simp [regular]),
    bind_assoc]
  congr 1
  funext verdict
  cases verdict with
  | refused refusal => rfl
  | admitted told => exact congrFun (Stage.withFields_withFields told _ next) (counted v r)

theorem front_inMemory (s : Settings) (v : Token.Verifier) (o : Occasion) (r : Request) :
    (inMemory s v).answer o r = front s v Memory.counterStore (behind s o) r :=
  answer_inMemory s v o r

theorem front_watched (s : Settings) (v : Token.Verifier) (o : Occasion) (r : Request) :
    Watched.answer s v o r = front s v Watched.counterStore (Watched.behind s o) r := rfl

end Front

/-- The three ways of a request, each with its answer, the memory after it, and the deeds. -/
inductive Course (s : Settings) (v : Token.Verifier) (o : Occasion) (r : Request) (m : Memory) :
    Except ClockOverflow Response × Memory → List Deed → Prop
  /-- The origin policy answers. -/
  | preflight (asked : (policy s).answers r = true) (origin : String) :
      Course s v o r m (.ok ((policy s).preflight origin), m) []
  /-- A counter refuses the request. -/
  | refused (passed : (policy s).answers r = false) {keys : List String} (some : keys ≠ [])
      (first : keys <+: chargedKeys v r) (after : Counters) (b : Bucket) (h : Hit)
      {more : List (String × String)} (plain : ∀ f ∈ more, Response.isMarkName f.1 = false) :
      Course s v o r m (.ok ((Throttle.refusal b h).addHeaders more), { m with counters := after })
        (keys.map .charge)
  /-- A window or a block would end behind the end of the clock. -/
  | late (passed : (policy s).answers r = false) {keys : List String} (some : keys ≠ [])
      (first : keys <+: chargedKeys v r) (after : Counters) (e : ClockOverflow) :
      Course s v o r m (.error e, { m with counters := after }) (keys.map .charge)
  /-- All counters let the request through, and it comes to the cache and the routes. -/
  | entered (passed : (policy s).answers r = false) {x : Exchange} (request : x.request = r)
      (principal : x.principal = principalOf v r) {after : Counters}
      (free : ∀ key ∈ chargedKeys v r, m.counters.isBlocked m.now key = false ∧
        after.isBlocked m.now key = false)
      (untouched : chargedKeys v r = [] → after = m.counters)
      {more : List (String × String)} (plain : ∀ f ∈ more, Response.isMarkName f.1 = false) :
      Course s v o r m (Stage.withFields more (behind s o) x { m with counters := after })
        ((chargedKeys v r).map .charge ++ .enter :: reached r after)

/-- A watched gateway answers as any other, and what it puts on record is the request's course. -/
theorem course_of_watched (s : Settings) (v : Token.Verifier) (o : Occasion) (r : Request)
    (w : Watched) :
    ∃ answered ds,
      (inMemory s v).answer o r w.memory = answered ∧
      Watched.answer s v o r w = (answered.1, ⟨answered.2, w.deeds ++ ds⟩) ∧
      Course s v o r w.memory answered ds := by
  have plainMarks := CorsPolicy.isMarkName_marks (policy s) r
  rw [front_inMemory, front_watched]
  cases asked : (policy s).answers r with
  | true =>
    rw [front_of_asked asked, front_of_asked asked]
    refine ⟨_, [], rfl, ?_, .preflight asked _⟩
    simp
  | false =>
    cases exempt : isExempt v r with
    | true =>
      have uncharged : chargedKeys v r = [] := if_pos exempt
      rw [front_of_exempt asked exempt, front_of_exempt asked exempt]
      refine ⟨_, _, rfl, (Watched.records_behind s o (identified v r)).withFields _ w, ?_⟩
      have free : ∀ key ∈ chargedKeys v r, w.memory.counters.isBlocked w.memory.now key = false ∧
          w.memory.counters.isBlocked w.memory.now key = false := by
        rw [uncharged]
        exact nofun
      have course := Course.entered (o := o) asked (x := identified v r) rfl rfl free
        (fun _ => rfl) plainMarks
      rwa [uncharged] at course
    | false =>
      have keys_eq : ((throttlePlan s.rateLimits).charges r (callerOf v r).key).map (·.key) =
          chargedKeys v r := by
        rw [keys_charges, chargedKeys, if_neg (by simp [exempt])]
      have distinct : (chargedKeys v r).Nodup := by
        rw [← keys_eq, keys_charges]
        exact nodup_keysFor _ _
      obtain ⟨verdict, after, keys, runs, watched, charged⟩ := charging (keys_eq ▸ distinct) w
      rw [keys_eq] at charged
      rw [front_of_regular asked exempt, front_of_regular asked exempt]
      cases charged with
      | admitted plain free untouched =>
        rw [Run.bind_of_ok runs, Run.bind_of_ok watched]
        have plainFields := List.forall_mem_append.mpr ⟨plain, plainMarks⟩
        refine ⟨_, _, rfl, ?_, .entered asked rfl rfl free untouched plainFields⟩
        refine ((Watched.records_behind s o (counted v r)).withFields _ _).trans ?_
        rw [List.append_assoc]
        rfl
      | refused some first b h =>
        rw [Run.bind_of_ok runs, Run.bind_of_ok watched]
        exact ⟨_, _, rfl, rfl, .refused asked some first after b h plainMarks⟩
      | late some first e =>
        rw [Run.bind_of_error runs, Run.bind_of_error watched]
        exact ⟨_, _, rfl, rfl, .late asked some first after e⟩

def deeds (s : Settings) (v : Token.Verifier) (o : Occasion) (r : Request) (m : Memory) :
    List Deed :=
  (Watched.answer s v o r ⟨m, []⟩).2.deeds

section Recorded

variable (s : Settings) (v : Token.Verifier) (o : Occasion) (r : Request) (m : Memory)

theorem answer_watched :
    Watched.answer s v o r ⟨m, []⟩ =
      (((inMemory s v).answer o r m).1, ⟨((inMemory s v).answer o r m).2, deeds s v o r m⟩) := by
  obtain ⟨_, ds, rfl, watched, -⟩ := course_of_watched s v o r ⟨m, []⟩
  rw [deeds, watched]

theorem course : Course s v o r m ((inMemory s v).answer o r m) (deeds s v o r m) := by
  obtain ⟨_, ds, rfl, watched, taken⟩ := course_of_watched s v o r ⟨m, []⟩
  rw [deeds, watched]
  exact taken

end Recorded

end Gateway

end Turnstile
