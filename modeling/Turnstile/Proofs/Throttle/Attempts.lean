import Turnstile.Proofs.Gateway.Stacks
import Turnstile.Proofs.Throttle.Levies

/-!
What one request charges. The counters of a request are tried one after another, up to the first
that is blocked; a store that fails for one of them is passed over. `Tries` says which of the
charges were attempted without saying how the stage goes about it, `Attempt.told` what an answer
says of each, and `charges_up_to_first_refusal` what comes of a request by its attempts, for every
plan, store and handler.
-/

namespace Turnstile

theorem Bucket.suffix_eq (b : Bucket) :
    b.suffix = if b.name = "default" then "" else "-" ++ b.name := by
  simp [suffix, isDefault, defaultName]

namespace Throttle

structure Attempt where
  charge : Charge
  outcome : Except ClockOverflow (Except CounterFault Hit)

namespace Attempt

/-- The verdict that no later charge changes: the counter is blocked, or a time lies beyond the end
of the clock. -/
def ending? (a : Attempt) : Option (Except ClockOverflow Verdict) :=
  match a.outcome with
  | .error e => some (.error e)
  | .ok (.error _) => none
  | .ok (.ok h) => if h.isBlocked then some (.ok (.refused (refusal a.charge.bucket h))) else none

/-- No other charge is attempted behind this one. -/
def isFinal (a : Attempt) : Bool := a.ending?.isSome

/-- What an answer says of the attempt, nothing if the store has failed: the limit of the bucket, the
hits that are left and the seconds until its window is over, counted by whole milliseconds and
rounded up. The name of the bucket stands behind those of the fields unless it is the default one. -/
def told (a : Attempt) : List (String × String) :=
  let b := a.charge.bucket
  let suffix := if b.name = "default" then "" else "-" ++ b.name
  match a.outcome with
  | .ok (.ok h) =>
    [("X-RateLimit-Limit" ++ suffix, toString b.quota.limit),
      ("X-RateLimit-Remaining" ++ suffix, toString (b.quota.limit - h.total)),
      ("X-RateLimit-Reset" ++ suffix, toString ((h.timeToExpire / 1000000 + 999) / 1000))]
  | _ => []

theorem told_of_ok {a : Attempt} {h : Hit} (found : a.outcome = .ok (.ok h)) :
    a.told = fields a.charge.bucket h := by
  simp only [told, found, fields, Bucket.suffix_eq]
  rfl

end Attempt

section Trying

variable {σ : Type}

inductive Made (store : CounterStore σ) : σ → List Attempt → σ → Prop
  | done (s : σ) : Made store s [] s
  | next {s t u : σ} {c : Charge} {outcome : Except ClockOverflow (Except CounterFault Hit)}
      {later : List Attempt} (struck : store.hit c.key c.bucket.quota s = (outcome, t))
      (rest : Made store t later u) : Made store s (⟨c, outcome⟩ :: later) u

/-- The first of the charges are attempted in their order, and all of them unless the last attempt
is final. -/
structure Tries (store : CounterStore σ) (cs : List Charge) (s : σ) (tried : List Attempt)
    (t : σ) : Prop where
  made : Made store s tried t
  inOrder : tried.map (·.charge) <+: cs
  goesOn : ∀ a ∈ tried.dropLast, a.isFinal = false
  whole : (∀ a ∈ tried, a.isFinal = false) → tried.map (·.charge) = cs

variable {store : CounterStore σ} {c : Charge} {cs : List Charge} {s t u : σ}
  {outcome : Except ClockOverflow (Except CounterFault Hit)} {tried : List Attempt}

theorem tries_nil (store : CounterStore σ) (s : σ) : Tries store [] s [] s where
  made := .done s
  inOrder := List.prefix_rfl
  goesOn := nofun
  whole _ := rfl

theorem tries_final (struck : store.hit c.key c.bucket.quota s = (outcome, t))
    (final : Attempt.isFinal ⟨c, outcome⟩ = true) (cs : List Charge) :
    Tries store (c :: cs) s [⟨c, outcome⟩] t where
  made := .next struck (.done t)
  inOrder := ⟨cs, rfl⟩
  goesOn := nofun
  whole free := by
    rw [free _ List.mem_cons_self] at final
    cases final

theorem Tries.behind (struck : store.hit c.key c.bucket.quota s = (outcome, t))
    (free : Attempt.isFinal ⟨c, outcome⟩ = false) (h : Tries store cs t tried u) :
    Tries store (c :: cs) s (⟨c, outcome⟩ :: tried) u where
  made := .next struck h.made
  inOrder := (List.prefix_cons_inj c).mpr h.inOrder
  goesOn := by
    intro a mem
    cases tried with
    | nil => cases mem
    | cons b later =>
      obtain rfl | mem := List.mem_cons.mp mem
      · exact free
      · exact h.goesOn a mem
  whole all := by
    rw [List.map_cons, h.whole fun a mem => all a (List.mem_cons_of_mem _ mem)]

theorem exists_tries (store : CounterStore σ) (cs : List Charge) (s : σ) :
    ∃ tried t, Tries store cs s tried t := by
  induction cs generalizing s with
  | nil => exact ⟨[], s, tries_nil store s⟩
  | cons c cs ih =>
    rcases struck : store.hit c.key c.bucket.quota s with ⟨outcome, t⟩
    cases final : Attempt.isFinal ⟨c, outcome⟩ with
    | true => exact ⟨_, t, tries_final struck final cs⟩
    | false =>
      obtain ⟨tried, u, later⟩ := ih t
      exact ⟨_, u, later.behind struck final⟩

/-- The first attempt is the only one if it is final, and the others are those of the other charges
if it is not. -/
theorem Tries.head (h : Tries store (c :: cs) s tried u) :
    ∃ outcome later t, tried = ⟨c, outcome⟩ :: later ∧
      store.hit c.key c.bucket.quota s = (outcome, t) ∧
      ((Attempt.isFinal ⟨c, outcome⟩ = true ∧ later = [] ∧ u = t) ∨
        (Attempt.isFinal ⟨c, outcome⟩ = false ∧ Tries store cs t later u)) := by
  obtain ⟨made, inOrder, goesOn, whole⟩ := h
  cases made with
  | done => cases whole nofun
  | @next _ t _ d outcome later struck rest =>
    obtain ⟨rfl, ahead⟩ := List.cons_prefix_cons.mp inOrder
    refine ⟨outcome, later, t, rfl, struck, ?_⟩
    cases final : Attempt.isFinal ⟨d, outcome⟩ with
    | true =>
      cases later with
      | nil =>
        cases rest
        exact .inl ⟨rfl, rfl, rfl⟩
      | cons b later =>
        rw [goesOn ⟨d, outcome⟩ List.mem_cons_self] at final
        cases final
    | false =>
      refine .inr ⟨rfl, rest, ahead, ?_, ?_⟩
      · intro a mem
        cases later with
        | nil => cases mem
        | cons b later => exact goesOn a (List.mem_cons_of_mem _ mem)
      · intro free
        have all := whole (List.forall_mem_cons.mpr ⟨final, free⟩)
        exact (List.cons.inj all).2

theorem Tries.of_nil (h : Tries store [] s tried u) : tried = [] ∧ u = s := by
  obtain rfl : tried = [] := by simpa using List.prefix_nil.mp h.inOrder
  cases h.made
  exact ⟨rfl, rfl⟩

theorem charge_of_ending {verdict : Except ClockOverflow Verdict}
    (struck : store.hit c.key c.bucket.quota s = (outcome, t))
    (ends : Attempt.ending? ⟨c, outcome⟩ = some verdict) (cs : List Charge) :
    charge store (c :: cs) s = (verdict, t) := by
  rcases outcome with e | f | h
  · cases ends
    exact charge_of_late struck cs
  · cases ends
  · simp only [Attempt.ending?, Option.ite_none_right_eq_some] at ends
    obtain ⟨blocked, ends⟩ := ends
    cases ends
    exact charge_of_blocked struck blocked cs

/-- An attempt that is not final leaves the verdict to the others, with its fields in front. -/
theorem charge_of_passed (struck : store.hit c.key c.bucket.quota s = (outcome, t))
    (free : Attempt.isFinal ⟨c, outcome⟩ = false) (cs : List Charge) :
    charge store (c :: cs) s =
      (Verdict.behind (Attempt.told ⟨c, outcome⟩) <$> charge store cs) t := by
  rcases outcome with e | f | h
  · cases free
  · rw [charge_of_fault struck, Run.map_apply]
    rcases charge store cs t with ⟨e | told | r, u⟩ <;> rfl
  · have through : h.isBlocked = false := by
      simpa [Attempt.isFinal, Attempt.ending?] using free
    rw [Attempt.told_of_ok rfl]
    exact charge_of_free struck through cs

theorem charge_of_all_free (h : Tries store cs s tried u)
    (free : ∀ a ∈ tried, a.isFinal = false) :
    charge store cs s = (.ok (.admitted (tried.flatMap Attempt.told)), u) := by
  induction cs generalizing s tried with
  | nil =>
    obtain ⟨rfl, rfl⟩ := h.of_nil
    rfl
  | cons c cs ih =>
    obtain ⟨outcome, later, t, rfl, struck, ⟨final, -, -⟩ | ⟨-, rest⟩⟩ := h.head
    · rw [free _ List.mem_cons_self] at final
      cases final
    · obtain ⟨here, others⟩ := List.forall_mem_cons.mp free
      rw [charge_of_passed struck here, Run.map_apply, ih rest others]
      rfl

/-- A verdict that no later charge changes is not changed by the fields of earlier ones. -/
theorem Attempt.map_of_ending {a : Attempt} {verdict : Except ClockOverflow Verdict}
    (ends : a.ending? = some verdict) (told : List (String × String)) :
    verdict.map (Verdict.behind told) = verdict := by
  rcases a with ⟨c, e | f | h⟩
  · cases ends
    rfl
  · cases ends
  · simp only [Attempt.ending?, Option.ite_none_right_eq_some] at ends
    cases ends.2
    rfl

theorem charge_of_final (h : Tries store cs s tried u) {a : Attempt} (mem : a ∈ tried)
    {verdict : Except ClockOverflow Verdict} (ends : a.ending? = some verdict) :
    charge store cs s = (verdict, u) := by
  induction cs generalizing s tried with
  | nil =>
    obtain ⟨rfl, -⟩ := h.of_nil
    cases mem
  | cons c cs ih =>
    obtain ⟨outcome, later, t, rfl, struck, ⟨-, rfl, rfl⟩ | ⟨free, rest⟩⟩ := h.head
    · obtain rfl := List.mem_singleton.mp mem
      exact charge_of_ending struck ends cs
    · obtain rfl | mem := List.mem_cons.mp mem
      · rw [Attempt.isFinal, ends] at free
        cases free
      · have same := Attempt.map_of_ending ends (Attempt.told ⟨c, outcome⟩)
        rw [charge_of_passed struck free, Run.map_apply, ih rest mem]
        cases verdict with
        | error e => rfl
        | ok v => exact congrArg (·, u) same

/-- Attempts leave alone what the store leaves alone in each of them. -/
theorem Made.keeps {τ : Type} {see : σ → τ} (h : Made store s tried u)
    (kept : ∀ a ∈ tried, Run.Keeps see (store.hit a.charge.key a.charge.bucket.quota)) :
    see u = see s := by
  induction h with
  | done => rfl
  | @next s t u c outcome later struck _ ih =>
    obtain ⟨here, others⟩ := List.forall_mem_cons.mp kept
    have first := here s
    rw [struck] at first
    exact (ih others).trans first

end Trying

section Memory

variable {σ : Type} (clock : σ → Nat) (part : Part σ Counters)

theorem memory_hit (key : String) (q : Quota) (s : σ) :
    (CounterStore.memory clock part).hit key q s =
      ((Counters.hit (clock s) key q (part.get s)).1.map .ok,
        part.set (Counters.hit (clock s) key q (part.get s)).2 s) := by
  simp only [CounterStore.memory, Run.bind_apply, Run.state, Part.run]
  rcases Counters.hit (clock s) key q (part.get s) with ⟨e | h, cs⟩ <;> rfl

/-- A hit on counters in memory leaves the counters under other keys alone. -/
theorem keeps_memory_hit {key k : String} (ne : key ≠ k) (q : Quota) :
    Run.Keeps (fun s => (part.get s).get? k) ((CounterStore.memory clock part).hit key q) := by
  intro s
  simp only [memory_hit, part.get_set]
  exact Counters.get?_hit_of_ne ne

end Memory

end Throttle

namespace Stage

variable {σ : Type}

/-- The stage settles the exchange by itself; whatever the handler behind it, it does not run. -/
def Settles (stage : Stage σ) (x : Exchange) (s : σ)
    (came : Except ClockOverflow Response × σ) : Prop :=
  ∀ next, stage next x s = came

/-- The stage runs the handler behind it, once and at its end, and puts fields behind those of the
answer. -/
def HandsOn (stage : Stage σ) (x : Exchange) (s : σ) (y : Exchange) (t : σ)
    (more : List (String × String)) : Prop :=
  ∀ next, stage next x s =
    (next y >>= fun r => pure { r with headers := ⟨r.headers.entries ++ more⟩ }) t

end Stage

/-- Whoever asks for the claims changes nothing that a request is counted by. -/
theorem Exchange.claims_keeps {σ : Type} {check : TokenCheck σ} {x y : Exchange} {s t : σ}
    {claims : Option Claims} (looked : x.claims check s = (.ok (claims, y), t)) :
    y.request = x.request ∧ y.principal = x.principal := by
  unfold Exchange.claims at looked
  cases noted : x.notes.get? .token with
  | some seen =>
    rw [noted] at looked
    cases looked
    exact ⟨rfl, rfl⟩
  | none =>
    rw [noted] at looked
    cases bearer : Token.bearer? x.request.headers with
    | none =>
      simp only [bearer, pure_bind, Run.pure_apply] at looked
      cases looked
      exact ⟨rfl, rfl⟩
    | some token =>
      simp only [bearer] at looked
      obtain ⟨answer, u, -, kept⟩ := Run.bind_eq_ok.mp looked
      cases answer <;> cases kept <;> exact ⟨rfl, rfl⟩

namespace Throttle

variable {σ : Type} {plan : ThrottlePlan} {store : CounterStore σ} {check : TokenCheck σ}
  {x y : Exchange} {s t u : σ} {claims : Option Claims} {tried : List Attempt}

theorem Attempt.ending?_eq_ok {a : Attempt} {v : Verdict} :
    a.ending? = some (.ok v) ↔ ∃ h, a.outcome = .ok (.ok h) ∧ h.isBlocked = true ∧
      v = .refused (refusal a.charge.bucket h) := by
  rcases a with ⟨c, e | f | h⟩
  · simp [ending?]
  · simp [ending?]
  · constructor
    · intro ends
      simp only [ending?, Option.ite_none_right_eq_some] at ends
      obtain ⟨blocked, ends⟩ := ends
      cases ends
      exact ⟨h, rfl, blocked, rfl⟩
    · rintro ⟨h, ⟨⟩, blocked, rfl⟩
      simp [ending?, blocked]

theorem Attempt.ending?_eq_error {a : Attempt} {e : ClockOverflow} :
    a.ending? = some (.error e) ↔ a.outcome = .error e := by
  rcases a with ⟨c, e' | f | h⟩ <;> simp [ending?]

section Stage

variable (looked : x.claims check s = (.ok (claims, y), t))
include looked

theorem throttle_eq_charged (next : Handler σ) :
    Stage.throttle plan store check next x s = Stack.charged plan store next claims y t := by
  rw [Stack.throttle_eq, Run.bind_of_ok looked]

theorem callerOf_looked : Stack.callerOf claims y = Stack.callerOf claims x := by
  obtain ⟨request, principal⟩ := Exchange.claims_keeps looked
  rw [Stack.callerOf, request, principal, Stack.callerOf]

theorem charges_looked (plan : ThrottlePlan) :
    plan.charges y.request (Stack.callerOf claims y).key =
      plan.charges x.request (Stack.callerOf claims x).key := by
  rw [callerOf_looked looked, (Exchange.claims_keeps looked).1]

theorem throttle_of_exempt (exempt : Caller.isExempt x.principal claims = true)
    (next : Handler σ) : Stage.throttle plan store check next x s = next y t := by
  rw [← (Exchange.claims_keeps looked).2] at exempt
  rw [throttle_eq_charged looked, Stack.charged_of_exempt exempt]

variable (counted : Caller.isExempt x.principal claims = false)
  (tries : Tries store (plan.charges x.request (Stack.callerOf claims x).key) t tried u)
include counted tries

/-- The request comes to what its final attempt says. -/
theorem settles_of_final {a : Attempt} (mem : a ∈ tried) :
    (∀ r, a.ending? = some (.ok (.refused r)) →
      (Stage.throttle plan store check).Settles x s (.ok r, u)) ∧
    ∀ e, a.ending? = some (.error e) →
      (Stage.throttle plan store check).Settles x s (.error e, u) := by
  rw [← (Exchange.claims_keeps looked).2] at counted
  rw [← charges_looked looked] at tries
  constructor
  · intro r ends next
    rw [throttle_eq_charged looked]
    exact Stack.charged_of_counted counted (charge_of_final tries mem ends)
  · intro e ends next
    rw [throttle_eq_charged looked]
    exact Stack.charged_of_counted counted (charge_of_final tries mem ends)

/-- A request is handed on if none of its attempts is final. -/
theorem handsOn_of_all_free (free : ∀ a ∈ tried, a.isFinal = false) :
    (Stage.throttle plan store check).HandsOn x s
      (Stack.countedAs (Stack.callerOf claims x) y) u (tried.flatMap Attempt.told) := by
  intro next
  rw [← (Exchange.claims_keeps looked).2] at counted
  rw [← charges_looked looked] at tries
  rw [throttle_eq_charged looked, ← callerOf_looked looked]
  exact Stack.charged_of_counted counted (charge_of_all_free tries free)

/-- An answer that needs no handler is that of a final attempt. -/
theorem exists_final_of_settles {came : Except ClockOverflow Response}
    (settles : (Stage.throttle plan store check).Settles x s (came, u)) :
    ∃ a ∈ tried, (∃ r, a.ending? = some (.ok (.refused r)) ∧ came = .ok r) ∨
      ∃ e, a.ending? = some (.error e) ∧ came = .error e := by
  by_cases free : ∀ a ∈ tried, a.isFinal = false
  · -- Two handlers that differ in their outcome would have to come to the same.
    have handed := handsOn_of_all_free looked counted tries free
    have failing := (handed fun _ v => (.error .mk, v)).symm.trans (settles _)
    have answering := (handed fun _ v => (.ok Handler.exhausted, v)).symm.trans (settles _)
    cases failing
    cases answering
  · simp only [not_forall, Bool.not_eq_false] at free
    obtain ⟨a, mem, final⟩ := free
    obtain ⟨verdict, ends⟩ := Option.isSome_iff_exists.mp final
    obtain ⟨refused, late⟩ := settles_of_final looked counted tries mem
    have any : Handler σ := fun _ v => (.error .mk, v)
    cases verdict with
    | error e =>
      have same := (settles any).symm.trans (late e ends any)
      exact ⟨a, mem, .inr ⟨e, ends, congrArg Prod.fst same⟩⟩
    | ok v =>
      obtain ⟨h, -, -, rfl⟩ := Attempt.ending?_eq_ok.mp ends
      have same := (settles any).symm.trans (refused _ ends any)
      exact ⟨a, mem, .inl ⟨_, ends, congrArg Prod.fst same⟩⟩

end Stage

/-- A request that is exempt is counted nowhere and handed on. Any other is charged on the buckets
that apply to it, in their order, up to the first attempt that finds its counter blocked; the
attempts whose store fails are passed over. The request is refused if there is such an attempt, by
the answer of its bucket and without the handler behind the stage. If there is none, the handler
runs once, and its answer gets the fields of each attempt whose store has not failed. Nothing that
the attempts leave alone changes. -/
theorem charges_up_to_first_refusal (plan : ThrottlePlan) (store : CounterStore σ)
    (check : TokenCheck σ) (looked : x.claims check s = (.ok (claims, y), t)) :
    let stage := Stage.throttle plan store check
    let caller := Caller.resolve x.principal claims x.request
    let charges := plan.charges x.request caller.key
    (Caller.isExempt x.principal claims = true → ∀ next, stage next x s = next y t) ∧
    (Caller.isExempt x.principal claims = false →
      plan.Levies x.request caller.key charges ∧
      (∃ tried u, Tries store charges t tried u) ∧
      ∀ tried u, Tries store charges t tried u →
        (∀ r, stage.Settles x s (.ok r, u) ↔
          ∃ a ∈ tried, ∃ h, a.outcome = .ok (.ok h) ∧ h.isBlocked = true ∧
            r = refusal a.charge.bucket h ∧ r.status.code = 429) ∧
        (∀ e, stage.Settles x s (.error e, u) ↔ ∃ a ∈ tried, a.outcome = .error e) ∧
        ((∀ a ∈ tried, a.isFinal = false) →
          stage.HandsOn x s { y with notes := y.notes.insert .caller caller } u
            (tried.flatMap Attempt.told)) ∧
        ∀ {τ : Type} (counter : String → σ → τ),
          (∀ key k q, key ≠ k → Run.Keeps (counter k) (store.hit key q)) →
          ∀ k, (∀ a ∈ tried, a.charge.key ≠ k) → counter k u = counter k t) := by
  intro stage caller charges
  refine ⟨throttle_of_exempt looked, fun counted => ⟨plan.levies_charges x.request caller.key,
    exists_tries store charges t, fun tried u tries => ⟨?refused, ?late, ?handed, ?apart⟩⟩⟩
  case refused =>
    intro r
    constructor
    · intro settles
      obtain ⟨a, mem, ⟨r, ends, same⟩ | ⟨e, -, same⟩⟩ :=
        exists_final_of_settles looked counted tries settles
      · cases same
        obtain ⟨h, found, blocked, refused⟩ := Attempt.ending?_eq_ok.mp ends
        cases refused
        exact ⟨a, mem, h, found, blocked, rfl, rfl⟩
      · cases same
    · rintro ⟨a, mem, h, found, blocked, rfl, -⟩
      exact (settles_of_final looked counted tries mem).1 _
        (Attempt.ending?_eq_ok.mpr ⟨h, found, blocked, rfl⟩)
  case late =>
    intro e
    constructor
    · intro settles
      obtain ⟨a, mem, ⟨r, -, same⟩ | ⟨e, ends, same⟩⟩ :=
        exists_final_of_settles looked counted tries settles
      · cases same
      · cases same
        exact ⟨a, mem, Attempt.ending?_eq_error.mp ends⟩
    · rintro ⟨a, mem, found⟩
      exact (settles_of_final looked counted tries mem).2 e (Attempt.ending?_eq_error.mpr found)
  case handed => exact handsOn_of_all_free looked counted tries
  case apart =>
    intro τ counter apart k ne
    exact tries.made.keeps fun a mem => apart a.charge.key k a.charge.bucket.quota (ne a mem)

section Case

/-- A route that opts into a second bucket and knows two more of its own, the first of which admits
nothing; and one with the second bucket and the last. -/
def lockedLogin : ThrottlePlan where
  default := ⟨Bucket.defaultName, ⟨3, 60 * Clock.second, none⟩⟩
  more := [⟨"auth", ⟨5, 60 * Clock.second, none⟩⟩]
  routes :=
    [{ method := some .post, source := "/login",
       rules := [{ name := "auth" },
         { name := "lock", limit := some 0, window := some (10 * Clock.second) },
         { name := "spare", limit := some 9, window := some (10 * Clock.second) }] },
     { method := some .get, source := "/profile",
       rules := [{ name := "auth" },
         { name := "spare", limit := some 9, window := some (10 * Clock.second) }] }]

def asked (method : Method) (path : String) : Request :=
  ⟨⟨method, path, none, .http11, ⟨[("X-Forwarded-For", "5.5.5.5")]⟩⟩, [], none, []⟩

def login : Request := asked .post "/login"

def profile : Request := asked .get "/profile"

/-- Counters in memory, at one instant, of which one cannot be reached. -/
def authDown : CounterStore Counters :=
  (CounterStore.memory (fun _ => 0) .whole).failingFor (· == "auth:ip:5.5.5.5") ⟨"auth down"⟩

/-- The default bucket lets each request through, and the second one fails. -/
def firstTwo : List Attempt :=
  [⟨⟨⟨"default", ⟨3, 60 * Clock.second, none⟩⟩, "default:ip:5.5.5.5"⟩,
      .ok (.ok ⟨1, 60 * Clock.second, false, 0⟩)⟩,
    ⟨⟨⟨"auth", ⟨5, 60 * Clock.second, none⟩⟩, "auth:ip:5.5.5.5"⟩, .ok (.error ⟨"auth down"⟩)⟩]

/-- The third bucket of the login refuses it, and the fourth is not attempted. -/
def loginTried : List Attempt :=
  firstTwo ++
    [⟨⟨⟨"lock", ⟨0, 10 * Clock.second, none⟩⟩, "lock:/login:ip:5.5.5.5"⟩,
      .ok (.ok ⟨1, 10 * Clock.second, true, 10 * Clock.second⟩)⟩]

def profileTried : List Attempt :=
  firstTwo ++
    [⟨⟨⟨"spare", ⟨9, 10 * Clock.second, none⟩⟩, "spare:/profile:ip:5.5.5.5"⟩,
      .ok (.ok ⟨1, 10 * Clock.second, false, 0⟩)⟩]

/-- The counters behind the first two attempts. -/
def oneHit : Counters := ⟨[("default:ip:5.5.5.5", ⟨1, 60 * Clock.second, none⟩)]⟩

def afterLogin : Counters :=
  ⟨[("default:ip:5.5.5.5", ⟨1, 60 * Clock.second, none⟩),
    ("lock:/login:ip:5.5.5.5", ⟨1, 10 * Clock.second, some (10 * Clock.second)⟩)]⟩

def afterProfile : Counters :=
  ⟨[("default:ip:5.5.5.5", ⟨1, 60 * Clock.second, none⟩),
    ("spare:/profile:ip:5.5.5.5", ⟨1, 10 * Clock.second, none⟩)]⟩

def lockAnswer : Response :=
  refusal ⟨"lock", ⟨0, 10 * Clock.second, none⟩⟩ ⟨1, 10 * Clock.second, true, 10 * Clock.second⟩

theorem tries_firstTwo {cs : List Charge} {made : List Attempt} {t : Counters}
    (tries : Tries authDown cs oneHit made t) :
    Tries authDown (firstTwo.map (·.charge) ++ cs) .empty (firstTwo ++ made) t := by
  refine Tries.behind (t := oneHit) (by decide +kernel) (by decide +kernel) ?_
  exact Tries.behind (t := oneHit) (by decide +kernel) (by decide +kernel) tries

/-- The login is refused at its third bucket, and the counter of the fourth stays as it is. The
profile is handed on, and what it is answered tells of the first and the third of its buckets. -/
theorem login_refused_by_third :
    let stage := Stage.throttle lockedLogin authDown (.ofVerifier Token.disabled)
    (Exchange.ofRequest login).claims (.ofVerifier Token.disabled) .empty =
      (.ok (none, { Exchange.ofRequest login with notes := .insert .empty .token none }),
        Counters.empty) ∧
    lockedLogin.charges login "ip:5.5.5.5" =
      [⟨⟨"default", ⟨3, 60 * Clock.second, none⟩⟩, "default:ip:5.5.5.5"⟩,
        ⟨⟨"auth", ⟨5, 60 * Clock.second, none⟩⟩, "auth:ip:5.5.5.5"⟩,
        ⟨⟨"lock", ⟨0, 10 * Clock.second, none⟩⟩, "lock:/login:ip:5.5.5.5"⟩,
        ⟨⟨"spare", ⟨9, 10 * Clock.second, none⟩⟩, "spare:/login:ip:5.5.5.5"⟩] ∧
    stage.Settles (.ofRequest login) .empty (.ok lockAnswer, afterLogin) ∧
    lockAnswer.status.code = 429 ∧
    afterLogin.get? "spare:/login:ip:5.5.5.5" = Counters.empty.get? "spare:/login:ip:5.5.5.5" ∧
    stage (fun _ => pure (.ofStatus .ok)) (.ofRequest profile) .empty =
      (.ok { status := .ok, headers := ⟨[("X-RateLimit-Limit", "3"), ("X-RateLimit-Remaining", "2"),
        ("X-RateLimit-Reset", "60"), ("X-RateLimit-Limit-spare", "9"),
        ("X-RateLimit-Remaining-spare", "8"), ("X-RateLimit-Reset-spare", "10")]⟩ },
        afterProfile) := by
  intro stage
  have looked (method : Method) (path : String) :
      (Exchange.ofRequest (asked method path)).claims (.ofVerifier Token.disabled) .empty =
        (.ok (none, { Exchange.ofRequest (asked method path) with
          notes := .insert .empty .token none }), Counters.empty) := rfl
  have login_charges : lockedLogin.charges login "ip:5.5.5.5" =
      firstTwo.map (·.charge) ++
        [⟨⟨"lock", ⟨0, 10 * Clock.second, none⟩⟩, "lock:/login:ip:5.5.5.5"⟩,
          ⟨⟨"spare", ⟨9, 10 * Clock.second, none⟩⟩, "spare:/login:ip:5.5.5.5"⟩] := by
    decide +kernel
  have profile_charges : lockedLogin.charges profile "ip:5.5.5.5" =
      firstTwo.map (·.charge) ++
        [⟨⟨"spare", ⟨9, 10 * Clock.second, none⟩⟩, "spare:/profile:ip:5.5.5.5"⟩] := by
    decide +kernel
  have login_tries : Tries authDown (lockedLogin.charges login "ip:5.5.5.5")
      .empty loginTried afterLogin := by
    rw [login_charges]
    exact tries_firstTwo (tries_final (by decide +kernel) (by decide +kernel) _)
  have profile_tries : Tries authDown (lockedLogin.charges profile "ip:5.5.5.5")
      .empty profileTried afterProfile := by
    rw [profile_charges]
    apply tries_firstTwo
    exact Tries.behind (by decide +kernel) (by decide +kernel) (tries_nil authDown afterProfile)
  obtain ⟨-, counted⟩ := charges_up_to_first_refusal lockedLogin authDown
    (.ofVerifier Token.disabled) (looked .post "/login")
  obtain ⟨-, -, comes⟩ := counted (by decide +kernel)
  obtain ⟨refused, -, -, apart⟩ := comes loginTried afterLogin login_tries
  obtain ⟨-, counted'⟩ := charges_up_to_first_refusal lockedLogin authDown
    (.ofVerifier Token.disabled) (looked .get "/profile")
  obtain ⟨-, -, comes'⟩ := counted' (by decide +kernel)
  obtain ⟨-, -, handed, -⟩ := comes' profileTried afterProfile profile_tries
  refine ⟨looked .post "/login", login_charges, ?_, rfl, ?_, ?_⟩
  · exact (refused lockAnswer).mpr ⟨_, List.mem_of_getLast? rfl, _, rfl, rfl, rfl, rfl⟩
  · refine apart (fun k cs => cs.get? k) ?_ _ (by decide +kernel)
    intro key k q ne
    unfold authDown CounterStore.failingFor
    dsimp only
    split
    · exact Run.keeps_pure _ _
    · exact keeps_memory_hit _ .whole ne q
  · have told : profileTried.flatMap Attempt.told =
        [("X-RateLimit-Limit", "3"), ("X-RateLimit-Remaining", "2"), ("X-RateLimit-Reset", "60"),
          ("X-RateLimit-Limit-spare", "9"), ("X-RateLimit-Remaining-spare", "8"),
          ("X-RateLimit-Reset-spare", "10")] := by decide +kernel
    rw [← told]
    exact handed (by decide +kernel) fun _ => pure (.ofStatus .ok)

end Case

end Throttle

end Turnstile
