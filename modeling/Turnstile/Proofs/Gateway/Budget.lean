import Turnstile.Proofs.Gateway.Charging

namespace Turnstile

namespace Gateway

variable {s : Settings} {v : Token.Verifier}

structure Arrival where
  now : Nat
  occasion : Occasion
  request : Request

def attend (s : Settings) (v : Token.Verifier) (a : Arrival) (m : Memory) :
    Except ClockOverflow Response × Memory :=
  (inMemory s v).answer a.occasion a.request { m with now := a.now }

/-- What the requests of one caller are told of its counters, administrators' requests left out. -/
def budgets (s : Settings) (v : Token.Verifier) (caller : String) :
    List Arrival → Memory → List (Except ClockOverflow Budget)
  | [], _ => []
  | a :: as, m =>
    let (answer, n) := attend s v a m
    if (callerOf v a.request).key = caller ∧ isExempt v a.request = false then
      answer.map Response.budget :: budgets s v caller as n
    else budgets s v caller as n

def requestsOf (v : Token.Verifier) (caller : String) (as : List Arrival) : List Arrival :=
  as.filter fun a => (callerOf v a.request).key == caller

/-- Requests of other callers can be left out, and only the caller's counters matter. -/
theorem budgets_requestsOf {caller : String} (as : List Arrival) {m n : Memory}
    (same : ∀ key ∈ counterKeys s caller, m.counters.get? key = n.counters.get? key) :
    budgets s v caller as m = budgets s v caller (requestsOf v caller as) n := by
  induction as generalizing m n with
  | nil => rfl
  | cons a as ih =>
    by_cases own : (callerOf v a.request).key = caller
    · have kept : requestsOf v caller (a :: as) = a :: requestsOf v caller as :=
        List.filter_cons_of_pos (by simpa using own)
      obtain ⟨told, later⟩ := alike_answer s v a.occasion a.request { m with now := a.now }
        { n with now := a.now } ⟨rfl, by rw [own]; exact same⟩
      rw [own] at later
      have rest := ih later.2
      rw [kept]
      simp only [budgets, attend, told, rest]
    · have dropped : requestsOf v caller (a :: as) = requestsOf v caller as :=
        List.filter_cons_of_neg (by simpa using own)
      rw [dropped]
      simp only [budgets, own, false_and, if_false]
      apply ih
      intro key mem
      exact (keeps_answer s v a.occasion a.request own mem _).trans (same key mem)

/-- A caller without accepted claims is not counted as an account. -/
theorem callerOf_ne_account {v : Token.Verifier} {r : Request} (stranger : claimsOf v r = none)
    {c : Caller} (account : c.isAuthenticated = true) : (callerOf v r).key ≠ c.key := by
  have network : ∃ t, (callerOf v r).key = "ip:" ++ t := by
    simp only [callerOf, principalOf, stranger, Caller.resolve, Option.map_none, Option.bind_none]
    cases Caller.address? r with
    | none => exact ⟨"unknown", rfl⟩
    | some t => exact ⟨t, rfl⟩
  have user : ∃ t, c.key = "user:" ++ t := by
    cases c with
    | user id => exact ⟨id, rfl⟩
    | holder id => exact ⟨id, rfl⟩
    | address t => cases account
    | unknown => cases account
  obtain ⟨t, network⟩ := network
  obtain ⟨u, user⟩ := user
  rw [network, user]
  intro same
  have first := congrArg (fun k => k.toList.head?) same
  simp at first

/-- Whoever comes while the windows fit the clock is told something. -/
theorem budgets_ok {caller : String} {as : List Arrival} (fits : ∀ a ∈ as, FitsClock s a.now)
    (m : Memory) : ∀ told ∈ budgets s v caller as m, ∃ b, told = .ok b := by
  induction as generalizing m with
  | nil => exact nofun
  | cons a as ih =>
    obtain ⟨here, later⟩ := List.forall_mem_cons.mp fits
    obtain ⟨response, n, answered, -⟩ :=
      ends_answer s v a.occasion a.request (m := { m with now := a.now }) here
    simp only [budgets, attend, answered]
    split
    · exact List.forall_mem_cons.mpr ⟨⟨response.budget, rfl⟩, ih later n⟩
    · exact ih later n

/-- Callers do not share their budgets. What one is told over a run of requests is what it would be
told if it were alone and the cache held something else; and who has no accepted token changes no
counter of an account, whatever address or name a request claims. -/
theorem callers_keep_their_budgets (s : Settings) (v : Token.Verifier) (m : Memory) :
    (∀ caller as es ls,
      budgets s v caller as m =
        budgets s v caller (requestsOf v caller as) { m with entries := es, lookups := ls } ∧
      ((∀ a ∈ as, FitsClock s a.now) → ∀ told ∈ budgets s v caller as m, ∃ b, told = .ok b)) ∧
    ∀ a, claimsOf v a.request = none → ∀ c : Caller, c.isAuthenticated = true →
      ∀ key ∈ counterKeys s c.key,
        (attend s v a m).2.counters.get? key = m.counters.get? key := by
  constructor
  · intro caller as es ls
    exact ⟨budgets_requestsOf as fun _ _ => rfl, fun fits => budgets_ok fits m⟩
  · intro a stranger c account key mem
    exact keeps_answer s v a.occasion a.request (callerOf_ne_account stranger account) mem _

section Case

/-- One request a minute. -/
def strict : Settings where
  host := Settings.standardHost
  port := Settings.standardPort
  secret := "secret"
  cacheTtl := 0
  origins := Settings.standardOrigins
  rateLimits := ⟨1, 60 * Clock.second, 1, 60 * Clock.second⟩

/-- Accepts the token `7`, of the account of that name. -/
def acceptsSeven : Token.Verifier := fun token =>
  if token = "7" then .ok ⟨some "7", none, none, 0⟩ else .error .invalidSignature

/-- A request for a path that no route has. -/
def visit (now : Nat) (fields : List (String × String)) : Arrival where
  now := now
  occasion := ⟨0, ""⟩
  request := ⟨⟨.get, "/quests", none, .http11, ⟨fields⟩⟩, [], none, []⟩

def account (now : Nat) : Arrival := visit now [("Authorization", "Bearer 7")]

def impostor (now : Nat) : Arrival := visit now [("X-Forwarded-For", "user:7"), ("user-id", "7")]

/-- An account's second request is refused for its first one, and not for those of a stranger that
claims its name. -/
theorem account_among_impostors :
    let as := [impostor 0, account 1, impostor 2, account 3]
    (∀ a ∈ as, FitsClock strict a.now) ∧ claimsOf acceptsSeven (impostor 0).request = none ∧
    "default:user:7" ∈ counterKeys strict (Caller.user "7").key ∧
    (budgets strict acceptsSeven "user:7" as .empty).map Except.toOption =
      [some ⟨false, [("X-RateLimit-Limit", "1"), ("X-RateLimit-Remaining", "0"),
        ("X-RateLimit-Reset", "60")]⟩, some ⟨true, [("Retry-After", "60")]⟩] ∧
    budgets strict acceptsSeven "user:7" as .empty =
      budgets strict acceptsSeven "user:7" (requestsOf acceptsSeven "user:7" as)
        { Memory.empty with entries := ⟨[("7:/quests", ⟨[], 1⟩)]⟩ } ∧
    (∀ told ∈ budgets strict acceptsSeven "user:7" as .empty, ∃ b, told = .ok b) ∧
    (attend strict acceptsSeven (impostor 0) .empty).2.counters.get? "default:user:7" = none := by
  intro as
  have fits : ∀ a ∈ as, FitsClock strict a.now := by decide +kernel
  have stranger : claimsOf acceptsSeven (impostor 0).request = none := by decide +kernel
  have mem : "default:user:7" ∈ counterKeys strict (Caller.user "7").key := by decide +kernel
  obtain ⟨own, others⟩ := callers_keep_their_budgets strict acceptsSeven .empty
  obtain ⟨same, told⟩ := own "user:7" as ⟨[("7:/quests", ⟨[], 1⟩)]⟩ .empty
  exact ⟨fits, stranger, mem, by decide +kernel, same, told fits,
    others (impostor 0) stranger (.user "7") rfl _ mem⟩

end Case

end Gateway

end Turnstile
