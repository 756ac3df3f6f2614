import Mathlib.Control.Monad.Basic
import Turnstile.Proofs.Gateway.Identified
import Turnstile.Proofs.Throttle.Charges
import Turnstile.Throttle.Stage

/-!
Stacks of the stages that look at tokens and at counters. Whom a request comes from is read off its
principal or, where no stage has attached one, off its token; both give one caller, and one answer
to whether the caller is counted at all. So counters cannot tell whether authentication stands in
front of them. And whatever stands in a stack, the outcome of looking at a token goes with the
request, so that the token is checked once. `counters_blind_to_authentication` has both.
-/

namespace Turnstile

/-- A principal made from the claims is counted as their holder. -/
theorem key_resolve_ofClaims (claims : Option Claims) (r : Request) :
    (Caller.resolve (claims.map Principal.ofClaims) claims r).key =
      (Caller.resolve none claims r).key := by
  cases claims with
  | none => rfl
  | some c =>
    unfold Caller.resolve
    simp only [Option.map_some, Option.bind_some, Option.bind_none, identifier_ofClaims]
    cases c.subject <;> rfl

theorem isExempt_ofClaims (claims : Option Claims) :
    Caller.isExempt (claims.map Principal.ofClaims) claims = Caller.isExempt none claims := by
  cases claims with
  | none => rfl
  | some c => simp [Caller.isExempt, Gateway.isAdmin_ofClaims]

namespace Stack

/-- What can be seen of a stack from outside while it deals with a request. -/
inductive Mark where
  /-- A token is checked. -/
  | check (token : String)
  /-- A counter is hit. -/
  | charge (key : String) (q : Quota)
  /-- The request is handed on, with the key that it was counted under, if it was. -/
  | pass (counted : Option String)
  deriving DecidableEq, Repr

def Mark.isCheck : Mark → Bool
  | .check _ => true
  | .charge _ _ => false
  | .pass _ => false

/-- The counters of a stack, what is beyond it, and for the request that it deals with the marks and
the answer that came back from beyond. -/
structure Scene (τ υ : Type) where
  counters : τ
  beyond : υ
  marks : List Mark := []
  back : Option Response := none

/-- What answers the requests that are handed on. -/
abbrev Beyond (υ : Type) := Exchange → υ → Response × υ

variable {τ υ : Type}

def note (m : Mark) : Run (Scene τ υ) Unit := Run.modify fun s => { s with marks := s.marks ++ [m] }

def countersPart : Part (Scene τ υ) τ where
  get s := s.counters
  set c s := { s with counters := c }

def checking (v : Token.Verifier) : TokenCheck (Scene τ υ) := fun token => do
  note (.check token)
  return v token

def charging (store : CounterStore τ) : CounterStore (Scene τ υ) where
  hit key q := do
    note (.charge key q)
    countersPart.run (store.hit key q)

def handing (next : Beyond υ) : Handler (Scene τ υ) := fun x => do
  note (.pass ((x.notes.get? .caller).map Caller.key))
  Run.step fun s =>
    let (r, y) := next x s.beyond
    (r, { s with beyond := y, back := some r })

/-- What a stack says itself: an answer of its own, or the fields that it puts behind those of the
answer from beyond. -/
inductive Reply where
  | own (r : Response)
  | behind (fields : List (String × String))
  deriving DecidableEq, Repr

def Reply.of : Option Response → Response → Reply
  | none, answer => .own answer
  | some back, answer => .behind (answer.headers.entries.drop back.headers.entries.length)

structure Sight where
  marks : List Mark
  reply : Except ClockOverflow Reply
  deriving DecidableEq

def Sight.of (ended : Except ClockOverflow Response × Scene τ υ) : Sight :=
  ⟨ended.2.marks, ended.1.map (Reply.of ended.2.back)⟩

structure Visit (τ : Type) where
  elapse : τ → τ
  exchange : Exchange

def attend (stack : List (Stage (Scene τ υ))) (next : Beyond υ) (v : Visit τ) (s : Scene τ υ) :
    Except ClockOverflow Response × Scene τ υ :=
  Stage.chain stack (handing next) v.exchange
    { s with counters := v.elapse s.counters, marks := [], back := none }

def run (stack : List (Stage (Scene τ υ))) (next : Beyond υ) :
    List (Visit τ) → Scene τ υ → List Sight × Scene τ υ
  | [], s => ([], s)
  | v :: vs, s =>
    let ended := attend stack next v s
    let (later, last) := run stack next vs ended.2
    (Sight.of ended :: later, last)

def checks (ms : List Mark) : Nat := ms.countP Mark.isCheck

theorem checks_append (ms ns : List Mark) : checks (ms ++ ns) = checks ms + checks ns :=
  List.countP_append

/-- How often the token of the exchange may still be checked: once, until that has been done. -/
def due (x : Exchange) : Nat :=
  match x.notes.get? .token with
  | some _ => 0
  | none => 1

theorem due_of_noted {x : Exchange} {found : Option Claims}
    (noted : x.notes.get? .token = some found) : due x = 0 := by
  simp only [due, noted]

structure Looked (x y : Exchange) (found : Option Claims) (ms : List Mark) : Prop where
  request : y.request = x.request
  principal : y.principal = x.principal
  token : y.notes.get? .token = some found
  caller : y.notes.get? .caller = x.notes.get? .caller
  once : checks ms ≤ due x

/-- A look at the token checks it at most once, and not at all if that has been done before. -/
theorem exists_looked (v : Token.Verifier) (x : Exchange) :
    ∃ y found ms, Looked x y found ms ∧ ∀ s : Scene τ υ,
      x.claims (checking v) s = (.ok (found, y), { s with marks := s.marks ++ ms }) := by
  cases seen : x.notes.get? .token with
  | some found =>
    refine ⟨x, found, [], ⟨rfl, rfl, seen, rfl, Nat.zero_le _⟩, ?_⟩
    intro s
    simp [Exchange.claims, seen]
  | none =>
    have noted (found : Option Claims) {ms : List Mark} (once : checks ms ≤ 1) :
        Looked x { x with notes := x.notes.insert .token found } found ms :=
      ⟨rfl, rfl, Slots.get?_insert_self _ _ _, Slots.get?_insert_of_ne _ (by decide) _,
        by simpa only [due, seen] using once⟩
    cases bearer : Token.bearer? x.request.headers with
    | none =>
      refine ⟨_, none, [], noted none (Nat.zero_le 1), ?_⟩
      intro s
      simp [Exchange.claims, seen, bearer]
    | some token =>
      refine ⟨_, (v token).toOption, [.check token], noted _ (Nat.le_refl 1), ?_⟩
      intro s
      have checked : (checking v token : Run (Scene τ υ) _) s =
          (.ok (v token), { s with marks := s.marks ++ [.check token] }) := rfl
      simp only [Exchange.claims, seen, bearer, Run.bind_apply, checked]
      cases v token <;> rfl

/-- The counter says that it is hit, and does what it does otherwise. -/
theorem charging_hit (store : CounterStore τ) (key : String) (q : Quota) (s : Scene τ υ) :
    (charging store).hit key q s =
      ((store.hit key q s.counters).1,
        { s with counters := (store.hit key q s.counters).2,
                 marks := s.marks ++ [.charge key q] }) := rfl

/-- What comes of charging a request depends on the counters alone. It leaves marks of hits only,
and a refusal has the status of one. -/
theorem exists_charged (store : CounterStore τ) (cs : List Charge) (c : τ) :
    ∃ verdict after ms, checks ms = 0 ∧
      (∀ r, verdict = .ok (.refused r) → r.status = .tooManyRequests) ∧
      ∀ s : Scene τ υ, s.counters = c → Throttle.charge (charging store) cs s =
        (verdict, { s with counters := after, marks := s.marks ++ ms }) := by
  -- A hit decides alone, unless it lets the later charges decide on the counters that it leaves.
  induction cs generalizing c with
  | nil =>
    refine ⟨.ok (.admitted []), c, [], rfl, ?_, ?_⟩
    · intro r same
      cases same
    · rintro s rfl
      simp [Throttle.charge]
  | cons d cs ih =>
    rcases struck : store.hit d.key d.bucket.quota c with ⟨e | fault | h, c'⟩
    · refine ⟨.error e, c', [.charge d.key d.bucket.quota], rfl, ?_, ?_⟩
      · intro r same
        cases same
      · rintro s rfl
        apply Throttle.charge_of_late
        rw [charging_hit, struck]
    · obtain ⟨verdict, after, ms, unchecked, refused, came⟩ := ih c'
      refine ⟨verdict, after, .charge d.key d.bucket.quota :: ms, unchecked, refused, ?_⟩
      rintro s rfl
      have failed := charging_hit store d.key d.bucket.quota s
      rw [struck] at failed
      rw [Throttle.charge_of_fault failed, came _ rfl]
      simp
    · cases blocked : h.isBlocked with
      | true =>
        refine ⟨.ok (.refused (Throttle.refusal d.bucket h)), c',
          [.charge d.key d.bucket.quota], rfl, ?_, ?_⟩
        · rintro r same
          cases same
          rfl
        · rintro s rfl
          refine Throttle.charge_of_blocked ?_ blocked cs
          rw [charging_hit, struck]
      | false =>
        obtain ⟨verdict, after, ms, unchecked, refused, came⟩ := ih c'
        refine ⟨verdict.map (Throttle.Verdict.behind (Throttle.fields d.bucket h)), after,
          .charge d.key d.bucket.quota :: ms, unchecked, ?_, ?_⟩
        · intro r same
          rcases verdict with e | told | r'
          · cases same
          · cases same
          · cases same
            exact refused r rfl
        · rintro s rfl
          have admitted := charging_hit store d.key d.bucket.quota s
          rw [struck] at admitted
          rw [Throttle.charge_of_free admitted blocked, Run.map_apply, came _ rfl]
          rcases verdict with e | told | r <;> simp [Except.map]

def callerOf (claims : Option Claims) (x : Exchange) : Caller :=
  Caller.resolve x.principal claims x.request

/-- The exchange with a note of the caller that it was counted under. -/
def countedAs (caller : Caller) (x : Exchange) : Exchange :=
  { x with notes := x.notes.insert .caller caller }

/-- The rest of the counting stage once the claims are known. -/
def charged {σ : Type} (plan : ThrottlePlan) (store : CounterStore σ) (next : Handler σ)
    (claims : Option Claims) (x : Exchange) : Run σ Response :=
  if Caller.isExempt x.principal claims then next x
  else do
    match ← Throttle.charge store (plan.charges x.request (callerOf claims x).key) with
    | .refused r => return r
    | .admitted fields => do
      let r ← next (countedAs (callerOf claims x) x)
      return r.addHeaders fields

theorem throttle_eq {σ : Type} (plan : ThrottlePlan) (store : CounterStore σ) (check : TokenCheck σ)
    (next : Handler σ) (x : Exchange) :
    Stage.throttle plan store check next x =
      x.claims check >>= fun known => charged plan store next known.1 known.2 := rfl

/-- Counters cannot tell these exchanges apart. -/
structure Alike (claims : Option Claims) (x y : Exchange) : Prop where
  exempt : Caller.isExempt x.principal claims = Caller.isExempt y.principal claims
  request : x.request = y.request
  key : (callerOf claims x).key = (callerOf claims y).key
  counted : (x.notes.get? .caller).map Caller.key = (y.notes.get? .caller).map Caller.key

theorem Alike.refl (claims : Option Claims) (x : Exchange) : Alike claims x x where
  exempt := rfl
  request := rfl
  key := rfl
  counted := rfl

/-- The exchange with the principal that the claims stand for. -/
def attached (claims : Option Claims) (x : Exchange) : Exchange :=
  { x with principal := claims.map Principal.ofClaims }

theorem alike_attached (claims : Option Claims) {x : Exchange} (stranger : x.principal = none) :
    Alike claims (attached claims x) x where
  exempt := by rw [attached, stranger, isExempt_ofClaims]
  request := rfl
  key := by rw [callerOf, callerOf, attached, stranger, key_resolve_ofClaims]
  counted := rfl

/-- Two scenes with the same counters and the same to be seen, with nothing back yet. -/
structure Same (s t : Scene τ υ) : Prop where
  counters : s.counters = t.counters
  marks : s.marks = t.marks
  waiting : s.back = none
  waiting' : t.back = none

/-- The same is seen of both and their counters are left the same. -/
def Match (a b : Except ClockOverflow Response × Scene τ υ) : Prop :=
  Sight.of a = Sight.of b ∧ a.2.counters = b.2.counters

theorem handing_apply (next : Beyond υ) (x : Exchange) (s : Scene τ υ) :
    handing next x s = (.ok (next x s.beyond).1,
      { s with beyond := (next x s.beyond).2,
               marks := s.marks ++ [.pass ((x.notes.get? .caller).map Caller.key)],
               back := some (next x s.beyond).1 }) := rfl

/-- Of a request that is handed on, the fields are seen that are put behind the others. -/
theorem sight_handed (next : Beyond υ) (x : Exchange) (told : List (String × String))
    (s : Scene τ υ) :
    Sight.of ((handing next x >>= fun r => pure (r.addHeaders told)) s) =
      ⟨s.marks ++ [.pass ((x.notes.get? .caller).map Caller.key)], .ok (.behind told)⟩ := by
  rw [Run.bind_of_ok (handing_apply next x s)]
  simp [Sight.of, Reply.of, Except.map, Response.addHeaders, Headers.append]

theorem charged_of_exempt {σ : Type} {plan : ThrottlePlan} {store : CounterStore σ}
    {next : Handler σ} {claims : Option Claims} {x : Exchange}
    (exempt : Caller.isExempt x.principal claims = true) :
    charged plan store next claims x = next x := by
  rw [charged, if_pos exempt]

theorem charged_of_counted {σ : Type} {plan : ThrottlePlan} {store : CounterStore σ}
    {next : Handler σ} {claims : Option Claims} {x : Exchange} {s t : σ}
    {verdict : Except ClockOverflow Throttle.Verdict}
    (counted : Caller.isExempt x.principal claims = false)
    (came : Throttle.charge store (plan.charges x.request (callerOf claims x).key) s =
      (verdict, t)) :
    charged plan store next claims x s =
      match verdict with
      | .error e => (.error e, t)
      | .ok (.refused r) => (.ok r, t)
      | .ok (.admitted told) =>
        (next (countedAs (callerOf claims x) x) >>= fun r => pure (r.addHeaders told)) t := by
  unfold charged
  rw [counted]
  rcases verdict with e | told | r
  · exact Run.bind_of_error came _
  · exact Run.bind_of_ok came _
  · exact Run.bind_of_ok came _

section Judged

variable {plan : ThrottlePlan} {store : CounterStore τ} {claims : Option Claims} {x y : Exchange}
  {s t : Scene τ υ}

/-- The counters judge alike what they cannot tell apart, whatever stands beyond them. -/
theorem match_charged (alike : Alike claims x y) (same : Same s t) (next next' : Beyond υ) :
    Match (charged plan (charging store) (handing next) claims x s)
      (charged plan (charging store) (handing next') claims y t) := by
  cases exempt : Caller.isExempt y.principal claims with
  | true =>
    rw [charged_of_exempt (alike.exempt.trans exempt), charged_of_exempt exempt]
    refine ⟨?_, same.counters⟩
    simp [Sight.of, handing_apply, Reply.of, Except.map, same.marks, alike.counted]
  | false =>
    obtain ⟨verdict, after, ms, -, -, came⟩ := exists_charged (υ := υ) store
      (plan.charges y.request (callerOf claims y).key) t.counters
    have cameX : Throttle.charge (charging store)
        (plan.charges x.request (callerOf claims x).key) s =
          (verdict, { s with counters := after, marks := s.marks ++ ms }) := by
      rw [alike.key, alike.request]
      exact came s same.counters
    rw [charged_of_counted (alike.exempt.trans exempt) cameX,
      charged_of_counted exempt (came t rfl)]
    rcases verdict with e | told | r
    · refine ⟨?_, rfl⟩
      simp [Sight.of, Except.map, same.marks]
    · refine ⟨?_, rfl⟩
      simp only [sight_handed, countedAs, Slots.get?_insert_self, Option.map_some, same.marks,
        alike.key]
    · refine ⟨?_, rfl⟩
      simp [Sight.of, Reply.of, Except.map, same.marks, same.waiting, same.waiting']

/-- A request that is not handed on is refused. -/
theorem status_charged (waiting : s.back = none) (next : Beyond υ) {r : Response}
    (own : (Sight.of (charged plan (charging store) (handing next) claims x s)).reply =
      .ok (.own r)) : r.status = .tooManyRequests := by
  cases exempt : Caller.isExempt x.principal claims with
  | true =>
    rw [charged_of_exempt exempt, handing_apply] at own
    cases own
  | false =>
    obtain ⟨verdict, after, ms, -, refused, came⟩ := exists_charged (υ := υ) store
      (plan.charges x.request (callerOf claims x).key) s.counters
    rw [charged_of_counted exempt (came s rfl)] at own
    rcases verdict with e | told | r'
    · cases own
    · simp only [sight_handed] at own
      cases own
    · simp only [Sight.of, waiting, Except.map, Reply.of] at own
      cases own
      exact refused r rfl

end Judged

section Stages

variable {x y : Exchange} {found : Option Claims} {ms : List Mark} {s : Scene τ υ}
  {v : Token.Verifier}

theorem claims_of_noted {σ : Type} (noted : x.notes.get? .token = some found)
    (check : TokenCheck σ) : x.claims check = pure (found, x) := by
  simp only [Exchange.claims, noted]

/-- Authentication looks at the token and hands on what it has found. -/
theorem authenticate_of_looked (stranger : x.principal = none) (looked : Looked x y found ms)
    (came : x.claims (checking v) s = (.ok (found, y), { s with marks := s.marks ++ ms }))
    (next : Handler (Scene τ υ)) :
    Stage.authenticate (checking v) next x s =
      next (attached found y) { s with marks := s.marks ++ ms } := by
  have unchanged : y.principal = none := looked.principal.trans stranger
  rw [Stage.authenticate, stranger]
  simp only
  rw [Run.bind_of_ok came]
  cases found with
  | some c => rfl
  | none =>
    simp only [attached, Option.map_none]
    rw [← unchanged]

theorem token_attached (looked : Looked x y found ms) :
    (attached found y).notes.get? .token = some found := looked.token

theorem authenticate_of_known {σ : Type} {p : Principal} (known : x.principal = some p)
    (check : TokenCheck σ) (next : Handler σ) : Stage.authenticate check next x = next x := by
  simp only [Stage.authenticate, known]

theorem throttle_of_looked (plan : ThrottlePlan) (store : CounterStore (Scene τ υ))
    (came : x.claims (checking v) s = (.ok (found, y), { s with marks := s.marks ++ ms }))
    (next : Handler (Scene τ υ)) :
    Stage.throttle plan store (checking v) next x s =
      charged plan store next found y { s with marks := s.marks ++ ms } := by
  rw [throttle_eq, Run.bind_of_ok came]

theorem throttle_of_noted (plan : ThrottlePlan) (store : CounterStore (Scene τ υ))
    (noted : x.notes.get? .token = some found) (next : Handler (Scene τ υ)) :
    Stage.throttle plan store (checking v) next x s = charged plan store next found x s := by
  rw [throttle_eq, claims_of_noted noted, pure_bind]

end Stages

section Stacks

variable (plan : ThrottlePlan) (v : Token.Verifier) (store : CounterStore τ)

/-- The stage that counts, by itself. -/
def counting : List (Stage (Scene τ υ)) := [Stage.throttle plan (charging store) (checking v)]

/-- The stage that counts behind the one that authenticates. -/
def authenticated : List (Stage (Scene τ υ)) :=
  Stage.authenticate (checking v) :: counting plan v store

theorem match_attend (next next' : Beyond υ) (visit : Visit τ) {s t : Scene τ υ}
    (counters : s.counters = t.counters) :
    Match (attend (authenticated plan v store) next visit s)
      (attend (counting plan v store) next' visit t) := by
  let s' : Scene τ υ := { s with counters := visit.elapse s.counters, marks := [], back := none }
  let t' : Scene τ υ := { t with counters := visit.elapse t.counters, marks := [], back := none }
  show Match
    (Stage.authenticate (checking v)
      (Stage.throttle plan (charging store) (checking v) (handing next)) visit.exchange s')
    (Stage.throttle plan (charging store) (checking v) (handing next') visit.exchange t')
  obtain ⟨y, found, ms, looked, came⟩ := exists_looked (τ := τ) (υ := υ) v visit.exchange
  have same : Same { s' with marks := s'.marks ++ ms } { t' with marks := t'.marks ++ ms } :=
    ⟨congrArg visit.elapse counters, rfl, rfl, rfl⟩
  rw [throttle_of_looked plan (charging store) (came t')]
  cases principal : visit.exchange.principal with
  | some p =>
    rw [authenticate_of_known principal, throttle_of_looked plan (charging store) (came s')]
    exact match_charged (Alike.refl found y) same next next'
  | none =>
    have stranger : y.principal = none := looked.principal.trans principal
    rw [authenticate_of_looked principal looked (came s'),
      throttle_of_noted plan (charging store) (token_attached looked)]
    exact match_charged (alike_attached found stranger) same next next'

theorem match_run (next next' : Beyond υ) (visits : List (Visit τ)) {s t : Scene τ υ}
    (counters : s.counters = t.counters) :
    (run (authenticated plan v store) next visits s).1 =
      (run (counting plan v store) next' visits t).1 ∧
    (run (authenticated plan v store) next visits s).2.counters =
      (run (counting plan v store) next' visits t).2.counters := by
  induction visits generalizing s t with
  | nil => exact ⟨rfl, counters⟩
  | cons visit visits ih =>
    obtain ⟨sight, counters⟩ := match_attend plan v store next next' visit counters
    obtain ⟨later, last⟩ := ih counters
    exact ⟨List.cons_eq_cons.mpr ⟨sight, later⟩, last⟩

theorem status_run (next : Beyond υ) (visits : List (Visit τ)) (s : Scene τ υ) :
    ∀ d ∈ (run (counting plan v store) next visits s).1, ∀ r, d.reply = .ok (.own r) →
      r.status = .tooManyRequests := by
  induction visits generalizing s with
  | nil => exact nofun
  | cons visit visits ih =>
    refine List.forall_mem_cons.mpr ⟨?_, ih _⟩
    intro r own
    obtain ⟨y, found, ms, -, came⟩ := exists_looked (τ := τ) (υ := υ) v visit.exchange
    have throttled := throttle_of_looked plan (charging store)
      (came { s with counters := visit.elapse s.counters, marks := [], back := none })
      (handing next)
    unfold attend counting Stage.chain at own
    simp only [List.foldr_cons, List.foldr_nil] at own
    rw [throttled] at own
    exact status_charged rfl next own

end Stacks

/-- A stage that looks at tokens: one that authenticates, or one that counts. -/
inductive Kind (τ : Type) where
  | authenticate (v : Token.Verifier)
  | throttle (v : Token.Verifier) (plan : ThrottlePlan) (store : CounterStore τ)

def Kind.stage : Kind τ → Stage (Scene τ υ)
  | .authenticate v => Stage.authenticate (checking v)
  | .throttle v plan store => Stage.throttle plan (charging store) (checking v)

section Sparing

variable {next : Handler (Scene τ υ)} {x : Exchange} {found : Option Claims}

/-- Whatever it deals with, it checks no token oftener than is due. -/
def Sparing (h : Handler (Scene τ υ)) : Prop :=
  ∀ x s, checks (h x s).2.marks ≤ checks s.marks + due x

theorem sparing_handing (next : Beyond υ) : Sparing (τ := τ) (handing next) := by
  intro x s
  rw [handing_apply, checks_append]
  exact Nat.le_add_right _ _

theorem Sparing.of_noted (h : Sparing next) (noted : x.notes.get? .token = some found)
    (s : Scene τ υ) : checks (next x s).2.marks ≤ checks s.marks := by
  have spared := h x s
  rwa [due_of_noted noted] at spared

theorem checks_le_of_looked {y : Exchange} {ms : List Mark} (h : Looked x y found ms)
    (before : List Mark) : checks (before ++ ms) ≤ checks before + due x := by
  rw [checks_append]
  exact Nat.add_le_add_left h.once _

theorem Sparing.authenticate (h : Sparing next) (v : Token.Verifier) :
    Sparing (Stage.authenticate (checking v) next) := by
  intro x s
  cases principal : x.principal with
  | some p =>
    rw [authenticate_of_known principal]
    exact h x s
  | none =>
    obtain ⟨y, found, ms, looked, came⟩ := exists_looked (τ := τ) (υ := υ) v x
    rw [authenticate_of_looked principal looked (came s)]
    have passed := h.of_noted (token_attached looked) { s with marks := s.marks ++ ms }
    exact Nat.le_trans passed (checks_le_of_looked looked s.marks)

theorem Sparing.charged (h : Sparing next) (noted : x.notes.get? .token = some found)
    (plan : ThrottlePlan) (store : CounterStore τ) (s : Scene τ υ) :
    checks (charged plan (charging store) next found x s).2.marks ≤ checks s.marks := by
  cases exempt : Caller.isExempt x.principal found with
  | true =>
    rw [charged_of_exempt exempt]
    exact h.of_noted noted s
  | false =>
    obtain ⟨verdict, after, ms, unchecked, -, came⟩ := exists_charged (υ := υ) store
      (plan.charges x.request (callerOf found x).key) s.counters
    have none_more : checks (s.marks ++ ms) = checks s.marks := by
      rw [checks_append, unchecked, Nat.add_zero]
    rw [charged_of_counted exempt (came s rfl)]
    rcases verdict with e | told | r
    · exact Nat.le_of_eq none_more
    · have noted : (countedAs (callerOf found x) x).notes.get? .token = some found :=
        (Slots.get?_insert_of_ne _ (by decide) _).trans noted
      have passed := h.of_noted noted { s with counters := after, marks := s.marks ++ ms }
      simp only [Run.snd_bind_pure]
      exact Nat.le_trans passed (Nat.le_of_eq none_more)
    · exact Nat.le_of_eq none_more

theorem Sparing.throttle (h : Sparing next) (v : Token.Verifier) (plan : ThrottlePlan)
    (store : CounterStore τ) :
    Sparing (Stage.throttle plan (charging store) (checking v) next) := by
  intro x s
  obtain ⟨y, found, ms, looked, came⟩ := exists_looked (τ := τ) (υ := υ) v x
  rw [throttle_of_looked plan (charging store) (came s)]
  exact Nat.le_trans (h.charged looked.token plan store _) (checks_le_of_looked looked s.marks)

theorem sparing_chain (kinds : List (Kind τ)) (next : Beyond υ) :
    Sparing (Stage.chain (kinds.map Kind.stage) (handing next)) := by
  induction kinds with
  | nil => exact sparing_handing next
  | cons kind kinds ih =>
    cases kind with
    | authenticate v => exact ih.authenticate v
    | throttle v plan store => exact ih.throttle v plan store

theorem checks_run (kinds : List (Kind τ)) (next : Beyond υ) (visits : List (Visit τ))
    (s : Scene τ υ) : ∀ d ∈ (run (kinds.map Kind.stage) next visits s).1, checks d.marks ≤ 1 := by
  induction visits generalizing s with
  | nil => exact nofun
  | cons visit visits ih =>
    refine List.forall_mem_cons.mpr ⟨?_, ih _⟩
    have spared := sparing_chain kinds next visit.exchange
      { s with counters := visit.elapse s.counters, marks := [], back := none }
    have once : due visit.exchange ≤ 1 := by
      unfold due
      split
      · exact Nat.zero_le 1
      · exact Nat.le_refl 1
    exact Nat.le_trans (Nat.le_trans spared (Nat.le_of_eq (Nat.zero_add _))) once

end Sparing

/-- Counters cannot tell whether authentication stands in front of them. The same is seen of every
request: which tokens are checked, which counters are hit, whether the request is handed on counted
or not, and what it is told; and the counters are left the same, whatever answers beyond. A request
that is not handed on is refused. And in a stack of any such stages each with its own verifier, no
more than one token is checked for a request. -/
theorem counters_blind_to_authentication (plan : ThrottlePlan) (v : Token.Verifier)
    (store : CounterStore τ) (next next' : Beyond υ) (visits : List (Visit τ)) (c : τ) (b b' : υ) :
    let behind := run (authenticated plan v store) next visits { counters := c, beyond := b }
    let alone := run (counting plan v store) next' visits { counters := c, beyond := b' }
    behind.1 = alone.1 ∧ behind.2.counters = alone.2.counters ∧
    (∀ d ∈ behind.1, ∀ r, d.reply = .ok (.own r) → r.status = .tooManyRequests) ∧
    ∀ kinds : List (Kind τ),
      ∀ d ∈ (run (kinds.map Kind.stage) next visits { counters := c, beyond := b }).1,
        checks d.marks ≤ 1 := by
  obtain ⟨seen, last⟩ := match_run plan v store next next' visits
    (s := { counters := c, beyond := b }) (t := { counters := c, beyond := b' }) rfl
  refine ⟨seen, last, ?_, fun kinds => checks_run kinds next visits _⟩
  have refused := status_run plan v store next' visits { counters := c, beyond := b' }
  rwa [← seen] at refused

section Case

/-- Knows a user and an administrator. -/
def knowsTwo : Token.Verifier := fun token =>
  if token = "7" then .ok ⟨none, some "G7", none, 0⟩
  else if token = "root" then .ok ⟨some "root", none, some .admin, 0⟩
  else .error .invalidSignature

def onePerMinute : ThrottlePlan where
  default := ⟨Bucket.defaultName, ⟨1, 60 * Clock.second, none⟩⟩

def atOneInstant : CounterStore Counters := .memory (fun _ => 0) .whole

/-- A request with a token, while nothing happens to the counters. -/
def bearing (token : String) : Visit Counters where
  elapse := id
  exchange := .ofRequest
    ⟨⟨.get, "/quests", none, .http11, ⟨[("Authorization", "Bearer " ++ token)]⟩⟩, [], none, []⟩

/-- Tells whether it has been told who asks. -/
def greeting : Beyond Unit := fun x u =>
  (Response.ofText .ok (if x.principal.isSome then "welcome" else "who is there"), u)

/-- A user that comes twice, an administrator and somebody with a token that is not accepted. -/
def fourVisits : List (Visit Counters) :=
  [bearing "7", bearing "7", bearing "root", bearing "forged"]

def startOfFour : Scene Counters Unit := { counters := .empty, beyond := () }

def fourBehind : List Sight × Scene Counters Unit :=
  run (authenticated onePerMinute knowsTwo atOneInstant) greeting fourVisits startOfFour

def fourAlone : List Sight × Scene Counters Unit :=
  run (counting onePerMinute knowsTwo atOneInstant) greeting fourVisits startOfFour

/-- The second visit of the user. -/
def secondVisit : Sight where
  marks := [.check "7", .charge "default:user:G7" onePerMinute.default.quota]
  reply := .ok (.own (Throttle.refusal onePerMinute.default
    ⟨2, 60 * Clock.second, true, 60 * Clock.second⟩))

/-- The four are judged alike by counters behind authentication and by counters alone. -/
theorem four_judged_alike :
    let quota := onePerMinute.default.quota
    let kinds : List (Kind Counters) := [.throttle knowsTwo onePerMinute atOneInstant,
      .authenticate knowsTwo, .throttle knowsTwo onePerMinute atOneInstant]
    fourBehind.1 = fourAlone.1 ∧ fourBehind.2.counters = fourAlone.2.counters ∧
    fourBehind.1.map Sight.marks =
      [[.check "7", .charge "default:user:G7" quota, .pass (some "user:G7")], secondVisit.marks,
        [.check "root", .pass none],
        [.check "forged", .charge "default:ip:unknown" quota, .pass (some "ip:unknown")]] ∧
    secondVisit ∈ fourBehind.1 ∧
    (∀ r, secondVisit.reply = .ok (.own r) → r.status = .tooManyRequests) ∧
    ∀ d ∈ (run (kinds.map Kind.stage) greeting fourVisits startOfFour).1, checks d.marks ≤ 1 := by
  intro quota kinds
  obtain ⟨seen, last, refused, once⟩ := counters_blind_to_authentication onePerMinute knowsTwo
    atOneInstant greeting greeting fourVisits .empty () ()
  have mem : secondVisit ∈ fourBehind.1 := by decide +kernel
  have counters : fourBehind.2.counters = fourAlone.2.counters := by
    unfold fourBehind fourAlone
    exact last
  exact ⟨seen, counters, by decide +kernel, mem, refused secondVisit mem, once kinds⟩

end Case

end Stack

end Turnstile
