import Turnstile.Proofs.Throttle.Attempts
import Turnstile.Proofs.Throttle.Budgets
import Turnstile.Proofs.Throttle.Forecast

/-!
What admitted requests are told of their limits. A stage with counters in memory deals with one
request after another while time goes by and lapsed counters are removed; each request is a run of
events on the counters, so what it is told of a counter comes true of the requests after it
(`remaining_comes_true`).
-/

namespace Turnstile

namespace Throttle

open Counters (Stroke Event Foretold strokes onKey lastWindow expiry)

/-- The counters of a stage and their clock, what is beyond the stage, and for the request that it
deals with its hits and the answer that came back from beyond. -/
structure Lobby (υ : Type) where
  now : Nat
  counters : Counters
  beyond : υ
  hits : List Stroke := []
  back : Option Response := none

structure Visit where
  exchange : Exchange
  hits : List Stroke
  reply : Except ClockOverflow Stack.Reply

/-- The hit of the request on a counter. -/
def Visit.on (key : String) (v : Visit) : Option Stroke := v.hits.find? (·.key == key)

inductive Step where
  | wait (d : Nat)
  | cleanup
  | request (x : Exchange)

namespace Lobby

variable {υ : Type}

/-- Nothing has been counted yet. -/
def opened (beyond : υ) : Lobby υ := ⟨0, .empty, beyond, [], none⟩

def countersPart : Part (Lobby υ) Counters where
  get l := l.counters
  set cs l := { l with counters := cs }

/-- The counters in memory, with a note of every hit on them. -/
def noting : CounterStore (Lobby υ) where
  hit key q := do
    Run.modify fun l =>
      { l with hits := l.hits ++ [⟨key, q, Counters.strike l.now key q l.counters⟩] }
    (CounterStore.memory Lobby.now countersPart).hit key q

def handing (serve : Stack.Beyond υ) : Handler (Lobby υ) := fun x =>
  Run.step fun l =>
    let (r, b) := serve x l.beyond
    (r, { l with beyond := b, back := some r })

variable (plan : ThrottlePlan) (v : Token.Verifier) (serve : Stack.Beyond υ)

def attend (x : Exchange) (l : Lobby υ) : Visit × Lobby υ :=
  let (came, m) := Stage.throttle plan noting (.ofVerifier v) (handing serve) x
    { l with hits := [], back := none }
  (⟨x, m.hits, came.map (Stack.Reply.of m.back)⟩, m)

/-- One step after another, and what is seen of the requests among them. -/
def run : List Step → Lobby υ → List Visit × Lobby υ
  | [], l => ([], l)
  | .wait d :: steps, l => run steps { l with now := l.now + d }
  | .cleanup :: steps, l => run steps { l with counters := l.counters.cleanup l.now }
  | .request x :: steps, l =>
    let (visit, m) := attend plan v serve x l
    let (visits, last) := run steps m
    (visit :: visits, last)

end Lobby

/-- The claims that a stage finds for an exchange. -/
def claimsFor (v : Token.Verifier) (x : Exchange) : Option Claims :=
  (x.notes.get? .token).getD (Gateway.claimsOf v x.request)

/-- The charges of an exchange, of which there are none for administrators. -/
def chargesFor (plan : ThrottlePlan) (v : Token.Verifier) (x : Exchange) : List Charge :=
  let claims := claimsFor v x
  if Caller.isExempt x.principal claims then []
  else plan.charges x.request (Caller.resolve x.principal claims x.request).key

/-- The window of a counter after some requests. -/
def windowOn (key : String) (visits : List Visit) : List Stroke :=
  lastWindow (onKey key (visits.flatMap (·.hits)))

/-- No request hits a counter twice, and all hits on a counter are under one limit, up to which it
can count, and in windows of one length. -/
structure Regular (visits : List Visit) : Prop where
  once : ∀ v ∈ visits, (v.hits.map (·.key)).Nodup
  one : ∀ v ∈ visits, ∀ w ∈ visits, ∀ s ∈ v.hits, ∀ t ∈ w.hits, s.key = t.key →
    s.quota.SameBudget t.quota
  bounded : ∀ v ∈ visits, ∀ s ∈ v.hits, s.quota.limit < Counter.maxHits ∧ 0 < s.quota.window

/-- The attempt as an event. -/
def Attempt.event (now : Nat) (a : Attempt) : Event :=
  .hit now a.charge.key a.charge.bucket.quota

section Attending

variable {υ : Type} {l m : Lobby υ} {tried : List Attempt}

theorem noting_hit (key : String) (q : Quota) (l : Lobby υ) :
    Lobby.noting.hit key q l =
      ((Counters.hit l.now key q l.counters).1.map .ok,
        { l with counters := (Counters.hit l.now key q l.counters).2,
                 hits := l.hits ++ [⟨key, q, Counters.strike l.now key q l.counters⟩] }) :=
  memory_hit Lobby.now Lobby.countersPart key q _

/-- Attempts are events on the counters, and their hits are noted. -/
theorem Made.noted (h : Made Lobby.noting l tried m) :
    m = { l with counters := l.counters.run (tried.map (·.event l.now)),
                 hits := l.hits ++ strokes (tried.map (·.event l.now)) l.counters } := by
  induction h with
  | done l => simp [strokes, Counters.run]
  | @next l t m c outcome later struck _ ih =>
    rw [noting_hit] at struck
    obtain ⟨-, rfl⟩ := Prod.mk.inj struck
    rw [ih]
    simp only [List.append_assoc]
    rfl

/-- An attempt comes to what its hit comes to behind the earlier ones. -/
theorem Made.outcome_eq {before after : List Attempt} {a : Attempt}
    (h : Made Lobby.noting l (before ++ a :: after) m) :
    a.outcome = (Counters.hit l.now a.charge.key a.charge.bucket.quota
      (l.counters.run (before.map (·.event l.now)))).1.map .ok := by
  induction before generalizing l with
  | nil =>
    cases h with
    | next struck => exact (congrArg Prod.fst ((noting_hit ..).symm.trans struck)).symm
  | cons b before ih =>
    cases h with
    | next struck rest =>
      rw [noting_hit] at struck
      obtain ⟨-, rfl⟩ := Prod.mk.inj struck
      exact ih rest

theorem chargesFor_of_counted {plan : ThrottlePlan} {v : Token.Verifier} {x : Exchange}
    (counted : Caller.isExempt x.principal (claimsFor v x) = false) :
    chargesFor plan v x = plan.charges x.request (Stack.callerOf (claimsFor v x) x).key := by
  simp only [chargesFor, counted, Bool.false_eq_true, if_false, Stack.callerOf]

structure Attended (plan : ThrottlePlan) (v : Token.Verifier) (x : Exchange) (l : Lobby υ)
    (tried : List Attempt) (visit : Visit) (m : Lobby υ) : Prop where
  charged : tried.map (·.charge) <+: chargesFor plan v x
  hits : visit.hits = strokes (tried.map (·.event l.now)) l.counters
  counters : m.counters = l.counters.run (tried.map (·.event l.now))
  now : m.now = l.now
  outcome : ∀ before a after, tried = before ++ a :: after →
    a.outcome = (Counters.hit l.now a.charge.key a.charge.bucket.quota
      (l.counters.run (before.map (·.event l.now)))).1.map .ok
  admitted : ∀ told, visit.reply = .ok (.behind told) →
    tried.map (·.charge) = chargesFor plan v x ∧ told = tried.flatMap Attempt.told ∧
      ∀ a ∈ tried, a.isFinal = false
  refused : ∀ a ∈ tried, ∀ r, a.ending? = some (.ok (.refused r)) → visit.reply = .ok (.own r)

theorem exists_claims {σ : Type} (v : Token.Verifier) (x : Exchange) :
    ∃ y, ∀ s : σ, x.claims (.ofVerifier v) s = (.ok (claimsFor v x, y), s) := by
  unfold Exchange.claims claimsFor Gateway.claimsOf
  cases x.notes.get? .token with
  | some seen => exact ⟨x, fun s => rfl⟩
  | none =>
    cases Token.bearer? x.request.headers with
    | none => exact ⟨_, fun s => rfl⟩
    | some token =>
      refine ⟨{ x with notes := x.notes.insert .token (v token).toOption }, fun s => ?_⟩
      simp only [TokenCheck.ofVerifier, pure_bind, Option.bind_eq_bind, Option.bind_some]
      cases v token <;> rfl

theorem handing_apply (serve : Stack.Beyond υ) (x : Exchange) (l : Lobby υ) :
    Lobby.handing serve x l = (.ok (serve x l.beyond).1,
      { l with beyond := (serve x l.beyond).2, back := some (serve x l.beyond).1 }) := rfl

/-- Of a request that is handed on, the fields are seen that are put behind the others. -/
theorem reply_handed (r : Response) (told : List (String × String)) :
    Stack.Reply.of (some r) { r with headers := ⟨r.headers.entries ++ told⟩ } = .behind told := by
  simp [Stack.Reply.of]

theorem attend_eq {plan : ThrottlePlan} {v : Token.Verifier} {serve : Stack.Beyond υ} {x : Exchange}
    {came : Except ClockOverflow Response}
    (h : Stage.throttle plan Lobby.noting (.ofVerifier v) (Lobby.handing serve) x
      { l with hits := [], back := none } = (came, m)) :
    Lobby.attend plan v serve x l = (⟨x, m.hits, came.map (Stack.Reply.of m.back)⟩, m) := by
  simp only [Lobby.attend, h]

/-- What the request has done to the counters goes by its attempts, whatever comes after them. -/
theorem attended_of_made {plan : ThrottlePlan} {v : Token.Verifier} {x : Exchange} {n : Lobby υ}
    {reply : Except ClockOverflow Stack.Reply}
    (made : Made Lobby.noting { l with hits := [], back := none } tried m)
    (charged : tried.map (·.charge) <+: chargesFor plan v x) (hits : n.hits = m.hits)
    (counters : n.counters = m.counters) (now : n.now = m.now)
    (admitted : ∀ told, reply = .ok (.behind told) →
      tried.map (·.charge) = chargesFor plan v x ∧ told = tried.flatMap Attempt.told ∧
        ∀ a ∈ tried, a.isFinal = false)
    (refused : ∀ a ∈ tried, ∀ r, a.ending? = some (.ok (.refused r)) → reply = .ok (.own r)) :
    Attended plan v x l tried ⟨x, n.hits, reply⟩ n := by
  have noted := made.noted
  refine ⟨charged, ?_, ?_, ?_, ?_, admitted, refused⟩
  · exact (hits.trans (congrArg Lobby.hits noted)).trans (List.nil_append _)
  · exact counters.trans (congrArg Lobby.counters noted)
  · rw [now, noted]
  · rintro before a after rfl
    exact made.outcome_eq

section Cases

variable {plan : ThrottlePlan} {v : Token.Verifier} {x y : Exchange}
  (serve : Stack.Beyond υ)
  (looked : x.claims (.ofVerifier v) ({ l with hits := [], back := none } : Lobby υ) =
    (.ok (claimsFor v x, y), { l with hits := [], back := none }))
include looked

/-- A caller without limits is handed on at once. -/
theorem attended_of_exempt (exempt : Caller.isExempt x.principal (claimsFor v x) = true) :
    Attended plan v x l [] (Lobby.attend plan v serve x l).1 (Lobby.attend plan v serve x l).2 := by
  have charges : chargesFor plan v x = [] := by simp only [chargesFor, exempt, if_true]
  have came : Stage.throttle plan Lobby.noting (.ofVerifier v) (Lobby.handing serve) x
      { l with hits := [], back := none } = _ :=
    (throttle_of_exempt looked exempt _).trans (handing_apply serve y _)
  rw [attend_eq came]
  refine ⟨List.nil_prefix, rfl, rfl, rfl, fun _ _ _ cut => by simp at cut, ?_, by simp⟩
  intro told reply
  have silent : Stack.Reply.of (some (serve y l.beyond).1) (serve y l.beyond).1 = .behind [] := by
    simp [Stack.Reply.of]
  simp only [Except.map, silent, Except.ok.injEq, Stack.Reply.behind.injEq] at reply
  exact ⟨charges.symm, reply.symm, by simp⟩

variable (counted : Caller.isExempt x.principal (claimsFor v x) = false)
  (tries : Tries Lobby.noting (chargesFor plan v x) { l with hits := [], back := none } tried m)
include counted tries

/-- A request is handed on with all fields where no attempt to charge it is the last word. -/
theorem attended_of_all_free (free : ∀ a ∈ tried, a.isFinal = false) :
    Attended plan v x l tried (Lobby.attend plan v serve x l).1
      (Lobby.attend plan v serve x l).2 := by
  have whole := tries.whole free
  have made := tries.made
  have inOrder := tries.inOrder
  rw [chargesFor_of_counted counted] at tries
  have came := handsOn_of_all_free looked counted tries free (Lobby.handing serve)
  rw [Run.bind_of_ok (handing_apply serve _ m)] at came
  rw [attend_eq came]
  refine attended_of_made made inOrder rfl rfl rfl ?_ ?_
  · intro told reply
    simp only [Except.map, reply_handed, Except.ok.injEq, Stack.Reply.behind.injEq] at reply
    exact ⟨whole, reply.symm, free⟩
  · intro a mem r ends
    have final := free a mem
    simp [Attempt.isFinal, ends] at final

/-- A request is answered by the stage itself where an attempt to charge it is the last word. -/
theorem attended_of_final {a : Attempt} (mem : a ∈ tried) (final : a.isFinal = true) :
    Attended plan v x l tried (Lobby.attend plan v serve x l).1
      (Lobby.attend plan v serve x l).2 := by
  have made := tries.made
  have inOrder := tries.inOrder
  have waiting : m.back = none := congrArg Lobby.back made.noted
  rw [chargesFor_of_counted counted] at tries
  obtain ⟨verdict, ends⟩ := Option.isSome_iff_exists.mp final
  obtain ⟨refused, late⟩ := settles_of_final looked counted tries mem
  obtain ⟨c, came⟩ : ∃ c, Stage.throttle plan Lobby.noting (.ofVerifier v) (Lobby.handing serve)
      x { l with hits := [], back := none } = (c, m) := by
    cases verdict with
    | error e => exact ⟨_, late e ends _⟩
    | ok verdict =>
      obtain ⟨h, -, -, rfl⟩ := Attempt.ending?_eq_ok.mp ends
      exact ⟨_, refused _ ends _⟩
  rw [attend_eq came, waiting]
  refine attended_of_made made inOrder rfl rfl rfl ?_ ?_
  · intro told reply
    cases c <;> simp [Except.map, Stack.Reply.of] at reply
  · intro b mem r ends
    obtain ⟨refused, -⟩ := settles_of_final looked counted tries mem
    obtain rfl := congrArg Prod.fst (came.symm.trans (refused r ends _))
    rfl

end Cases

/-- Whatever a request is, the stage deals with it by attempts to charge it. -/
theorem exists_attended (plan : ThrottlePlan) (v : Token.Verifier) (serve : Stack.Beyond υ)
    (x : Exchange) (l : Lobby υ) :
    ∃ tried, Attended plan v x l tried (Lobby.attend plan v serve x l).1
      (Lobby.attend plan v serve x l).2 := by
  obtain ⟨y, claims⟩ := exists_claims v x
  have looked := claims ({ l with hits := [], back := none } : Lobby υ)
  cases exempt : Caller.isExempt x.principal (claimsFor v x) with
  | true => exact ⟨[], attended_of_exempt serve looked exempt⟩
  | false =>
    obtain ⟨tried, n, tries⟩ := exists_tries Lobby.noting (chargesFor plan v x)
      { l with hits := [], back := none }
    refine ⟨tried, ?_⟩
    by_cases free : ∀ a ∈ tried, a.isFinal = false
    · exact attended_of_all_free serve looked exempt tries free
    · simp only [not_forall, Bool.not_eq_false] at free
      obtain ⟨a, mem, final⟩ := free
      exact attended_of_final serve looked exempt tries mem final

end Attending

section Running

variable {υ : Type} {l m n : Lobby υ} {es fs : List Event} {visits later : List Visit}

/-- What happens between two lobbies is a run of events on the counters. -/
structure Amounts (l : Lobby υ) (es : List Event) (visits : List Visit) (m : Lobby υ) : Prop where
  sorted : es.Pairwise fun a b => a.time ≤ b.time
  since : ∀ e ∈ es, l.now ≤ e.time
  upto : ∀ e ∈ es, e.time ≤ m.now
  le : l.now ≤ m.now
  hits : visits.flatMap (·.hits) = strokes es l.counters
  counters : m.counters = l.counters.run es

theorem amounts_nil (l : Lobby υ) (d : Nat) : Amounts l [] [] { l with now := l.now + d } where
  sorted := .nil
  since := nofun
  upto := nofun
  le := Nat.le_add_right _ _
  hits := rfl
  counters := rfl

theorem amounts_cleanup (l : Lobby υ) :
    Amounts l [.cleanup l.now] [] { l with counters := l.counters.cleanup l.now } where
  sorted := List.pairwise_singleton _ _
  since := by simp [Event.time]
  upto := by simp [Event.time]
  le := Nat.le_refl _
  hits := rfl
  counters := rfl

theorem Amounts.append (h : Amounts l es visits m) (h' : Amounts m fs later n) :
    Amounts l (es ++ fs) (visits ++ later) n where
  sorted := by
    refine List.pairwise_append.mpr ⟨h.sorted, h'.sorted, fun a before b behind => ?_⟩
    exact Nat.le_trans (h.upto a before) (h'.since b behind)
  since := by
    refine List.forall_mem_append.mpr ⟨h.since, fun e mem => ?_⟩
    exact Nat.le_trans h.le (h'.since e mem)
  upto := by
    refine List.forall_mem_append.mpr ⟨fun e mem => ?_, h'.upto⟩
    exact Nat.le_trans (h.upto e mem) h'.le
  le := Nat.le_trans h.le h'.le
  hits := by
    rw [List.flatMap_append, h.hits, h'.hits, h.counters, Counters.strokes_append]
  counters := by
    rw [h'.counters, h.counters, Counters.run_append]

variable {plan : ThrottlePlan} {v : Token.Verifier} {x : Exchange} {tried : List Attempt}
  {visit : Visit}

theorem Attended.amounts (h : Attended plan v x l tried visit m) :
    Amounts l (tried.map (·.event l.now)) [visit] m where
  sorted := by
    apply List.pairwise_map.mpr
    exact List.pairwise_of_forall fun a b => Nat.le_refl _
  since := by simp [Attempt.event, Event.time]
  upto := by simp [Attempt.event, Event.time, h.now]
  le := Nat.le_of_eq h.now.symm
  hits := by simpa using h.hits
  counters := h.counters

theorem exists_amounts (plan : ThrottlePlan) (v : Token.Verifier) (serve : Stack.Beyond υ)
    (steps : List Step) (l : Lobby υ) :
    ∃ es, Amounts l es (Lobby.run plan v serve steps l).1 (Lobby.run plan v serve steps l).2 := by
  induction steps generalizing l with
  | nil => exact ⟨[], amounts_nil l 0⟩
  | cons step steps ih =>
    cases step with
    | wait d =>
      obtain ⟨es, rest⟩ := ih { l with now := l.now + d }
      exact ⟨es, (amounts_nil l d).append rest⟩
    | cleanup =>
      obtain ⟨es, rest⟩ := ih { l with counters := l.counters.cleanup l.now }
      exact ⟨_, (amounts_cleanup l).append rest⟩
    | request x =>
      obtain ⟨tried, attended⟩ := exists_attended plan v serve x l
      obtain ⟨es, rest⟩ := ih (Lobby.attend plan v serve x l).2
      exact ⟨_, attended.amounts.append rest⟩

theorem onKey_eq_nil {key : String} {ss : List Stroke} (new : key ∉ ss.map (·.key)) :
    onKey key ss = [] := by
  refine List.filter_eq_nil_iff.mpr fun s mem => ?_
  have other : s.key ≠ key := fun same => new (List.mem_map.mpr ⟨s, mem, same⟩)
  simpa using other

theorem find?_eq_filter {key : String} {ss : List Stroke} (once : (ss.map (·.key)).Nodup) :
    (ss.find? (·.key == key)).toList = onKey key ss := by
  induction ss with
  | nil => rfl
  | cons s ss ih =>
    obtain ⟨new, once⟩ := List.nodup_cons.mp once
    by_cases own : s.key = key
    · subst own
      have others := onKey_eq_nil new
      simp only [onKey] at others
      simp [onKey, others]
    · simpa [onKey, own] using ih once

/-- A request that hits no counter twice has one hit on each of its counters. -/
theorem filterMap_on {key : String} (once : ∀ v ∈ visits, (v.hits.map (·.key)).Nodup) :
    visits.filterMap (·.on key) = onKey key (visits.flatMap (·.hits)) := by
  induction visits with
  | nil => rfl
  | cons visit visits ih =>
    obtain ⟨here, others⟩ := List.forall_mem_cons.mp once
    rw [List.flatMap_cons, Counters.onKey_append, ← ih others, ← find?_eq_filter here]
    cases found : visit.on key with
    | none => simp [found, show visit.hits.find? (·.key == key) = none from found]
    | some s => simp [found, show visit.hits.find? (·.key == key) = some s from found]

/-- A hit of a request is that of an attempt behind the earlier ones. -/
theorem exists_attempt_of_mem {now : Nat} {tried : List Attempt} {cs : Counters} {s : Stroke}
    (mem : s ∈ strokes (tried.map (·.event now)) cs) :
    ∃ before a after, tried = before ++ a :: after ∧ s = ⟨a.charge.key, a.charge.bucket.quota,
      Counters.strike now a.charge.key a.charge.bucket.quota
        (cs.run (before.map (·.event now)))⟩ := by
  induction tried generalizing cs with
  | nil => cases mem
  | cons a tried ih =>
    obtain rfl | mem := List.mem_cons.mp mem
    · exact ⟨[], a, tried, rfl, rfl⟩
    · obtain ⟨before, b, after, rfl, same⟩ := ih mem
      exact ⟨a :: before, b, after, rfl, same⟩

/-- A request is refused by the counter that it finds blocked. -/
theorem Attended.refused_of_blocked (h : Attended plan v x l tried visit m) {s : Stroke}
    (mem : s ∈ visit.hits) (blocked : s.strike.isBlocked = true) :
    ∃ c ∈ chargesFor plan v x, c.key = s.key ∧ c.bucket.quota = s.quota ∧
      ∃ hit, s.strike.outcome = .ok hit ∧ visit.reply = .ok (.own (refusal c.bucket hit)) := by
  rw [h.hits] at mem
  obtain ⟨before, a, after, cut, rfl⟩ := exists_attempt_of_mem mem
  have inside : a ∈ tried := by simp [cut]
  have charged := h.charged.subset (List.mem_map_of_mem inside)
  have outcome := h.outcome before a after cut
  refine ⟨a.charge, charged, rfl, rfl, ?_⟩
  simp only [Counters.strike, Counters.Strike.isBlocked] at blocked ⊢
  split at blocked
  · next hit struck =>
    rw [struck] at outcome
    exact ⟨hit, struck, h.refused a inside _ (Attempt.ending?_eq_ok.mpr ⟨hit, outcome, blocked, rfl⟩)⟩
  · cases blocked

theorem exists_attended_of_mem {serve : Stack.Beyond υ} {steps : List Step}
    (mem : visit ∈ (Lobby.run plan v serve steps l).1) :
    ∃ (k : Lobby υ) (tried : List Attempt) (m : Lobby υ),
      Attended plan v visit.exchange k tried visit m := by
  induction steps generalizing l with
  | nil => cases mem
  | cons step steps ih =>
    cases step with
    | wait d => exact ih (l := { l with now := l.now + d }) mem
    | cleanup => exact ih (l := { l with counters := l.counters.cleanup l.now }) mem
    | request x =>
      obtain rfl | mem := List.mem_cons.mp mem
      · obtain ⟨tried, attended⟩ := exists_attended plan v serve x l
        exact ⟨l, tried, _, attended⟩
      · exact ih mem

/-- What an answer says of a bucket by the hits of its window. The seconds until its end are counted
by whole milliseconds. -/
def countdown (b : Bucket) (w : List Stroke) (now : Nat) : List (String × String) :=
  let suffix := if b.name = "default" then "" else "-" ++ b.name
  [("X-RateLimit-Limit" ++ suffix, toString b.quota.limit),
    ("X-RateLimit-Remaining" ++ suffix, toString (b.quota.limit - w.length)),
    ("X-RateLimit-Reset" ++ suffix, toString (((expiry w - now) / 1000000 + 999) / 1000))]

/-- An attempt that is not final has found its counter free, behind the earlier attempts and before
the later ones. -/
theorem Attended.exists_struck (h : Attended plan v x l tried visit m) {before after : List Attempt}
    {a : Attempt} (cut : tried = before ++ a :: after) (free : a.isFinal = false) :
    let key := a.charge.key
    let q := a.charge.bucket.quota
    let cs := l.counters.run (before.map (·.event l.now))
    ∃ hit next, Counters.hit l.now key q cs = (.ok hit, next) ∧ hit.isBlocked = false ∧
      a.told = fields a.charge.bucket hit ∧
      visit.hits = strokes (before.map (·.event l.now)) l.counters ++
        ⟨key, q, Counters.strike l.now key q cs⟩ :: strokes (after.map (·.event l.now)) next ∧
      m.counters = next.run (after.map (·.event l.now)) := by
  intro key q cs
  have outcome : a.outcome = (Counters.hit l.now key q cs).1.map .ok := h.outcome before a after cut
  have hits := h.hits
  have counters := h.counters
  rw [cut, List.map_append, Counters.strokes_append] at hits
  rw [cut, List.map_append, Counters.run_append] at counters
  rcases struck : Counters.hit l.now key q cs with ⟨e | hit, next⟩
  · have failed : a.outcome = .error e := by rw [outcome, struck]; rfl
    simp [Attempt.isFinal, Attempt.ending?, failed] at free
  · have found : a.outcome = .ok (.ok hit) := by rw [outcome, struck]; rfl
    obtain rfl : (Counters.hit l.now key q cs).2 = next := congrArg Prod.snd struck
    have through : hit.isBlocked = false := by
      simpa [Attempt.isFinal, Attempt.ending?, found] using free
    exact ⟨hit, _, rfl, through, Attempt.told_of_ok found, hits, counters⟩

/-- The window of a counter after a request that hits it once ends with this hit. -/
theorem windowOn_snoc {front back : List Stroke} {s : Stroke}
    (hits : visit.hits = front ++ s :: back) (apart : onKey s.key back = []) :
    windowOn s.key (visits ++ [visit]) =
      lastWindow (onKey s.key (visits.flatMap (·.hits) ++ front ++ [s])) := by
  have alone : onKey s.key (s :: back) = onKey s.key [s] := by
    rw [← List.singleton_append, Counters.onKey_append, apart, List.append_nil]
  rw [windowOn, List.flatMap_append, List.flatMap_singleton, hits, ← List.append_assoc,
    Counters.onKey_append, alone, ← Counters.onKey_append]

/-- What an admitted request is told of a counter comes true of the requests after it. -/
theorem foretold_of_attended {start : υ} {before after : List Attempt} {a : Attempt}
    (past : Amounts (.opened start) es visits l) (attended : Attended plan v x l tried visit m)
    (future : Amounts m fs later n) (regular : Regular (visits ++ visit :: later))
    (cut : tried = before ++ a :: after) (free : a.isFinal = false) :
    let c := a.charge
    let w := windowOn c.key (visits ++ [visit])
    a.told = countdown c.bucket w l.now ∧ w.length ≤ c.bucket.quota.limit ∧ l.now < expiry w ∧
      Foretold w c.bucket.quota.limit (later.filterMap (·.on c.key)) := by
  intro c w
  obtain ⟨h, next, struck, through, told, hits, counters⟩ := attended.exists_struck cut free
  let first := es ++ before.map (·.event l.now)
  let s : Stroke := ⟨c.key, c.bucket.quota, Counters.strike l.now c.key c.bucket.quota
    (l.counters.run (before.map (·.event l.now)))⟩
  let behind := strokes (after.map (·.event l.now)) next
  have inVisits : visit ∈ visits ++ visit :: later := by simp
  have mem : s ∈ visit.hits := by simp [hits, s, c]
  obtain ⟨bounded, long⟩ := regular.bounded visit inVisits s mem
  -- The request does not hit this counter again.
  have apart : onKey c.key behind = [] := by
    have once := regular.once visit inVisits
    rw [hits, List.map_append, List.map_cons] at once
    obtain ⟨new, -⟩ := List.nodup_cons.mp once.of_append_right
    exact onKey_eq_nil new
  have before_eq : l.counters.run (before.map (·.event l.now)) = Counters.run first .empty := by
    rw [past.counters, ← Counters.run_append]
    rfl
  have all := past.append (attended.amounts.append future)
  have events : es ++ (tried.map (·.event l.now) ++ fs) =
      first ++ .hit l.now c.key c.bucket.quota :: (after.map (·.event l.now) ++ fs) := by
    simp [first, cut, Attempt.event, c]
  have sorted := all.sorted
  have every := all.hits
  rw [events] at sorted every
  rw [before_eq] at struck
  have one : ∀ t ∈ onKey c.key (strokes (first ++ .hit l.now c.key c.bucket.quota ::
      (after.map (·.event l.now) ++ fs)) .empty), t.quota.limit = c.bucket.quota.limit := by
    intro t inside
    obtain ⟨inside, own⟩ := List.mem_filter.mp inside
    have noted : t ∈ (visits ++ ([visit] ++ later)).flatMap (·.hits) := every ▸ inside
    obtain ⟨y, mem_y, noted⟩ := List.mem_flatMap.mp noted
    exact (regular.one y mem_y visit inVisits t noted s mem (by simpa using own)).1
  obtain ⟨total, few, remaining, ahead, foretold⟩ :=
    Counters.foretold_of_hit sorted one bounded long struck through
  have window : w = lastWindow (onKey c.key
      (strokes (first ++ [.hit l.now c.key c.bucket.quota]) .empty)) := by
    have split : strokes first .empty =
        strokes es .empty ++ strokes (before.map (·.event l.now)) l.counters := by
      rw [past.counters]
      exact Counters.strokes_append es _ _
    have here : w = _ := windowOn_snoc hits apart
    rw [here, past.hits, Counters.strokes_append, split, ← before_eq]
    rfl
  have others : later.filterMap (·.on c.key) =
      onKey c.key (strokes (after.map (·.event l.now) ++ fs) next) := by
    have once : ∀ y ∈ later, (y.hits.map (·.key)).Nodup := fun y mem =>
      regular.once y (by simp [mem])
    rw [filterMap_on once, future.hits, counters, Counters.strokes_append, Counters.onKey_append]
    exact (congrArg (· ++ _) apart).symm
  rw [window, others]
  refine ⟨?_, few, ahead, foretold⟩
  rw [told, fields, total, remaining, Bucket.suffix_eq]
  rfl

/-- Every admitted request is told the limit of each of its counters, how many hits on it are left
in its window and when that ends, and it comes true: of the requests that hit the counter before
the window ends, as many as are left are let through, and the later ones are not until the first
block has lapsed. A request whose hit finds the counter blocked is refused by its bucket. -/
theorem remaining_comes_true (plan : ThrottlePlan) (v : Token.Verifier) (serve : Stack.Beyond υ)
    (earlier later : List Step) (x : Exchange) (start : υ) :
    let before := Lobby.run plan v serve earlier (.opened start)
    let here := Lobby.attend plan v serve x before.2
    let after := Lobby.run plan v serve later here.2
    let now := before.2.now
    let window (c : Charge) := windowOn c.key (before.1 ++ [here.1])
    Regular (before.1 ++ here.1 :: after.1) →
    (∀ told, here.1.reply = .ok (.behind told) →
      told = (chargesFor plan v x).flatMap (fun c => countdown c.bucket (window c) now) ∧
      ∀ c ∈ chargesFor plan v x,
        (window c).length ≤ c.bucket.quota.limit ∧ now < expiry (window c) ∧
        Foretold (window c) c.bucket.quota.limit (after.1.filterMap (·.on c.key))) ∧
    ∀ y ∈ after.1, ∀ s ∈ y.hits, s.strike.isBlocked = true →
      ∃ c ∈ chargesFor plan v y.exchange, c.key = s.key ∧ c.bucket.quota = s.quota ∧
        ∃ hit, s.strike.outcome = .ok hit ∧ y.reply = .ok (.own (refusal c.bucket hit)) := by
  intro before here after now window regular
  obtain ⟨es, past⟩ := exists_amounts plan v serve earlier (.opened start)
  obtain ⟨tried, attended⟩ := exists_attended plan v serve x before.2
  obtain ⟨fs, future⟩ := exists_amounts plan v serve later here.2
  constructor
  · intro told reply
    obtain ⟨whole, told_eq, free⟩ := attended.admitted told reply
    have come {a : Attempt} (mem : a ∈ tried) :
        a.told = countdown a.charge.bucket (window a.charge) now ∧
          (window a.charge).length ≤ a.charge.bucket.quota.limit ∧
          now < expiry (window a.charge) ∧
          Foretold (window a.charge) a.charge.bucket.quota.limit
            (after.1.filterMap (·.on a.charge.key)) := by
      obtain ⟨front, back, cut⟩ := List.append_of_mem mem
      exact foretold_of_attended past attended future regular cut (free a mem)
    rw [← whole]
    constructor
    · rw [told_eq, List.flatMap_map]
      exact List.flatMap_congr fun a mem => (come mem).1
    · intro c mem
      obtain ⟨a, inside, rfl⟩ := List.mem_map.mp mem
      exact (come inside).2
  · intro y mem s inside blocked
    obtain ⟨k, tried, m, attended⟩ := exists_attended_of_mem mem
    exact attended.refused_of_blocked inside blocked

end Running

section Case

def threePerMinute : ThrottlePlan where
  default := ⟨Bucket.defaultName, ⟨3, 60 * Clock.second, none⟩⟩

def requestFrom (address : String) : Exchange :=
  .ofRequest ⟨⟨.get, "/quests", none, .http11, ⟨[("X-Forwarded-For", address)]⟩⟩, [], none, []⟩

/-- Agrees to everything. -/
def agreeing : Stack.Beyond Unit := fun _ u => (Response.ofText .ok "", u)

/-- A request, and one second later one from elsewhere. -/
def twoEarlier : List Step :=
  [.request (requestFrom "5.5.5.5"), .wait Clock.second, .request (requestFrom "6.6.6.6")]

/-- Two more from the first address, between which lapsed counters are removed. -/
def twoLater : List Step :=
  [.wait Clock.second, .request (requestFrom "5.5.5.5"), .cleanup,
    .request (requestFrom "5.5.5.5")]

/-- The second request from an address is told of one more, which is let through; the one after it is
refused. -/
theorem one_more_comes_true :
    let before := Lobby.run threePerMinute Token.disabled agreeing twoEarlier (.opened ())
    let here := Lobby.attend threePerMinute Token.disabled agreeing (requestFrom "5.5.5.5") before.2
    let after := Lobby.run threePerMinute Token.disabled agreeing twoLater here.2
    Regular (before.1 ++ here.1 :: after.1) ∧
    here.1.reply = .ok (.behind [("X-RateLimit-Limit", "3"), ("X-RateLimit-Remaining", "1"),
      ("X-RateLimit-Reset", "59")]) ∧
    let window := windowOn "default:ip:5.5.5.5" (before.1 ++ [here.1])
    let next := after.1.filterMap (·.on "default:ip:5.5.5.5")
    Foretold window 3 next ∧ window.length = 2 ∧ expiry window = 60 * Clock.second ∧
      next.map (fun s => (s.strike.time, s.strike.isAdmitted)) =
        [(2 * Clock.second, true), (2 * Clock.second, false)] := by
  intro before here after
  have regular : Regular (before.1 ++ here.1 :: after.1) :=
    ⟨by decide +kernel, by decide +kernel, by decide +kernel⟩
  obtain ⟨told, -⟩ := remaining_comes_true threePerMinute Token.disabled agreeing twoEarlier twoLater
    (requestFrom "5.5.5.5") () regular
  have reply : here.1.reply = .ok (.behind [("X-RateLimit-Limit", "3"),
      ("X-RateLimit-Remaining", "1"), ("X-RateLimit-Reset", "59")]) := by decide +kernel
  obtain ⟨-, come⟩ := told _ reply
  have charges : (⟨threePerMinute.default, "default:ip:5.5.5.5"⟩ : Charge) ∈
      chargesFor threePerMinute Token.disabled (requestFrom "5.5.5.5") := by decide +kernel
  obtain ⟨-, -, foretold⟩ := come _ charges
  exact ⟨regular, reply, foretold, by decide +kernel, by decide +kernel, by decide +kernel⟩

end Case

end Throttle

end Turnstile
