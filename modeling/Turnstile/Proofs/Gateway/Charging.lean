import Turnstile.Proofs.Gateway.Fields
import Turnstile.Proofs.Gateway.Identified
import Turnstile.Proofs.Gateway.Quiet
import Turnstile.Proofs.Throttle.Charges

/-!
What the stages of a gateway do with its counters and tell of them. A request leaves the counters of
other callers alone, sees its own caller's counters only, and is answered if the windows fit the
clock. Each of this is said of one stage after the other, from the charges outwards.
-/

namespace Turnstile

/-- What an answer tells of its caller's counters: whether they refuse the request, and the fields
about them. -/
structure Budget where
  isRefused : Bool
  fields : List (String × String)
  deriving DecidableEq, Repr

namespace Response

def budgetFields (r : Response) : List (String × String) :=
  r.headers.entries.filter fun f => isBudgetName f.1

def budget (r : Response) : Budget where
  isRefused := r.status == .tooManyRequests && r.budgetFields.any fun f => isRetryName f.1
  fields := r.budgetFields

theorem budgetFields_addHeaders (r : Response) (more : List (String × String)) :
    (r.addHeaders more).budgetFields =
      r.budgetFields ++ more.filter fun f => isBudgetName f.1 :=
  List.filter_append _ _

theorem budget_addHeaders_of_silent (r : Response) {more : List (String × String)}
    (silent : ∀ f ∈ more, isBudgetName f.1 = false) : (r.addHeaders more).budget = r.budget := by
  have none_left : more.filter (fun f => isBudgetName f.1) = [] :=
    List.filter_eq_nil_iff.mpr fun f mem => by simp [silent f mem]
  simp only [budget, budgetFields_addHeaders, none_left, List.append_nil, status_addHeaders]

/-- The budget of an answer that says nothing by itself is in the fields that are put behind. -/
theorem budget_of_silent {r : Response} (h : r.IsSilent) {more : List (String × String)}
    (noRetry : ∀ f ∈ more, isRetryName f.1 = false) :
    (r.addHeaders more).budget = ⟨false, more.filter fun f => isBudgetName f.1⟩ := by
  have own : r.budgetFields = [] := List.filter_eq_nil_iff.mpr fun f mem => by simp [h f mem]
  have any_false : (more.filter fun f => isBudgetName f.1).any (fun f => isRetryName f.1) = false :=
    List.any_eq_false.mpr fun f mem => by simp [noRetry f (List.mem_filter.mp mem).1]
  simp only [budget, budgetFields_addHeaders, own, List.nil_append, any_false, Bool.and_false]

end Response

namespace Throttle

theorem isRetryName_fields (b : Bucket) (h : Hit) : ∀ f ∈ fields b h, isRetryName f.1 = false := by
  simp [fields, isRetryName, List.isPrefixOf]

/-- What is told of admitted requests does not ask anyone to come again. -/
theorem isRetryName_of_admitted {σ : Type} {store : CounterStore σ} {cs : List Charge}
    {told : List (String × String)} {s t : σ} (h : charge store cs s = (.ok (.admitted told), t)) :
    ∀ f ∈ told, isRetryName f.1 = false := by
  induction cs generalizing told s t with
  | nil =>
    cases h
    exact nofun
  | cons c cs ih =>
    obtain ⟨found, s', -, h⟩ := Run.bind_eq_ok.mp h
    cases found with
    | error e => exact ih h
    | ok hit =>
      simp only at h
      split at h
      · cases h
      · obtain ⟨verdict, t', rest, h⟩ := Run.bind_eq_ok.mp h
        cases verdict with
        | admitted more =>
          cases h
          intro f mem
          obtain mem | mem := List.mem_append.mp mem
          · exact isRetryName_fields c.bucket hit f mem
          · exact ih rest f mem
        | refused r => cases h

end Throttle

namespace Gateway

/-- States at one time in which the counters under these keys are the same. -/
def SameCounters (keys : List String) (m n : Memory) : Prop :=
  m.now = n.now ∧ ∀ key ∈ keys, m.counters.get? key = n.counters.get? key

section Charge

theorem counterStore_hit (key : String) (q : Quota) (m : Memory) :
    Memory.counterStore.hit key q m =
      ((Counters.hit m.now key q m.counters).1.map .ok,
        { m with counters := (Counters.hit m.now key q m.counters).2 }) := by
  simp only [Memory.counterStore, CounterStore.memory, Run.bind_apply, Run.state, Part.run,
    Memory.countersPart]
  rcases Counters.hit m.now key q m.counters with ⟨e | h, cs⟩ <;> rfl

theorem alike_hit {keys : List String} {key : String} (mem : key ∈ keys) (q : Quota) :
    Run.Alike (SameCounters keys) id (Memory.counterStore.hit key q) := by
  rintro m n ⟨now, same⟩
  obtain ⟨result, later⟩ := Counters.hit_congr (same key mem) n.now q
  rw [counterStore_hit, counterStore_hit, now, result]
  exact ⟨rfl, rfl, fun k hk => later k (same k hk)⟩

theorem keeps_hit {key k : String} (ne : key ≠ k) (q : Quota) :
    Run.Keeps (fun m : Memory => m.counters.get? k) (Memory.counterStore.hit key q) := by
  intro m
  rw [counterStore_hit]
  exact Counters.get?_hit_of_ne ne

theorem alike_charge {keys : List String} {cs : List Charge} (mem : ∀ c ∈ cs, c.key ∈ keys) :
    Run.Alike (SameCounters keys) id (Throttle.charge Memory.counterStore cs) := by
  induction cs with
  | nil => exact Run.alike_pure _ _
  | cons c cs ih =>
    obtain ⟨here, later⟩ := List.forall_mem_cons.mp mem
    refine (alike_hit here c.bucket.quota).bind fun found _ => ?_
    cases found with
    | error e => exact ih later
    | ok h =>
      simp only
      split
      · exact Run.alike_pure _ _
      · refine (ih later).bind fun verdict _ => ?_
        cases verdict <;> exact Run.alike_pure _ _

theorem keeps_charge {k : String} {cs : List Charge} (ne : ∀ c ∈ cs, c.key ≠ k) :
    Run.Keeps (fun m : Memory => m.counters.get? k) (Throttle.charge Memory.counterStore cs) := by
  induction cs with
  | nil => exact Run.keeps_pure _ _
  | cons c cs ih =>
    obtain ⟨here, later⟩ := List.forall_mem_cons.mp ne
    refine (keeps_hit here c.bucket.quota).bind fun found => ?_
    cases found with
    | error e => exact ih later
    | ok h =>
      simp only
      split
      · exact Run.keeps_pure _ _
      · refine (ih later).bind fun verdict => ?_
        cases verdict <;> exact Run.keeps_pure _ _

theorem ends_charge {cs : List Charge} {m : Memory}
    (fits : ∀ c ∈ cs, c.bucket.quota.Fits m.now) :
    (Throttle.charge Memory.counterStore cs).Ends m fun _ _ => True := by
  induction cs generalizing m with
  | nil => exact Run.ends_pure trivial
  | cons c cs ih =>
    obtain ⟨here, later⟩ := List.forall_mem_cons.mp fits
    obtain ⟨h, found⟩ := Counters.hit_ok here c.key m.counters
    refine Run.Ends.bind ⟨.ok h, _, by rw [counterStore_hit, found]; rfl, ?_⟩
    simp only
    split
    · exact Run.ends_pure trivial
    · have rest : (Throttle.charge Memory.counterStore cs).Ends
          { m with counters := (Counters.hit m.now c.key c.bucket.quota m.counters).2 }
            fun _ _ => True := ih later
      refine (rest.mono ?_).bind
      rintro (more | r) n - <;> exact Run.ends_pure trivial

end Charge

section Quiet

variable {h : Handler Memory}

theorem Quiet.keeps (quiet : Quiet h) (x : Exchange) (k : String) :
    Run.Keeps (fun m : Memory => m.counters.get? k) (h x) := by
  intro m
  obtain ⟨r, n, run, -, -, same⟩ := quiet x m
  simp only [run, same]

/-- An answer that says nothing by itself shows what is put behind it, whatever it is. -/
theorem Quiet.alike (quiet : Quiet h) (x : Exchange) (keys : List String)
    {more : List (String × String)} (noRetry : ∀ f ∈ more, isRetryName f.1 = false) :
    Run.Alike (SameCounters keys) Response.budget (do return (← h x).addHeaders more) := by
  rintro m n ⟨now, same⟩
  obtain ⟨r, m', runM, silentM, nowM, countersM⟩ := quiet x m
  obtain ⟨s, n', runN, silentN, nowN, countersN⟩ := quiet x n
  rw [Run.bind_of_ok runM, Run.bind_of_ok runN]
  refine ⟨?_, nowM.trans (now.trans nowN.symm), fun k mem => ?_⟩
  · show Except.ok (r.addHeaders more).budget = Except.ok (s.addHeaders more).budget
    rw [Response.budget_of_silent silentM noRetry, Response.budget_of_silent silentN noRetry]
  · show m'.counters.get? k = n'.counters.get? k
    rw [countersM, countersN, same k mem]

end Quiet

theorem keeps_throttled {next : Handler Memory} (quiet : Quiet next) {plan : ThrottlePlan}
    {v : Token.Verifier} {r : Request} {k : String}
    (ne : ∀ c ∈ plan.charges r (callerOf v r).key, c.key ≠ k) :
    Run.Keeps (fun m : Memory => m.counters.get? k)
      (Stage.throttle plan Memory.counterStore (TokenCheck.ofVerifier v) next
        (identified v r)) := by
  rw [throttle_identified]
  split
  · exact quiet.keeps _ k
  · refine (keeps_charge ne).bind fun verdict => ?_
    cases verdict with
    | refused refusal => exact Run.keeps_pure _ _
    | admitted told => exact (quiet.keeps _ k).bind fun _ => Run.keeps_pure _ _

theorem alike_throttled {next : Handler Memory} (quiet : Quiet next) {plan : ThrottlePlan}
    {v : Token.Verifier} {r : Request} {keys : List String}
    (mem : ∀ c ∈ plan.charges r (callerOf v r).key, c.key ∈ keys) :
    Run.Alike (SameCounters keys) Response.budget
      (Stage.throttle plan Memory.counterStore (TokenCheck.ofVerifier v) next
        (identified v r)) := by
  rw [throttle_identified]
  split
  · have bare := quiet.alike (identified v r) keys (List.forall_mem_nil _)
    simpa [Response.addHeaders, Headers.append] using bare
  · refine (alike_charge mem).bind fun verdict possible => ?_
    cases verdict with
    | refused refusal => exact Run.alike_pure _ _
    | admitted told =>
      obtain ⟨m, n, charged⟩ := possible
      exact quiet.alike _ keys (Throttle.isRetryName_of_admitted charged)

theorem ends_throttled {next : Handler Memory} (quiet : Quiet next) {plan : ThrottlePlan}
    {v : Token.Verifier} {r : Request} {m : Memory}
    (charged : (Throttle.charge Memory.counterStore (plan.charges r (callerOf v r).key)).Ends m
      fun _ _ => True) :
    (Stage.throttle plan Memory.counterStore (TokenCheck.ofVerifier v) next
      (identified v r)).Ends m fun _ _ => True := by
  rw [throttle_identified]
  split
  · exact (quiet _ m).mono fun _ _ _ => trivial
  · refine (charged.mono ?_).bind
    rintro (told | refusal) n -
    · refine ((quiet _ n).mono ?_).bind
      exact fun _ _ _ => Run.ends_pure trivial
    · exact Run.ends_pure trivial

theorem isBudgetName_answerFields (p : CorsPolicy) (origin : String) :
    ∀ f ∈ p.answerFields origin, isBudgetName f.1 = false := by
  have silent : ∀ name ∈ CorsPolicy.answerNames, isBudgetName name = false := by decide +kernel
  exact fun f mem => silent f.1 (CorsPolicy.name_mem_answerNames p origin f mem)

theorem keeps_cors {τ : Type} {f : Memory → τ} (p : CorsPolicy) {next : Handler Memory}
    {x : Exchange} (h : Run.Keeps f (next x)) : Run.Keeps f (Stage.cors p next x) := by
  unfold Stage.cors
  split
  · exact h
  · split
    · exact Run.keeps_pure _ _
    · exact h.bind fun _ => Run.keeps_pure _ _

theorem ends_cors (p : CorsPolicy) {next : Handler Memory} {x : Exchange} {m : Memory}
    (h : (next x).Ends m fun _ _ => True) : (Stage.cors p next x).Ends m fun _ _ => True := by
  unfold Stage.cors
  split
  · exact h
  · split
    · exact Run.ends_pure trivial
    · refine (h.mono ?_).bind
      exact fun _ _ _ => Run.ends_pure trivial

theorem alike_cors {R : Memory → Memory → Prop} (p : CorsPolicy) {next : Handler Memory}
    {x : Exchange} (h : Run.Alike R Response.budget (next x)) :
    Run.Alike R Response.budget (Stage.cors p next x) := by
  unfold Stage.cors
  split
  · exact h
  · next origin _ =>
    split
    · exact Run.alike_pure _ _
    · refine h.map fun a b same => ?_
      rw [Response.budget_addHeaders_of_silent a (isBudgetName_answerFields p origin),
        Response.budget_addHeaders_of_silent b (isBudgetName_answerFields p origin), same]

variable (s : Settings) (v : Token.Verifier)

/-- The keys of a caller's counters, of which there is one for each bucket. -/
def counterKeys (s : Settings) (caller : String) : List String :=
  (throttlePlan s.rateLimits).counterKeys caller

theorem keepsQuotas_throttlePlan (r : RateLimits) : (throttlePlan r).KeepsQuotas := by
  simp [ThrottlePlan.KeepsQuotas, throttlePlan, LimitRule.KeepsQuota]

theorem isPlain_of_mem {r : RateLimits} {b : Bucket} (mem : b ∈ (throttlePlan r).buckets) :
    b.IsPlain := by
  simp only [ThrottlePlan.buckets, throttlePlan, List.mem_cons, List.not_mem_nil, or_false] at mem
  obtain rfl | rfl := mem
  · show ':' ∉ Bucket.defaultName.toList
    decide +kernel
  · show ':' ∉ RateLimits.authName.toList
    decide +kernel

/-- A request leaves the counters of all callers but its own as they are. -/
theorem keeps_answer (o : Occasion) (r : Request) {caller key : String}
    (ne : (callerOf v r).key ≠ caller) (mem : key ∈ counterKeys s caller) :
    Run.Keeps (fun m : Memory => m.counters.get? key) ((inMemory s v).answer o r) := by
  rw [answer_inMemory]
  refine keeps_cors _ ?_
  rw [authenticate_ofRequest]
  refine keeps_throttled (quiet_behind s o) fun c charged same => ?_
  have own := ThrottlePlan.key_mem_of_charge (keepsQuotas_throttlePlan s.rateLimits) charged
  rw [same] at own
  exact ThrottlePlan.notMem_counterKeys (fun _ => isPlain_of_mem) ne own mem

/-- What a request is told of its caller's counters depends on nothing but these and the time. -/
theorem alike_answer (o : Occasion) (r : Request) :
    Run.Alike (SameCounters (counterKeys s (callerOf v r).key)) Response.budget
      ((inMemory s v).answer o r) := by
  rw [answer_inMemory]
  refine alike_cors _ ?_
  rw [authenticate_ofRequest]
  refine alike_throttled (quiet_behind s o) fun c charged => ?_
  exact ThrottlePlan.key_mem_of_charge (keepsQuotas_throttlePlan s.rateLimits) charged

/-- The windows of the gateway can be added to the clock. -/
def FitsClock (s : Settings) (now : Nat) : Prop :=
  now + s.rateLimits.window < Clock.horizon ∧ now + s.rateLimits.authWindow < Clock.horizon

instance (s : Settings) (now : Nat) : Decidable (FitsClock s now) :=
  inferInstanceAs (Decidable (_ ∧ _))

theorem fits_of_charge {now : Nat} {r : Request} {caller : String} {c : Charge}
    (fits : FitsClock s now) (h : c ∈ (throttlePlan s.rateLimits).charges r caller) :
    c.bucket.quota.Fits now := by
  obtain ⟨b, mem, rfl⟩ := ThrottlePlan.charge_of_mem (keepsQuotas_throttlePlan s.rateLimits) h
  simp only [ThrottlePlan.buckets, throttlePlan, List.mem_cons, List.not_mem_nil, or_false] at mem
  obtain rfl | rfl := mem
  · exact ⟨fits.1, nofun⟩
  · exact ⟨fits.2, nofun⟩

/-- A request is answered if charging it comes to an end. -/
theorem ends_answer_of_charge (o : Occasion) (r : Request) {m : Memory}
    (charged : (Throttle.charge Memory.counterStore
      ((throttlePlan s.rateLimits).charges r (callerOf v r).key)).Ends m fun _ _ => True) :
    ((inMemory s v).answer o r).Ends m fun _ _ => True := by
  rw [answer_inMemory]
  refine ends_cors _ ?_
  rw [authenticate_ofRequest]
  exact ends_throttled (quiet_behind s o) charged

theorem ends_answer (o : Occasion) (r : Request) {m : Memory} (fits : FitsClock s m.now) :
    ((inMemory s v).answer o r).Ends m fun _ _ => True :=
  ends_answer_of_charge s v o r (ends_charge fun _ charged => fits_of_charge s fits charged)

end Gateway

end Turnstile
