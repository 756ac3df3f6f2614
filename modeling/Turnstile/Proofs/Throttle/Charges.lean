import Turnstile.Proofs.Run
import Turnstile.Proofs.Throttle.Counter
import Turnstile.Throttle.Stage

namespace Turnstile

/-- A text is cut in one way at the first of a character that its front does not have. -/
theorem append_cons_inj_of_notMem_fronts {c : Char} {x y u v : List Char} (hx : c ∉ x) (hy : c ∉ y)
    (h : x ++ c :: u = y ++ c :: v) : x = y ∧ u = v := by
  induction x generalizing y with
  | nil =>
    cases y with
    | nil => exact ⟨rfl, (List.cons.inj h).2⟩
    | cons d y => exact absurd ((List.cons.inj h).1 ▸ List.mem_cons_self) hy
  | cons b x ih =>
    cases y with
    | nil => exact absurd ((List.cons.inj h).1 ▸ List.mem_cons_self) hx
    | cons d y =>
      obtain ⟨rfl, rest⟩ := List.cons.inj h
      have tailX : c ∉ x := fun mem => hx (List.mem_cons_of_mem b mem)
      have tailY : c ∉ y := fun mem => hy (List.mem_cons_of_mem b mem)
      obtain ⟨rfl, rfl⟩ := ih tailX tailY rest
      exact ⟨rfl, rfl⟩

namespace Bucket

def counterKey (b : Bucket) (caller : String) : String := b.name ++ ":" ++ caller

/-- Nothing in the name could be taken for its end. -/
def IsPlain (b : Bucket) : Prop := ':' ∉ b.name.toList

theorem counterKey_inj {a b : Bucket} {x y : String} (ha : a.IsPlain) (hb : b.IsPlain)
    (same : a.counterKey x = b.counterKey y) : a.name = b.name ∧ x = y := by
  have chars : a.name.toList ++ ':' :: x.toList = b.name.toList ++ ':' :: y.toList := by
    simpa [counterKey] using congrArg String.toList same
  obtain ⟨names, callers⟩ := append_cons_inj_of_notMem_fronts ha hb chars
  exact ⟨String.toList_injective names, String.toList_injective callers⟩

end Bucket

/-- The rule opts into a bucket as it is. -/
def LimitRule.KeepsQuota (r : LimitRule) : Prop :=
  r.limit = none ∧ r.window = none ∧ r.block = none

namespace ThrottlePlan

/-- A registered bucket is charged as it is, or under the rule of the route that names it. -/
theorem registered?_cases {route : Option RouteLimits} {caller : String} {b : Bucket} {c : Charge}
    (h : registered? route caller b = some c) :
    c = chargePlain b caller ∨ ∃ r, route = some r ∧ ∃ rule ∈ r.rules, rule.name = b.name ∧
      c = chargeUnder b r.source rule caller := by
  cases route with
  | none =>
    simp only [registered?, Option.ite_none_right_eq_some] at h
    exact .inl (Option.some.inj h.2).symm
  | some r =>
    simp only [registered?] at h
    split at h
    · cases h
    · split at h
      · next rule found =>
        have named : rule.name = b.name := by simpa using List.find?_some found
        have inside : rule ∈ r.rules := List.mem_of_find?_eq_some found
        exact .inr ⟨r, rfl, rule, inside, named, (Option.some.inj h).symm⟩
      · rw [Option.ite_none_right_eq_some] at h
        exact .inl (Option.some.inj h.2).symm

/-- A charge is on a registered bucket or on one that a rule of the route alone knows. -/
theorem mem_charges_cases {p : ThrottlePlan} {q : Request} {caller : String} {c : Charge}
    (h : c ∈ p.charges q caller) :
    (∃ b ∈ p.buckets, registered? (p.routes.find? (·.covers q)) caller b = some c) ∨
    ∃ r, p.routes.find? (·.covers q) = some r ∧ ∃ rule ∈ r.rules,
      p.standalone? r caller rule = some c := by
  simp only [charges, List.mem_append, List.mem_filterMap] at h
  obtain registered | h := h
  · exact .inl registered
  · right
    cases found : p.routes.find? (·.covers q) with
    | none => simp [found] at h
    | some r =>
      simp only [found, List.mem_filterMap] at h
      exact ⟨r, rfl, h⟩

/-- Rules only say which buckets a request is charged on; they change no quota. -/
def KeepsQuotas (p : ThrottlePlan) : Prop :=
  ∀ route ∈ p.routes, ∀ rule ∈ route.rules, rule.KeepsQuota

def counterKeys (p : ThrottlePlan) (caller : String) : List String :=
  p.buckets.map (·.counterKey caller)

section Rule

variable {rule : LimitRule}

theorem chargeUnder_of_keepsQuota (keeps : rule.KeepsQuota)
    (b : Bucket) (source caller : String) :
    chargeUnder b source rule caller = chargePlain b caller := by
  obtain ⟨limit, window, block⟩ := keeps
  simp [chargeUnder, chargePlain, LimitRule.isOwnWindow, LimitRule.override, limit, window, block]

theorem standalone?_of_keepsQuota (keeps : rule.KeepsQuota)
    (p : ThrottlePlan) (r : RouteLimits) (caller : String) :
    p.standalone? r caller rule = none := by
  simp [standalone?, keeps.1]

theorem registered?_of_keepsQuota {route : Option RouteLimits} {caller : String} {b : Bucket}
    {c : Charge}
    (keeps : ∀ r, route = some r → ∀ rule ∈ r.rules, rule.KeepsQuota)
    (h : registered? route caller b = some c) : c = chargePlain b caller := by
  obtain plain | ⟨r, rfl, rule, inside, -, rfl⟩ := registered?_cases h
  · exact plain
  · exact chargeUnder_of_keepsQuota (keeps r rfl rule inside) b r.source caller

end Rule

/-- A plan that keeps the quotas charges whole buckets, each on the caller's counter in it. -/
theorem charge_of_mem {p : ThrottlePlan} (keeps : p.KeepsQuotas) {q : Request} {caller : String}
    {c : Charge} (h : c ∈ p.charges q caller) : ∃ b ∈ p.buckets, c = chargePlain b caller := by
  have inRoute : ∀ r, p.routes.find? (·.covers q) = some r → ∀ rule ∈ r.rules, rule.KeepsQuota :=
    fun r found => keeps r (List.mem_of_find?_eq_some found)
  obtain ⟨b, mem, charged⟩ | ⟨r, found, rule, mem, charged⟩ := mem_charges_cases h
  · exact ⟨b, mem, registered?_of_keepsQuota inRoute charged⟩
  · rw [standalone?_of_keepsQuota (inRoute r found rule mem)] at charged
    cases charged

theorem key_mem_of_charge {p : ThrottlePlan} (keeps : p.KeepsQuotas) {q : Request}
    {caller : String} {c : Charge} (h : c ∈ p.charges q caller) :
    c.key ∈ p.counterKeys caller := by
  obtain ⟨b, mem, rfl⟩ := charge_of_mem keeps h
  exact List.mem_map.mpr ⟨b, mem, rfl⟩

/-- The counters of different callers have different keys. -/
theorem notMem_counterKeys {p : ThrottlePlan} (plain : ∀ b ∈ p.buckets, b.IsPlain)
    {x y key : String} (ne : x ≠ y) (h : key ∈ p.counterKeys x) : key ∉ p.counterKeys y := by
  intro h'
  obtain ⟨a, ha, rfl⟩ := List.mem_map.mp h
  obtain ⟨b, hb, same⟩ := List.mem_map.mp h'
  exact ne (Bucket.counterKey_inj (plain b hb) (plain a ha) same).2.symm

end ThrottlePlan

namespace Counters

/-- A hit sees no counter but its own, and leaves equal counters equal. -/
theorem hit_congr {cs ds : Counters} {key : String} (same : cs.get? key = ds.get? key) (now : Nat)
    (q : Quota) :
    (hit now key q cs).1 = (hit now key q ds).1 ∧
      ∀ k, cs.get? k = ds.get? k → (hit now key q cs).2.get? k = (hit now key q ds).2.get? k := by
  simp only [hit, same]
  cases Counter.current now q (ds.get? key) with
  | error e => exact ⟨rfl, fun _ h => h⟩
  | ok c =>
    refine ⟨rfl, fun k h => ?_⟩
    simp only [get?, Keyed.get?_insert] at h ⊢
    split
    · rfl
    · exact h

end Counters

namespace Throttle

section Steps

variable {σ : Type} {store : CounterStore σ} {c : Charge} {s t : σ}

theorem charge_of_late {e : ClockOverflow} (struck : store.hit c.key c.bucket.quota s = (.error e, t))
    (cs : List Charge) : charge store (c :: cs) s = (.error e, t) := by
  rw [charge]
  exact Run.bind_of_error struck _

/-- A counter that cannot be reached is passed over. -/
theorem charge_of_fault {f : CounterFault} (struck : store.hit c.key c.bucket.quota s =
    (.ok (.error f), t)) (cs : List Charge) : charge store (c :: cs) s = charge store cs t := by
  rw [charge, Run.bind_of_ok struck]

theorem charge_of_blocked {h : Hit} (struck : store.hit c.key c.bucket.quota s = (.ok (.ok h), t))
    (blocked : h.isBlocked = true) (cs : List Charge) :
    charge store (c :: cs) s = (.ok (.refused (refusal c.bucket h)), t) := by
  rw [charge, Run.bind_of_ok struck]
  simp only [blocked, if_true]
  rfl

/-- A verdict on the later charges when one charge has been let through. -/
def Verdict.behind (told : List (String × String)) : Verdict → Verdict
  | .admitted more => .admitted (told ++ more)
  | .refused r => .refused r

theorem charge_of_free {h : Hit} (struck : store.hit c.key c.bucket.quota s = (.ok (.ok h), t))
    (through : h.isBlocked = false) (cs : List Charge) :
    charge store (c :: cs) s = (Verdict.behind (fields c.bucket h) <$> charge store cs) t := by
  rw [charge, Run.bind_of_ok struck, Run.map_apply]
  simp only [through, Bool.false_eq_true, if_false, Run.bind_apply]
  rcases charge store cs t with ⟨e | told | r, u⟩ <;> rfl

end Steps

end Throttle

end Turnstile
