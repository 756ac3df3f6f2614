import Mathlib.Data.List.Nodup
import Turnstile.Proofs.Throttle.Charges

/-!
Counters that are kept under one quota. A key is put together from the name of a bucket, the pattern
of the route if its rule has a window of its own, and the caller; the method of a route is no part
of it, and nothing in its parts is escaped. `one_budget_iff_fronts_apart` says for which plans no
counter is charged under two limits or windows, and that in these a counter goes the same way
whatever is charged under others.
-/

namespace Turnstile

/-- Both admit as many hits in windows as long. -/
def Quota.SameBudget (q r : Quota) : Prop := q.limit = r.limit ∧ q.window = r.window

instance (q r : Quota) : Decidable (q.SameBudget r) := inferInstanceAs (Decidable (_ ∧ _))

theorem LimitRule.sameBudget_override {rule : LimitRule} (limit : rule.limit.isSome = true)
    (window : rule.window.isSome = true) (q r : Quota) :
    (rule.override q).SameBudget (rule.override r) := by
  obtain ⟨n, hasLimit⟩ := Option.isSome_iff_exists.mp limit
  obtain ⟨d, hasWindow⟩ := Option.isSome_iff_exists.mp window
  simp [LimitRule.override, Quota.SameBudget, hasLimit, hasWindow]

namespace Caller

def marks : List String := ["user:", "ip:"]

theorem exists_key_iff {k : String} :
    (∃ c : Caller, c.key = k) ↔ ∃ mark ∈ marks, ∃ id, k = mark ++ id := by
  constructor
  · rintro ⟨c, rfl⟩
    cases c with
    | user id | holder id => exact ⟨"user:", by simp [marks], id, rfl⟩
    | address text => exact ⟨"ip:", by simp [marks], text, rfl⟩
    | unknown => exact ⟨"ip:", by simp [marks], "unknown", by decide⟩
  · rintro ⟨mark, mem, id, rfl⟩
    simp only [marks, List.mem_cons, List.not_mem_nil, or_false] at mem
    obtain rfl | rfl := mem
    · exact ⟨.user id, rfl⟩
    · exact ⟨.address id, rfl⟩

/-- The first colon in the key of a caller ends its mark. -/
theorem exists_mark_of_append {c : Caller} {front back : List Char}
    (cut : c.key.toList = front ++ back) (colon : ':' ∈ front) :
    ∃ mark ∈ marks, ∃ more, front = mark.toList ++ more := by
  obtain ⟨mark, mem, id, key⟩ := exists_key_iff.mp ⟨c, rfl⟩
  have stem : ∃ stem, ':' ∉ stem ∧ mark.toList = stem ++ [':'] := by
    simp only [marks, List.mem_cons, List.not_mem_nil, or_false] at mem
    obtain rfl | rfl := mem
    · exact ⟨"user".toList, by decide, by decide⟩
    · exact ⟨"ip".toList, by decide, by decide⟩
  obtain ⟨stem, plain, ends⟩ := stem
  obtain ⟨start, more, rfl, first⟩ := List.eq_append_cons_of_mem colon
  have chars : stem ++ ':' :: id.toList = start ++ ':' :: (more ++ back) := by
    rw [key] at cut
    simpa [ends] using cut
  obtain ⟨rfl, -⟩ := append_cons_inj_of_notMem_fronts plain first chars
  exact ⟨mark, mem, more, by simp [ends]⟩

end Caller

/-- What stands in front of callers goes on like the key of one. -/
def RunsInto (f g : String) : Prop := ∃ mark ∈ Caller.marks, ∃ more, g = f ++ mark ++ more

/-- The same stands in front of callers, or what goes on like the key of another. -/
def Meets (f g : String) : Prop := f = g ∨ RunsInto f g ∨ RunsInto g f

def EndsInColon (f : String) : Prop := f.toList.getLast? = some ':'

theorem endsInColon_append (f : String) : EndsInColon (f ++ ":") := by
  simp [EndsInColon]

theorem runsInto_of_append {f g : String} {a : Caller} {more rest : List Char}
    (longer : g.toList = f.toList ++ more) (ne : more ≠ []) (ends : EndsInColon g)
    (cut : a.key.toList = more ++ rest) : RunsInto f g := by
  have colon : ':' ∈ more := by
    rw [EndsInColon, longer, List.getLast?_append] at ends
    cases last : more.getLast? with
    | none => exact absurd (List.getLast?_eq_none_iff.mp last) ne
    | some c =>
      rw [last, Option.some_or] at ends
      obtain rfl := Option.some.inj ends
      exact List.mem_of_getLast? last
  obtain ⟨mark, mem, w, rfl⟩ := Caller.exists_mark_of_append cut colon
  refine ⟨mark, mem, String.ofList w, ?_⟩
  apply String.toList_injective
  simp [longer]

theorem RunsInto.exists_callers {f g : String} (h : RunsInto f g) :
    ∃ a b : Caller, f ++ a.key = g ++ b.key := by
  obtain ⟨mark, mem, more, rfl⟩ := h
  obtain ⟨a, key⟩ := Caller.exists_key_iff.mpr ⟨mark, mem, more ++ Caller.unknown.key, rfl⟩
  exact ⟨a, .unknown, by simp [key, String.append_assoc]⟩

/-- There is no other way for two callers to have one key. -/
theorem meets_iff_exists_callers {f g : String} (hf : EndsInColon f) (hg : EndsInColon g) :
    Meets f g ↔ ∃ a b : Caller, f ++ a.key = g ++ b.key := by
  constructor
  · rintro (rfl | into | into)
    · exact ⟨.unknown, .unknown, rfl⟩
    · exact into.exists_callers
    · obtain ⟨a, b, same⟩ := into.exists_callers
      exact ⟨b, a, same.symm⟩
  · rintro ⟨a, b, same⟩
    have chars : f.toList ++ a.key.toList = g.toList ++ b.key.toList := by
      simpa using congrArg String.toList same
    obtain ⟨more, longer, cut⟩ | ⟨more, longer, cut⟩ := List.append_eq_append_iff.mp chars
    · by_cases nothing : more = []
      · left
        apply String.toList_injective
        rw [longer, nothing, List.append_nil]
      · exact .inr (.inl (runsInto_of_append longer nothing hg cut))
    · by_cases nothing : more = []
      · left
        apply String.toList_injective
        rw [longer, nothing, List.append_nil]
      · exact .inr (.inr (runsInto_of_append longer nothing hf cut))

/-- The charge with a caller behind its key. -/
def Charge.behind (c : Charge) (caller : String) : Charge := ⟨c.bucket, c.key ++ caller⟩

namespace ThrottlePlan

variable {p : ThrottlePlan}

theorem chargePlain_behind (b : Bucket) (caller : String) :
    (chargePlain b "").behind caller = chargePlain b caller := by
  simp [chargePlain, Charge.behind, String.append_assoc]

theorem chargeUnder_behind (b : Bucket) (source : String) (rule : LimitRule) (caller : String) :
    (chargeUnder b source rule "").behind caller = chargeUnder b source rule caller := by
  unfold chargeUnder Charge.behind
  split <;> simp [String.append_assoc]

theorem registered?_behind (route : Option RouteLimits) (b : Bucket) (caller : String) :
    (registered? route "" b).map (·.behind caller) = registered? route caller b := by
  unfold registered?
  cases route with
  | none =>
    simp only
    split <;> simp [chargePlain_behind]
  | some r =>
    simp only
    split
    · rfl
    · split
      · simp [chargeUnder_behind]
      · split <;> simp [chargePlain_behind]

theorem standalone?_behind (p : ThrottlePlan) (r : RouteLimits) (rule : LimitRule)
    (caller : String) :
    (p.standalone? r "" rule).map (·.behind caller) = p.standalone? r caller rule := by
  unfold standalone?
  split
  · rfl
  · split <;> simp [chargeUnder_behind]

/-- The caller of a request stands at the end of its keys and changes nothing else. -/
theorem charges_eq_map (p : ThrottlePlan) (q : Request) (caller : String) :
    p.charges q caller = (p.charges q "").map (·.behind caller) := by
  simp only [charges]
  rw [List.map_append, List.map_filterMap]
  simp only [registered?_behind]
  cases p.routes.find? (·.covers q) with
  | none => rfl
  | some r =>
    simp only
    rw [List.map_filterMap]
    simp only [standalone?_behind]

theorem mem_charges_iff {q : Request} {caller : String} {c : Charge} :
    c ∈ p.charges q caller ↔ ∃ f ∈ p.charges q "", f.behind caller = c := by
  rw [charges_eq_map p q caller, List.mem_map]

/-- A charge on a registered bucket as it is. -/
def IsWhole (p : ThrottlePlan) (caller : String) (c : Charge) : Prop :=
  ∃ b ∈ p.buckets, c.key = b.counterKey caller ∧ c.bucket.quota.SameBudget b.quota

/-- A charge under a rule with a window of its own. What the rule leaves out comes from the bucket
that it names; if that is not registered, the rule leaves out neither limit nor window. -/
def IsOwn (p : ThrottlePlan) (caller : String) (c : Charge) : Prop :=
  ∃ r ∈ p.routes, ∃ rule ∈ r.rules, ∃ b : Bucket, b.name = rule.name ∧
    c.key = b.counterKey (r.source ++ ":" ++ caller) ∧ c.bucket.quota = rule.override b.quota ∧
      (b ∈ p.buckets ∨ rule.limit.isSome = true ∧ rule.window.isSome = true)

section Charged

variable {caller : String} {c : Charge}

theorem isWhole_chargePlain {b : Bucket} (mem : b ∈ p.buckets) :
    p.IsWhole caller (chargePlain b caller) :=
  ⟨b, mem, rfl, rfl, rfl⟩

theorem isWhole_or_isOwn_chargeUnder {r : RouteLimits} {rule : LimitRule} {b : Bucket}
    (mem : b ∈ p.buckets) (inRoutes : r ∈ p.routes) (inRules : rule ∈ r.rules)
    (named : rule.name = b.name) :
    p.IsWhole caller (chargeUnder b r.source rule caller) ∨
      p.IsOwn caller (chargeUnder b r.source rule caller) := by
  by_cases own : rule.isOwnWindow = true
  · right
    refine ⟨r, inRoutes, rule, inRules, b, named.symm, ?_, rfl, .inl mem⟩
    simp [chargeUnder, own, Bucket.counterKey, String.append_assoc]
  · left
    refine ⟨b, mem, ?_, ?_⟩
    · simp [chargeUnder, own, Bucket.counterKey]
    · have bare : rule.limit = none ∧ rule.window = none := by
        simpa [LimitRule.isOwnWindow] using own
      simp [chargeUnder, LimitRule.override, Quota.SameBudget, bare]

theorem isOwn_standalone? {r : RouteLimits} {rule : LimitRule} (inRoutes : r ∈ p.routes)
    (inRules : rule ∈ r.rules) (h : p.standalone? r caller rule = some c) : p.IsOwn caller c := by
  unfold standalone? at h
  split at h
  · cases h
  · split at h
    · next limit window hasLimit hasWindow =>
      cases h
      refine ⟨r, inRoutes, rule, inRules, ⟨rule.name, ⟨limit, window, none⟩⟩, rfl, ?_, rfl,
        .inr ⟨by simp [hasLimit], by simp [hasWindow]⟩⟩
      simp [chargeUnder, LimitRule.isOwnWindow, hasLimit, Bucket.counterKey, String.append_assoc]
    · cases h

theorem isWhole_or_isOwn {q : Request} (h : c ∈ p.charges q caller) :
    p.IsWhole caller c ∨ p.IsOwn caller c := by
  have inRoutes {r : RouteLimits} (found : p.routes.find? (·.covers q) = some r) : r ∈ p.routes :=
    List.mem_of_find?_eq_some found
  obtain ⟨b, mem, charged⟩ | ⟨r, found, rule, mem, charged⟩ := mem_charges_cases h
  · obtain rfl | ⟨r, found, rule, inside, named, rfl⟩ := registered?_cases charged
    · exact .inl (isWhole_chargePlain mem)
    · exact isWhole_or_isOwn_chargeUnder mem (inRoutes found) inside named
  · exact .inr (isOwn_standalone? (inRoutes found) mem charged)

end Charged

/-- No two charges on one counter differ in their limits or windows, whatever the requests and the
callers. -/
def OneBudget (p : ThrottlePlan) : Prop :=
  ∀ (q₁ q₂ : Request) (a b : Caller), ∀ c₁ ∈ p.charges q₁ a.key, ∀ c₂ ∈ p.charges q₂ b.key,
    c₁.key = c₂.key → c₁.bucket.quota.SameBudget c₂.bucket.quota

/-- What stands in front of callers under different limits or windows does not meet. -/
def FrontsApart (p : ThrottlePlan) : Prop :=
  ∀ q₁ q₂ : Request, ∀ c₁ ∈ p.charges q₁ "", ∀ c₂ ∈ p.charges q₂ "",
    Meets c₁.key c₂.key → c₁.bucket.quota.SameBudget c₂.bucket.quota

theorem endsInColon_of_charge {q : Request} {c : Charge} (h : c ∈ p.charges q "") :
    EndsInColon c.key := by
  obtain ⟨b, -, key, -⟩ | ⟨r, -, rule, -, b, -, key, -⟩ := isWhole_or_isOwn h
  · rw [key, Bucket.counterKey, String.append_empty]
    exact endsInColon_append b.name
  · rw [key, Bucket.counterKey, String.append_empty, ← String.append_assoc]
    exact endsInColon_append _

theorem oneBudget_iff_frontsApart : p.OneBudget ↔ p.FrontsApart := by
  constructor
  · intro one q₁ q₂ f₁ h₁ f₂ h₂ meets
    obtain ⟨a, b, same⟩ := (meets_iff_exists_callers (endsInColon_of_charge h₁)
      (endsInColon_of_charge h₂)).mp meets
    exact one q₁ q₂ a b (f₁.behind a.key) (mem_charges_iff.mpr ⟨f₁, h₁, rfl⟩) (f₂.behind b.key)
      (mem_charges_iff.mpr ⟨f₂, h₂, rfl⟩) same
  · intro apart q₁ q₂ a b c₁ h₁ c₂ h₂ same
    obtain ⟨f₁, front₁, rfl⟩ := mem_charges_iff.mp h₁
    obtain ⟨f₂, front₂, rfl⟩ := mem_charges_iff.mp h₂
    exact apart q₁ q₂ f₁ front₁ f₂ front₂ ((meets_iff_exists_callers (endsInColon_of_charge front₁)
      (endsInColon_of_charge front₂)).mpr ⟨a, b, same⟩)

/-- A plan of the usual kind: names stand once and have no colon, patterns start at the root, and
no pattern stands twice or has a caller's mark as a part of its path. -/
structure IsSetApart (p : ThrottlePlan) : Prop where
  bucketNames : (p.buckets.map (·.name)).Nodup
  plain : ∀ b ∈ p.buckets, b.IsPlain
  ruleNames : ∀ r ∈ p.routes, (r.rules.map (·.name)).Nodup
  plainRules : ∀ r ∈ p.routes, ∀ rule ∈ r.rules, ':' ∉ rule.name.toList
  sources : (p.routes.map (·.source)).Nodup
  rooted : ∀ r ∈ p.routes, r.source.toList.head? = some '/'
  unmarked : ∀ r ∈ p.routes, ∀ mark ∈ Caller.marks,
    ¬ (':' :: mark.toList) <:+: r.source.toList ++ [':']

theorem IsSetApart.source_eq (h : p.IsSetApart) {r s : RouteLimits} (hr : r ∈ p.routes)
    (hs : s ∈ p.routes) {a b : Caller}
    (same : r.source ++ ":" ++ a.key = s.source ++ ":" ++ b.key) : r.source = s.source := by
  have apart {r s : RouteLimits} (hs : s ∈ p.routes) :
      ¬ RunsInto (r.source ++ ":") (s.source ++ ":") := by
    rintro ⟨mark, mem, more, longer⟩
    have chars : s.source.toList ++ [':'] =
        r.source.toList ++ (':' :: mark.toList) ++ more.toList := by
      simpa using congrArg String.toList longer
    exact h.unmarked s hs mark mem ⟨r.source.toList, more.toList, chars.symm⟩
  obtain same | into | into := (meets_iff_exists_callers (endsInColon_append r.source)
    (endsInColon_append s.source)).mpr ⟨a, b, same⟩
  · apply String.toList_injective
    simpa using congrArg String.toList same
  · exact absurd into (apart hs)
  · exact absurd into (apart hr)

/-- A path from the root is not taken for a caller. -/
theorem key_ne_of_rooted (c : Caller) {source rest : String}
    (rooted : source.toList.head? = some '/') : c.key ≠ source ++ rest := by
  intro same
  obtain ⟨mark, mem, id, key⟩ := Caller.exists_key_iff.mp ⟨c, rfl⟩
  have heads : (mark.toList ++ id.toList).head? = (source.toList ++ rest.toList).head? := by
    have chars := congrArg (fun k => k.toList.head?) (key.symm.trans same)
    simpa using chars
  rw [List.head?_append, List.head?_append, rooted, Option.some_or] at heads
  simp only [Caller.marks, List.mem_cons, List.not_mem_nil, or_false] at mem
  obtain rfl | rfl := mem
  · exact absurd heads (by simp)
  · exact absurd heads (by simp)

theorem IsSetApart.plain_of_named (h : p.IsSetApart) {r : RouteLimits} {rule : LimitRule}
    {b : Bucket} (hr : r ∈ p.routes) (inside : rule ∈ r.rules) (named : b.name = rule.name) :
    b.IsPlain := by
  rw [Bucket.IsPlain, named]
  exact h.plainRules r hr rule inside

theorem IsSetApart.oneBudget (h : p.IsSetApart) : p.OneBudget := by
  intro q₁ q₂ x y c₁ h₁ c₂ h₂ same
  obtain ⟨a, ha, keyA, budgetA⟩ | ⟨r, hr, rule, inR, a, nameA, keyA, quotaA, knownA⟩ :=
      isWhole_or_isOwn h₁ <;>
    obtain ⟨b, hb, keyB, budgetB⟩ | ⟨s, hs, rule', inS, b, nameB, keyB, quotaB, knownB⟩ :=
      isWhole_or_isOwn h₂ <;>
    rw [keyA, keyB] at same
  · obtain ⟨names, -⟩ := Bucket.counterKey_inj (h.plain a ha) (h.plain b hb) same
    obtain rfl := List.inj_on_of_nodup_map h.bucketNames ha hb names
    exact ⟨budgetA.1.trans budgetB.1.symm, budgetA.2.trans budgetB.2.symm⟩
  · obtain ⟨-, rest⟩ :=
      Bucket.counterKey_inj (h.plain a ha) (h.plain_of_named hs inS nameB) same
    rw [String.append_assoc] at rest
    exact absurd rest (key_ne_of_rooted x (h.rooted s hs))
  · obtain ⟨-, rest⟩ :=
      Bucket.counterKey_inj (h.plain_of_named hr inR nameA) (h.plain b hb) same
    rw [String.append_assoc] at rest
    exact absurd rest.symm (key_ne_of_rooted y (h.rooted r hr))
  · obtain ⟨names, rest⟩ :=
      Bucket.counterKey_inj (h.plain_of_named hr inR nameA) (h.plain_of_named hs inS nameB) same
    obtain rfl := List.inj_on_of_nodup_map h.sources hr hs (h.source_eq hr hs rest)
    obtain rfl := List.inj_on_of_nodup_map (h.ruleNames r hr) inR inS
      (nameA.symm.trans (names.trans nameB))
    rw [quotaA, quotaB]
    obtain ha | ⟨limit, window⟩ := knownA
    · obtain hb | ⟨limit, window⟩ := knownB
      · obtain rfl := List.inj_on_of_nodup_map h.bucketNames ha hb names
        exact ⟨rfl, rfl⟩
      · exact LimitRule.sameBudget_override limit window a.quota b.quota
    · exact LimitRule.sameBudget_override limit window a.quota b.quota

end ThrottlePlan

namespace Counters

/-- A hit with this limit and window, or a cleanup. -/
def Event.isUnder (q : Quota) : Event → Bool
  | .hit _ _ r => decide (r.SameBudget q)
  | .cleanup _ => true

/-- Where all hits on a key have one limit and window, its history is not touched by hits that have
others. -/
theorem history_filter_isUnder {key : String} {q : Quota} {es : List Event} {cs ds : Counters}
    (hc : cs.Ordered) (hd : ds.Ordered) (same : cs.get? key = ds.get? key)
    (one : ∀ now r, .hit now key r ∈ es → r.SameBudget q) :
    history key es cs = history key (es.filter (·.isUnder q)) ds := by
  induction es generalizing cs ds with
  | nil => rfl
  | cons e es ih =>
    have one_later : ∀ now r, .hit now key r ∈ es → r.SameBudget q :=
      fun now r mem => one now r (List.mem_cons_of_mem e mem)
    cases e with
    | cleanup now =>
      have kept : (Event.cleanup now).isUnder q = true := rfl
      have same' : (cs.cleanup now).get? key = (ds.cleanup now).get? key := by
        rw [get?_cleanup hc, get?_cleanup hd, same]
      rw [List.filter_cons_of_pos kept]
      exact ih (hc.cleanup now) (hd.cleanup now) same' one_later
    | hit now k r =>
      by_cases own : k = key
      · subst own
        have kept : (Event.hit now k r).isUnder q = true :=
          decide_eq_true (one now r List.mem_cons_self)
        obtain ⟨result, later⟩ := hit_congr same now r
        have rest := ih (hc.hit now k r) (hd.hit now k r) (later k same) one_later
        rw [List.filter_cons_of_pos kept]
        simp only [history, if_pos, strike, Event.after, same, result, rest]
      · have skip (fs : List Event) (ts : Counters) : history key (.hit now k r :: fs) ts =
            history key fs (Counters.hit now k r ts).2 := by
          simp only [history, if_neg own, Event.after]
        have before : (Counters.hit now k r cs).2.get? key = ds.get? key :=
          (get?_hit_of_ne own).trans same
        rw [skip]
        by_cases kept : (Event.hit now k r).isUnder q = true
        · rw [List.filter_cons_of_pos kept, skip]
          exact ih (hc.hit now k r) (hd.hit now k r) (before.trans (get?_hit_of_ne own).symm)
            one_later
        · rw [List.filter_cons_of_neg kept]
          exact ih (hc.hit now k r) hd before one_later

end Counters

namespace ThrottlePlan

variable {p : ThrottlePlan}

/-- All hits of the run are made for charges of the plan, on whatever requests and callers. -/
def Makes (p : ThrottlePlan) (es : List Counters.Event) : Prop :=
  ∀ now key quota, .hit now key quota ∈ es →
    ∃ (q : Request) (a : Caller), ∃ c ∈ p.charges q a.key, c.key = key ∧ c.bucket.quota = quota

/-- No counter is charged under two limits or windows exactly if what stands in front of callers
under different ones does not meet. It is so in plans in which names and patterns stand once; and
where it is so, a counter has the history that it has without the hits under other limits and
windows. -/
theorem one_budget_iff_fronts_apart (p : ThrottlePlan) :
    (p.OneBudget ↔ p.FrontsApart) ∧ (p.IsSetApart → p.OneBudget) ∧
    (p.OneBudget → ∀ es, p.Makes es → ∀ (q : Request) (a : Caller), ∀ c ∈ p.charges q a.key,
      Counters.history c.key es .empty =
        Counters.history c.key (es.filter (·.isUnder c.bucket.quota)) .empty) := by
  refine ⟨oneBudget_iff_frontsApart, IsSetApart.oneBudget, ?_⟩
  intro one es made q a c charged
  apply Counters.history_filter_isUnder Counters.ordered_empty Counters.ordered_empty rfl
  intro now r mem
  obtain ⟨q', b, c', charged', key, rfl⟩ := made now c.key r mem
  exact one q' q b a c' charged' c charged key

section Case

def onSubmissions (m : Method) : Request :=
  ⟨⟨m, "/submissions", none, .http11, ⟨[("X-Forwarded-For", "5.5.5.5")]⟩⟩, [], none, []⟩

def submitter : Caller := .address "5.5.5.5"

def perMinute (limit : Nat) : Quota := ⟨limit, 60 * Clock.second, none⟩

/-- The submitter's charge under a rule with a limit of its own. -/
def ofSubmissions (limit : Nat) : Charge :=
  ⟨⟨Bucket.defaultName, perMinute limit⟩, "default:/submissions:ip:5.5.5.5"⟩

/-- One pattern with a limit for each of two methods. -/
def perMethod : ThrottlePlan where
  default := ⟨Bucket.defaultName, perMinute 100⟩
  routes :=
    [{ method := some .get, source := "/submissions",
       rules := [{ name := Bucket.defaultName, limit := some 2 }] },
      { method := some .post, source := "/submissions",
        rules := [{ name := Bucket.defaultName, limit := some 1 }] }]

/-- The stage of the plan, at one instant and in front of a handler that agrees to everything. -/
def perMethodStage : Handler Counters :=
  Stage.throttle perMethod (.memory (fun _ => 0) .whole) (.ofVerifier Token.disabled) fun _ =>
    pure (Response.ofText .ok "")

/-- A request of one method uses up what is for the other one: both are charged on one counter, the
first under a limit of two and the second, which is refused for the first, under a limit of one. -/
theorem one_pattern_has_two_budgets :
    (perMethod.buckets.map (·.name)).Nodup ∧ ¬ perMethod.OneBudget ∧
    perMethod.charges (onSubmissions .get) submitter.key = [ofSubmissions 2] ∧
    perMethod.charges (onSubmissions .post) submitter.key = [ofSubmissions 1] ∧
    let answer (m : Method) (cs : Counters) : Except ClockOverflow Status :=
      (perMethodStage (.ofRequest (onSubmissions m)) cs).1.map (·.status)
    answer .post .empty = .ok .ok ∧
    answer .post (perMethodStage (.ofRequest (onSubmissions .get)) .empty).2 =
      .ok .tooManyRequests := by
  have get : perMethod.charges (onSubmissions .get) submitter.key = [ofSubmissions 2] := by
    decide +kernel
  have post : perMethod.charges (onSubmissions .post) submitter.key = [ofSubmissions 1] := by
    decide +kernel
  have budgets : ¬ perMethod.OneBudget := by
    intro one
    have same : (perMinute 2).SameBudget (perMinute 1) :=
      one (onSubmissions .get) (onSubmissions .post) submitter submitter
        (ofSubmissions 2) (get ▸ List.mem_singleton_self _)
        (ofSubmissions 1) (post ▸ List.mem_singleton_self _) rfl
    exact absurd same (by decide)
  exact ⟨by decide +kernel, budgets, get, post, by decide +kernel, by decide +kernel⟩

/-- A pattern with a limit for one method, and another that is charged on nothing. -/
def perPattern : ThrottlePlan where
  default := ⟨Bucket.defaultName, perMinute 100⟩
  routes :=
    [{ method := some .post, source := "/submissions",
       rules := [{ name := Bucket.defaultName, limit := some 1 }] },
      { method := none, source := "/health", skipped := [Bucket.defaultName] }]

theorem isSetApart_perPattern : perPattern.IsSetApart where
  bucketNames := by decide +kernel
  plain := by unfold Bucket.IsPlain; decide +kernel
  ruleNames := by decide +kernel
  plainRules := by decide +kernel
  sources := by decide +kernel
  rooted := by decide +kernel
  unmarked := by decide +kernel

/-- What is submitted is counted as if nothing were asked for. -/
theorem submissions_have_one_budget :
    let es : List Counters.Event :=
      [.hit 0 "default:ip:5.5.5.5" (perMinute 100), .hit 1 (ofSubmissions 1).key (perMinute 1),
        .hit 2 "default:ip:5.5.5.5" (perMinute 100), .hit 3 (ofSubmissions 1).key (perMinute 1)]
    (perPattern.OneBudget ↔ perPattern.FrontsApart) ∧ perPattern.IsSetApart ∧
    perPattern.OneBudget ∧ perPattern.Makes es ∧
    ofSubmissions 1 ∈ perPattern.charges (onSubmissions .post) submitter.key ∧
    Counters.history (ofSubmissions 1).key es .empty =
      Counters.history (ofSubmissions 1).key (es.filter (·.isUnder (perMinute 1))) .empty ∧
    es.filter (·.isUnder (perMinute 1)) =
      [.hit 1 (ofSubmissions 1).key (perMinute 1), .hit 3 (ofSubmissions 1).key (perMinute 1)] := by
  intro es
  have post : ofSubmissions 1 ∈ perPattern.charges (onSubmissions .post) submitter.key := by
    decide +kernel
  have get : (⟨perPattern.default, "default:ip:5.5.5.5"⟩ : Charge) ∈
      perPattern.charges (onSubmissions .get) submitter.key := by
    decide +kernel
  have made : perPattern.Makes es := by
    intro now key quota mem
    simp only [es, List.mem_cons, Counters.Event.hit.injEq, List.not_mem_nil, or_false] at mem
    obtain ⟨-, rfl, rfl⟩ | ⟨-, rfl, rfl⟩ | ⟨-, rfl, rfl⟩ | ⟨-, rfl, rfl⟩ := mem
    · exact ⟨_, submitter, _, get, rfl, rfl⟩
    · exact ⟨_, submitter, _, post, rfl, rfl⟩
    · exact ⟨_, submitter, _, get, rfl, rfl⟩
    · exact ⟨_, submitter, _, post, rfl, rfl⟩
  obtain ⟨exactly, usual, history⟩ := one_budget_iff_fronts_apart perPattern
  have one : perPattern.OneBudget := usual isSetApart_perPattern
  exact ⟨exactly, isSetApart_perPattern, one, made, post, history one es made _ submitter _ post,
    by decide +kernel⟩

end Case

end ThrottlePlan

end Turnstile
