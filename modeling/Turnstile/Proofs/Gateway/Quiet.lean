import Turnstile.Proofs.Gateway.Replies
import Turnstile.Proofs.Run

namespace Turnstile

/-- The names of the fields that tell a caller when to come again. -/
def isRetryName (name : String) : Bool := "Retry-After".toList.isPrefixOf name.toList

/-- The names of the fields that tell a caller of a counter. -/
def isBudgetName (name : String) : Bool :=
  "X-RateLimit-".toList.isPrefixOf name.toList || isRetryName name

namespace Response

/-- The response tells nothing of a counter. -/
def IsSilent (r : Response) : Prop := ∀ f ∈ r.headers.entries, isBudgetName f.1 = false

theorem isSilent_addHeaders {r : Response} (h : r.IsSilent) {more : List (String × String)}
    (silent : ∀ f ∈ more, isBudgetName f.1 = false) : (r.addHeaders more).IsSilent := by
  intro f mem
  obtain mem | mem := List.mem_append.mp mem
  · exact h f mem
  · exact silent f mem

theorem isSilent_addHeader {r : Response} (h : r.IsSilent) {name : String} (value : String)
    (silent : isBudgetName name = false) : (r.addHeader name value).IsSilent :=
  isSilent_addHeaders h fun f mem => by
    obtain rfl : f = (name, value) := by simpa using mem
    exact silent

theorem isSilent_of_empty {r : Response} (h : r.headers = .empty) : r.IsSilent := by
  intro f mem
  rw [h] at mem
  cases mem

theorem isSilent_ofJson (s : Status) (v : Json.Value) : (ofJson s v).IsSilent :=
  isSilent_addHeader (isSilent_of_empty rfl) "application/json" rfl

end Response

namespace Gateway

/-- Clock and counters are as they were. -/
def Memory.Unmoved (m n : Memory) : Prop := n.now = m.now ∧ n.counters = m.counters

theorem Memory.Unmoved.trans {l m n : Memory} (h : l.Unmoved m) (h' : m.Unmoved n) :
    l.Unmoved n :=
  ⟨h'.1.trans h.1, h'.2.trans h.2⟩

/-- The handler always answers, says nothing of a counter and touches none. -/
def Quiet (h : Handler Memory) : Prop :=
  ∀ x m, (h x).Ends m fun r n => r.IsSilent ∧ m.Unmoved n

section Cache

variable (ttl : Nat) (m : Memory)

theorem peek_unmoved {α : Type} (read : List UInt8 → Option α) (key : String) :
    ((Memory.cache ttl).peek read key).Ends m fun _ n => m.Unmoved n := 
  ⟨_, _, rfl, rfl, rfl⟩

theorem stats_unmoved (key : String) :
    ((Memory.cache ttl).stats key).Ends m fun _ n => m.Unmoved n := ⟨_, _, rfl, rfl, rfl⟩

theorem allStats_unmoved : (Memory.cache ttl).allStats.Ends m fun _ n => m.Unmoved n :=
  ⟨_, _, rfl, rfl, rfl⟩

theorem resetStats_unmoved : (Memory.cache ttl).resetStats.Ends m fun _ n => m.Unmoved n :=
  ⟨_, _, rfl, rfl, rfl⟩

theorem clear_unmoved : (Memory.cache ttl).clear.Ends m fun _ n => m.Unmoved n :=
  ⟨_, _, rfl, rfl, rfl⟩

theorem deleteMany_unmoved (keys : List String) :
    ((Memory.cache ttl).deleteMany keys).Ends m fun r n => (∃ k, r = .ok k) ∧ m.Unmoved n := by
  induction keys generalizing m with
  | nil => exact Run.ends_pure ⟨⟨0, rfl⟩, rfl, rfl⟩
  | cons key keys ih =>
    obtain ⟨removed, n, first, unmoved⟩ :
        ((Memory.cache ttl).store.delete key).Ends m fun r n => (∃ b, r = .ok b) ∧ m.Unmoved n :=
      ⟨_, _, rfl, ⟨_, rfl⟩, rfl, rfl⟩
    obtain ⟨⟨b, rfl⟩, unmoved⟩ := unmoved
    refine Run.Ends.bind ⟨_, n, first, ?_⟩
    refine ((ih n).mono ?_).bind
    rintro _ u ⟨⟨k, rfl⟩, unmoved'⟩
    exact Run.ends_pure ⟨⟨_, rfl⟩, unmoved.trans unmoved'⟩

theorem deletePrefix_unmoved (start : String) :
    ((Memory.cache ttl).deletePrefix start).Ends m fun _ n => m.Unmoved n := by
  refine Run.Ends.bind ⟨_, m, rfl, ?_⟩
  refine ((deleteMany_unmoved ttl m _).mono ?_).bind
  rintro _ n ⟨⟨k, rfl⟩, unmoved⟩
  exact Run.ends_pure unmoved

end Cache

section Routes

variable (ttl : Nat) (o : Occasion)

/-- Every route always gives a JSON answer, and touches no counter. -/
theorem service_answersJson (e : Endpoint) (x : Exchange) (m : Memory) :
    (e.service (Memory.cache ttl) o x).Ends m fun r n =>
      (∃ s v, r = Response.ofJson s v) ∧ m.Unmoved n := by
  have json {n : Memory} (unmoved : m.Unmoved n) (s : Status) (v : Json.Value) :
      (pure (Response.ofJson s v) : Run Memory Response).Ends n fun r n =>
        (∃ s v, r = Response.ofJson s v) ∧ m.Unmoved n :=
    Run.ends_pure ⟨⟨s, v, rfl⟩, unmoved⟩
  cases e with
  | health => exact json ⟨rfl, rfl⟩ _ _
  | cacheStats =>
    simp only [Endpoint.service, Api.cacheStats]
    split
    · next key _ =>
      refine ((stats_unmoved ttl m key).mono ?_).bind
      exact fun _ _ unmoved => json unmoved _ _
    · refine ((allStats_unmoved ttl m).mono ?_).bind
      exact fun _ _ unmoved => json unmoved _ _
  | clearCache =>
    refine ((clear_unmoved ttl m).mono ?_).bind
    rintro (_ | _) n unmoved <;> exact json unmoved _ _
  | clearPattern =>
    simp only [Endpoint.service, Api.clearPattern]
    split
    · exact json ⟨rfl, rfl⟩ _ _
    · next pattern _ =>
      refine ((deletePrefix_unmoved ttl m pattern).mono ?_).bind
      exact fun _ _ unmoved => json unmoved _ _
  | resetStats =>
    refine ((resetStats_unmoved ttl m).mono ?_).bind
    exact fun _ _ unmoved => json unmoved _ _
  | submissions | challenge =>
    simp only [Endpoint.service, Api.submitProof, Api.issueChallenge, Api.accepting]
    split <;> exact json ⟨rfl, rfl⟩ _ _

theorem isSilent_hit (c : CapturedResponse) : (ResponseCache.hit c).IsSilent := by
  refine Response.isSilent_addHeader ?_ "HIT" (by decide +kernel)
  unfold CapturedResponse.replay
  cases c.contentType with
  | none => exact Response.isSilent_of_empty rfl
  | some t =>
    exact Response.isSilent_addHeader (Response.isSilent_of_empty rfl) t (by decide +kernel)

/-- The cache in front of the routes is as quiet as they are: no answer is ever put into it. -/
theorem quiet_behind (s : Settings) (o : Occasion) : Quiet (behind s o) := by
  intro x m
  have reply := reply s o x
  generalize behind s o x = y at reply
  cases reply with
  | sought =>
    refine ((peek_unmoved s.cacheTtl m _ _).mono ?_).bind
    intro found n unmoved
    refine Run.ends_pure ⟨?_, unmoved⟩
    rcases found with _ | _ | c
    · exact Response.isSilent_ofJson _ _
    · exact Response.isSilent_ofJson _ _
    · exact isSilent_hit c
  | lost => exact Run.ends_pure ⟨Response.isSilent_ofJson _ _, rfl, rfl⟩
  | turnedAway =>
    obtain ⟨status, value, json⟩ := Audience.turnedAway_eq_ofJson x.principal
    rw [json]
    exact Run.ends_pure ⟨Response.isSilent_ofJson _ _, rfl, rfl⟩
  | served =>
    refine (service_answersJson _ o _ _ m).mono ?_
    rintro _ n ⟨⟨status, value, rfl⟩, unmoved⟩
    exact ⟨Response.isSilent_ofJson status value, unmoved⟩

end Routes

end Gateway

end Turnstile
