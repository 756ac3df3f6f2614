import Turnstile.Proofs.Cache.Entries
import Turnstile.Proofs.Gateway.Budget
import Turnstile.Proofs.Gateway.Course

/-!
What requests do to the cache of a gateway. Those of administrators may empty it, all others change
nothing that it shows, and none puts anything into it; so an answer never comes out of a cache that
was empty at first. Each is said of one route after the other and then of a request by its course.
-/

namespace Turnstile

namespace Gateway

/-- What the cache shows from now on is the same, and so are its lookups. -/
structure Memory.Spares (m n : Memory) : Prop where
  entries : ∀ key t, m.now ≤ t → n.entries.live? t key = m.entries.live? t key
  lookups : n.lookups = m.lookups

/-- Nothing is seen in the cache, at any time, that was not to be seen there before. -/
def Memory.Narrows (m n : Memory) : Prop :=
  ∀ key t e, n.entries.live? t key = some e → m.entries.live? t key = some e

theorem Memory.Spares.refl (m : Memory) : m.Spares m := ⟨fun _ _ _ => rfl, rfl⟩

theorem Memory.Narrows.refl (m : Memory) : m.Narrows m := fun _ _ _ seen => seen

theorem Memory.Narrows.trans {l m n : Memory} (h : l.Narrows m) (h' : m.Narrows n) :
    l.Narrows n :=
  fun key t e seen => h key t e (h' key t e seen)

/-- The computation puts nothing into the cache, however it goes. -/
def Narrowing {α : Type} (x : Run Memory α) : Prop := ∀ m : Memory, m.Narrows (x m).2

section Computations

variable {α β : Type}

theorem narrowing_pure (a : α) : Narrowing (pure a) := fun m => Memory.Narrows.refl m

theorem Narrowing.bind {x : Run Memory α} {f : α → Run Memory β} (hx : Narrowing x)
    (hf : ∀ a, Narrowing (f a)) : Narrowing (x >>= f) := by
  intro m
  have first := hx m
  rw [Run.bind_apply]
  rcases came : x m with ⟨e | a, n⟩
  · rwa [came] at first
  · rw [came] at first
    exact first.trans (hf a n)

end Computations

section Cache

variable (ttl : Nat)

theorem narrowing_delete (key : String) : Narrowing ((Memory.cache ttl).store.delete key) := by
  intro m k t e seen
  have dropped : (⟨Keyed.erase key m.entries.table⟩ : Entries).live? t k = some e := seen
  rw [Entries.live?_erase, Option.ite_none_left_eq_some] at dropped
  exact dropped.2

theorem narrowing_deleteMany (keys : List String) :
    Narrowing ((Memory.cache ttl).deleteMany keys) := by
  induction keys with
  | nil => exact narrowing_pure _
  | cons key keys ih =>
    refine (narrowing_delete ttl key).bind fun removed => ?_
    cases removed with
    | error e => exact narrowing_pure _
    | ok b =>
      refine ih.bind fun count => ?_
      cases count <;> exact narrowing_pure _

theorem narrowing_deletePrefix (start : String) :
    Narrowing ((Memory.cache ttl).deletePrefix start) := by
  refine Narrowing.bind (fun m => Memory.Narrows.refl m) fun found => ?_
  cases found with
  | error e => exact narrowing_pure _
  | ok keys =>
    refine (narrowing_deleteMany ttl _).bind fun count => ?_
    cases count <;> exact narrowing_pure _

theorem narrowing_clear : Narrowing (Memory.cache ttl).clear := by
  intro m key t e seen
  cases seen

theorem peek_inMemory {α : Type} (read : List UInt8 → Option α) (key : String) (m : Memory) :
    (Memory.cache ttl).peek read key m =
      (.ok (Cache.decode read ((m.entries.live? m.now key).map (·.value))),
        { m with entries := (m.entries.get m.now key).2 }) := by
  rw [← Entries.get_fst]
  rfl

end Cache

section Routes

variable (ttl : Nat) (o : Occasion) (x : Exchange)

/-- Only routes for administrators change the memory. -/
theorem keeps_service {e : Endpoint} (others : e.audience ≠ .admins) :
    Run.Keeps (fun m : Memory => m) (e.service (Memory.cache ttl) o x) := by
  cases e with
  | health => exact Run.keeps_pure _ _
  | cacheStats =>
    simp only [Endpoint.service, Api.cacheStats]
    split
    · exact Run.Keeps.bind (fun _ => rfl) fun _ => Run.keeps_pure _ _
    · exact Run.Keeps.bind (fun _ => rfl) fun _ => Run.keeps_pure _ _
  | clearCache | clearPattern | resetStats => exact absurd rfl others
  | submissions | challenge =>
    simp only [Endpoint.service, Api.submitProof, Api.issueChallenge, Api.accepting]
    split <;> exact Run.keeps_pure _ _

theorem narrowing_service (e : Endpoint) : Narrowing (e.service (Memory.cache ttl) o x) := by
  by_cases admins : e.audience = .admins
  · cases e with
    | health | cacheStats | submissions | challenge => cases admins
    | clearCache =>
      refine (narrowing_clear ttl).bind fun cleared => ?_
      cases cleared <;> exact narrowing_pure _
    | clearPattern =>
      simp only [Endpoint.service, Api.clearPattern]
      split
      · exact narrowing_pure _
      · exact (narrowing_deletePrefix ttl _).bind fun _ => narrowing_pure _
    | resetStats => exact Narrowing.bind (fun m => Memory.Narrows.refl m) fun _ => narrowing_pure _
  · intro m
    have same : (e.service (Memory.cache ttl) o x m).2 = m := keeps_service ttl o x admins m
    rw [same]
    exact Memory.Narrows.refl m

end Routes

section Replies

variable {s : Settings} {o : Occasion} {x : Exchange} {y : Run Memory Response}

theorem spares_of_reply (h : Reply s o x y)
    (others : ∀ p, x.principal = some p → p.isAdmin = false) (m : Memory) : m.Spares (y m).2 := by
  cases h with
  | sought =>
    rw [Run.bind_of_ok (peek_inMemory _ _ _ m)]
    exact ⟨fun key t later => Entries.live?_get later, rfl⟩
  | lost | turnedAway => exact .refl m
  | @served e taken admitted =>
    have forOthers : e.audience ≠ .admins := by
      intro admins
      rw [admins, Audience.admits_admins others] at admitted
      cases admitted
    have same : (e.service (Memory.cache s.cacheTtl) o { x with params := [] } m).2 = m :=
      keeps_service s.cacheTtl o _ forOthers m
    rw [same]
    exact .refl m

theorem narrowing_of_reply (h : Reply s o x y) : Narrowing y := by
  cases h with
  | sought =>
    intro m
    rw [Run.bind_of_ok (peek_inMemory _ _ _ m)]
    exact fun key t e seen => Entries.live?_of_get seen
  | lost | turnedAway => exact narrowing_pure _
  | served => exact narrowing_service _ _ _ _

/-- While the cache shows nothing, no answer comes out of it. -/
theorem isMarked_of_reply (h : Reply s o x y) {m n : Memory} {r : Response}
    (bare : ∀ key, m.entries.live? m.now key = none) (came : y m = (.ok r, n)) :
    r.isMarked = false := by
  cases h with
  | sought =>
    rw [Run.bind_of_ok (peek_inMemory _ _ _ m), bare] at came
    cases came
    exact Response.isMarked_ofJson _ _
  | lost =>
    cases came
    exact Response.isMarked_ofJson _ _
  | turnedAway =>
    obtain ⟨status, value, json⟩ := Audience.turnedAway_eq_ofJson x.principal
    cases came
    rw [json]
    exact Response.isMarked_ofJson status value
  | served =>
    obtain ⟨_, _, given, ⟨status, value, rfl⟩, -⟩ := service_answersJson s.cacheTtl o _ _ m
    rw [given] at came
    cases came
    exact Response.isMarked_ofJson status value

end Replies

section Requests

variable (s : Settings) (v : Token.Verifier) (o : Occasion) (r : Request) (m : Memory)

theorem spares_answer (others : ∀ c, claimsOf v r = some c → c.isAdmin = false) :
    m.Spares ((inMemory s v).answer o r m).2 := by
  have taken := course s v o r m
  generalize (inMemory s v).answer o r m = answered, deeds s v o r m = ds at taken
  cases taken with
  | preflight => exact .refl m
  | refused | late => exact ⟨fun _ _ _ => rfl, rfl⟩
  | @entered passed x request principal after free untouched more plain =>
    rw [Stage.withFields_snd]
    have others := isAdmin_principalOf others
    rw [← principal] at others
    have spared := spares_of_reply (reply s o x) others { m with counters := after }
    exact ⟨spared.entries, spared.lookups⟩

theorem narrows_answer : m.Narrows ((inMemory s v).answer o r m).2 := by
  have taken := course s v o r m
  generalize (inMemory s v).answer o r m = answered, deeds s v o r m = ds at taken
  cases taken with
  | preflight | refused | late => exact fun _ _ _ seen => seen
  | @entered passed x request principal after free untouched more plain =>
    rw [Stage.withFields_snd]
    exact narrowing_of_reply (reply s o x) { m with counters := after }

theorem isMarked_answer {s : Settings} {v : Token.Verifier} {o : Occasion} {r : Request}
    {m n : Memory} {a : Response} (bare : ∀ key, m.entries.live? m.now key = none)
    (came : (inMemory s v).answer o r m = (.ok a, n)) : a.isMarked = false := by
  have taken := course s v o r m
  generalize deeds s v o r m = ds at taken
  rw [came] at taken
  generalize answered : (Except.ok a, n) = pair at taken
  cases taken with
  | preflight =>
    cases answered
    exact CorsPolicy.isMarked_preflight _ _
  | refused passed some first after b h plain =>
    cases answered
    rw [Response.isMarked_addHeaders plain]
    exact Throttle.isMarked_refusal b h
  | late => cases answered
  | @entered passed x request principal after free untouched more plain =>
    obtain ⟨own, given, rfl⟩ := Stage.withFields_eq_ok answered.symm
    rw [Response.isMarked_addHeaders plain]
    exact isMarked_of_reply (m := { m with counters := after }) (reply s o x) bare given

end Requests

/-- The answers to requests one after another, each under its own check of tokens. -/
def answers (s : Settings) :
    List (Token.Verifier × Arrival) → Memory → List (Except ClockOverflow Response)
  | [], _ => []
  | (v, a) :: as, m => (attend s v a m).1 :: answers s as (attend s v a m).2

theorem isMarked_answers {s : Settings} {as : List (Token.Verifier × Arrival)} {m : Memory}
    (bare : ∀ va ∈ as, ∀ key, m.entries.live? va.2.now key = none) :
    ∀ answered ∈ answers s as m, ∀ r, answered = .ok r → r.isMarked = false := by
  induction as generalizing m with
  | nil => exact nofun
  | cons va as ih =>
    obtain ⟨v, a⟩ := va
    obtain ⟨here, later⟩ := List.forall_mem_cons.mp bare
    have narrows : Memory.Narrows { m with now := a.now } (attend s v a m).2 :=
      narrows_answer s v a.occasion a.request { m with now := a.now }
    refine List.forall_mem_cons.mpr ⟨?_, ih ?_⟩
    · intro r came
      have given : attend s v a m = (.ok r, (attend s v a m).2) := by rw [← came]
      exact isMarked_answer (m := { m with now := a.now }) here given
    · -- What would be seen later would have been there from the start.
      intro va mem key
      rw [Option.eq_none_iff_forall_ne_some]
      intro e seen
      have before : m.entries.live? va.2.now key = some e := narrows key va.2.now e seen
      rw [later va mem key] at before
      cases before

/-- Whoever is no administrator changes nothing that the cache shows and none of its lookups, and
nobody's request puts anything into it. So while nothing else does, and the cache shows nothing at
first, no answer has a mark of the cache. -/
theorem cache_left_to_administrators (s : Settings) :
    (∀ (v : Token.Verifier) (o : Occasion) (r : Request) (m : Memory),
      ((∀ c, claimsOf v r = some c → c.isAdmin = false) →
        m.Spares ((inMemory s v).answer o r m).2) ∧
      m.Narrows ((inMemory s v).answer o r m).2) ∧
    ∀ (as : List (Token.Verifier × Arrival)) (m : Memory),
      (∀ va ∈ as, ∀ key, m.entries.live? va.2.now key = none) →
      ∀ answered ∈ answers s as m, ∀ r, answered = .ok r →
        r.headers.contains "X-Cache" = false := by
  constructor
  · intro v o r m
    exact ⟨spares_answer s v o r m, narrows_answer s v o r m⟩
  · intro as m bare
    exact isMarked_answers bare

section Case

/-- Accepts the token `root` as an administrator's and the token `7` as any other. -/
def acceptsRoot : Token.Verifier := fun token =>
  if token = "root" then .ok ⟨some "0", none, some .admin, 0⟩ else acceptsSeven token

def clearing (token : String) : Arrival where
  now := 1
  occasion := ⟨0, ""⟩
  request :=
    ⟨⟨.delete, "/cache/clear", none, .http11, ⟨[("Authorization", "Bearer " ++ token)]⟩⟩, [], none,
      []⟩

/-- Something that is kept for a minute. -/
def holding : Memory := { Memory.empty with entries := ⟨[("7:/quests", ⟨[], 60 * Clock.second⟩)]⟩ }

/-- A user's request to clear the cache clears nothing, an administrator's does. -/
theorem cache_cleared_by_root :
    (∀ c, claimsOf acceptsRoot (clearing "7").request = some c → c.isAdmin = false) ∧
    holding.Spares ((inMemory strict acceptsRoot).answer ⟨0, ""⟩ (clearing "7").request holding).2 ∧
    holding.Narrows
      ((inMemory strict acceptsRoot).answer ⟨0, ""⟩ (clearing "root").request holding).2 ∧
    ((inMemory strict acceptsRoot).answer ⟨0, ""⟩ (clearing "root").request holding).2.entries =
      .empty ∧
    let as := [(acceptsRoot, account 0), (acceptsRoot, clearing "root"), (acceptsSeven, account 2)]
    (∀ va ∈ as, ∀ key, Memory.empty.entries.live? va.2.now key = none) ∧
    ∀ answered ∈ answers strict as .empty, ∀ r, answered = .ok r →
      r.headers.contains "X-Cache" = false := by
  have user : ∀ c, claimsOf acceptsRoot (clearing "7").request = some c → c.isAdmin = false := by
    have claimed : claimsOf acceptsRoot (clearing "7").request = some ⟨some "7", none, none, 0⟩ := by
      decide +kernel
    intro c found
    rw [claimed] at found
    cases found
    rfl
  have nothing : ∀ va ∈ [(acceptsRoot, account 0), (acceptsRoot, clearing "root"),
      (acceptsSeven, account 2)], ∀ key, Memory.empty.entries.live? va.2.now key = none :=
    fun _ _ _ => rfl
  obtain ⟨each, run⟩ := cache_left_to_administrators strict
  refine ⟨user, (each acceptsRoot ⟨0, ""⟩ (clearing "7").request holding).1 user,
    (each acceptsRoot ⟨0, ""⟩ (clearing "root").request holding).2, by decide +kernel, nothing, ?_⟩
  exact run _ _ nothing

end Case

end Gateway

end Turnstile
