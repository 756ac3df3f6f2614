import Turnstile.Proofs.Gateway.Fields
import Turnstile.Proofs.Gateway.Replies

/-!
A watched gateway: the same stages in front of the same routes, with a record of what they do. It
shows which counters are hit, whether the request comes to the cache, and which route serves it.
`records_behind` says that behind the counters the record changes nothing.
-/

namespace Turnstile

inductive Deed where
  /-- A counter is hit. -/
  | charge (key : String)
  /-- The request is handed on to the cache and the routes. -/
  | enter
  /-- A route serves the request while the counters stand so. -/
  | serve (e : Endpoint) (counters : Counters)
  deriving DecidableEq, Repr

structure Watched where
  memory : Gateway.Memory
  deeds : List Deed := []
  deriving DecidableEq, Repr

namespace Gateway

/-- The deeds of a request that comes to the routes. -/
def reached (r : Request) (cs : Counters) : List Deed :=
  ((Endpoint.of? r.method r.path).map (.serve · cs)).toList

end Gateway

namespace Watched

open Gateway

def memoryPart : Part Watched Memory where
  get w := w.memory
  set m w := { w with memory := m }

def note (deed : Memory → Deed) : Run Watched Unit :=
  Run.modify fun w => { w with deeds := w.deeds ++ [deed w.memory] }

/-- Puts on record that a request comes by. -/
def noted (deed : Memory → Deed) : Stage Watched := fun next x => do
  note deed
  next x

def counterStore : CounterStore Watched where
  hit key q := do
    note fun _ => .charge key
    memoryPart.run (Memory.counterStore.hit key q)

def entryStore : EntryStore Watched where
  get key := memoryPart.run (Memory.entryStore.get key)
  set key value ttl := memoryPart.run (Memory.entryStore.set key value ttl)
  delete key := memoryPart.run (Memory.entryStore.delete key)
  keys := memoryPart.run Memory.entryStore.keys
  clear := memoryPart.run Memory.entryStore.clear

def cache (ttl : Nat) : Cache Watched where
  store := entryStore
  defaultTtl := ttl
  lookups := memoryPart.inside Memory.lookupsPart

/-- The routes, each with a note in front. -/
def router (ttl : Nat) (o : Occasion) : Router (Handler Watched) :=
  Endpoint.table fun e =>
    noted (fun m => .serve e m.counters) fun x =>
      memoryPart.run (e.handler (Memory.cache ttl) o x)

/-- The cache and the routes behind it, with a note in front. -/
def behind (s : Settings) (o : Occasion) : Handler Watched :=
  noted (fun _ => .enter)
    (Stage.cacheResponses (cache s.cacheTtl) uncached (Handler.route (router s.cacheTtl o)))

def answer (s : Settings) (v : Token.Verifier) (o : Occasion) (r : Request) :
    Run Watched Response :=
  Stage.chain
    [Stage.cors { origins := s.origins }, Stage.authenticate (TokenCheck.ofVerifier v),
      Stage.throttle (throttlePlan s.rateLimits) counterStore (TokenCheck.ofVerifier v)]
    (behind s o) (Exchange.ofRequest r)

/-- A computation does to the memory and results in what another one does, and puts deeds on
record. -/
def Records {α : Type} (y : Run Watched α) (x : Run Memory α) (deeds : Memory → List Deed) : Prop :=
  ∀ w, y w = ((x w.memory).1, ⟨(x w.memory).2, w.deeds ++ deeds w.memory⟩)

section Records

variable {α β : Type}

theorem records_pure (a : α) : Records (pure a) (pure a) fun _ => [] := by
  intro w
  simp

theorem records_run (x : Run Memory α) : Records (memoryPart.run x) x fun _ => [] := by
  intro w
  simp [Part.run, memoryPart]

theorem Records.bind {y : Run Watched α} {x : Run Memory α} {deeds : Memory → List Deed}
    {g : α → Run Watched β} {f : α → Run Memory β} (h : Records y x deeds)
    (later : ∀ a, Records (g a) (f a) fun _ => []) : Records (y >>= g) (x >>= f) deeds := by
  intro w
  rw [Run.bind_apply, Run.bind_apply, h w]
  rcases x w.memory with ⟨e | a, m⟩
  · rfl
  · simp only [later a ⟨m, _⟩, List.append_nil]

theorem Records.noted {next : Handler Watched} {x : Exchange} {plain : Run Memory Response}
    {deeds : Memory → List Deed} (h : Records (next x) plain deeds) (deed : Memory → Deed) :
    Records (Watched.noted deed next x) plain fun m => deed m :: deeds m := by
  intro w
  have first : Watched.noted deed next x w =
      next x { w with deeds := w.deeds ++ [deed w.memory] } := rfl
  rw [first, h]
  simp

theorem Records.withFields {next : Handler Watched} {next' : Handler Memory} {x : Exchange}
    {deeds : Memory → List Deed} (h : Records (next x) (next' x) deeds)
    (more : List (String × String)) :
    Records (Stage.withFields more next x) (Stage.withFields more next' x) deeds :=
  h.bind fun _ => records_pure _

end Records

theorem records_peek {α : Type} (ttl : Nat) (read : List UInt8 → Option α) (key : String) :
    Records ((cache ttl).peek read key) ((Memory.cache ttl).peek read key) fun _ => [] := by
  refine (records_run _).bind fun found => ?_
  cases found <;> exact records_pure _

/-- Behind the counters the record shows that the request came, and which route it came to. -/
theorem records_behind (s : Settings) (o : Occasion) (x : Exchange) :
    Records (behind s o x) (Gateway.behind s o x) fun m => .enter :: reached x.request m.counters := by
  refine Records.noted ?_ _
  cases eligible : ResponseCache.isEligible uncached x with
  | true =>
    have quiet : (fun m : Memory => reached x.request m.counters) = fun _ => [] := by
      simp [reached, of?_of_isEligible eligible]
    have answered : Handler.route (router s.cacheTtl o) x =
        pure (Router.notFound x.request.method x.request.path) := by
      rw [router, Endpoint.route_table, of?_of_isEligible eligible]
    rw [quiet, behind_of_isEligible s o eligible,
      ResponseCache.cacheResponses_of_failure eligible _ answered rfl]
    exact (records_peek _ _ _).bind fun _ => records_pure _
  | false =>
    rw [behind_of_not_isEligible s o eligible,
      ResponseCache.cacheResponses_of_not_eligible eligible, router, Endpoint.route_table]
    simp only [reached]
    cases Endpoint.of? x.request.method x.request.path with
    | none => exact records_pure _
    | some e =>
      let serve : Handler Watched :=
        fun x => memoryPart.run (e.handler (Memory.cache s.cacheTtl) o x)
      have served : Records (serve { x with params := [] })
          (e.handler (Memory.cache s.cacheTtl) o { x with params := [] }) fun _ => [] :=
        records_run _
      exact served.noted _

end Watched

end Turnstile
