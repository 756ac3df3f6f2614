import Turnstile.Cache.Service
import Turnstile.Proofs.Cache.Entries
import Turnstile.Proofs.Run

/-!
A cache in memory under a sequence of its operations, among which time goes by and expired entries
are removed. A value that a lookup does not find may be made by more operations. What the store
keeps of the state, `Survives`, is kept by every operation that counts no lookup, and
`Survives.perform` by every one if it is kept where lookups are counted.
-/

namespace Turnstile

/-- A cache in memory and its clock. Beside it stand the lookups since its counts were last reset,
each with whether there was a live entry. -/
structure Cabinet where
  now : Nat := 0
  entries : Entries := .empty
  lookups : Lookups := .empty
  looked : List (String × Bool) := []

namespace Cabinet

def entriesPart : Part Cabinet Entries where
  get c := c.entries
  set es c := { c with entries := es }

def lookupsPart : Part Cabinet Lookups where
  get c := c.lookups
  set ls c := { c with lookups := ls }

def store : EntryStore Cabinet := .memory Cabinet.now entriesPart

def cache (ttl : Nat) : Cache Cabinet := ⟨store, ttl, lookupsPart⟩

def later (d : Nat) (c : Cabinet) : Cabinet := { c with now := c.now + d }

def cleanup (c : Cabinet) : Cabinet := { c with entries := c.entries.cleanup c.now }

/-- The lookup stands beside the cache. -/
def note (key : String) (c : Cabinet) : Cabinet :=
  { c with looked := c.looked ++ [(key, (c.entries.live? c.now key).isSome)] }

/-- What is done with a cache, and what happens to it. A value is made from what there is after
other acts. -/
inductive Act : Type 1 where
  | get {α : Type} (read : List UInt8 → Option α) (key : String)
  | peek {α : Type} (read : List UInt8 → Option α) (key : String)
  | set (key : String) (value : Option Json.Value) (ttl : Option Nat)
  | getOrSet {α : Type} (read : List UInt8 → Option α) (write : α → Option Json.Value)
      (key : String) (acts : List Act) (made : Cabinet → α) (ttl : Option Nat)
  | delete (key : String)
  | deleteMany (keys : List String)
  | deletePrefix (start : String)
  | clear
  | stats (key : String)
  | allStats
  | resetStats
  | wait (d : Nat)
  | cleanup

/-- The act neither looks up nor resets. -/
def Act.isQuiet : Act → Bool
  | .get _ _ => false
  | .getOrSet _ _ _ _ _ _ => false
  | .resetStats => false
  | _ => true

section Acting

variable (ttl : Nat)

def lookUp {α : Type} (read : List UInt8 → Option α) (key : String) :
    Run Cabinet (Except CacheError (Option α)) := do
  Run.modify (note key)
  (cache ttl).get read key

mutual

def Act.perform : Act → Run Cabinet Unit
  | .get read key => discard (lookUp ttl read key)
  | .peek read key => discard ((cache ttl).peek read key)
  | .set key value span => discard ((cache ttl).set key value span)
  | .getOrSet read write key acts made span => do
    Run.modify (note key)
    discard ((cache ttl).getOrSet read write key
      (do Act.performAll acts; return made (← Run.state)) span)
  | .delete key => discard ((cache ttl).delete key)
  | .deleteMany keys => discard ((cache ttl).deleteMany keys)
  | .deletePrefix start => discard ((cache ttl).deletePrefix start)
  | .clear => discard (cache ttl).clear
  | .stats key => discard ((cache ttl).stats key)
  | .allStats => discard (cache ttl).allStats
  | .resetStats => do
    Run.modify fun c => { c with looked := [] }
    (cache ttl).resetStats
  | .wait d => Run.modify (later d)
  | .cleanup => Run.modify Cabinet.cleanup

/-- One act after the other, up to one that is cut short. -/
def Act.performAll : List Act → Run Cabinet Unit
  | [] => pure ()
  | a :: acts => do
    a.perform
    Act.performAll acts

end

/-- The cabinet after some acts, of which each is done whatever has come of the ones before. -/
def after (acts : List Act) (c : Cabinet) : Cabinet :=
  acts.foldl (fun c a => (a.perform ttl c).2) c

end Acting

/-- A value is put under its key until the end of its time, if that lies on the clock. -/
theorem store_set (key : String) (value : List UInt8) (span : Nat) (c : Cabinet) :
    store.set key value span c =
      match Clock.after c.now span with
      | .ok e => (.ok (.ok ()), { c with entries := ⟨Keyed.insert key ⟨value, e⟩ c.entries.table⟩ })
      | .error o => (.error o, c) := by
  simp only [store, EntryStore.memory, Run.bind_apply, Run.state, Part.run, entriesPart,
    Entries.set]
  cases Clock.after c.now span <;> rfl

/-- What holds of a cabinet still holds after what is done with its entries, and later. -/
structure Survives (P : Cabinet → Prop) : Prop where
  get : ∀ key, Run.Maintains P (store.get key)
  set : ∀ key value span, Run.Maintains P (store.set key value span)
  delete : ∀ key, Run.Maintains P (store.delete key)
  clear : Run.Maintains P store.clear
  later : ∀ d c, P c → P (later d c)
  cleanup : ∀ c, P c → P c.cleanup

variable {ttl : Nat} {P : Cabinet → Prop}

theorem Survives.deleteMany (h : Survives P) (keys : List String) :
    Run.Maintains P ((cache ttl).deleteMany keys) := by
  induction keys with
  | nil => exact Run.maintains_pure P _
  | cons key keys ih =>
    refine (h.delete key).bind fun removed => ?_
    cases removed with
    | error e => exact Run.maintains_pure P _
    | ok removed =>
      refine ih.bind fun n => ?_
      cases n <;> exact Run.maintains_pure P _

theorem Survives.set_value (h : Survives P) (key : String) (value : Option Json.Value)
    (span : Option Nat) : Run.Maintains P ((cache ttl).set key value span) := by
  cases value with
  | none => exact Run.maintains_pure P _
  | some v => exact h.set key _ _

/-- An act that looks nothing up is done with the entries. -/
theorem Survives.perform_of_quiet (h : Survives P) {a : Act} (quiet : a.isQuiet = true) :
    Run.Maintains P (a.perform ttl) := by
  cases a with
  | get | getOrSet | resetStats => cases quiet
  | peek read key =>
    refine Run.Maintains.discard ((h.get key).bind fun entry => ?_)
    cases entry <;> exact Run.maintains_pure P _
  | set key value span => exact (h.set_value key value span).discard
  | delete key => exact (h.delete key).discard
  | deleteMany keys => exact (h.deleteMany keys).discard
  | deletePrefix start =>
    have listed : Run.Maintains P store.keys := fun c holds => holds
    refine Run.Maintains.discard (listed.bind fun keys => ?_)
    cases keys with
    | error e => exact Run.maintains_pure P _
    | ok keys =>
      refine (h.deleteMany _).bind fun n => ?_
      cases n <;> exact Run.maintains_pure P _
  | clear => exact h.clear.discard
  | stats | allStats => exact fun c holds => holds
  | wait d => exact h.later d
  | cleanup => exact h.cleanup

section Making

variable {α : Type} (write : α → Option Json.Value) (key : String) (acts : List Act)
  (made : Cabinet → α) (span : Option Nat)

/-- A value is made, and put under its key. -/
def make (ttl : Nat) : Run Cabinet Unit := do
  Act.performAll ttl acts
  let a := made (← Run.state)
  discard ((cache ttl).set key (write a) span)

/-- What is done behind a lookup for which a value may be made. -/
def orMake (ttl : Nat) : Except CacheError (Option α) → Run Cabinet Unit
  | .ok (some _) => pure ()
  | _ => make write key acts made span ttl

theorem perform_getOrSet (ttl : Nat) (read : List UInt8 → Option α) :
    (Act.getOrSet read write key acts made span).perform ttl =
      lookUp ttl read key >>= orMake write key acts made span ttl := by
  rw [Act.perform, lookUp, bind_assoc]
  apply congrArg (Run.modify (note key) >>= ·)
  funext _
  rw [Run.discard_eq, Cache.getOrSet, bind_assoc]
  apply congrArg ((cache ttl).get read key >>= ·)
  funext seen
  rcases seen with e | _ | a <;> simp only [bind_assoc, pure_bind, orMake, make] <;> rfl

end Making

/-- A lookup that is counted leaves what holds, and so does the reset of the counts. -/
structure Counts (ttl : Nat) (P : Cabinet → Prop) : Prop extends Survives P where
  look : ∀ {α : Type} (read : List UInt8 → Option α) key, Run.Maintains P (lookUp ttl read key)
  reset : ∀ c, P c → P { c with looked := [], lookups := .empty }

mutual

/-- Every act leaves what holds. -/
theorem Counts.perform (h : Counts ttl P) (a : Act) : Run.Maintains P (a.perform ttl) := by
  cases a with
  | get read key => exact (h.look read key).discard
  | getOrSet read write key acts made span =>
    rw [perform_getOrSet]
    refine (h.look read key).bind fun seen => ?_
    have making : Run.Maintains P (make write key acts made span ttl) := by
      refine (h.performAll acts).bind fun _ => ?_
      have same : Run.Maintains P (Run.state : Run Cabinet Cabinet) := fun c holds => holds
      exact same.bind fun c => (h.set_value key _ span).discard
    unfold orMake
    split
    · exact Run.maintains_pure P ()
    · exact making
  | resetStats => exact h.reset
  | peek | set | delete | deleteMany | deletePrefix | clear | stats | allStats | wait | cleanup =>
    exact h.perform_of_quiet rfl

theorem Counts.performAll (h : Counts ttl P) (acts : List Act) :
    Run.Maintains P (Act.performAll ttl acts) := by
  cases acts with
  | nil => exact Run.maintains_pure P ()
  | cons a acts => exact (h.perform a).bind fun _ => h.performAll acts

end

theorem Counts.after (h : Counts ttl P) (acts : List Act) {c : Cabinet} (holds : P c) :
    P (c.after ttl acts) := by
  induction acts generalizing c with
  | nil => exact holds
  | cons a acts ih => exact ih (h.perform a c holds)

end Cabinet

end Turnstile
