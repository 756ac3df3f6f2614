import Mathlib.Data.List.Infix
import Turnstile.Proofs.Cache.Captured
import Turnstile.Proofs.Cache.Entries
import Turnstile.Proofs.Run

/-!
Runs of requests through the stage that answers from a cache. All calls of the handler behind the
stage are remembered beside the cache, and they alone say what a request gets: the latest answer
that was worth keeping, as long as it may be kept, and otherwise an answer of its own.
-/

namespace Turnstile.ResponseCache

theorem ttl_eq : ttl = 300 * Clock.second := rfl

theorem hasInfix_iff {word s : List Char} : hasInfix word s = true ↔ word <:+: s := by
  induction s with
  | nil => rw [hasInfix, List.isEmpty_iff, List.infix_nil]
  | cons c s ih =>
    rw [hasInfix, Bool.or_eq_true, List.isPrefixOf_iff_prefix, ih, List.infix_cons_iff]

structure Call where
  exchange : Exchange
  answer : Response
  done : Nat

/-- A handler by its answers and the time that it takes for them. Both may depend on all calls
before, latest first, so the handler may have a state of its own. -/
abbrev Downstream := List Call → Nat → Exchange → Response × Nat

/-- What a run goes through: the instant, the store and the statistics of the cache, and the calls
of the handler so far, latest first. -/
structure Desk where
  now : Nat
  entries : Entries := .empty
  lookups : Lookups := .empty
  calls : List Call := []

namespace Desk

def entriesPart : Part Desk Entries where
  get s := s.entries
  set es s := { s with entries := es }

def lookupsPart : Part Desk Lookups where
  get s := s.lookups
  set ls s := { s with lookups := ls }

def later (s : Desk) (d : Nat) : Desk := { s with now := s.now + d }

/-- The call that the handler makes of an exchange now. -/
def call (s : Desk) (serve : Downstream) (x : Exchange) : Call :=
  ⟨x, (serve s.calls s.now x).1, s.now + (serve s.calls s.now x).2⟩

/-- The store is left to what the cache makes of it. -/
def after (s : Desk) (c : Call) (es : Entries) : Desk :=
  { s with now := c.done, entries := es, calls := c :: s.calls }

end Desk

/-- The handler on a run. -/
def Downstream.handler (serve : Downstream) : Handler Desk := fun x s =>
  (.ok (s.call serve x).answer, s.after (s.call serve x) s.entries)

/-- The cache of a run, its store in memory. -/
def memoryCache (defaultTtl : Nat) : Cache Desk :=
  ⟨.memory Desk.now Desk.entriesPart, defaultTtl, Desk.lookupsPart⟩

structure Visit where
  wait : Nat
  exchange : Exchange

namespace Call

/-- The entry that is kept of a call. -/
def entry (c : Call) : Entry :=
  ⟨Utf8.encodeChars (CapturedResponse.capture c.answer).toJson.chars, c.done + ttl⟩

/-- Five minutes after the call lie before the end of the clock, and have not passed yet. -/
def isFresh (t : Nat) (c : Call) : Bool :=
  c.done + 300 * Clock.second < Clock.horizon && t < c.done + 300 * Clock.second

end Call

/-- An answer given again: its status, its body and its first content type, with the mark. -/
def again (r : Response) : Response :=
  { status := r.status, body := r.body,
    headers := ⟨CapturedResponse.typeField r ++ [("X-Cache", "HIT")]⟩ }

section Run

variable (excluded : List Pattern) (serve : Downstream) (defaultTtl : Nat)

def answer : Handler Desk :=
  Stage.cacheResponses (memoryCache defaultTtl) excluded serve.handler

def attend (visits : List Visit) (s : Desk) : Desk :=
  visits.foldl (fun s v => (answer excluded serve defaultTtl v.exchange (s.later v.wait)).2) s

/-- A request may be answered from the cache, and its answer may go there: it is one for reading,
asks for no fresh answer, neither by a `Cache-Control` that has `no-cache` in it nor by an
`X-Cache-Bypass` of `true`, and is for no path that is left out. -/
def isEligible (x : Exchange) : Bool :=
  let fields := x.request.headers
  x.request.method == .get &&
    !((fields.getAll "cache-control").any fun v => "no-cache".toList <:+: (Ascii.lower v).toList) &&
    fields.get? "x-cache-bypass" != some "true" &&
    !excluded.any (·.isMatch x.request.path)

/-- The answer of the call is worth keeping. -/
def Call.isKept (c : Call) : Bool := isEligible excluded c.exchange && c.answer.isSuccess

/-- The latest call for a key whose answer was worth keeping. -/
def latest? (k : String) (calls : List Call) : Option Call :=
  calls.find? fun c => c.isKept excluded && key c.exchange.request.toHead == k

/-- The call whose answer a request gets instead of one of its own. -/
def known? (x : Exchange) (s : Desk) : Option Call :=
  if isEligible excluded x then
    (latest? excluded (key x.request.toHead) s.calls).filter (·.isFresh s.now)
  else none

/-- What becomes of an answer of the handler. It is marked if it is worth keeping, unless the clock
is too near its end for that. -/
def handedOn (c : Call) : Except ClockOverflow Response :=
  if c.isKept excluded then
    (Clock.after c.done (300 * Clock.second)).map fun _ => c.answer.addHeader "X-Cache" "MISS"
  else .ok c.answer

/-- What the store shows from now on is what is fresh of the latest answers. -/
def Faithful (s : Desk) : Prop :=
  ∀ k t, s.now ≤ t →
    s.entries.live? t k = ((latest? excluded k s.calls).filter (·.isFresh t)).map Call.entry

/-- The store with an answer put into it, if there is a time until which it can be kept. -/
def stored (es : Entries) (k : String) (r : Response) : Except ClockOverflow Nat → Entries
  | .ok e =>
    ⟨Keyed.insert k ⟨Utf8.encodeChars (CapturedResponse.capture r).toJson.chars, e⟩ es.table⟩
  | .error _ => es

/-- The store after a call that nothing kept could spare. -/
def settled (s : Desk) (c : Call) : Entries :=
  let k := key c.exchange.request.toHead
  if !isEligible excluded c.exchange then s.entries
  else if !c.answer.isSuccess then (s.entries.get s.now k).2
  else stored (s.entries.get s.now k).2 k c.answer (Clock.after c.done ttl)

end Run

variable {excluded : List Pattern} {serve : Downstream} {defaultTtl : Nat}

theorem hit_capture (r : Response) : hit (CapturedResponse.capture r) = again r := by
  rw [hit, CapturedResponse.replay_capture]
  rfl

/-- A lookup in the cache of a run. -/
theorem peek_apply {α : Type} (read : List UInt8 → Option α) (k : String) (s : Desk) :
    (memoryCache defaultTtl).peek read k s =
      (.ok (Cache.decode read ((s.entries.live? s.now k).map (·.value))),
        { s with entries := (s.entries.get s.now k).2 }) := by
  rw [← Entries.get_fst]
  rfl

/-- An answer put into the cache of a run. -/
theorem set_apply (k : String) (r : Response) (d : Nat) (s : Desk) :
    (memoryCache defaultTtl).set k (some (CapturedResponse.capture r).toJson) (some d) s =
      ((Clock.after s.now d).map fun _ => .ok (),
        { s with entries := stored s.entries k r (Clock.after s.now d) }) := by
  simp only [Cache.set, memoryCache, EntryStore.memory, Run.bind_apply, Run.state, Part.run,
    Entries.set, Desk.entriesPart, Option.getD_some]
  cases Clock.after s.now d <;> rfl

theorem isEligible_eq (x : Exchange) :
    isEligible excluded x =
      (isCacheable x.request.toHead && !excluded.any (·.isMatch x.request.path)) := by
  have spelled (v : String) : hasInfix "no-cache".toList (Ascii.lower v).toList =
      decide ("no-cache".toList <:+: (Ascii.lower v).toList) := by
    rw [Bool.eq_iff_iff, hasInfix_iff, decide_eq_true_iff]
  simp only [isEligible, isCacheable, spelled]

theorem not_isEligible (x : Exchange) :
    (!isCacheable x.request.toHead || excluded.any (·.isMatch x.request.path)) =
      !isEligible excluded x := by
  rw [isEligible_eq, Bool.not_and, Bool.not_not]

/-- What is kept of a call answers a request in its place. -/
theorem answer_of_live {x : Exchange} {s : Desk} {c : Call}
    (eligible : isEligible excluded x = true)
    (live : s.entries.live? s.now (key x.request.toHead) = some c.entry) :
    answer excluded serve defaultTtl x s = (.ok (again c.answer), s) := by
  rw [answer, Stage.cacheResponses, not_isEligible, eligible]
  simp only [Bool.not_true, Bool.false_eq_true, if_false]
  rw [Run.bind_of_ok (peek_apply _ _ s), live, Entries.get_snd_of_live live]
  simp only [Option.map_some, Call.entry, Cache.decode, CapturedResponse.parse?_capture]
  rw [hit_capture]
  rfl

/-- A request for which nothing is kept calls the handler. -/
theorem answer_of_absent {x : Exchange} {s : Desk}
    (absent : isEligible excluded x = true → s.entries.live? s.now (key x.request.toHead) = none) :
    answer excluded serve defaultTtl x s =
      (handedOn excluded (s.call serve x),
        s.after (s.call serve x) (settled excluded s (s.call serve x))) := by
  have asked : (s.call serve x).exchange = x := rfl
  rw [handedOn, ← ttl_eq, answer, Stage.cacheResponses, not_isEligible]
  cases eligible : isEligible excluded x with
  | false =>
    simp only [Call.isKept, settled, asked, eligible]
    rfl
  | true =>
    simp only [Bool.not_true, Bool.false_eq_true, if_false]
    rw [Run.bind_of_ok (peek_apply _ _ s), absent eligible]
    simp only [Option.map_none, Cache.decode, Call.isKept, settled, asked, eligible]
    generalize (s.entries.get s.now (key x.request.toHead)).2 = es
    have served : serve.handler x { s with entries := es } =
        (.ok (s.call serve x).answer, s.after (s.call serve x) es) := rfl
    generalize s.call serve x = c at served
    rw [Run.bind_of_ok served]
    cases success : c.answer.isSuccess with
    | false => rfl
    | true =>
      have set : (memoryCache defaultTtl).set _ _ _ _ = _ :=
        set_apply (key x.request.toHead) c.answer ttl (s.after c es)
      have now : (s.after c es).now = c.done := rfl
      rw [now] at set
      simp only [Bool.not_true, Bool.false_eq_true, if_false, Bool.and_self, if_true]
      cases after : Clock.after c.done ttl with
      | ok e =>
        rw [after] at set
        rw [Run.bind_of_ok set]
        rfl
      | error o =>
        rw [after] at set
        rw [Run.bind_of_error set]
        rfl

theorem faithful_opened (now : Nat) : Faithful excluded { now := now } := fun _ _ _ => rfl

theorem Faithful.later {s : Desk} (h : Faithful excluded s) (d : Nat) :
    Faithful excluded (s.later d) :=
  fun k t le => h k t (Nat.le_trans (Nat.le_add_right s.now d) le)

/-- The store shows an eligible request the entry of the call that spares it one. -/
theorem Faithful.live?_known {s : Desk} (h : Faithful excluded s) {x : Exchange}
    (eligible : isEligible excluded x = true) :
    s.entries.live? s.now (key x.request.toHead) = (known? excluded x s).map Call.entry := by
  rw [h _ _ (Nat.le_refl _), known?, if_pos eligible]

theorem isEligible_of_known? {x : Exchange} {s : Desk} {c : Call}
    (h : known? excluded x s = some c) : isEligible excluded x = true := by
  rw [known?] at h
  split at h
  · assumption
  · cases h

/-- A call whose answer is not worth keeping changes nothing that the store will show. -/
theorem live?_settled_of_not_isKept {s : Desk} {c : Call} (h : c.isKept excluded = false)
    (k : String) {t : Nat} (later : s.now ≤ t) :
    (settled excluded s c).live? t k = s.entries.live? t k := by
  rw [settled]
  cases eligible : isEligible excluded c.exchange with
  | false => rfl
  | true =>
    rw [Call.isKept, eligible, Bool.true_and] at h
    rw [h]
    exact Entries.live?_get later

/-- An entry is seen as long as its call is fresh. -/
theorem filter_entry {c : Call} (fits : c.done + ttl < Clock.horizon) (t : Nat) :
    ((some c.entry).filter fun e => !e.isExpired t) =
      ((some c).filter (·.isFresh t)).map Call.entry := by
  simp only [Option.filter_some, Entry.isExpired, Call.isFresh, Call.entry, ← ttl_eq, fits]
  by_cases due : c.done + ttl ≤ t
  · simp [due, Nat.not_lt.mpr due]
  · simp [due, Nat.lt_of_not_le due, Call.entry]

theorem live?_settled_of_isKept {s : Desk} {c : Call} (h : c.isKept excluded = true)
    (absent : s.entries.live? s.now (key c.exchange.request.toHead) = none) (k : String) {t : Nat}
    (later : s.now ≤ t) :
    (settled excluded s c).live? t k =
      if key c.exchange.request.toHead = k then ((some c).filter (·.isFresh t)).map Call.entry
      else s.entries.live? t k := by
  obtain ⟨eligible, success⟩ := Bool.and_eq_true_iff.mp h
  have settles : settled excluded s c =
      stored (s.entries.get s.now (key c.exchange.request.toHead)).2
        (key c.exchange.request.toHead) c.answer (Clock.after c.done ttl) := by
    simp only [settled, eligible, success, Bool.not_true, Bool.false_eq_true, if_false]
  rw [settles]
  by_cases fits : c.done + ttl < Clock.horizon
  · rw [Clock.after_eq_ok fits, stored, Entries.live?_insert, Entries.live?_get later]
    exact if_congr Iff.rfl (filter_entry fits t) rfl
  · -- Nothing is put into the store, and what was there for the key had expired before the call.
    have late : Clock.after c.done ttl = .error .mk := by simp only [Clock.after, fits, if_false]
    have stale : c.isFresh t = false := by
      simp only [Call.isFresh, ← ttl_eq, fits, decide_false, Bool.false_and]
    rw [late, stored, Entries.live?_get later]
    split
    · next same =>
      subst same
      rw [Entries.live?_of_absent absent later]
      rw [Option.filter_some, stale]
      rfl
    · rfl

theorem latest?_cons (k : String) (c : Call) (calls : List Call) :
    latest? excluded k (c :: calls) =
      if c.isKept excluded = true ∧ key c.exchange.request.toHead = k then some c
      else latest? excluded k calls := by
  simp only [latest?, List.find?_cons]
  split <;> simp_all

theorem Faithful.after {s : Desk} (h : Faithful excluded s) {c : Call} (later : s.now ≤ c.done)
    (absent : isEligible excluded c.exchange = true →
      s.entries.live? s.now (key c.exchange.request.toHead) = none) :
    Faithful excluded (s.after c (settled excluded s c)) := by
  intro k t le
  have now : s.now ≤ t := Nat.le_trans later le
  have calls : (s.after c (settled excluded s c)).calls = c :: s.calls := rfl
  have entries : (s.after c (settled excluded s c)).entries = settled excluded s c := rfl
  rw [calls, entries, latest?_cons]
  cases kept : c.isKept excluded with
  | false =>
    rw [live?_settled_of_not_isKept kept k now, h k t now]
    simp
  | true =>
    have eligible := (Bool.and_eq_true_iff.mp kept).1
    rw [live?_settled_of_isKept kept (absent eligible) k now, h k t now]
    simp only [true_and]
    split <;> rfl

/-- When nothing can be repeated, nothing is seen. -/
theorem Faithful.absent {s : Desk} (h : Faithful excluded s) {x : Exchange}
    (known : known? excluded x s = none) (eligible : isEligible excluded x = true) :
    s.entries.live? s.now (key x.request.toHead) = none := by
  rw [h.live?_known eligible, known]
  rfl

theorem le_done_call (s : Desk) (x : Exchange) : s.now ≤ (s.call serve x).done :=
  Nat.le_add_right _ _

theorem answer_of_known? {s : Desk} (h : Faithful excluded s) {x : Exchange} {c : Call}
    (known : known? excluded x s = some c) :
    answer excluded serve defaultTtl x s = (.ok (again c.answer), s) := by
  have eligible := isEligible_of_known? known
  apply answer_of_live eligible
  rw [h.live?_known eligible, known]
  rfl

theorem faithful_answer {s : Desk} (h : Faithful excluded s) (x : Exchange) :
    Faithful excluded (answer excluded serve defaultTtl x s).2 := by
  cases known : known? excluded x s with
  | some c => rwa [answer_of_known? h known]
  | none =>
    rw [answer_of_absent (h.absent known)]
    exact h.after (le_done_call s x) (h.absent known)

theorem faithful_attend {s : Desk} (h : Faithful excluded s) (visits : List Visit) :
    Faithful excluded (attend excluded serve defaultTtl visits s) := by
  rw [attend]
  induction visits generalizing s with
  | nil => exact h
  | cons v visits ih => exact ih (faithful_answer (h.later v.wait) v.exchange)

/-- After any run of requests, an eligible request gets the latest answer worth keeping that another
one of its key got, while that is fresh, and the handler is not called. Every other request calls
the handler once and gets its answer, which is marked exactly if it is worth keeping; an answer that
is not worth it changes nothing that the store will show. -/
theorem repeats_or_calls_once (excluded : List Pattern) (serve : Downstream) (defaultTtl : Nat)
    (start : Nat) (visits : List Visit) (wait : Nat) (x : Exchange) :
    let s := (attend excluded serve defaultTtl visits { now := start }).later wait
    let c := s.call serve x
    (∀ c', known? excluded x s = some c' →
      answer excluded serve defaultTtl x s = (.ok (again c'.answer), s)) ∧
    (known? excluded x s = none →
      ∃ es, answer excluded serve defaultTtl x s = (handedOn excluded c, s.after c es) ∧
        (c.isKept excluded = false → ∀ k t, s.now ≤ t → es.live? t k = s.entries.live? t k)) := by
  intro s c
  have faithful : Faithful excluded s := (faithful_attend (faithful_opened start) visits).later wait
  constructor
  · exact fun c' known => answer_of_known? faithful known
  · intro known
    exact ⟨_, answer_of_absent (faithful.absent known),
      fun unkept k t later => live?_settled_of_not_isKept unkept k later⟩

section Case

/-- A request for a page, by some method. -/
def asking (m : Method) : Exchange :=
  .ofRequest ⟨⟨m, "/page", none, .http11, .empty⟩, [], none, []⟩

/-- Counts its calls. -/
def counting : Downstream := fun calls _ _ =>
  ((Response.ofText .ok (toString calls.length)).addHeader "ETag" "1", 1)

def first : Call := Desk.call { now := 0 } counting (asking .get)

/-- A page is given again without its other fields nearly five minutes later, and a request to
change it passes the cache by. -/
theorem page_repeated :
    let s := (attend [] counting 0 [⟨0, asking .get⟩] { now := 0 }).later (299 * Clock.second)
    let c := s.call counting (asking .post)
    answer [] counting 0 (asking .get) s =
      (.ok ((Response.ofText .ok "0").addHeader "X-Cache" "HIT"), s) ∧
    c.isKept [] = false ∧
    ∃ es, answer [] counting 0 (asking .post) s = (.ok c.answer, s.after c es) ∧
      ∀ k, es.live? s.now k = s.entries.live? s.now k := by
  intro s c
  have eligible : isEligible [] (asking .get) = true := by decide
  have ineligible : isEligible [] (asking .post) = false := by decide
  obtain ⟨-, called⟩ := repeats_or_calls_once [] counting 0 0 [] 0 (asking .get)
  obtain ⟨es, answered, -⟩ := called (by rw [known?, if_pos eligible]; rfl)
  have reached : s = ⟨1 + 299 * Clock.second, es, .empty, [first]⟩ := by
    show ((answer [] counting 0 (asking .get) { now := 0 }).2).later _ = _
    exact congrArg (fun r => r.2.later (299 * Clock.second)) answered
  have known : known? [] (asking .get) s = some first := by
    have kept : first.isKept [] = true := by decide
    have fresh : first.isFresh (1 + 299 * Clock.second) = true := by decide
    rw [reached, known?, if_pos eligible, latest?_cons, if_pos ⟨kept, rfl⟩, Option.filter_some,
      fresh]
    rfl
  have unkept : c.isKept [] = false := by
    rw [Call.isKept, show c.exchange = asking .post from rfl, ineligible, Bool.false_and]
  obtain ⟨repeated, -⟩ := repeats_or_calls_once [] counting 0 0 [⟨0, asking .get⟩]
    (299 * Clock.second) (asking .get)
  obtain ⟨-, called⟩ := repeats_or_calls_once [] counting 0 0 [⟨0, asking .get⟩]
    (299 * Clock.second) (asking .post)
  obtain ⟨es, passed, same⟩ := called (by rw [known?, ineligible]; rfl)
  refine ⟨repeated first known, unkept, es, ?_, fun k => same unkept k _ (Nat.le_refl _)⟩
  have unmarked : handedOn [] c = .ok c.answer := by
    rw [handedOn, unkept]
    rfl
  rw [← unmarked]
  exact passed

end Case

end Turnstile.ResponseCache
