import Mathlib.Data.List.Sort
import Mathlib.Data.String.Basic
import Turnstile.Proofs.Cache.Entries

/-!
What a store in memory tells, read off what has been done with it. A key shows the value that was
put under it last, unless it has been deleted since or the time of the value is over. Lookups,
listings and cleanups leave no trace in this: whatever they drop from the store could not be seen
any more. `told_by_chronicle` says both of every sequence of operations.
-/

namespace Turnstile

structure Shelf where
  now : Nat
  entries : Entries := .empty

namespace Shelf

def entriesPart : Part Shelf Entries where
  get s := s.entries
  set es s := { s with entries := es }

def store : EntryStore Shelf := .memory Shelf.now entriesPart

inductive Act where
  | set (key : String) (value : List UInt8) (ttl : Nat)
  | get (key : String)
  | delete (key : String)
  | keys
  | clear
  | cleanup
  | wait (d : Nat)
  deriving DecidableEq, Repr

/-- What comes back. A cleanup says nothing here: how many entries it finds depends on which of them
have been looked at since they expired. -/
inductive Reply where
  | done
  | value (v : Option (List UInt8))
  | deleted (was : Bool)
  | keys (ks : List String)
  deriving DecidableEq, Repr

namespace Act

def perform : Act → Run Shelf (Except CacheError Reply)
  | .set key value ttl => do return (← store.set key value ttl).map fun _ => .done
  | .get key => do return (← store.get key).map .value
  | .delete key => do return (← store.delete key).map .deleted
  | .keys => do return (← store.keys).map .keys
  | .clear => do return (← store.clear).map fun _ => .done
  | .cleanup => do
    Run.modify fun s => { s with entries := s.entries.cleanup s.now }
    return .ok .done
  | .wait d => do
    Run.modify fun s => { s with now := s.now + d }
    return .ok .done

/-- Something is put, taken away, or gets older. -/
def isChange : Act → Bool
  | .set _ _ _ => true
  | .get _ => false
  | .delete _ => true
  | .keys => false
  | .clear => true
  | .cleanup => false
  | .wait _ => true

end Act

def after (acts : List Act) (s : Shelf) : Shelf := acts.foldl (fun s a => (a.perform s).2) s

/-- The time, and what was done when, the latest first. -/
structure Chronicle where
  now : Nat
  past : List (Nat × Act) := []

namespace Chronicle

def note (c : Chronicle) : Act → Chronicle
  | .wait d => { c with now := c.now + d }
  | a => { c with past := (c.now, a) :: c.past }

/-- What was put under a key last and not taken away since, and when its time is over. A deadline
beyond the end of the clock cannot be set. -/
def standing? (key : String) : List (Nat × Act) → Option Entry
  | [] => none
  | (t, .set k value ttl) :: past =>
    if k = key ∧ t + ttl < Clock.horizon then some ⟨value, t + ttl⟩ else standing? key past
  | (_, .delete k) :: past => if k = key then none else standing? key past
  | (_, .clear) :: _ => none
  | _ :: past => standing? key past

theorem standing?_set (c : Chronicle) (key k : String) (value : List UInt8) (ttl : Nat) :
    standing? key (c.note (.set k value ttl)).past =
      if k = key ∧ c.now + ttl < Clock.horizon then some ⟨value, c.now + ttl⟩
      else standing? key c.past := rfl

theorem standing?_delete (c : Chronicle) (key k : String) :
    standing? key (c.note (.delete k)).past = if k = key then none else standing? key c.past := rfl

def visible? (c : Chronicle) (key : String) : Option (List UInt8) :=
  ((standing? key c.past).filter fun e => c.now < e.expires).map (·.value)

/-- What a map that has this chronicle tells. -/
def Tells (c : Chronicle) : Act → Except ClockOverflow (Except CacheError Reply) → Prop
  | .get key, told => told = .ok (.ok (.value (c.visible? key)))
  | .delete key, told => told = .ok (.ok (.deleted (c.visible? key).isSome))
  | .keys, told => ∃ ks, told = .ok (.ok (.keys ks)) ∧ ks.Pairwise (· < ·) ∧
      ∀ key, key ∈ ks ↔ (c.visible? key).isSome
  | .set _ _ ttl, told =>
      told = if c.now + ttl < Clock.horizon then .ok (.ok .done) else .error .mk
  | _, told => told = .ok (.ok .done)

end Chronicle

/-- The store shows at any time from now on what the chronicle says. -/
structure Shows (s : Shelf) (c : Chronicle) : Prop where
  now : s.now = c.now
  ordered : s.entries.Ordered
  live : ∀ key t, s.now ≤ t →
    s.entries.live? t key = (Chronicle.standing? key c.past).filter fun e => !e.isExpired t

variable {s : Shelf} {c : Chronicle}

theorem shows_opened (start : Nat) : Shows ⟨start, .empty⟩ ⟨start, []⟩ where
  now := rfl
  ordered := Entries.ordered_empty
  live _ _ _ := rfl

theorem not_isExpired (e : Entry) (t : Nat) : (!e.isExpired t) = decide (t < e.expires) := by
  by_cases gone : e.expires ≤ t
  · simp [Entry.isExpired, gone]
  · simp [Entry.isExpired, gone, Nat.lt_of_not_le gone]

theorem Shows.visible? (h : Shows s c) (key : String) :
    c.visible? key = (s.entries.live? s.now key).map (·.value) := by
  rw [h.live key s.now (Nat.le_refl _), Chronicle.visible?, h.now]
  simp only [not_isExpired]

theorem Shows.isSome_visible? (h : Shows s c) (key : String) :
    (c.visible? key).isSome = (s.entries.live? s.now key).isSome := by
  rw [h.visible? key, Option.isSome_map]

theorem perform_set_of_fits {ttl : Nat} (fits : s.now + ttl < Clock.horizon) (key : String)
    (value : List UInt8) :
    (Act.set key value ttl).perform s =
      (.ok (.ok .done),
        { s with entries := ⟨Keyed.insert key ⟨value, s.now + ttl⟩ s.entries.table⟩ }) := by
  have put : store.set key value ttl s = (.ok (.ok ()),
      { s with entries := ⟨Keyed.insert key ⟨value, s.now + ttl⟩ s.entries.table⟩ }) := by
    simp only [store, EntryStore.memory, Run.bind_apply, Run.state, Part.run, entriesPart,
      Entries.set, Clock.after_eq_ok fits, Run.pure_apply]
  exact Run.bind_of_ok put _

theorem perform_set_of_late {ttl : Nat} (late : ¬ s.now + ttl < Clock.horizon) (key : String)
    (value : List UInt8) : (Act.set key value ttl).perform s = (.error .mk, s) := by
  have failed : store.set key value ttl s = (.error .mk, s) := by
    simp only [store, EntryStore.memory, Run.bind_apply, Run.state, Part.run, entriesPart,
      Entries.set, Clock.after, if_neg late]
  exact Run.bind_of_error failed _

/-- A store that shows what the chronicle says tells it, too. -/
theorem Shows.tells (h : Shows s c) (a : Act) : c.Tells a (a.perform s).1 := by
  cases a with
  | get key =>
    have told : ((Act.get key).perform s).1 =
        .ok (.ok (.value (s.entries.get s.now key).1)) := rfl
    rw [told, Entries.get_fst, ← h.visible? key]
    rfl
  | delete key =>
    have told : ((Act.delete key).perform s).1 =
        .ok (.ok (.deleted (s.entries.live? s.now key).isSome)) := rfl
    rw [told, ← h.isSome_visible? key]
    rfl
  | keys =>
    refine ⟨s.entries.keys s.now, rfl, h.ordered.keys s.now, ?_⟩
    intro key
    rw [Entries.mem_keys_iff h.ordered, h.isSome_visible? key]
  | set key value ttl =>
    show _ = if c.now + ttl < Clock.horizon then _ else _
    rw [← h.now]
    by_cases fits : s.now + ttl < Clock.horizon
    · rw [perform_set_of_fits fits, if_pos fits]
    · rw [perform_set_of_late fits, if_neg fits]
  | clear | cleanup | wait _ => rfl

/-- One act keeps the store and the chronicle together. -/
theorem Shows.perform (h : Shows s c) (a : Act) : Shows (a.perform s).2 (c.note a) := by
  cases a with
  | get key =>
    refine ⟨h.now, h.ordered.get s.now key, ?_⟩
    intro k t later
    exact (Entries.live?_get later).trans (h.live k t later)
  | delete key =>
    refine ⟨h.now, h.ordered.delete s.now key, ?_⟩
    intro k t later
    have left : ((Act.delete key).perform s).2.entries.live? t k =
        if k = key then none else s.entries.live? t k := Entries.live?_erase
    rw [left]
    by_cases same : k = key
    · rw [if_pos same, Chronicle.standing?_delete, if_pos same.symm]
      rfl
    · rw [if_neg same, Chronicle.standing?_delete, if_neg (Ne.symm same)]
      exact h.live k t later
  | keys => exact ⟨h.now, h.ordered, h.live⟩
  | set key value ttl =>
    by_cases fits : s.now + ttl < Clock.horizon
    · rw [perform_set_of_fits fits]
      refine ⟨h.now, Keyed.Ordered.insert h.ordered key _, ?_⟩
      intro k t later
      rw [Entries.live?_insert, Chronicle.standing?_set, ← h.now]
      by_cases same : key = k
      · rw [if_pos same, if_pos ⟨same, fits⟩]
      · rw [if_neg same, if_neg (fun both => same both.1)]
        exact h.live k t later
    · rw [perform_set_of_late fits]
      refine ⟨h.now, h.ordered, ?_⟩
      intro k t later
      rw [Chronicle.standing?_set, ← h.now, if_neg (fun both => fits both.2)]
      exact h.live k t later
  | clear =>
    refine ⟨h.now, Entries.ordered_empty, ?_⟩
    intro k t _
    rfl
  | cleanup =>
    refine ⟨h.now, h.ordered.cleanup s.now, ?_⟩
    intro k t later
    exact (Entries.live?_cleanup h.ordered later).trans (h.live k t later)
  | wait d =>
    refine ⟨congrArg (· + d) h.now, h.ordered, ?_⟩
    intro k t later
    exact h.live k t (Nat.le_trans (Nat.le_add_right s.now d) later)

theorem Shows.after (h : Shows s c) (acts : List Act) :
    Shows (after acts s) (acts.foldl Chronicle.note c) := by
  unfold Shelf.after
  induction acts generalizing s c with
  | nil => exact h
  | cons a acts ih => exact ih (h.perform a)

namespace Chronicle

variable {d : Chronicle}

/-- Two chronicles of one time that say the same of every key. -/
def Agree (c d : Chronicle) : Prop :=
  c.now = d.now ∧ ∀ key, standing? key c.past = standing? key d.past

theorem Agree.note (h : Agree c d) (a : Act) : Agree (c.note a) (d.note a) := by
  obtain ⟨now, same⟩ := h
  cases a with
  | wait t => exact ⟨congrArg (· + t) now, same⟩
  | set k value ttl =>
    refine ⟨now, fun key => ?_⟩
    rw [standing?_set, standing?_set, now, same key]
  | delete k =>
    refine ⟨now, fun key => ?_⟩
    rw [standing?_delete, standing?_delete, same key]
  | clear => exact ⟨now, fun _ => rfl⟩
  | get _ | keys | cleanup => exact ⟨now, same⟩

/-- What changes nothing need not be written down. -/
theorem Agree.skip (h : Agree c d) {a : Act} (idle : a.isChange = false) :
    Agree (c.note a) d := by
  cases a with
  | get _ | keys | cleanup => exact h
  | set _ _ _ | delete _ | clear | wait _ => cases idle

theorem agree_changes (acts : List Act) (h : Agree c d) :
    Agree (acts.foldl note c) ((acts.filter Act.isChange).foldl note d) := by
  induction acts generalizing c d with
  | nil => exact h
  | cons a acts ih =>
    by_cases change : a.isChange = true
    · rw [List.filter_cons_of_pos change]
      exact ih (h.note a)
    · rw [List.filter_cons_of_neg change]
      exact ih (h.skip (by simpa using change))

theorem Agree.visible? (h : Agree c d) (key : String) : c.visible? key = d.visible? key := by
  rw [Chronicle.visible?, h.1, h.2 key]
  rfl

/-- Nothing else can be told. -/
theorem Agree.told_eq (h : Agree c d) {a : Act}
    {told told' : Except ClockOverflow (Except CacheError Reply)} (tells : c.Tells a told)
    (tells' : d.Tells a told') : told = told' := by
  cases a with
  | get key | delete key =>
    unfold Tells at tells tells'
    rw [tells, tells', h.visible? key]
  | keys =>
    obtain ⟨ks, rfl, sorted, mem⟩ := tells
    obtain ⟨ks', rfl, sorted', mem'⟩ := tells'
    have same : ks = ks' := by
      apply List.Pairwise.eq_of_mem_iff sorted sorted'
      intro key
      rw [mem key, mem' key, h.visible? key]
    rw [same]
  | set key value ttl =>
    unfold Tells at tells tells'
    rw [tells, tells', h.1]
  | clear | cleanup | wait _ =>
    unfold Tells at tells tells'
    rw [tells, tells']

end Chronicle

/-- After any sequence of acts a store tells what its chronicle tells: the value last put under a
key as long as its time is not over, whether there was one to be deleted, and the keys that show
one, each once. It tells the same if nothing had been looked up, listed or cleaned up before. -/
theorem told_by_chronicle (start : Nat) (acts : List Act) (a : Act) :
    (acts.foldl Chronicle.note ⟨start, []⟩).Tells a (a.perform (after acts ⟨start, .empty⟩)).1 ∧
    (a.perform (after acts ⟨start, .empty⟩)).1 =
      (a.perform (after (acts.filter Act.isChange) ⟨start, .empty⟩)).1 := by
  have tells (acts : List Act) :
      (acts.foldl Chronicle.note ⟨start, []⟩).Tells a (a.perform (after acts ⟨start, .empty⟩)).1 :=
    ((shows_opened start).after acts).tells a
  refine ⟨tells acts, ?_⟩
  have agree : Chronicle.Agree (acts.foldl Chronicle.note ⟨start, []⟩)
      ((acts.filter Act.isChange).foldl Chronicle.note ⟨start, []⟩) :=
    Chronicle.agree_changes acts ⟨rfl, fun _ => rfl⟩
  exact agree.told_eq (tells acts) (tells (acts.filter Act.isChange))

/-- A value whose time is over at the very instant is not seen, and one put in its place is. -/
theorem value_over_at_the_instant :
    let acts : List Act := [.set "a" [1] 10, .set "b" [2] 60, .wait 10, .get "a", .set "a" [3] 5]
    (Act.keys.perform (after (acts.take 3) ⟨0, .empty⟩)).1 = .ok (.ok (.keys ["b"])) ∧
    ((Act.get "a").perform (after (acts.take 3) ⟨0, .empty⟩)).1 = .ok (.ok (.value none)) ∧
    ((Act.get "a").perform (after acts ⟨0, .empty⟩)).1 = .ok (.ok (.value (some [3]))) := by
  intro acts
  have expired : (Chronicle.mk 10 [(0, .set "b" [2] 60), (0, .set "a" [1] 10)]).visible? "a" = none := by
    decide +kernel
  have replaced : (Chronicle.mk 10 [(10, .set "a" [3] 5), (10, .get "a"), (0, .set "b" [2] 60),
      (0, .set "a" [1] 10)]).visible? "a" = some [3] := by
    decide +kernel
  refine ⟨by decide +kernel, ?_, ?_⟩
  · rw [← expired]
    exact (told_by_chronicle 0 (acts.take 3) (.get "a")).1
  · rw [← replaced]
    exact (told_by_chronicle 0 acts (.get "a")).1

end Shelf

end Turnstile
