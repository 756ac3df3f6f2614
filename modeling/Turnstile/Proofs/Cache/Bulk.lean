import Turnstile.Proofs.Cache.Service

namespace Turnstile

namespace Entries

variable {es : Entries} {now t : Nat} {keys : List String} {k : String}

/-- The entries without those under some keys. -/
def without (keys : List String) (es : Entries) : Entries :=
  keys.foldl (fun es key => ⟨Keyed.erase key es.table⟩) es

theorem get?_without (keys : List String) (es : Entries) (k : String) :
    Keyed.get? k (es.without keys).table = if k ∈ keys then none else Keyed.get? k es.table := by
  induction keys generalizing es with
  | nil => rfl
  | cons key keys ih =>
    refine (ih _).trans ?_
    rw [Keyed.get?_erase]
    by_cases here : k = key <;> by_cases later : k ∈ keys <;> simp [here, later]

/-- What is deleted is not seen any more. -/
theorem get_without_of_mem (mem : k ∈ keys) (t : Nat) : ((es.without keys).get t k).1 = none := by
  rw [get_fst, live?, get?_without, if_pos mem]
  rfl

theorem get_without_of_absent (absent : es.live? now k = none) (later : now ≤ t) :
    ((es.without keys).get t k).1 = none := by
  by_cases mem : k ∈ keys
  · exact get_without_of_mem mem t
  · have same : (es.without keys).live? t k = es.live? t k := by
      rw [live?, get?_without, if_neg mem, live?]
    rw [get_fst, same, live?_of_absent absent later]
    rfl

end Entries

/-- Deleting by the start of keys reports what deleting the listed keys does, or none. -/
theorem Cache.deletePrefix_of_listed {σ : Type} {c : Cache σ} {start : String} {keys : List String}
    {deleted : Except CacheError Nat} {s t u : σ} (listed : c.store.keys s = (.ok (.ok keys), t))
    (came : c.deleteMany (keys.filter fun k => start.toList.isPrefixOf k.toList) t =
      (.ok deleted, u)) :
    c.deletePrefix start s = (.ok (deleted.toOption.getD 0), u) := by
  rw [deletePrefix, Run.bind_of_ok listed]
  simp only
  rw [Run.bind_of_ok came]
  cases deleted <;> rfl

namespace Cabinet

variable {ttl : Nat} {c : Cabinet}

theorem counts_ordered (ttl : Nat) : Counts ttl fun c => c.entries.Ordered where
  get key c holds := holds.get c.now key
  set key value span c holds := by
    rw [store_set]
    cases Clock.after c.now span with
    | ok e => exact Keyed.Ordered.insert holds key ⟨value, e⟩
    | error o => exact holds
  delete key c holds := holds.delete c.now key
  clear _ _ := Entries.ordered_empty
  later d c holds := holds
  cleanup c holds := holds.cleanup c.now
  look read key c holds := holds.get c.now key
  reset c holds := holds

/-- The key has an entry that has not expired. -/
def IsLive (c : Cabinet) (k : String) : Prop := (c.entries.live? c.now k).isSome = true

/-- The cabinet without the entries under some keys. -/
def without (keys : List String) (c : Cabinet) : Cabinet :=
  { c with entries := c.entries.without keys }

theorem isLive_without_singleton {key k : String} :
    (c.without [key]).IsLive k ↔ k ≠ key ∧ c.IsLive k := by
  have erased : (c.without [key]).entries.live? c.now k =
      if k = key then none else c.entries.live? c.now k := Entries.live?_erase
  simp only [IsLive]
  rw [show (c.without [key]).now = c.now from rfl, erased]
  by_cases same : k = key <;> simp [same]

/-- Deleting keys counts those of them that are live, each once. -/
theorem exists_deleteMany (ttl : Nat) (keys : List String) (c : Cabinet) :
    ∃ ks : List String, ks.Nodup ∧ (∀ k, k ∈ ks ↔ k ∈ keys ∧ c.IsLive k) ∧
      (cache ttl).deleteMany keys c = (.ok (.ok ks.length), c.without keys) := by
  induction keys generalizing c with
  | nil => exact ⟨[], .nil, by simp, rfl⟩
  | cons key keys ih =>
    obtain ⟨ks, once, mem, rest⟩ := ih (c.without [key])
    have here : (cache ttl).store.delete key c =
        (.ok (.ok (c.entries.live? c.now key).isSome), c.without [key]) := rfl
    have deleted : (cache ttl).deleteMany (key :: keys) c =
        (.ok (.ok (ks.length + (c.entries.live? c.now key).isSome.toNat)), c.without (key :: keys)) := by
      rw [Cache.deleteMany, Run.bind_of_ok here]
      simp only
      rw [Run.bind_of_ok rest]
      rfl
    rw [deleted]
    simp only [isLive_without_singleton] at mem
    cases live : (c.entries.live? c.now key).isSome with
    | true =>
      have isLive : c.IsLive key := live
      refine ⟨key :: ks, List.nodup_cons.mpr ⟨?_, once⟩, ?_, rfl⟩
      · simp [mem]
      · intro k
        rw [List.mem_cons, List.mem_cons, mem]
        by_cases same : k = key
        · simp [same, isLive]
        · simp [same]
    | false =>
      have gone : ¬ c.IsLive key := by simp [IsLive, live]
      refine ⟨ks, once, ?_, rfl⟩
      intro k
      rw [List.mem_cons, mem]
      by_cases same : k = key
      · simp [same, gone]
      · simp [same]

/-- All entries under chosen keys are gone, and the others are as they were. The live ones among
those that are gone had the keys `ks`, each once. -/
structure Removed (c : Cabinet) (chosen : String → Prop) (ks : List String) (es : Entries) :
    Prop where
  once : ks.Nodup
  live : ∀ k, k ∈ ks ↔ chosen k ∧ c.IsLive k
  gone : ∀ k, chosen k → ∀ t, c.now ≤ t → (es.get t k).1 = none
  others : ∀ k, ¬ chosen k → Keyed.get? k es.table = Keyed.get? k c.entries.table

theorem exists_removed (ttl : Nat) (keys : List String) (c : Cabinet) :
    ∃ ks, c.Removed (· ∈ keys) ks (c.entries.without keys) ∧
      (cache ttl).deleteMany keys c = (.ok (.ok ks.length), c.without keys) := by
  obtain ⟨ks, once, live, deleted⟩ := exists_deleteMany ttl keys c
  refine ⟨ks, ⟨once, live, ?_, ?_⟩, deleted⟩
  · exact fun k inside t _ => Entries.get_without_of_mem inside t
  · exact fun k apart => by rw [Entries.get?_without, if_neg apart]

/-- The keys that a deletion by their start goes through. -/
def starting (start : String) (c : Cabinet) : List String :=
  (c.entries.keys c.now).filter fun k => start.toList.isPrefixOf k.toList

theorem mem_starting (ordered : c.entries.Ordered) (start k : String) :
    k ∈ c.starting start ↔ start.toList <+: k.toList ∧ c.IsLive k := by
  rw [starting, List.mem_filter, Entries.mem_keys_iff ordered, List.isPrefixOf_iff_prefix, and_comm]
  rfl

/-- Entries that are not live need not be deleted. -/
theorem Removed.of_starting (ordered : c.entries.Ordered) {start : String} {ks : List String}
    (h : c.Removed (· ∈ c.starting start) ks (c.entries.without (c.starting start))) :
    c.Removed (start.toList <+: ·.toList) ks (c.entries.without (c.starting start)) where
  once := h.once
  live k := by
    rw [h.live, mem_starting ordered]
    simp
  gone k front t later := by
    by_cases live : c.IsLive k
    · exact h.gone k ((mem_starting ordered start k).mpr ⟨front, live⟩) t later
    · exact Entries.get_without_of_absent (by simpa [IsLive] using live) later
  others k other := h.others k fun inside => other ((mem_starting ordered start k).mp inside).1

end Cabinet

/-- A cabinet, and of the operations on its store which fail next and how. Where nothing is said, an
operation does not fail. -/
structure Flaky where
  cabinet : Cabinet
  faults : List (Option CacheError)

namespace Flaky

def cabinetPart : Part Flaky Cabinet where
  get s := s.cabinet
  set c s := { s with cabinet := c }

def nextFault (s : Flaky) : Option CacheError × Flaky :=
  match s.faults with
  | [] => (none, s)
  | fault :: faults => (fault, { s with faults := faults })

/-- An operation that fails does nothing. -/
def attempt {α : Type} (x : Run Cabinet (Except CacheError α)) :
    Run Flaky (Except CacheError α) := do
  match ← Run.step nextFault with
  | some e => return .error e
  | none => cabinetPart.run x

def store : EntryStore Flaky where
  get key := attempt (Cabinet.store.get key)
  set key value span := attempt (Cabinet.store.set key value span)
  delete key := attempt (Cabinet.store.delete key)
  keys := attempt Cabinet.store.keys
  clear := attempt Cabinet.store.clear

def cache (ttl : Nat) : Cache Flaky := ⟨store, ttl, cabinetPart.inside Cabinet.lookupsPart⟩

/-- The next operations succeed, as many as stand in a list, and the one behind them fails. -/
def failingBehind (front : List String) (e : CacheError) (more : List (Option CacheError)) :
    List (Option CacheError) := front.map (fun _ => none) ++ some e :: more

variable {ttl : Nat}

/-- Deleting keys goes up to the first failure, and what was deleted before it stays so. -/
theorem deleteMany_failing (front back : List String) (key : String) (e : CacheError)
    (more : List (Option CacheError)) (c : Cabinet) :
    (cache ttl).deleteMany (front ++ key :: back) ⟨c, failingBehind front e more⟩ =
      (.ok (.error e), ⟨c.without front, more⟩) := by
  induction front generalizing c with
  | nil => rfl
  | cons first front ih =>
    have here : (cache ttl).store.delete first ⟨c, failingBehind (first :: front) e more⟩ =
        (.ok (.ok (c.entries.live? c.now first).isSome),
          ⟨c.without [first], failingBehind front e more⟩) := rfl
    rw [List.cons_append, Cache.deleteMany, Run.bind_of_ok here]
    simp only
    rw [Run.bind_of_ok (ih (c.without [first]))]
    rfl

/-- Deleting by the start of keys reports none where a deletion fails. -/
theorem deletePrefix_failing {start key : String} {front back : List String} {c : Cabinet}
    (cut : c.starting start = front ++ key :: back) (e : CacheError)
    (more : List (Option CacheError)) :
    (cache ttl).deletePrefix start ⟨c, none :: failingBehind front e more⟩ =
      (.ok 0, ⟨c.without front, more⟩) := by
  have deleted : (cache ttl).deleteMany (c.starting start) ⟨c, failingBehind front e more⟩ =
      (.ok (.error e), ⟨c.without front, more⟩) := by
    rw [cut]
    exact deleteMany_failing front back key e more c
  exact Cache.deletePrefix_of_listed rfl deleted

end Flaky

namespace Cabinet

/-- Deletion of many keys takes away exactly what it reports. Deleting by the start of keys reports
how many live keys have it, and leaves all others as they were. Deleting a list of keys reports how
many of them are live, each once, and leaves the others. With a store that fails, deleting by the
start of keys reports none, and deleting a list the first failure, after the keys before it have
been deleted. -/
theorem bulk_deletion_exact (ttl : Nat) (acts : List Act) :
    let c := Cabinet.after ttl acts {}
    (∀ start : String, ∃ ks es, c.Removed (start.toList <+: ·.toList) ks es ∧
      (cache ttl).deletePrefix start c = (.ok ks.length, { c with entries := es })) ∧
    (∀ keys, ∃ ks es, c.Removed (· ∈ keys) ks es ∧
      (cache ttl).deleteMany keys c = (.ok (.ok ks.length), { c with entries := es })) ∧
    ∀ e more,
      (∀ front key back, ∃ ks es, c.Removed (· ∈ front) ks es ∧
        (Flaky.cache ttl).deleteMany (front ++ key :: back) ⟨c, Flaky.failingBehind front e more⟩ =
          (.ok (.error e), ⟨{ c with entries := es }, more⟩)) ∧
      ∀ start,
        (Flaky.cache ttl).deletePrefix start ⟨c, some e :: more⟩ = (.ok 0, ⟨c, more⟩) ∧
        ∀ front key back, c.starting start = front ++ key :: back →
          ∃ ks es, c.Removed (· ∈ front) ks es ∧
            (Flaky.cache ttl).deletePrefix start ⟨c, none :: Flaky.failingBehind front e more⟩ =
              (.ok 0, ⟨{ c with entries := es }, more⟩) := by
  intro c
  have ordered : c.entries.Ordered := (counts_ordered ttl).after acts Entries.ordered_empty
  refine ⟨?byStart, ?byList, ?failing⟩
  case byStart =>
    intro start
    obtain ⟨ks, removed, deleted⟩ := exists_removed ttl (c.starting start) c
    exact ⟨ks, _, removed.of_starting ordered, Cache.deletePrefix_of_listed rfl deleted⟩
  case byList =>
    intro keys
    obtain ⟨ks, removed, deleted⟩ := exists_removed ttl keys c
    exact ⟨ks, _, removed, deleted⟩
  case failing =>
    intro e more
    constructor
    · intro front key back
      obtain ⟨ks, removed, -⟩ := exists_removed ttl front c
      exact ⟨ks, _, removed, Flaky.deleteMany_failing front back key e more c⟩
    · intro start
      refine ⟨rfl, fun front key back cut => ?_⟩
      obtain ⟨ks, removed, -⟩ := exists_removed ttl front c
      exact ⟨ks, _, removed, Flaky.deletePrefix_failing cut e more⟩

section Case

/-- Two sessions, of which the second is over, and something else. -/
def twoSessions : List Act :=
  [.set "session:1" (some (.ofNat 1)) none, .set "session:2" (some (.ofNat 2)) (some Clock.second),
    .set "motd" (some (.ofNat 3)) none, .wait Clock.second]

/-- One session is reported; and where the second deletion of a list fails, the first key is gone. -/
theorem one_session_removed :
    let c := Cabinet.after (60 * Clock.second) twoSessions {}
    (∃ ks es, c.Removed ("session:".toList <+: ·.toList) ks es ∧ ks.length = 1 ∧
      Keyed.get? "motd" es.table = Keyed.get? "motd" c.entries.table) ∧
    ((cache (60 * Clock.second)).deleteMany ["session:1", "session:2", "session:1", "?"] c).1 =
      .ok (.ok 1) ∧
    ∃ ks es, c.Removed (· ∈ ["session:1"]) ks es ∧
      (Flaky.cache (60 * Clock.second)).deleteMany ["session:1", "motd"]
        ⟨c, [none, some (.backend "down")]⟩ =
          (.ok (.error (.backend "down")), ⟨{ c with entries := es }, []⟩) := by
  intro c
  obtain ⟨byStart, -, failing⟩ := bulk_deletion_exact (60 * Clock.second) twoSessions
  obtain ⟨ks, es, removed, reported⟩ := byStart "session:"
  obtain ⟨halfway, -⟩ := failing (.backend "down") []
  have one : ((cache (60 * Clock.second)).deletePrefix "session:" c).1 = .ok 1 := by decide +kernel
  have length : ks.length = 1 := Except.ok.inj ((congrArg Prod.fst reported).symm.trans one)
  refine ⟨⟨ks, es, removed, length, ?_⟩, by decide +kernel, halfway ["session:1"] "motd" []⟩
  exact removed.others "motd" (by decide +kernel)

end Case

end Cabinet

end Turnstile
