import Turnstile.Proofs.Cache.Service

/-!
The lookups that a cache has counted. Whatever is done with the cache, its counts are those of the
lookups noted beside it, of which each is a hit if there was a live entry then
(`lookups_counted_exactly`); nothing but lookups and resets moves them.
-/

namespace Turnstile

theorem Lookups.count_record (l : Lookups) (key : String) (isHit : Bool) (k : String) :
    (l.record key isHit).count k = if key = k then (l.count key).record isHit else l.count k := by
  simp only [count, record, Keyed.get?_insert]
  split <;> rfl

theorem Lookups.mem_keys_record {l : Lookups} {key : String} {isHit : Bool} {k : String} :
    k ∈ Keyed.keys (l.record key isHit).table ↔ key = k ∨ k ∈ Keyed.keys l.table := by
  simp only [Keyed.mem_keys_iff, record, Keyed.get?_insert]
  by_cases same : key = k <;> simp [same]

namespace Cabinet

variable {ttl : Nat} {c : Cabinet}

/-- The hits and misses of a key among lookups, as words. -/
def tally (looked : List (String × Bool)) (key : String) : LookupCount where
  hits := UInt64.ofNat (looked.count (key, true))
  misses := UInt64.ofNat (looked.count (key, false))

/-- A word holds its number of lookups as long as that is less than `2 ^ 64`. -/
theorem toNat_tally (looked : List (String × Bool)) (key : String) :
    (looked.count (key, true) < Nat.pow 2 64 →
      (tally looked key).hits.toNat = looked.count (key, true)) ∧
    (looked.count (key, false) < Nat.pow 2 64 →
      (tally looked key).misses.toNat = looked.count (key, false)) :=
  ⟨fun few => UInt64.toNat_ofNat_of_lt' few, fun few => UInt64.toNat_ofNat_of_lt' few⟩

structure Tallied (lookups : Lookups) (looked : List (String × Bool)) : Prop where
  counted : ∀ key, lookups.count key = tally looked key
  listed : ∀ key, key ∈ Keyed.keys lookups.table ↔ ∃ isHit, (key, isHit) ∈ looked
  ordered : Keyed.Ordered lookups.table

theorem tallied_empty : Tallied .empty [] where
  counted _ := rfl
  listed _ := by simp [Lookups.empty, Keyed.keys]
  ordered := Keyed.ordered_nil

theorem tally_snoc (looked : List (String × Bool)) (key : String) (isHit : Bool) (k : String) :
    tally (looked ++ [(key, isHit)]) k =
      if key = k then (tally looked key).record isHit else tally looked k := by
  by_cases same : key = k
  · subst same
    cases isHit <;> simp [tally, LookupCount.record, List.count_append]
  · simp [tally, List.count_append, same]

theorem Tallied.record {lookups : Lookups} {looked : List (String × Bool)}
    (h : Tallied lookups looked) (key : String) (isHit : Bool) :
    Tallied (lookups.record key isHit) (looked ++ [(key, isHit)]) where
  counted k := by rw [Lookups.count_record, tally_snoc, h.counted, h.counted]
  listed k := by
    rw [Lookups.mem_keys_record, h.listed]
    constructor
    · rintro (rfl | ⟨found, mem⟩)
      · exact ⟨isHit, by simp⟩
      · exact ⟨found, List.mem_append_left _ mem⟩
    · rintro ⟨found, mem⟩
      obtain mem | mem := List.mem_append.mp mem
      · exact .inr ⟨found, mem⟩
      · obtain ⟨rfl, -⟩ : k = key ∧ found = isHit := by simpa using mem
        exact .inl rfl
  ordered := h.ordered.insert _ _

/-- What is done with the entries leaves the counts alone. -/
theorem survives_counts (P : Lookups → List (String × Bool) → Prop) :
    Survives fun c => P c.lookups c.looked where
  get key c holds := holds
  set key value span c holds := by
    rw [store_set]
    cases Clock.after c.now span <;> exact holds
  delete key c holds := holds
  clear c holds := holds
  later d c holds := holds
  cleanup c holds := holds

/-- A lookup sees what is live, and counts that. -/
theorem lookUp_apply {α : Type} (read : List UInt8 → Option α) (key : String) (c : Cabinet) :
    lookUp ttl read key c =
      (.ok (Cache.decode read ((c.entries.live? c.now key).map (·.value))),
        { c with entries := (c.entries.get c.now key).2,
                 lookups := c.lookups.record key (c.entries.live? c.now key).isSome,
                 looked := c.looked ++ [(key, (c.entries.live? c.now key).isSome)] }) := by
  have seen : lookUp ttl read key c =
      (.ok (Cache.decode read (c.entries.get c.now key).1),
        { c with entries := (c.entries.get c.now key).2,
                 lookups := c.lookups.record key (c.entries.get c.now key).1.isSome,
                 looked := c.looked ++ [(key, (c.entries.live? c.now key).isSome)] }) := rfl
  rw [seen, Entries.get_fst, Option.isSome_map]

theorem counts_tallied (ttl : Nat) : Counts ttl fun c => Tallied c.lookups c.looked where
  toSurvives := survives_counts Tallied
  look read key c holds := by
    rw [lookUp_apply]
    exact holds.record key _
  reset _ _ := tallied_empty

/-- Behind a lookup that has found no value, nothing but the making of one moves the counts. -/
theorem lookups_orMake {α : Type} (write : α → Option Json.Value) (key : String) (acts : List Act)
    (made : Cabinet → α) (span : Option Nat) {seen : Except CacheError (Option α)}
    (none_found : ∀ a, seen ≠ .ok (some a)) (c : Cabinet) :
    (orMake write key acts made span ttl seen c).2.lookups =
      (Act.performAll ttl acts c).2.lookups := by
  have making : orMake write key acts made span ttl seen = make write key acts made span ttl := by
    unfold orMake
    split
    · next a => exact absurd rfl (none_found a)
    · rfl
  rw [making, make, Run.bind_apply]
  rcases Act.performAll ttl acts c with ⟨e | _, d⟩
  · rfl
  · exact ((survives_counts fun lookups _ => lookups = d.lookups).set_value key (write (made d))
      span).discard d rfl

/-- The counts of a cache are exact. Whatever has been done with it, a key has as many hits as
lookups of it have found a live entry since the last reset, and as many misses as others, as far as
a word can count; all counts together are those of the keys that have been looked up since then,
each once. Nothing that looks nothing up moves a count, and where a lookup makes a value, what comes
behind it moves those that the making moves, and none where the value is put into the store. -/
theorem lookups_counted_exactly (ttl : Nat) (acts : List Act) :
    let c := Cabinet.after ttl acts {}
    (∀ key, (cache ttl).stats key c = (.ok (tally c.looked key), c) ∧
      (c.looked.count (key, true) < Nat.pow 2 64 →
        (tally c.looked key).hits.toNat = c.looked.count (key, true)) ∧
      (c.looked.count (key, false) < Nat.pow 2 64 →
        (tally c.looked key).misses.toNat = c.looked.count (key, false))) ∧
    (∃ all, (cache ttl).allStats c = (.ok all, c) ∧ (Keyed.keys all.table).Pairwise (· < ·) ∧
      (∀ key, key ∈ Keyed.keys all.table ↔ ∃ isHit, (key, isHit) ∈ c.looked) ∧
      ∀ key count, Keyed.get? key all.table = some count → count = tally c.looked key) ∧
    (∀ a : Act, a.isQuiet = true → (a.perform ttl c).2.lookups = c.lookups) ∧
    ∀ {α : Type} (read : List UInt8 → Option α) write key acts (made : Cabinet → α) span,
      let seen := lookUp ttl read key c
      let left := (Act.getOrSet read write key acts made span).perform ttl c
      (∀ a, seen.1 = .ok (.ok (some a)) → left.2.lookups = seen.2.lookups) ∧
      ((∀ a, seen.1 ≠ .ok (.ok (some a))) →
        left.2.lookups = (Act.performAll ttl acts seen.2).2.lookups) := by
  intro c
  have tallied : Tallied c.lookups c.looked := (counts_tallied ttl).after acts tallied_empty
  refine ⟨?_, ⟨c.lookups, rfl, tallied.ordered, tallied.listed, ?_⟩, ?_, ?_⟩
  · intro key
    refine ⟨?_, toNat_tally c.looked key⟩
    rw [← tallied.counted key]
    rfl
  · intro key count found
    rw [← tallied.counted key, Lookups.count, found, Option.getD_some]
  · intro a quiet
    exact (survives_counts fun lookups _ => lookups = c.lookups).perform_of_quiet quiet c rfl
  · intro α read write key acts made span seen left
    have behind : left = orMake write key acts made span ttl
        (Cache.decode read ((c.entries.live? c.now key).map (·.value))) seen.2 := by
      simp only [left, perform_getOrSet, Run.bind_apply, seen, lookUp_apply]
    have found : seen.1 = .ok (Cache.decode read ((c.entries.live? c.now key).map (·.value))) :=
      congrArg Prod.fst (lookUp_apply read key c)
    rw [behind, found]
    constructor
    · intro a same
      rw [Except.ok.inj same]
      rfl
    · intro none_found
      exact lookups_orMake write key acts made span (fun a same => none_found a (by rw [same])) _

section Case

/-- Reads no entry. -/
def unreadable : List UInt8 → Option Unit := fun _ => none

/-- A value is put under a key, looked at twice without success, and looked up once more to make a
value for another key; then its time is over. -/
def fourLookups : List Act :=
  [.set "a" (some (.ofNat 7)) none, .get unreadable "a", .peek unreadable "a",
    .getOrSet unreadable (fun _ => some (.ofNat 1)) "b" [.get unreadable "a"] (fun _ => ()) none,
    .wait (60 * Clock.second), .cleanup, .get some "a", .deletePrefix ""]

/-- Entries that cannot be read count as hits; looking without counting, putting, deleting and time
count as nothing. -/
theorem four_lookups_counted :
    let c := Cabinet.after (60 * Clock.second) fourLookups {}
    c.looked = [("a", true), ("b", false), ("a", true), ("a", false)] ∧
    (cache (60 * Clock.second)).stats "a" c = (.ok ⟨2, 1⟩, c) ∧
    (cache (60 * Clock.second)).stats "b" c = (.ok ⟨0, 1⟩, c) ∧
    ((Act.delete "a").perform (60 * Clock.second) c).2.lookups = c.lookups := by
  intro c
  obtain ⟨counted, -, quiet, -⟩ := lookups_counted_exactly (60 * Clock.second) fourLookups
  have looked : c.looked = [("a", true), ("b", false), ("a", true), ("a", false)] := by
    decide +kernel
  refine ⟨looked, ?_, ?_, quiet (.delete "a") rfl⟩
  · have told : tally c.looked "a" = ⟨2, 1⟩ := by rw [looked]; decide
    exact told ▸ (counted "a").1
  · have told : tally c.looked "b" = ⟨0, 1⟩ := by rw [looked]; decide
    exact told ▸ (counted "b").1

end Case

end Cabinet

end Turnstile
