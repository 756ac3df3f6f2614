import Turnstile.Cache.Entries
import Turnstile.Proofs.Keyed

namespace Turnstile.Entries

variable {es : Entries} {now t : Nat} {key k : String}

theorem get_fst (now : Nat) (key : String) (es : Entries) :
    (es.get now key).1 = (es.live? now key).map (·.value) := by
  rw [get, live?]
  cases Keyed.get? key es.table with
  | none => rfl
  | some e => cases expired : e.isExpired now <;> simp [expired, Option.filter]

/-- A lookup that sees an entry leaves the store as it is. -/
theorem get_snd_of_live {e : Entry} (h : es.live? now key = some e) : (es.get now key).2 = es := by
  rw [live?] at h
  obtain ⟨stored, live⟩ := Option.filter_eq_some_iff.mp h
  simp_all [get]

theorem isExpired_mono {e : Entry} (h : e.isExpired now = true) (later : now ≤ t) :
    e.isExpired t = true := by
  simp only [Entry.isExpired, decide_eq_true_eq] at h ⊢
  omega

/-- What is not seen now will not be seen later. -/
theorem live?_of_absent (h : es.live? now k = none) (later : now ≤ t) : es.live? t k = none := by
  rw [live?, Option.filter_eq_none_iff] at h ⊢
  intro e stored
  have expired : e.isExpired now = true := by simpa using h e stored
  simp [isExpired_mono expired later]

/-- What a lookup drops would not be seen again. -/
theorem live?_get (later : now ≤ t) : (es.get now key).2.live? t k = es.live? t k := by
  rw [get]
  split
  · rfl
  · next e stored =>
    split
    · next expired =>
      simp only [live?, Keyed.get?_erase]
      by_cases same : k = key
      · subst same
        simp [stored, Option.filter, isExpired_mono expired later]
      · rw [if_neg same]
    · rfl

theorem live?_erase :
    (⟨Keyed.erase key es.table⟩ : Entries).live? t k = if k = key then none else es.live? t k := by
  simp only [live?, Keyed.get?_erase]
  by_cases same : k = key
  · subst same
    simp
  · simp [same]

/-- A lookup brings nothing back. -/
theorem live?_of_get {e : Entry} (h : (es.get now key).2.live? t k = some e) :
    es.live? t k = some e := by
  rw [get] at h
  split at h
  · exact h
  · split at h
    · rw [live?_erase, Option.ite_none_left_eq_some] at h
      exact h.2
    · exact h

theorem live?_insert (e : Entry) :
    (⟨Keyed.insert key e es.table⟩ : Entries).live? t k =
      if key = k then (some e).filter fun e => !e.isExpired t else es.live? t k := by
  simp only [live?, Keyed.get?_insert]
  split <;> rfl

/-- Each key stands once and in order, as it does in every table that a store builds up. -/
def Ordered (es : Entries) : Prop := Keyed.Ordered es.table

theorem ordered_empty : Ordered empty := Keyed.ordered_nil

theorem Ordered.get (h : es.Ordered) (now : Nat) (key : String) :
    (Entries.get now key es).2.Ordered := by
  rw [Entries.get]
  split
  · exact h
  · split
    · exact Keyed.Ordered.erase h key
    · exact h

theorem Ordered.delete (h : es.Ordered) (now : Nat) (key : String) :
    (Entries.delete now key es).2.Ordered :=
  Keyed.Ordered.erase h key

theorem Ordered.cleanup (h : es.Ordered) (now : Nat) : (es.cleanup now).Ordered :=
  Keyed.Ordered.filter h _

/-- A cleanup leaves what is live. -/
theorem get?_cleanup (h : es.Ordered) (now : Nat) (k : String) :
    Keyed.get? k (es.cleanup now).table = es.live? now k :=
  Keyed.get?_filter h (fun e => !e.isExpired now) k

/-- What a cleanup drops would not be seen again. -/
theorem live?_cleanup (h : es.Ordered) (later : now ≤ t) :
    (es.cleanup now).live? t k = es.live? t k := by
  rw [live?, get?_cleanup h, live?, live?]
  cases Keyed.get? k es.table with
  | none => rfl
  | some e =>
    by_cases expired : e.isExpired now = true
    · simp [Option.filter, expired, isExpired_mono expired later]
    · simp [Option.filter, expired]

/-- The keys that are listed stand in order, so each of them once. -/
theorem Ordered.keys (h : es.Ordered) (now : Nat) : (es.keys now).Pairwise (· < ·) :=
  h.cleanup now

theorem mem_keys_iff (h : es.Ordered) : k ∈ es.keys now ↔ (es.live? now k).isSome := by
  have listed : es.keys now = Keyed.keys (es.cleanup now).table := rfl
  rw [listed, Keyed.mem_keys_iff, get?_cleanup h]

end Turnstile.Entries
