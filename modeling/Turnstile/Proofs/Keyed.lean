import Mathlib.Data.List.Forall2
import Mathlib.Data.List.Sort
import Turnstile.Keyed

namespace Turnstile.Keyed

variable {α : Type} {table : List (String × α)}

/-- Each key stands once, and smaller keys stand first. -/
def Ordered (table : List (String × α)) : Prop := (keys table).Pairwise (· < ·)

theorem ordered_nil : Ordered ([] : List (String × α)) := List.Pairwise.nil

theorem ordered_cons {key : String} {value : α} :
    Ordered ((key, value) :: table) ↔ (∀ k ∈ keys table, key < k) ∧ Ordered table :=
  List.pairwise_cons

theorem lt_of_not_lt {a b : String} (hne : a ≠ b) (h : ¬ b < a) : a < b := by
  apply Decidable.byContradiction
  intro hn
  exact hne (String.le_antisymm (String.not_lt.mp h) (String.not_lt.mp hn))

theorem mem_keys_insert {key k : String} {value : α} (h : k ∈ keys (insert key value table)) :
    k = key ∨ k ∈ keys table := by
  induction table with
  | nil => simpa [insert, keys] using h
  | cons m rest ih =>
    simp only [insert] at h
    split at h
    · next eq => simp_all [keys]
    · split at h
      · simpa [keys] using h
      · simp only [keys, List.map_cons, List.mem_cons] at h ih ⊢
        grind

theorem Ordered.insert (h : Ordered table) (key : String) (value : α) :
    Ordered (Keyed.insert key value table) := by
  induction table with
  | nil => simp [Keyed.insert, Ordered, keys]
  | cons m rest ih =>
    obtain ⟨k, v⟩ := m
    obtain ⟨first, later⟩ := ordered_cons.mp h
    simp only [Keyed.insert]
    split
    · next eq => exact ordered_cons.mpr ⟨eq ▸ first, later⟩
    · next ne =>
      split
      · next lt =>
        refine ordered_cons.mpr ⟨?_, h⟩
        intro j hj
        rcases List.mem_cons.mp hj with rfl | hj
        · exact lt
        · exact String.lt_trans lt (first j hj)
      · next ge =>
        refine ordered_cons.mpr ⟨?_, ih later⟩
        intro j hj
        rcases mem_keys_insert hj with rfl | hj
        · exact lt_of_not_lt ne ge
        · exact first j hj

theorem mem_insert {key : String} {value : α} {m : String × α}
    (h : m ∈ insert key value table) : m = (key, value) ∨ m ∈ table := by
  induction table with
  | nil => simpa [insert] using h
  | cons n rest ih =>
    rw [insert] at h
    split at h
    · obtain rfl | later := List.mem_cons.mp h
      · exact .inl rfl
      · exact .inr (List.mem_cons_of_mem _ later)
    · split at h
      · obtain rfl | later := List.mem_cons.mp h
        · exact .inl rfl
        · exact .inr later
      · obtain rfl | later := List.mem_cons.mp h
        · exact .inr List.mem_cons_self
        · exact (ih later).imp_right (List.mem_cons_of_mem _)

theorem ordered_ofList (members : List (String × α)) : Ordered (ofList members) := by
  have fold (members table : List (String × α)) (h : Ordered table) :
      Ordered (members.foldl (fun acc m => insert m.1 m.2 acc) table) := by
    induction members generalizing table with
    | nil => exact h
    | cons m members ih => exact ih _ (h.insert _ _)
  exact fold members [] ordered_nil

/-- A table holds nothing but members of the list that it is made of. -/
theorem mem_of_mem_ofList {members : List (String × α)} {m : String × α}
    (h : m ∈ ofList members) : m ∈ members := by
  have fold (members table : List (String × α))
      (h : m ∈ members.foldl (fun acc m => insert m.1 m.2 acc) table) :
      m ∈ members ∨ m ∈ table := by
    induction members generalizing table with
    | nil => exact .inr h
    | cons n members ih =>
      rcases ih _ h with later | found
      · exact .inl (List.mem_cons_of_mem _ later)
      · rcases mem_insert found with rfl | found
        · exact .inl List.mem_cons_self
        · exact .inr found
  simpa using fold members [] h

theorem Ordered.filter (h : Ordered table) (p : String × α → Bool) : Ordered (table.filter p) :=
  List.Pairwise.sublist (List.filter_sublist.map _) h

theorem erase_eq_filter (key : String) (table : List (String × α)) :
    erase key table = table.filter fun m => m.1 != key := by
  induction table with
  | nil => rfl
  | cons m rest ih =>
    simp only [erase]
    by_cases same : m.1 = key
    · rw [if_pos same, List.filter_cons_of_neg (by simp [same]), ih]
    · rw [if_neg same, List.filter_cons_of_pos (by simp [same]), ih]

theorem Ordered.erase (h : Ordered table) (key : String) : Ordered (Keyed.erase key table) := by
  rw [erase_eq_filter]
  exact h.filter _

theorem mem_keys_iff {key : String} : key ∈ keys table ↔ (get? key table).isSome := by
  induction table with
  | nil => simp [keys]
  | cons m rest ih =>
    simp only [keys, List.map_cons, List.mem_cons, get?] at ih ⊢
    by_cases same : m.1 = key
    · simp [same]
    · rw [if_neg same, ← ih]
      simp [Ne.symm same]

theorem get?_eq_none_of_notMem {key : String} (h : key ∉ keys table) : get? key table = none := by
  rw [mem_keys_iff] at h
  simpa using h

theorem mem_of_get? {key : String} {value : α} (found : get? key table = some value) :
    (key, value) ∈ table := by
  induction table with
  | nil => cases found
  | cons m rest ih =>
    rw [get?] at found
    split at found
    · next same =>
      cases found
      rw [← same]
      exact List.mem_cons_self
    · exact List.mem_cons_of_mem _ (ih found)

/-- A key that stands later is not the first one. -/
theorem get?_cons_of_mem_keys {k key : String} {value : α} (h : Ordered ((k, value) :: table))
    (mem : key ∈ keys table) : get? key ((k, value) :: table) = get? key table := by
  rw [get?, if_neg]
  rintro rfl
  exact String.lt_irrefl k ((ordered_cons.mp h).1 k mem)

section Alike

variable {β : Type} {r : α → β → Prop} {other : List (String × β)}

/-- The tables have the same keys and related values under them. -/
def Alike (r : α → β → Prop) (table : List (String × α)) (other : List (String × β)) : Prop :=
  List.Forall₂ (fun m n => m.1 = n.1 ∧ r m.2 n.2) table other

theorem Alike.keys_eq (h : Alike r table other) : keys table = keys other := by
  induction h with
  | nil => rfl
  | cons first _ ih => exact congrArg₂ List.cons first.1 ih

theorem Alike.related (h : Alike r table other) {key : String} {a : α} {b : β}
    (ha : get? key table = some a) (hb : get? key other = some b) : r a b := by
  induction h with
  | nil => cases ha
  | cons first _ ih =>
    rw [get?] at ha hb
    split at ha
    · next here =>
      rw [if_pos (first.1 ▸ here)] at hb
      cases ha
      cases hb
      exact first.2
    · next there =>
      rw [if_neg (first.1 ▸ there)] at hb
      exact ih ha hb

/-- Tables in order are alike when they are under every key. -/
theorem alike_of_ordered (hm : Ordered table) (hn : Ordered other)
    (same : ∀ key, key ∈ keys table ↔ key ∈ keys other)
    (under : ∀ key a b, get? key table = some a → get? key other = some b → r a b) :
    Alike r table other := by
  have antisymm : Std.Antisymm fun a b : String => a < b :=
    ⟨fun a b lt gt => absurd (String.lt_trans lt gt) (String.lt_irrefl a)⟩
  have irrefl : Std.Irrefl fun a b : String => a < b := ⟨String.lt_irrefl⟩
  have ordered : keys table = keys other := List.Pairwise.eq_of_mem_iff hm hn same
  clear same
  induction table generalizing other with
  | nil =>
    obtain rfl : other = [] := List.map_eq_nil_iff.mp ordered.symm
    exact .nil
  | cons m table ih =>
    obtain ⟨k, a⟩ := m
    obtain _ | ⟨⟨l, b⟩, other⟩ := other
    · cases ordered
    · obtain ⟨rfl, later⟩ : k = l ∧ keys table = keys other := List.cons.inj ordered
      refine .cons ⟨rfl, under k a b (if_pos rfl) (if_pos rfl)⟩ (ih (ordered_cons.mp hm).2
        (ordered_cons.mp hn).2 (fun key a b ha hb => under key a b ?_ ?_) later)
      · rw [get?_cons_of_mem_keys hm (mem_keys_iff.mpr (by simp [ha])), ha]
      · rw [get?_cons_of_mem_keys hn (mem_keys_iff.mpr (by simp [hb])), hb]

end Alike

/-- Leaving out values by a test leaves out a key exactly when its value fails the test. -/
theorem get?_filter (h : Ordered table) (p : α → Bool) (key : String) :
    get? key (table.filter fun m => p m.2) = (get? key table).filter p := by
  induction table with
  | nil => rfl
  | cons m rest ih =>
    obtain ⟨k, v⟩ := m
    obtain ⟨first, later⟩ := ordered_cons.mp h
    by_cases hk : k = key
    · subst hk
      have absent : get? k (rest.filter fun m => p m.2) = none := by
        apply get?_eq_none_of_notMem
        intro hmem
        have hin : k ∈ keys rest := (List.filter_sublist.map _).subset hmem
        exact String.lt_irrefl k (first k hin)
      cases hp : p v <;> simp [get?, hp, absent, Option.filter]
    · cases hp : p v <;> simp [get?, hp, hk, ih later]

/-- Of two tables in a row, the first one that has a key counts. -/
theorem get?_append (key : String) (front back : List (String × α)) :
    get? key (front ++ back) = (get? key front).or (get? key back) := by
  induction front with
  | nil => rfl
  | cons m front ih =>
    obtain ⟨k, v⟩ := m
    rw [List.cons_append, get?, get?, ih]
    split <;> rfl

/-- Leaving out keys by a test leaves the others as they are, also in a table without order. -/
theorem get?_filter_keys {p : String → Bool} {key : String} (kept : p key = true) :
    get? key (table.filter fun m => p m.1) = get? key table := by
  induction table with
  | nil => rfl
  | cons m rest ih =>
    obtain ⟨k, v⟩ := m
    by_cases here : p k = true
    · simp only [List.filter_cons, here, if_true, get?, ih]
    · have other : k ≠ key := by
        rintro rfl
        exact here kept
      simp only [List.filter_cons, here, Bool.false_eq_true, if_false, ih, get?, if_neg other]

end Turnstile.Keyed
