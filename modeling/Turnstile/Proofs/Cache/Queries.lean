import Mathlib.Data.List.TakeWhile
import Turnstile.Proofs.Cache.Sharing

/-!
Which queries have one key. The pairs of a query are sorted by name and equal names keep their
order, so a key tells the values of each name in order and nothing more about the order of pairs.
`keys_follow_values` says so, what it means for two pairs that change places, and that the end of a
key is itself a query with that key.
-/

namespace Turnstile

namespace Form

def values (name : String) (pairs : List (String × String)) : List String :=
  (pairs.filter fun p => p.1 == name).map (·.2)

theorem values_append (name : String) (xs ys : List (String × String)) :
    values name (xs ++ ys) = values name xs ++ values name ys := by
  unfold values
  rw [List.filter_append, List.map_append]

theorem values_cons_self (p : String × String) (pairs : List (String × String)) :
    values p.1 (p :: pairs) = p.2 :: values p.1 pairs := by
  unfold values
  rw [List.filter_cons_of_pos (by simp), List.map_cons]

theorem values_cons_of_ne {name : String} {p : String × String} (h : p.1 ≠ name)
    (pairs : List (String × String)) : values name (p :: pairs) = values name pairs := by
  unfold values
  rw [List.filter_cons_of_neg (by simpa using h)]

theorem mem_values_iff {name value : String} {pairs : List (String × String)} :
    value ∈ values name pairs ↔ (name, value) ∈ pairs := by
  unfold values
  rw [List.mem_map]
  constructor
  · rintro ⟨p, mem, rfl⟩
    rw [List.mem_filter, beq_iff_eq] at mem
    obtain ⟨mem, rfl⟩ := mem
    exact mem
  · intro mem
    refine ⟨(name, value), ?_, rfl⟩
    rw [List.mem_filter]
    exact ⟨mem, by simp⟩

/-- The values of all names tell which pairs there are. -/
theorem mem_iff_of_values {xs ys : List (String × String)}
    (h : ∀ name, values name xs = values name ys) (p : String × String) : p ∈ xs ↔ p ∈ ys := by
  have mem (zs : List (String × String)) : p ∈ zs ↔ p.2 ∈ values p.1 zs := mem_values_iff.symm
  rw [mem, mem, h]

/-- What the sorting of pairs goes by. -/
def inOrder (p q : String × String) : Bool := p.1 ≤ q.1

theorem inOrder_trans (p q r : String × String) (hpq : inOrder p q = true)
    (hqr : inOrder q r = true) : inOrder p r = true := by
  simp only [inOrder, decide_eq_true_eq] at *
  exact String.le_trans hpq hqr

theorem inOrder_total (p q : String × String) : (inOrder p q || inOrder q p) = true := by
  simp only [inOrder, Bool.or_eq_true, decide_eq_true_eq]
  exact String.le_total p.1 q.1

/-- Sorting is stable: the pairs of one name stay in order. -/
theorem filter_mergeSort (name : String) (pairs : List (String × String)) :
    (pairs.mergeSort inOrder).filter (fun p => p.1 == name) =
      pairs.filter (fun p => p.1 == name) := by
  have alike : (pairs.filter fun p => p.1 == name).Pairwise fun p q => inOrder p q = true := by
    apply List.pairwise_of_forall_mem_list
    intro p hp q hq
    rw [List.mem_filter, beq_iff_eq] at hp hq
    rw [inOrder, hp.2, hq.2]
    simp
  have kept : (pairs.filter fun p => p.1 == name).Sublist (pairs.mergeSort inOrder) :=
    List.sublist_mergeSort inOrder_trans inOrder_total alike List.filter_sublist
  have part : (pairs.filter fun p => p.1 == name).Sublist
      ((pairs.mergeSort inOrder).filter fun p => p.1 == name) := by
    have filtered := kept.filter fun p => p.1 == name
    simpa only [List.filter_filter, Bool.and_self] using filtered
  symm
  apply part.eq_of_length
  exact ((List.mergeSort_perm pairs inOrder).filter _).length_eq.symm

theorem values_mergeSort (name : String) (pairs : List (String × String)) :
    values name (pairs.mergeSort inOrder) = values name pairs := by
  unfold values
  rw [filter_mergeSort]

theorem name_le_of_sorted {p q : String × String} {pairs : List (String × String)}
    (h : (p :: pairs).Pairwise fun p q => inOrder p q = true) (mem : q ∈ p :: pairs) :
    p.1 ≤ q.1 := by
  obtain rfl | later := List.mem_cons.mp mem
  · exact String.le_refl q.1
  · simpa [inOrder] using (List.pairwise_cons.mp h).1 q later

/-- Sorted lists in which each name has the same values are equal. -/
theorem eq_of_sorted {xs ys : List (String × String)}
    (hx : xs.Pairwise fun p q => inOrder p q = true)
    (hy : ys.Pairwise fun p q => inOrder p q = true)
    (h : ∀ name, values name xs = values name ys) : xs = ys := by
  induction xs generalizing ys with
  | nil =>
    cases ys with
    | nil => rfl
    | cons q ys => exact absurd ((mem_iff_of_values h q).mpr List.mem_cons_self) List.not_mem_nil
  | cons p xs ih =>
    cases ys with
    | nil => exact absurd ((mem_iff_of_values h p).mp List.mem_cons_self) List.not_mem_nil
    | cons q ys =>
      -- Each first pair stands in the other list too, so neither name is the smaller one.
      have name : p.1 = q.1 := by
        apply String.le_antisymm
        · exact name_le_of_sorted hx ((mem_iff_of_values h q).mpr List.mem_cons_self)
        · exact name_le_of_sorted hy ((mem_iff_of_values h p).mp List.mem_cons_self)
      have own := h p.1
      rw [values_cons_self, name, values_cons_self] at own
      obtain ⟨value, tails⟩ := List.cons.inj own
      have first : p = q := Prod.ext name value
      subst first
      have later : xs = ys := by
        apply ih (List.pairwise_cons.mp hx).2 (List.pairwise_cons.mp hy).2
        intro n
        by_cases same : p.1 = n
        · subst same
          exact tails
        · have rest := h n
          rwa [values_cons_of_ne same, values_cons_of_ne same] at rest
      rw [later]

theorem mergeSort_eq_iff {xs ys : List (String × String)} :
    xs.mergeSort inOrder = ys.mergeSort inOrder ↔ ∀ name, values name xs = values name ys := by
  constructor
  · intro same name
    rw [← values_mergeSort, same, values_mergeSort]
  · intro same
    apply eq_of_sorted
    · exact List.pairwise_mergeSort inOrder_trans inOrder_total xs
    · exact List.pairwise_mergeSort inOrder_trans inOrder_total ys
    · intro name
      rw [values_mergeSort, values_mergeSort]
      exact same name

end Form

theorem cons_eq_snoc_iff {α : Type} {x : α} {l : List α} :
    x :: l = l ++ [x] ↔ ∀ y ∈ l, y = x := by
  induction l with
  | nil => simp
  | cons y l ih =>
    rw [List.cons_append, List.cons.injEq, List.forall_mem_cons]
    constructor
    · rintro ⟨rfl, same⟩
      exact ⟨rfl, ih.mp same⟩
    · rintro ⟨rfl, same⟩
      exact ⟨rfl, ih.mpr same⟩

namespace Form

variable {front middle back : List (String × String)} {p q : String × String}

/-- A pair that moves back over others keeps the values of its name in order if these have no other
value for it. -/
theorem values_move_iff (others : q.1 ≠ p.1) :
    values p.1 (front ++ p :: (middle ++ q :: back)) =
      values p.1 (front ++ q :: (middle ++ p :: back)) ↔
    ∀ m ∈ middle, m.1 = p.1 → m.2 = p.2 := by
  have alone : values p.1 (front ++ p :: (middle ++ q :: back)) =
      values p.1 front ++ (p.2 :: values p.1 middle ++ values p.1 back) := by
    rw [values_append, values_cons_self, values_append, values_cons_of_ne others, List.cons_append]
  have moved : values p.1 (front ++ q :: (middle ++ p :: back)) =
      values p.1 front ++ (values p.1 middle ++ [p.2] ++ values p.1 back) := by
    rw [values_append, values_cons_of_ne others, values_append, values_cons_self, List.append_assoc,
      List.singleton_append]
  rw [alone, moved, List.append_cancel_left_eq, List.append_cancel_right_eq, cons_eq_snoc_iff]
  constructor
  · rintro same ⟨name, value⟩ mem rfl
    exact same value (mem_values_iff.mpr mem)
  · intro same value mem
    exact same _ (mem_values_iff.mp mem) rfl

/-- Two pairs of different names may change places unless a pair between them has one of the names
with another value. -/
theorem values_exchange_iff (others : p.1 ≠ q.1) :
    (∀ name, values name (front ++ p :: (middle ++ q :: back)) =
      values name (front ++ q :: (middle ++ p :: back))) ↔
    ∀ m ∈ middle, (m.1 = p.1 → m.2 = p.2) ∧ (m.1 = q.1 → m.2 = q.2) := by
  constructor
  · intro same m mem
    exact ⟨(values_move_iff others.symm).mp (same p.1) m mem,
      (values_move_iff others).mp (same q.1).symm m mem⟩
  · intro same name
    by_cases first : p.1 = name
    · subst first
      exact (values_move_iff others.symm).mpr fun m mem => (same m mem).1
    by_cases second : q.1 = name
    · subst second
      exact ((values_move_iff others).mpr fun m mem => (same m mem).2).symm
    · rw [values_append, values_append, values_cons_of_ne first, values_cons_of_ne second,
        values_append, values_append, values_cons_of_ne second, values_cons_of_ne first]

/-- Different values of one name may not. -/
theorem values_exchange_ne (name : p.1 = q.1) (others : p.2 ≠ q.2) :
    values p.1 (front ++ p :: (middle ++ q :: back)) ≠
      values p.1 (front ++ q :: (middle ++ p :: back)) := by
  rw [values_append, values_append, values_cons_self]
  intro same
  have tails := List.append_cancel_left same
  rw [name, values_cons_self] at tails
  exact others (List.cons.inj tails).1

end Form

namespace ResponseCache

theorem sortedPairs_eq (r : Head) : sortedPairs r = r.queryPairs.mergeSort Form.inOrder := rfl

theorem queryPart_eq_iff {r s : Head} :
    queryPart r = queryPart s ↔ sortedPairs r = sortedPairs s := by
  constructor
  · intro same
    unfold queryPart at same
    by_cases emptyR : (sortedPairs r).isEmpty <;> by_cases emptyS : (sortedPairs s).isEmpty
    · rw [List.isEmpty_iff.mp emptyR, List.isEmpty_iff.mp emptyS]
    · rw [if_pos emptyR, if_neg emptyS] at same
      cases same
    · rw [if_neg emptyR, if_pos emptyS] at same
      cases same
    · rw [if_neg emptyR, if_neg emptyS] at same
      exact Form.write_inj.mp (List.cons.inj same).2
  · intro same
    unfold queryPart
    rw [same]

/-- For one user and one path, a key tells the values of each name in order. -/
theorem key_eq_iff_values {r s : Head} (users : user r = user s) (paths : r.path = s.path) :
    key r = key s ↔
      ∀ name, Form.values name r.queryPairs = Form.values name s.queryPairs := by
  rw [← Form.mergeSort_eq_iff, ← sortedPairs_eq, ← sortedPairs_eq, ← queryPart_eq_iff,
    ← String.toList_inj, toList_key, toList_key, users, paths]
  simp

/-- The query that stands in a key. -/
def keyQuery? (r : Head) : Option String :=
  if (sortedPairs r).isEmpty then none else some (String.ofList (Form.write (sortedPairs r)))

/-- A path with a query behind it. -/
def targetOf (path : String) (query : Option String) : String :=
  path ++ query.elim "" ("?" ++ ·)

theorem key_eq_targetOf (r : Head) : key r = user r ++ ":" ++ targetOf r.path (keyQuery? r) := by
  rw [← String.toList_inj, toList_key, queryPart, keyQuery?]
  by_cases empty : (sortedPairs r).isEmpty
  · rw [if_pos empty, if_pos empty]
    simp [targetOf]
  · rw [if_neg empty, if_neg empty]
    simp [targetOf]

/-- A target is read as the path and the query that it was put together from. -/
theorem splitTarget_targetOf {path : String} (h : '?' ∉ path.toList) (query : Option String) :
    Head.Grammar.splitTarget (targetOf path query) = (path, query) := by
  have front : ∀ c ∈ path.toList, (c != '?') = true := by
    intro c mem
    rw [bne_iff_ne]
    rintro rfl
    exact h mem
  unfold Head.Grammar.splitTarget targetOf
  cases query with
  | none =>
    have whole : path.toList.takeWhile (· != '?') = path.toList :=
      List.takeWhile_eq_self_iff.mpr front
    simp [whole, h]
  | some q =>
    simp [List.takeWhile_append_of_pos front, List.dropWhile_append_of_pos front]

/-- The query that stands in a key has that key. -/
theorem key_of_keyQuery? {r again : Head} (users : user again = user r)
    (paths : again.path = r.path) (query : again.query = keyQuery? r) : key again = key r := by
  have pairs : again.queryPairs = sortedPairs r := by
    unfold Head.queryPairs
    rw [query, keyQuery?]
    by_cases empty : (sortedPairs r).isEmpty
    · rw [if_pos empty, List.isEmpty_iff.mp empty]
    · rw [if_neg empty]
      simp only [Utf8.encode, String.toList_ofList, Form.parse_write]
  rw [key_eq_iff_values users paths, pairs]
  exact fun name => Form.values_mergeSort name r.queryPairs

/-- For one user and one path, two requests have one key exactly if every name has the same values
in the same order. So two pairs of different names may change places unless a pair between them has
one of the names with another value, and different values of one name may not. The query that
stands in a key, asked for with the same path by the same user, has that key; and it is read off the
target that stands there. -/
theorem keys_follow_values {r s : Head} (users : user r = user s) (paths : r.path = s.path) :
    (key r = key s ↔
      ∀ name, Form.values name r.queryPairs = Form.values name s.queryPairs) ∧
    (∀ front middle back p q, r.queryPairs = front ++ p :: (middle ++ q :: back) →
      s.queryPairs = front ++ q :: (middle ++ p :: back) →
      (p.1 ≠ q.1 →
        (key r = key s ↔ ∀ m ∈ middle, (m.1 = p.1 → m.2 = p.2) ∧ (m.1 = q.1 → m.2 = q.2))) ∧
      (p.1 = q.1 → p.2 ≠ q.2 → key r ≠ key s)) ∧
    ∃ query, key r = user r ++ ":" ++ targetOf r.path query ∧
      (∀ again : Head, user again = user r → again.path = r.path → again.query = query →
        key again = key r) ∧
      (r.IsRead → Head.Grammar.splitTarget (targetOf r.path query) = (r.path, query)) := by
  have values := key_eq_iff_values users paths
  refine ⟨values, ?_, keyQuery? r, key_eq_targetOf r, fun _ => key_of_keyQuery?, ?_⟩
  · intro front middle back p q pairsR pairsS
    rw [pairsR, pairsS] at values
    constructor
    · intro others
      exact values.trans (Form.values_exchange_iff others)
    · intro name others same
      exact Form.values_exchange_ne name others (values.mp same p.1)
  · intro read
    apply splitTarget_targetOf
    exact Head.notMem_path_of_isRead read

section Case

/-- A page asked for with some pairs. -/
def asked (pairs : List (String × String)) : Request :=
  ⟨⟨.get, "/q", some (String.ofList (Form.write pairs)), .http11, ⟨[]⟩⟩, [], none, []⟩

theorem queryPairs_asked (pairs : List (String × String)) : (asked pairs).queryPairs = pairs := by
  simp only [Head.queryPairs, asked, Utf8.encode, String.toList_ofList, Form.parse_write]

theorem user_asked (pairs : List (String × String)) : user (asked pairs).toHead = anonymous := rfl

theorem path_asked (pairs : List (String × String)) : (asked pairs).path = "/q" := rfl

/-- The first and the last pair have different names and change places, and the key is another one:
the values of `a` are not in order any more. -/
theorem exchange_over_repeated_name :
    let r := (asked [("a", "1"), ("a", "2"), ("b", "3")]).toHead
    let s := (asked [("b", "3"), ("a", "2"), ("a", "1")]).toHead
    r.IsRead ∧ s.IsRead ∧ user r = user s ∧ r.path = s.path ∧
      r.queryPairs = [("a", "1"), ("a", "2"), ("b", "3")] ∧
      s.queryPairs = [("b", "3"), ("a", "2"), ("a", "1")] ∧ key r ≠ key s := by
  intro r s
  have users : user r = user s := (user_asked _).trans (user_asked _).symm
  have paths : r.path = s.path := (path_asked _).trans (path_asked _).symm
  have pairsR : r.queryPairs = [("a", "1"), ("a", "2"), ("b", "3")] := queryPairs_asked _
  have pairsS : s.queryPairs = [("b", "3"), ("a", "2"), ("a", "1")] := queryPairs_asked _
  refine ⟨⟨Utf8.encode "GET /q?a=1&a=2&b=3 HTTP/1.1\r\n\r\n", _, by decide +kernel, rfl⟩,
    ⟨Utf8.encode "GET /q?b=3&a=2&a=1 HTTP/1.1\r\n\r\n", _, by decide +kernel, rfl⟩,
    users, paths, pairsR, pairsS, ?_⟩
  intro same
  have values := (key_eq_iff_values users paths).mp same "a"
  rw [pairsR, pairsS] at values
  exact absurd values (by decide)

/-- Two neighbours of different names change places, and the key stays; what stands in it can be
asked for. -/
theorem neighbours_change_places :
    let r := (asked [("b", "&"), ("a", ""), ("b", "=")]).toHead
    let s := (asked [("a", ""), ("b", "&"), ("b", "=")]).toHead
    user r = user s ∧ r.path = s.path ∧ r.IsRead ∧ key r = key s ∧
      ∃ query, key r = user r ++ ":" ++ targetOf r.path query ∧
        (∀ again : Head, user again = user r → again.path = r.path → again.query = query →
          key again = key r) ∧
        Head.Grammar.splitTarget (targetOf r.path query) = (r.path, query) := by
  intro r s
  have users : user r = user s := (user_asked _).trans (user_asked _).symm
  have paths : r.path = s.path := (path_asked _).trans (path_asked _).symm
  have read : r.IsRead :=
    ⟨Utf8.encode "GET /q?b=%26&a=&b=%3D HTTP/1.1\r\n\r\n", _, by decide +kernel, rfl⟩
  obtain ⟨-, exchange, query, stands, again, target⟩ := keys_follow_values users paths
  obtain ⟨apart, -⟩ := exchange [] [] [("b", "=")] ("b", "&") ("a", "")
    (queryPairs_asked _) (queryPairs_asked _)
  exact ⟨users, paths, read, (apart (by decide)).mpr (List.forall_mem_nil _), query, stands, again,
    target read⟩

end Case

end ResponseCache

end Turnstile
