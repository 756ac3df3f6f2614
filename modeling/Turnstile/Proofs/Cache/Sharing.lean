import Turnstile.Http.Head
import Turnstile.Proofs.Cache.Stage
import Turnstile.Proofs.Http.Form
import Turnstile.Proofs.Http.Scanning
import Turnstile.Proofs.Throttle.Charges

/-!
Who can be given whose kept answers. A key is the user, a colon, the path and the query, and a colon
may stand in a user and in a path: `a` asking for `/b:/c` and `a:/b` asking for `/c` have one key.
`key_eq_iff` says that there is no other way to share a key, and `answers_cross_users_by_overlap`
that a run gives no answer to another user in any other way.
-/

namespace Turnstile

/-- The head of a request that has been read from a stream. -/
def Head.IsRead (h : Head) : Prop := ∃ bytes r, Request.parse bytes = .ok r ∧ r.toHead = h

theorem Head.notMem_path_of_isRead {h : Head} (read : h.IsRead) : '?' ∉ h.path.toList := by
  obtain ⟨bytes, r, parsed, rfl⟩ := read
  have found : ∃ rest, Head.read bytes = .done r.toHead rest := by
    rw [Request.parse] at parsed
    split at parsed
    · next head rest found =>
      cases parsed
      exact ⟨rest, found⟩
    · cases parsed
    · cases parsed
  obtain ⟨rest, found⟩ := found
  obtain ⟨_, _, _, found⟩ := Reading.bind_eq_done.mp found
  obtain ⟨_, _, _, found⟩ := Reading.bind_eq_done.mp found
  obtain ⟨target, _, _, found⟩ := Reading.bind_eq_done.mp found
  obtain ⟨_, _, _, found⟩ := Reading.bind_eq_done.mp found
  obtain ⟨_, _, _, found⟩ := Reading.bind_eq_done.mp found
  have path : r.path = (Grammar.splitTarget target).1 := by
    injection found with same
    rw [← same]
    rfl
  rw [path]
  intro mem
  have front : '?' ∈ target.toList.takeWhile (· != '?') := by
    simpa [Grammar.splitTarget] using mem
  simpa using List.all_eq_true.mp List.all_takeWhile '?' front

namespace ResponseCache

/-- The end of a key, behind the path. -/
def queryPart (r : Head) : List Char :=
  if (sortedPairs r).isEmpty then [] else '?' :: Form.write (sortedPairs r)

theorem toList_key (r : Head) :
    (key r).toList = (user r).toList ++ ':' :: (r.path.toList ++ queryPart r) := by
  simp only [key, queryPart]
  split <;> simp

/-- The query is nothing, or all of it stands behind its question mark. -/
theorem queryPart_cases (r : Head) :
    queryPart r = [] ∨ ∃ q, queryPart r = '?' :: q ∧ ':' ∉ q ∧ '?' ∉ q := by
  unfold queryPart
  split
  · exact .inl rfl
  · exact .inr ⟨_, rfl, Form.notMem_write (.inl rfl) _, Form.notMem_write (.inr rfl) _⟩

/-- A key is cut in one way between a text without question marks and the query. -/
theorem append_queryPart_inj {x y : List Char} (hx : '?' ∉ x) (hy : '?' ∉ y) {r s : Head}
    (h : x ++ queryPart r = y ++ queryPart s) : x = y ∧ queryPart r = queryPart s := by
  obtain none_r | ⟨q, some_r, -, -⟩ := queryPart_cases r <;>
    obtain none_s | ⟨p, some_s, -, -⟩ := queryPart_cases s
  · rw [none_r, none_s, List.append_nil, List.append_nil] at h
    exact ⟨h, by rw [none_r, none_s]⟩
  · rw [none_r, some_s, List.append_nil] at h
    exact absurd (by simp [h]) hx
  · rw [some_r, none_s, List.append_nil] at h
    exact absurd (by simp [← h]) hy
  · rw [some_r, some_s] at h
    obtain ⟨rfl, rfl⟩ := append_cons_inj_of_notMem_fronts hx hy h
    exact ⟨rfl, by rw [some_r, some_s]⟩

/-- What stands in front of a colon behind a path cannot reach into the query. -/
theorem notMem_of_append_queryPart {x y z : List Char} (hx : '?' ∉ x) {r : Head}
    (h : x ++ queryPart r = y ++ ':' :: z) : '?' ∉ y := by
  intro mem
  obtain ⟨front, back, rfl, first⟩ := List.eq_append_cons_of_mem mem
  obtain none_r | ⟨q, some_r, noColon, -⟩ := queryPart_cases r
  · rw [none_r, List.append_nil] at h
    exact hx (by simp [h])
  · rw [some_r, List.append_assoc, List.cons_append] at h
    obtain ⟨-, rfl⟩ := append_cons_inj_of_notMem_fronts hx first h
    exact noColon (by simp)

/-- The second user is the first one with a colon and more behind it, and the path that the first
one asks for starts with what is more. -/
def Extends (r s : Head) : Prop :=
  ∃ more, user s = user r ++ ":" ++ more ∧ r.path = more ++ ":" ++ s.path

/-- Requests of two users that cannot be told apart by what stands before and behind a colon. -/
def Overlap (r s : Head) : Prop := queryPart r = queryPart s ∧ (Extends r s ∨ Extends s r)

theorem Extends.mem_colon {r s : Head} (h : Extends r s) : ':' ∈ (user s).toList := by
  obtain ⟨more, longer, -⟩ := h
  simp [longer]

theorem Extends.key_eq {r s : Head} (h : Extends r s) (query : queryPart r = queryPart s) :
    key r = key s := by
  obtain ⟨more, longer, path⟩ := h
  apply String.toList_injective
  simp [toList_key, longer, path, query]

/-- What one key says of two requests of which one's user is a part of the other's. -/
theorem extends_of_append {r s : Head} (hr : r.IsRead) (hs : s.IsRead) {more : List Char}
    (longer : (user s).toList = (user r).toList ++ ':' :: more)
    (rest : r.path.toList ++ queryPart r = more ++ ':' :: (s.path.toList ++ queryPart s)) :
    queryPart r = queryPart s ∧ Extends r s := by
  have noMark := notMem_of_append_queryPart (Head.notMem_path_of_isRead hr) rest
  have front : '?' ∉ more ++ ':' :: s.path.toList := by
    simp [noMark, Head.notMem_path_of_isRead hs]
  obtain ⟨path, query⟩ := append_queryPart_inj (r := r) (s := s)
    (Head.notMem_path_of_isRead hr) front (by simpa using rest)
  refine ⟨query, String.ofList more, ?_, ?_⟩
  · apply String.toList_injective
    simp [longer]
  · apply String.toList_injective
    simp [path]

/-- Requests have one key if they agree in user, path and query, or their users overlap. -/
theorem key_eq_iff {r s : Head} (hr : r.IsRead) (hs : s.IsRead) :
    key r = key s ↔
      user r = user s ∧ r.path = s.path ∧ queryPart r = queryPart s ∨ Overlap r s := by
  constructor
  · intro same
    have chars := congrArg String.toList same
    rw [toList_key, toList_key] at chars
    -- One user is the front of the other; the colon behind it decides whether there is more.
    obtain ⟨more, longer, rest⟩ | ⟨more, longer, rest⟩ := List.append_eq_append_iff.mp chars
    · cases more with
      | nil =>
        have users : user r = user s := String.toList_injective (by simpa using longer.symm)
        obtain ⟨path, query⟩ := append_queryPart_inj (Head.notMem_path_of_isRead hr)
          (Head.notMem_path_of_isRead hs) (List.cons.inj rest).2
        exact .inl ⟨users, String.toList_injective path, query⟩
      | cons c more =>
        obtain ⟨rfl, tails⟩ := List.cons.inj rest
        obtain ⟨query, longer⟩ := extends_of_append hr hs longer tails
        exact .inr ⟨query, .inl longer⟩
    · cases more with
      | nil =>
        have users : user r = user s := String.toList_injective (by simpa using longer)
        obtain ⟨path, query⟩ := append_queryPart_inj (Head.notMem_path_of_isRead hs)
          (Head.notMem_path_of_isRead hr) (List.cons.inj rest).2
        exact .inl ⟨users, (String.toList_injective path).symm, query.symm⟩
      | cons c more =>
        obtain ⟨rfl, tails⟩ := List.cons.inj rest
        obtain ⟨query, longer⟩ := extends_of_append hs hr longer tails
        exact .inr ⟨query.symm, .inr longer⟩
  · rintro (⟨users, path, query⟩ | ⟨query, longer | longer⟩)
    · apply String.toList_injective
      rw [toList_key, toList_key, users, path, query]
    · exact longer.key_eq query
    · exact (longer.key_eq query.symm).symm

section Run

variable {excluded : List Pattern} {serve : Downstream} {defaultTtl : Nat}

theorem calls_answer (serve : Downstream) (defaultTtl : Nat) {s : Desk}
    (h : Faithful excluded s) (x : Exchange) :
    (answer excluded serve defaultTtl x s).2.calls = s.calls ∨
      (answer excluded serve defaultTtl x s).2.calls = s.call serve x :: s.calls := by
  cases known : known? excluded x s with
  | some c =>
    rw [answer_of_known? h known]
    exact .inl rfl
  | none =>
    rw [answer_of_absent (h.absent known)]
    exact .inr rfl

/-- Every call of a run is for one of the requests of the run. -/
theorem forall_calls_attend (serve : Downstream) (defaultTtl : Nat) {P : Exchange → Prop}
    {s : Desk} (h : Faithful excluded s) (before : ∀ c ∈ s.calls, P c.exchange) {visits : List Visit}
    (visited : ∀ v ∈ visits, P v.exchange) :
    ∀ c ∈ (attend excluded serve defaultTtl visits s).calls, P c.exchange := by
  rw [attend]
  induction visits generalizing s with
  | nil => exact before
  | cons v visits ih =>
    obtain ⟨here, later⟩ := List.forall_mem_cons.mp visited
    have faithful : Faithful excluded (s.later v.wait) := h.later v.wait
    refine ih (faithful_answer faithful v.exchange) ?_ later
    intro c mem
    obtain same | more := calls_answer serve defaultTtl faithful v.exchange
    · rw [same] at mem
      exact before c mem
    · rw [more] at mem
      obtain rfl | mem := List.mem_cons.mp mem
      · exact here
      · exact before c mem

/-- A call that spares another one had the same key. -/
theorem mem_calls_of_known? {x : Exchange} {s : Desk} {c : Call}
    (h : known? excluded x s = some c) :
    c ∈ s.calls ∧ key c.exchange.request.toHead = key x.request.toHead := by
  rw [known?, if_pos (isEligible_of_known? h)] at h
  obtain ⟨latest, -⟩ := Option.filter_eq_some_iff.mp h
  have kept := List.find?_some latest
  rw [Bool.and_eq_true, beq_iff_eq] at kept
  exact ⟨List.mem_of_find?_eq_some latest, kept.2⟩

end Run

/-- Requests of two users have one key exactly if their users overlap, never if no user has a colon.
After any run of requests, one is answered by the handler or is given again what the handler
answered to an earlier one, of the same user or one that overlaps. -/
theorem answers_cross_users_by_overlap {r s : Head} (hr : r.IsRead) (hs : s.IsRead)
    (others : user r ≠ user s) :
    (key r = key s ↔ Overlap r s) ∧
    (':' ∉ (user r).toList → ':' ∉ (user s).toList → key r ≠ key s) ∧
    ∀ (excluded : List Pattern) (serve : Downstream) (defaultTtl start : Nat) (visits : List Visit)
      (wait : Nat) (x : Exchange), (∀ v ∈ visits, v.exchange.request.toHead.IsRead) →
      x.request.toHead.IsRead →
      let d := (attend excluded serve defaultTtl visits { now := start }).later wait
      (answer excluded serve defaultTtl x d).2.calls = d.call serve x :: d.calls ∨
      ∃ c ∈ d.calls, answer excluded serve defaultTtl x d = (.ok (again c.answer), d) ∧
        (user c.exchange.request.toHead = user x.request.toHead ∨
          Overlap c.exchange.request.toHead x.request.toHead) := by
  have shared : key r = key s ↔ Overlap r s := by
    rw [key_eq_iff hr hs]
    constructor
    · rintro (⟨users, -, -⟩ | overlap)
      · exact absurd users others
      · exact overlap
    · exact .inr
  refine ⟨shared, ?_, ?_⟩
  · intro plainR plainS same
    obtain ⟨-, longer | longer⟩ := shared.mp same
    · exact plainS longer.mem_colon
    · exact plainR longer.mem_colon
  · intro excluded serve defaultTtl start visits wait x visited asked d
    have opened : Faithful excluded { now := start } := faithful_opened start
    have faithful : Faithful excluded d := (faithful_attend opened visits).later wait
    have read : ∀ c ∈ d.calls, c.exchange.request.toHead.IsRead :=
      forall_calls_attend serve defaultTtl (P := fun x => x.request.toHead.IsRead) opened
        (List.forall_mem_nil _) visited
    clear_value d
    cases known : known? excluded x d with
    | none =>
      left
      rw [answer_of_absent (faithful.absent known)]
      rfl
    | some c =>
      right
      obtain ⟨mem, same⟩ := mem_calls_of_known? known
      refine ⟨c, mem, answer_of_known? faithful known, ?_⟩
      obtain ⟨users, -, -⟩ | overlap := (key_eq_iff (read c mem) asked).mp same
      · exact .inl users
      · exact .inr overlap

section Case

/-- The user `a` asks for a page below `/b:`. -/
def ofA : Request := ⟨⟨.get, "/b:/profile", none, .http11, ⟨[("user-id", "a")]⟩⟩, [], none, []⟩

/-- The user `a:/b` asks for a page of its own. -/
def ofAB : Request := ⟨⟨.get, "/profile", none, .http11, ⟨[("user-id", "a:/b")]⟩⟩, [], none, []⟩

theorem isRead_ofA : ofA.toHead.IsRead :=
  ⟨Utf8.encode "GET /b:/profile HTTP/1.1\r\nuser-id: a\r\n\r\n", ofA, by decide +kernel, rfl⟩

theorem isRead_ofAB : ofAB.toHead.IsRead :=
  ⟨Utf8.encode "GET /profile HTTP/1.1\r\nuser-id: a:/b\r\n\r\n", ofAB, by decide +kernel, rfl⟩

theorem user_ofA_ne_user_ofAB : user ofA.toHead ≠ user ofAB.toHead := by decide +kernel

theorem overlap_ofA_ofAB : Overlap ofA.toHead ofAB.toHead := by
  refine ⟨?_, .inl ⟨"/b", ?_, ?_⟩⟩
  · simp [queryPart, sortedPairs, Head.queryPairs, ofA, ofAB]
  · decide +kernel
  · decide +kernel

/-- A user is given the page that was made for another one, and the handler is not called. -/
theorem page_given_to_another_user :
    ofA.toHead.IsRead ∧ ofAB.toHead.IsRead ∧ user ofA.toHead ≠ user ofAB.toHead ∧
    key ofA.toHead = key ofAB.toHead ∧
    let d := attend [] counting 0 [⟨0, .ofRequest ofA⟩] { now := 0 }
    d.calls.map (·.exchange.request) = [ofA] ∧
    answer [] counting 0 (.ofRequest ofAB) d =
      (.ok ((Response.ofText .ok "0").addHeader "X-Cache" "HIT"), d) := by
  have same : key ofA.toHead = key ofAB.toHead :=
    (key_eq_iff isRead_ofA isRead_ofAB).mpr (.inr overlap_ofA_ofAB)
  refine ⟨isRead_ofA, isRead_ofAB, user_ofA_ne_user_ofAB, same, ?_⟩
  intro d
  have opened : Faithful [] { now := 0 } := faithful_opened 0
  have faithful : Faithful [] d := faithful_attend opened _
  let start : Desk := ({ now := 0 } : Desk).later 0
  let call : Call := start.call counting (.ofRequest ofA)
  have eligible : isEligible [] (.ofRequest ofAB) = true := by decide +kernel
  have reached : d = start.after call (settled [] start call) :=
    congrArg Prod.snd (answer_of_absent (x := .ofRequest ofA) fun _ => rfl)
  have known : known? [] (.ofRequest ofAB) d = some call := by
    have kept : call.isKept [] = true := by decide +kernel
    have fresh : call.isFresh d.now = true := by
      rw [reached]
      decide +kernel
    have calls : d.calls = [call] := by rw [reached]; rfl
    rw [known?, if_pos eligible, calls, latest?_cons, if_pos ⟨kept, same⟩, Option.filter_some,
      fresh]
    rfl
  constructor
  · rw [reached]
    rfl
  · have given : again call.answer = (Response.ofText .ok "0").addHeader "X-Cache" "HIT" := by
      decide +kernel
    rw [← given]
    exact answer_of_known? faithful known

/-- The page crosses because the users overlap, and in no other way could it. -/
theorem page_crosses_by_overlap :
    ofA.toHead.IsRead ∧ ofAB.toHead.IsRead ∧ user ofA.toHead ≠ user ofAB.toHead ∧
    (key ofA.toHead = key ofAB.toHead ↔ Overlap ofA.toHead ofAB.toHead) ∧
    let visits : List Visit := [⟨0, .ofRequest ofA⟩]
    let x : Exchange := .ofRequest ofAB
    let d := (attend [] counting 0 visits { now := 0 }).later 1
    (∀ v ∈ visits, v.exchange.request.toHead.IsRead) ∧ x.request.toHead.IsRead ∧
    ((answer [] counting 0 x d).2.calls = d.call counting x :: d.calls ∨
      ∃ c ∈ d.calls, answer [] counting 0 x d = (.ok (again c.answer), d) ∧
        (user c.exchange.request.toHead = user x.request.toHead ∨
          Overlap c.exchange.request.toHead x.request.toHead)) := by
  have visited : ∀ v ∈ [(⟨0, .ofRequest ofA⟩ : Visit)], v.exchange.request.toHead.IsRead := by
    intro v mem
    obtain rfl := List.mem_singleton.mp mem
    exact isRead_ofA
  obtain ⟨shared, -, crossing⟩ :=
    answers_cross_users_by_overlap isRead_ofA isRead_ofAB user_ofA_ne_user_ofAB
  exact ⟨isRead_ofA, isRead_ofAB, user_ofA_ne_user_ofAB, shared, visited, isRead_ofAB,
    crossing [] counting 0 0 _ 1 _ visited isRead_ofAB⟩

end Case

end ResponseCache

end Turnstile
