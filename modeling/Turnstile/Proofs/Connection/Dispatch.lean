import Turnstile.Proofs.Connection.Framing
import Turnstile.Proofs.Http.Lengths

/-!
What a connection gives to its handler. However a stream arrives, the requests that are dispatched
are the first ones of the stream as a whole, each with the bytes behind its own head for its body;
each is answered once and in order, at most one refusal follows, and after a refusal the connection
is closed. `dispatches_first_requests` says so of every cut of every stream.
-/

namespace Turnstile.Connection

def Turn.request? : Turn → Option Request
  | .request r => some r
  | .refusal _ => none

def requests (peer : Peer) (stream : List UInt8) : List Request :=
  (turns peer stream).filterMap Turn.request?

/-- Requests that stand one directly behind another from the start of a stream on, and the bytes
left over behind them. Each request is a head and as many bytes of body as the head declares. -/
inductive Consecutive (peer : Peer) : List UInt8 → List Request → List UInt8 → Prop
  | none (left : List UInt8) : Consecutive peer left [] left
  | next {front behind left : List UInt8} {r : Request} {later : List Request}
      (read : Head.read (front ++ (r.body ++ behind)) = .done r.toHead (r.body ++ behind))
      (declared : r.Declares r.body.length) (stamped : r.peer = some peer)
      (others : Consecutive peer behind later left) :
      Consecutive peer (front ++ (r.body ++ behind)) (r :: later) left

/-- What a connection with something in its buffer does with the arrivals that follow, whatever its
handler is: it gives these requests to the handler, answers them and perhaps refuses what comes
next, and has so much left over. -/
structure Serves (peer : Peer) (buffer : List UInt8) (cut : List (List UInt8))
    (dispatched : List Request) (refusal : Option Response) (left : List UInt8)
    (after : Connection) : Prop where
  first : dispatched <+: requests peer (buffer ++ cut.flatten)
  apart : Consecutive peer (buffer ++ cut.flatten) dispatched left
  state : after = .closed ∨ refusal = none ∧ after = .reading peer left
  refused : ∀ response ∈ refusal, Frame.IsRefusal response
  answers : ∀ {σ : Type} (handle : Request → Run σ Response),
    serve handle cut (.reading peer buffer) = do
      return ((← dispatched.mapM handle) ++ refusal.toList, after)

variable {peer : Peer} {buffer bytes rest left : List UInt8} {cut : List (List UInt8)}
  {r : Request} {dispatched : List Request} {refusal : Option Response} {after : Connection}

theorem ofBuffer_of_heard {frame : Frame} (h : heard peer buffer bytes = some frame)
    (fits : frame ≠ .refused Frame.tooLarge) : Frame.ofBuffer peer (buffer ++ bytes) = frame := by
  unfold heard at h
  split at h
  · cases h
  · split at h
    · exact absurd (Option.some.inj h).symm fits
    · exact Option.some.inj h

theorem isRefusal_of_heard {response : Response}
    (h : heard peer buffer bytes = some (.refused response)) : Frame.IsRefusal response := by
  by_cases large : response = Frame.tooLarge
  · exact .inl large
  · exact Frame.isRefusal_of_refused (ofBuffer_of_heard h (by simpa using large))

theorem requests_of_request {stream : List UInt8} (h : Frame.ofBuffer peer stream = .request r rest)
    (more : List UInt8) :
    requests peer (stream ++ more) =
      r :: if r.isKeepAlive then requests peer (rest ++ more) else [] := by
  unfold requests
  rw [turns_of_request h more]
  by_cases opens : r.isKeepAlive = true
  · rw [if_pos opens, if_pos opens]
    rfl
  · rw [if_neg opens, if_neg opens]
    rfl

theorem requests_of_heard (h : heard peer buffer bytes = some (.request r rest))
    (cut : List (List UInt8)) :
    requests peer (buffer ++ (bytes :: cut).flatten) =
      r :: if r.isKeepAlive then requests peer (rest ++ cut.flatten) else [] := by
  rw [List.flatten_cons, ← List.append_assoc]
  exact requests_of_request (ofBuffer_of_heard h (by simp)) cut.flatten

/-- A request that is framed at the front of a stream stands in front of those behind it. -/
theorem Consecutive.of_request {stream : List UInt8} {later : List Request}
    (h : Frame.ofBuffer peer stream = .request r rest)
    (others : Consecutive peer rest later left) : Consecutive peer stream (r :: later) left := by
  obtain ⟨read, size, stamped⟩ := Frame.read_of_request h
  obtain ⟨⟨front, split⟩, -⟩ := Head.scans_read.takes _ _ _ read
  have declared : r.Declares r.body.length := Head.declares_iff.mpr size.symm
  rw [← split] at read ⊢
  exact .next read declared stamped others

theorem Consecutive.declares {stream : List UInt8} {rs : List Request}
    (h : Consecutive peer stream rs left) : ∀ r ∈ rs, r.Declares r.body.length := by
  induction h with
  | none => exact nofun
  | next _ declared _ _ ih => exact List.forall_mem_cons.mpr ⟨declared, ih⟩

theorem Consecutive.of_heard {later : List Request}
    (h : heard peer buffer bytes = some (.request r rest))
    (others : Consecutive peer (rest ++ cut.flatten) later left) :
    Consecutive peer (buffer ++ (bytes :: cut).flatten) (r :: later) left := by
  have front := ofBuffer_of_heard h (by simp)
  have whole := Frame.ofBuffer_append peer (buffer ++ bytes) cut.flatten (by simp [front])
  rw [front] at whole
  rw [List.flatten_cons, ← List.append_assoc]
  exact .of_request whole others

/-- What is framed at one go is consecutive too. -/
theorem exists_consecutive_requests (peer : Peer) (stream : List UInt8) :
    ∃ left, Consecutive peer stream (requests peer stream) left := by
  -- On the length of the stream: behind a request there is less of it.
  induction len : stream.length using Nat.strongRecOn generalizing stream with
  | ind n ih =>
    cases front : Frame.ofBuffer peer stream with
    | partly =>
      have none : requests peer stream = [] := by rw [requests, turns_of_partly front]; rfl
      rw [none]
      exact ⟨stream, .none stream⟩
    | refused response =>
      have none : requests peer stream = [] := by
        have alone := turns_of_refused front []
        rw [List.append_nil] at alone
        rw [requests, alone]
        rfl
      rw [none]
      exact ⟨stream, .none stream⟩
    | request r rest =>
      have first := requests_of_request front []
      rw [List.append_nil, List.append_nil] at first
      rw [first]
      by_cases opens : r.isKeepAlive = true
      · obtain ⟨left, later⟩ := ih rest.length (len ▸ Frame.length_rest_lt front) rest rfl
        rw [if_pos opens]
        exact ⟨left, .of_request front later⟩
      · rw [if_neg opens]
        exact ⟨rest, .of_request front (.none rest)⟩

/-! One lemma for each thing that an arrival can be. -/

theorem serves_nothing (peer : Peer) (buffer : List UInt8) :
    Serves peer buffer [] [] none buffer (.reading peer buffer) where
  first := List.nil_prefix
  apart := by simpa using Consecutive.none buffer
  state := .inr ⟨rfl, rfl⟩
  refused := nofun
  answers := by simp [serve]

theorem serves_end (h : heard peer buffer bytes = none) (cut : List (List UInt8)) :
    Serves peer buffer (bytes :: cut) [] none (buffer ++ (bytes :: cut).flatten) .closed where
  first := List.nil_prefix
  apart := .none _
  state := .inl rfl
  refused := nofun
  answers := by
    intro σ handle
    rw [serve_heard, h]
    simp

theorem serves_refused {response : Response}
    (h : heard peer buffer bytes = some (.refused response)) (cut : List (List UInt8)) :
    Serves peer buffer (bytes :: cut) [] (some response) (buffer ++ (bytes :: cut).flatten)
      .closed where
  first := List.nil_prefix
  apart := .none _
  state := .inl rfl
  refused := by
    intro own mem
    cases mem
    exact isRefusal_of_heard h
  answers := by
    intro σ handle
    rw [serve_heard, h]
    simp

theorem Serves.wait (h : heard peer buffer bytes = some .partly)
    (later : Serves peer (buffer ++ bytes) cut dispatched refusal left after) :
    Serves peer buffer (bytes :: cut) dispatched refusal left after where
  first := by simpa using later.first
  apart := by simpa using later.apart
  state := later.state
  refused := later.refused
  answers := by
    intro σ handle
    rw [serve_heard, h]
    exact later.answers handle

/-- A request that keeps the connection open: what is behind it is what is buffered next. -/
theorem Serves.ask (h : heard peer buffer bytes = some (.request r rest))
    (opens : r.isKeepAlive = true) (later : Serves peer rest cut dispatched refusal left after) :
    Serves peer buffer (bytes :: cut) (r :: dispatched) refusal left after where
  first := by
    rw [requests_of_heard h cut, if_pos opens]
    exact (List.prefix_cons_inj r).mpr later.first
  apart := .of_heard h later.apart
  state := later.state
  refused := later.refused
  answers := by
    intro σ handle
    rw [serve_heard, h]
    simp only [behind, if_pos opens, later.answers handle]
    simp

theorem serves_last (h : heard peer buffer bytes = some (.request r rest))
    (closes : ¬ r.isKeepAlive = true) (cut : List (List UInt8)) :
    Serves peer buffer (bytes :: cut) [r] none (rest ++ cut.flatten) .closed where
  first := by
    have alone : requests peer (buffer ++ (bytes :: cut).flatten) = [r] := by
      rw [requests_of_heard h cut, if_neg closes]
    exact alone ▸ List.prefix_rfl
  apart := .of_heard h (.none _)
  state := .inl rfl
  refused := nofun
  answers := by
    intro σ handle
    rw [serve_heard, h]
    simp [behind, closes, serve_closed]

theorem exists_serves (peer : Peer) (buffer : List UInt8) (cut : List (List UInt8)) :
    ∃ dispatched refusal left after, Serves peer buffer cut dispatched refusal left after := by
  -- On the cut, for every buffer: an arrival may leave the end of a request in it, or none of it.
  induction cut generalizing buffer with
  | nil => exact ⟨[], none, buffer, .reading peer buffer, serves_nothing peer buffer⟩
  | cons bytes cut ih =>
    cases h : heard peer buffer bytes with
    | none => exact ⟨[], none, _, .closed, serves_end h cut⟩
    | some frame =>
      cases frame with
      | refused response => exact ⟨[], some response, _, .closed, serves_refused h cut⟩
      | partly =>
        obtain ⟨dispatched, refusal, left, after, later⟩ := ih (buffer ++ bytes)
        exact ⟨dispatched, refusal, left, after, later.wait h⟩
      | request r rest =>
        by_cases opens : r.isKeepAlive = true
        · obtain ⟨dispatched, refusal, left, after, later⟩ := ih rest
          exact ⟨r :: dispatched, refusal, left, after, later.ask h opens⟩
        · exact ⟨[r], none, _, .closed, serves_last h opens cut⟩

variable {σ : Type}

theorem serve_append (handle : Request → Run σ Response) (cut more : List (List UInt8))
    (c : Connection) :
    serve handle (cut ++ more) c = do
      let (answers, c) ← serve handle cut c
      let (others, c) ← serve handle more c
      return (answers ++ others, c) := by
  induction cut generalizing c with
  | nil => simp [serve]
  | cons bytes cut ih => simp [serve, ih]

theorem code_of_isRefusal {response : Response} (h : Frame.IsRefusal response) :
    response.status.code = 400 ∨ response.status.code = 413 := by
  obtain rfl | ⟨fault, rfl⟩ := h
  · exact .inr rfl
  · exact .inl rfl

/-- However a stream arrives, its first requests are given to the handler in their order: the first
ones of those that the stream has when it is framed at one go, and each with the bytes that it
declares for its body, directly behind its head and in front of the next head. Each is answered once
and in this order. Then nothing more is written, or one refusal; a closed connection takes no notice
of what else arrives, and an open one has in its buffer just what is left of the stream. -/
theorem dispatches_first_requests (peer : Peer) (cut : List (List UInt8)) :
    (∃ left, Consecutive peer cut.flatten (requests peer cut.flatten) left) ∧
    ∃ (dispatched : List Request) (refusal : Option Response) (left : List UInt8)
      (after : Connection),
      dispatched <+: requests peer cut.flatten ∧
      Consecutive peer cut.flatten dispatched left ∧
      (∀ response ∈ refusal, Frame.IsRefusal response ∧
        (response.status.code = 400 ∨ response.status.code = 413) ∧ after = .closed) ∧
      (after = .closed ∨ after = .reading peer left) ∧
      ∀ {σ : Type} (handle : Request → Run σ Response),
        (serve handle cut (accepted peer) = do
          return ((← dispatched.mapM handle) ++ refusal.toList, after)) ∧
        (after = .closed → ∀ more,
          serve handle (cut ++ more) (accepted peer) = serve handle cut (accepted peer)) := by
  obtain ⟨dispatched, refusal, left, after, served⟩ := exists_serves peer [] cut
  refine ⟨exists_consecutive_requests peer cut.flatten, dispatched, refusal, left, after,
    served.first, served.apart, ?_, ?_, ?_⟩
  · intro response mem
    have own := served.refused response mem
    refine ⟨own, code_of_isRefusal own, ?_⟩
    rcases served.state with closed | ⟨unrefused, -⟩
    · exact closed
    · rw [unrefused] at mem
      cases mem
  · rcases served.state with closed | ⟨-, reading⟩
    · exact .inl closed
    · exact .inr reading
  · intro σ handle
    have answers : serve handle cut (accepted peer) = _ := served.answers handle
    refine ⟨answers, ?_⟩
    rintro rfl more
    rw [serve_append, answers]
    simp [serve_closed]

section Case

/-- The paths and bodies that a handler is asked for, which it keeps in its state. -/
def recordBodies (r : Request) : Run (List (String × List UInt8)) Response := do
  Run.modify (· ++ [(r.path, r.body)])
  return .ofStatus .ok

theorem mapM_recordBodies (rs : List Request) (seen : List (String × List UInt8)) :
    ∃ answers, rs.mapM recordBodies seen =
      (.ok answers, seen ++ rs.map fun r => (r.path, r.body)) := by
  induction rs generalizing seen with
  | nil => exact ⟨[], by simp⟩
  | cons r rs ih =>
    have one : recordBodies r seen = (.ok (.ofStatus .ok), seen ++ [(r.path, r.body)]) := rfl
    obtain ⟨answers, others⟩ := ih (seen ++ [(r.path, r.body)])
    refine ⟨.ofStatus .ok :: answers, ?_⟩
    rw [List.mapM_cons, Run.bind_of_ok one, Run.bind_of_ok others, Run.pure_apply, List.map_cons,
      List.append_assoc, List.singleton_append]

/-- A request with two bytes of body, and one without a body. -/
def postAndGet : List UInt8 :=
  Utf8.encode "POST /a HTTP/1.1\r\ncontent-LENGTH: 2\r\nContent-Length: 9\r\n\r\nhi" ++ getB

/-- The first arrival ends inside a head, and the second one behind the first body and inside the
next head. -/
def threeParts : List (List UInt8) :=
  [postAndGet.take 30, (postAndGet.drop 30).take 40, postAndGet.drop 70]

/-- The first body has the two bytes that the first of two lines declares, and the rest of the
second arrival is the front of the next request. -/
theorem body_ends_before_next_head :
    ∃ dispatched left, Consecutive localPeer postAndGet dispatched left ∧
      dispatched.map (fun r => (r.path, r.body)) = [("/a", Utf8.encode "hi"), ("/b", [])] ∧
      (∀ r ∈ dispatched, r.Declares r.body.length) ∧
      (serve recordBodies threeParts (accepted localPeer) []).2 =
        [("/a", Utf8.encode "hi"), ("/b", [])] := by
  obtain ⟨-, dispatched, refusal, left, after, -, apart, -, -, answers⟩ :=
    dispatches_first_requests localPeer threeParts
  have whole : threeParts.flatten = postAndGet := by decide +kernel
  have seen : (serve recordBodies threeParts (accepted localPeer) []).2 =
      [("/a", Utf8.encode "hi"), ("/b", [])] := by decide +kernel
  have bodies : dispatched.map (fun r => (r.path, r.body)) =
      [("/a", Utf8.encode "hi"), ("/b", [])] := by
    obtain ⟨all, told⟩ := mapM_recordBodies dispatched []
    rw [(answers recordBodies).1, Run.bind_of_ok told] at seen
    exact seen
  rw [whole] at apart
  exact ⟨dispatched, left, apart, bodies, apart.declares, seen⟩

end Case

end Turnstile.Connection
