import Turnstile.Connection.Basic
import Turnstile.Proofs.Http.Scanning
import Turnstile.Proofs.Run

/-!
What a connection answers, told from the whole stream that arrives on it. The stream is framed at
one go into turns, and the connection answers the first of them, at most one for each arrival.
`answers_every_turn_iff_unhurried` says when these are all: no run of arrivals at the end of the
stream may bring more turns to their end than it has arrivals.
-/

namespace Turnstile

namespace Frame

theorem ofHead_append (peer : Peer) (head : Head) (size : Nat) (rest more : List UInt8)
    (whole : ofHead peer head size rest ≠ .partly) :
    ofHead peer head size (rest ++ more) =
      match ofHead peer head size rest with
      | .request r left => .request r (left ++ more)
      | frame => frame := by
  simp only [ofHead] at whole ⊢
  split
  · rfl
  · next fits =>
    simp only [if_neg fits] at whole ⊢
    split at whole
    · exact absurd rfl whole
    · next arrived =>
      have le : head.contentLength?.getD 0 ≤ rest.length := by omega
      rw [if_neg (by rw [List.length_append]; omega), if_neg arrived]
      simp only [List.take_append_of_le_length le, List.drop_append_of_le_length le]

/-- What stands at the front of a buffer stays there when more bytes arrive. -/
theorem ofBuffer_append (peer : Peer) (buffer more : List UInt8)
    (whole : ofBuffer peer buffer ≠ .partly) :
    ofBuffer peer (buffer ++ more) =
      match ofBuffer peer buffer with
      | .request r left => .request r (left ++ more)
      | frame => frame := by
  unfold ofBuffer at whole ⊢
  cases found : Head.read buffer with
  | incomplete => simp [found] at whole
  | invalid e =>
    rw [Head.scans_read.stable buffer more (by simp [found]), found]
    rfl
  | done head rest =>
    rw [Head.scans_read.stable buffer more (by simp [found]), found]
    obtain ⟨-, size⟩ := Head.scans_read.takes buffer head rest found
    simp only [found, Reading.extend] at whole ⊢
    rw [show (buffer ++ more).length - (rest ++ more).length = buffer.length - rest.length by
      simp only [List.length_append]; omega]
    exact ofHead_append peer head _ rest more whole

/-- A request at the front of a buffer: its head is read there, and directly behind the head stand
as many bytes of body as the head declares. -/
theorem read_of_request {peer : Peer} {buffer rest : List UInt8} {r : Request}
    (h : ofBuffer peer buffer = .request r rest) :
    Head.read buffer = .done r.toHead (r.body ++ rest) ∧
      r.body.length = r.contentLength?.getD 0 ∧ r.peer = some peer := by
  unfold ofBuffer at h
  cases found : Head.read buffer with
  | incomplete => simp [found] at h
  | invalid e => simp [found] at h
  | done head left =>
    simp only [found, ofHead] at h
    split at h
    · cases h
    · split at h
      · cases h
      · next arrived =>
        cases h
        refine ⟨by rw [List.take_append_drop], ?_, rfl⟩
        exact List.length_take_of_le (Nat.le_of_not_lt arrived)

theorem length_rest_lt {peer : Peer} {buffer rest : List UInt8} {r : Request}
    (h : ofBuffer peer buffer = .request r rest) : rest.length < buffer.length := by
  obtain ⟨read, -, -⟩ := read_of_request h
  obtain ⟨-, size⟩ := Head.scans_read.takes buffer r.toHead (r.body ++ rest) read
  rw [List.length_append] at size
  omega

/-- What is refused is too large or no request at all. -/
def IsRefusal (response : Response) : Prop :=
  response = tooLarge ∨ ∃ fault, response = badRequest fault

theorem isRefusal_of_refused {peer : Peer} {buffer : List UInt8} {response : Response}
    (h : ofBuffer peer buffer = .refused response) : IsRefusal response := by
  unfold ofBuffer at h
  cases found : Head.read buffer with
  | incomplete => simp [found] at h
  | invalid fault =>
    simp only [found] at h
    cases h
    exact .inr ⟨fault, rfl⟩
  | done head left =>
    simp only [found, ofHead] at h
    split at h
    · cases h
      exact .inl rfl
    · split at h <;> cases h

end Frame

namespace Connection

/-- What a stream gives to answer: a whole request, or bytes that no request can come from. -/
inductive Turn where
  | request (r : Request)
  | refusal (response : Response)
  deriving DecidableEq, Repr

/-- The turns of a stream, framed at one go: each request stands behind the one before it, up to the
first that asks for the connection to be closed. -/
def turns (peer : Peer) (stream : List UInt8) : List Turn :=
  match _ : Frame.ofBuffer peer stream with
  | .partly => []
  | .refused response => [.refusal response]
  | .request r rest => .request r :: if r.isKeepAlive then turns peer rest else []
termination_by stream.length
decreasing_by exact Frame.length_rest_lt ‹_›

variable {peer : Peer} {stream rest : List UInt8}

theorem turns_of_partly (h : Frame.ofBuffer peer stream = .partly) : turns peer stream = [] := by
  rw [turns]
  split <;> simp_all

theorem turns_of_refused {response : Response}
    (h : Frame.ofBuffer peer stream = .refused response) (more : List UInt8) :
    turns peer (stream ++ more) = [.refusal response] := by
  have h' := Frame.ofBuffer_append peer stream more (by simp [h])
  rw [h] at h'
  rw [turns]
  split <;> simp_all

theorem turns_of_request {r : Request} (h : Frame.ofBuffer peer stream = .request r rest)
    (more : List UInt8) :
    turns peer (stream ++ more) =
      .request r :: if r.isKeepAlive then turns peer (rest ++ more) else [] := by
  have h' := Frame.ofBuffer_append peer stream more (by simp [h])
  rw [h] at h'
  rw [turns]
  split <;> simp_all

theorem turns_nil (peer : Peer) : turns peer [] = [] := turns_of_partly rfl

variable {σ : Type}

/-- The answer to a turn: a request is given to a handler. -/
def Turn.answer (handle : Request → Run σ Response) : Turn → Run σ Response
  | .request r => handle r
  | .refusal response => pure response

/-- The answers to turns, one after another, on a connection that is closed afterwards. -/
def answerAll (handle : Request → Run σ Response) (ts : List Turn) :
    Run σ (List Response × Connection) :=
  return (← ts.mapM (Turn.answer handle), .closed)

/-- How many turns have been answered when so many have been before these arrivals: an arrival gives
the next turn, if it stands in what has arrived until then. -/
def answeredFrom (peer : Peer) (k : Nat) (arrived : List UInt8) : List (List UInt8) → Nat
  | [] => k
  | bytes :: more =>
    let arrived := arrived ++ bytes
    answeredFrom peer (min (k + 1) (turns peer arrived).length) arrived more

/-- How many turns of a stream are answered when it arrives in these parts. -/
def answered (peer : Peer) (cut : List (List UInt8)) : Nat := answeredFrom peer 0 [] cut

theorem answeredFrom_shift (peer : Peer) {n : Nat} {whole left : List UInt8}
    (h : ∀ more, (turns peer (whole ++ more)).length = n + (turns peer (left ++ more)).length)
    (k : Nat) (cut : List (List UInt8)) :
    answeredFrom peer (n + k) whole cut = n + answeredFrom peer k left cut := by
  induction cut generalizing k whole left with
  | nil => rfl
  | cons bytes cut ih =>
    have step : min (n + k + 1) (turns peer (whole ++ bytes)).length =
        n + min (k + 1) (turns peer (left ++ bytes)).length := by
      rw [h bytes]
      omega
    simp only [answeredFrom, step]
    apply ih
    intro more
    simpa only [List.append_assoc] using h (bytes ++ more)

theorem answeredFrom_of_settled (peer : Peer) {k : Nat} (arrived : List UInt8)
    (h : ∀ more, (turns peer (arrived ++ more)).length = k) (cut : List (List UInt8)) :
    answeredFrom peer k arrived cut = k := by
  induction cut generalizing arrived with
  | nil => rfl
  | cons bytes cut ih =>
    have step : min (k + 1) (turns peer (arrived ++ bytes)).length = k := by
      rw [h bytes]
      omega
    simp only [answeredFrom, step]
    apply ih
    intro more
    simpa only [List.append_assoc] using h (bytes ++ more)

theorem serve_closed (handle : Request → Run σ Response) (cut : List (List UInt8)) :
    serve handle cut .closed = pure ([], .closed) := by
  induction cut with
  | nil => rfl
  | cons bytes cut ih => simp [serve, ih]

/-- What an open connection makes of an arrival, before any handler is asked: nothing at the end of
the stream, and else the front of what is buffered then. -/
def heard (peer : Peer) (buffer bytes : List UInt8) : Option Frame :=
  if bytes.isEmpty then none
  else if Frame.maxSize < (buffer ++ bytes).length then some (.refused Frame.tooLarge)
  else some (Frame.ofBuffer peer (buffer ++ bytes))

theorem receive_reading (handle : Request → Run σ Response) (peer : Peer)
    (buffer bytes : List UInt8) :
    receive handle bytes (.reading peer buffer) =
      match heard peer buffer bytes with
      | none => pure (none, .closed)
      | some .partly => pure (none, .reading peer (buffer ++ bytes))
      | some (.refused response) => pure (some response, .closed)
      | some (.request r rest) => do
        let response ← handle r
        return (some response, behind peer r rest) := by
  simp only [receive, heard]
  split
  · rfl
  · split
    · rfl
    · cases Frame.ofBuffer peer (buffer ++ bytes) <;> rfl

theorem serve_heard (handle : Request → Run σ Response) (peer : Peer)
    (buffer bytes : List UInt8) (cut : List (List UInt8)) :
    serve handle (bytes :: cut) (.reading peer buffer) =
      match heard peer buffer bytes with
      | none => pure ([], .closed)
      | some .partly => serve handle cut (.reading peer (buffer ++ bytes))
      | some (.refused response) => pure ([response], .closed)
      | some (.request r rest) => do
        let response ← handle r
        let (answers, c) ← serve handle cut (behind peer r rest)
        return (response :: answers, c) := by
  rw [serve, receive_reading]
  cases heard peer buffer bytes with
  | none => simp [serve_closed]
  | some frame =>
    cases frame with
    | partly => simp
    | refused response => simp [serve_closed]
    | request r rest => simp

theorem heard_of_fits (peer : Peer) (buffer : List UInt8) {bytes : List UInt8}
    (nonempty : bytes ≠ []) (fits : (buffer ++ bytes).length ≤ Frame.maxSize) :
    heard peer buffer bytes = some (Frame.ofBuffer peer (buffer ++ bytes)) := by
  rw [heard, if_neg (by simpa using nonempty), if_neg (by omega)]

/-- A connection answers the first turns of what it has buffered and what arrives, one for each
arrival that there is a turn for. -/
theorem serve_eq_answerAll (handle : Request → Run σ Response) (peer : Peer)
    (cut : List (List UInt8)) (nonempty : ∀ bytes ∈ cut, bytes ≠ []) (buffer : List UInt8)
    (fits : (buffer ++ cut.flatten).length ≤ Frame.maxSize) :
    serve handle (cut ++ [[]]) (.reading peer buffer) =
      answerAll handle
        ((turns peer (buffer ++ cut.flatten)).take (answeredFrom peer 0 buffer cut)) := by
  induction cut generalizing buffer with
  | nil => simp [serve, receive, answeredFrom, answerAll]
  | cons bytes cut ih =>
    obtain ⟨here, later⟩ := List.forall_mem_cons.mp nonempty
    rw [List.flatten_cons, ← List.append_assoc] at fits ⊢
    have size : (buffer ++ bytes).length ≤ Frame.maxSize := by
      rw [List.length_append] at fits
      omega
    rw [List.cons_append, serve_heard, heard_of_fits peer buffer here size]
    cases found : Frame.ofBuffer peer (buffer ++ bytes) with
    | partly =>
      simp only [answeredFrom, turns_of_partly found, List.length_nil, Nat.min_zero]
      exact ih later (buffer ++ bytes) fits
    | refused response =>
      have alone := turns_of_refused found
      have one : answeredFrom peer 0 buffer (bytes :: cut) = 1 := by
        have now := alone []
        rw [List.append_nil] at now
        simp only [answeredFrom, now, List.length_singleton]
        exact answeredFrom_of_settled peer _ (fun more => by rw [alone]; rfl) cut
      rw [alone, one]
      simp [answerAll, Turn.answer]
    | request r rest =>
      have first := turns_of_request found
      have one : min (0 + 1) (turns peer (buffer ++ bytes)).length = 1 := by
        have now := first []
        rw [List.append_nil] at now
        rw [now, List.length_cons]
        omega
      rw [first, answeredFrom, one]
      by_cases open' : r.isKeepAlive = true
      · simp only [if_pos open'] at first ⊢
        have grown : ∀ more, (turns peer (buffer ++ bytes ++ more)).length =
            1 + (turns peer (rest ++ more)).length := by
          intro more
          rw [first, List.length_cons, Nat.add_comm]
        have shift := answeredFrom_shift peer grown 0 cut
        have shorter := Frame.length_rest_lt found
        have left := ih later rest (by simp only [List.length_append] at fits shorter ⊢; omega)
        simp only [behind, if_pos open', left, Nat.add_zero] at shift ⊢
        rw [shift, Nat.add_comm, List.take_succ_cons]
        simp [answerAll, Turn.answer]
      · simp only [if_neg open'] at first ⊢
        have settled := answeredFrom_of_settled peer (k := 1) (buffer ++ bytes)
          (fun more => by rw [first, List.length_singleton]) cut
        rw [settled]
        simp [behind, open', answerAll, Turn.answer, serve_closed]

/-- So many turns are answered exactly when, at each arrival, no more of them are still missing than
there are arrivals behind it. -/
theorem le_answeredFrom_iff (peer : Peer) (j k : Nat) (arrived : List UInt8)
    (cut : List (List UInt8)) :
    j ≤ answeredFrom peer k arrived cut ↔
      j ≤ k + cut.length ∧ ∀ before behind, cut = before ++ behind → before ≠ [] →
        j ≤ (turns peer (arrived ++ before.flatten)).length + behind.length := by
  induction cut generalizing k arrived with
  | nil => simp [answeredFrom]
  | cons bytes cut ih =>
    rw [answeredFrom, ih, List.length_cons]
    constructor
    · rintro ⟨fewer, each⟩
      refine ⟨by omega, ?_⟩
      intro before behind split some
      obtain ⟨rfl, -⟩ | ⟨before, rfl, parts⟩ := List.cons_eq_append_iff.mp split
      · exact absurd rfl some
      · rcases before with _ | ⟨b, before⟩
        · obtain rfl : cut = behind := parts
          rw [List.flatten_cons, List.flatten_nil, List.append_nil]
          omega
        · rw [List.flatten_cons, ← List.append_assoc]
          exact each (b :: before) behind parts (List.cons_ne_nil b before)
    · rintro ⟨fewer, each⟩
      have first := each [bytes] cut rfl (List.cons_ne_nil bytes [])
      rw [List.flatten_cons, List.flatten_nil, List.append_nil] at first
      refine ⟨by omega, ?_⟩
      intro before behind split some
      have next := each (bytes :: before) behind (by rw [split, List.cons_append])
        (List.cons_ne_nil bytes before)
      rwa [List.flatten_cons, ← List.append_assoc] at next

theorem le_answered_iff (peer : Peer) (j : Nat) (cut : List (List UInt8)) :
    j ≤ answered peer cut ↔ ∀ before behind, cut = before ++ behind →
      j ≤ (turns peer before.flatten).length + behind.length := by
  rw [answered, le_answeredFrom_iff]
  constructor
  · rintro ⟨fewer, each⟩ before behind rfl
    rcases before with _ | ⟨bytes, before⟩
    · simpa [turns_nil] using fewer
    · exact each _ behind rfl (List.cons_ne_nil bytes before)
  · intro each
    refine ⟨?_, fun before behind split _ => each before behind split⟩
    simpa [turns_nil] using each [] cut rfl

/-- No run of arrivals at the end of a stream brings more turns to their end than it is long. -/
def Unhurried (peer : Peer) (cut : List (List UInt8)) : Prop :=
  ∀ before behind, cut = before ++ behind →
    (turns peer cut.flatten).length ≤ (turns peer before.flatten).length + behind.length

theorem serve_accepted (handle : Request → Run σ Response) (peer : Peer)
    (cut : List (List UInt8)) (nonempty : ∀ bytes ∈ cut, bytes ≠ [])
    (fits : cut.flatten.length ≤ Frame.maxSize) :
    serve handle (cut ++ [[]]) (accepted peer) =
      answerAll handle ((turns peer cut.flatten).take (answered peer cut)) :=
  serve_eq_answerAll handle peer cut nonempty [] (by simpa using fits)

/-- What a turn is answered with when every request is answered alike. -/
def Turn.constant (response : Response) : Turn → Response
  | .request _ => response
  | .refusal own => own

theorem answerAll_constant (response : Response) (ts : List Turn) :
    answerAll (fun _ => (pure response : Run σ Response)) ts =
      pure (ts.map (Turn.constant response), .closed) := by
  have each : Turn.answer (fun _ => (pure response : Run σ Response)) =
      fun t => pure (t.constant response) := by
    funext t
    cases t <;> rfl
  rw [answerAll, each, List.mapM_pure, pure_bind]

theorem answers_every_turn_iff_unhurried (peer : Peer) (cut : List (List UInt8))
    (nonempty : ∀ bytes ∈ cut, bytes ≠ []) (fits : cut.flatten.length ≤ Frame.maxSize) :
    (∀ {σ : Type} (handle : Request → Run σ Response),
      serve handle (cut ++ [[]]) (accepted peer) =
        answerAll handle ((turns peer cut.flatten).take (answered peer cut))) ∧
    ((∀ {σ : Type} (handle : Request → Run σ Response),
      serve handle (cut ++ [[]]) (accepted peer) = answerAll handle (turns peer cut.flatten)) ↔
        Unhurried peer cut) := by
  refine ⟨fun handle => serve_accepted handle peer cut nonempty fits, ?_, ?_⟩
  · intro all
    have same := all (fun _ => (pure Frame.tooLarge : Run Unit Response))
    rw [serve_accepted _ peer cut nonempty fits] at same
    rw [answerAll_constant, answerAll_constant] at same
    have size := congrArg (fun answers => answers.1.map (·.1.length)) (congrFun same ())
    refine (le_answered_iff peer _ cut).mp ?_
    simp only [Run.pure_apply, Except.map, Except.ok.injEq, List.length_map,
      List.length_take] at size
    omega
  · intro unhurried σ handle
    rw [serve_accepted handle peer cut nonempty fits, List.take_of_length_le]
    exact (le_answered_iff peer _ cut).mpr unhurried

/-- The paths that a handler is asked for, which it keeps in its state. -/
def recordPaths (r : Request) : Run (List String) Response := do
  Run.modify (· ++ [r.path])
  return .ofStatus .ok

def localPeer : Peer := ⟨.v4 127 0 0 1, 50000⟩

def getA : List UInt8 := Utf8.encode "GET /a HTTP/1.1\r\n\r\n"

def getB : List UInt8 := Utf8.encode "GET /b HTTP/1.1\r\n\r\n"

theorem answers_two_arrivals :
    (∀ bytes ∈ [getA, getB], bytes ≠ []) ∧ [getA, getB].flatten.length ≤ Frame.maxSize ∧
    serve recordPaths ([getA, getB] ++ [[]]) (accepted localPeer) =
      answerAll recordPaths
        ((turns localPeer [getA, getB].flatten).take (answered localPeer [getA, getB])) ∧
    ((∀ {σ : Type} (handle : Request → Run σ Response),
      serve handle ([getA, getB] ++ [[]]) (accepted localPeer) =
        answerAll handle (turns localPeer [getA, getB].flatten)) ↔
          Unhurried localPeer [getA, getB]) := by
  have nonempty : ∀ bytes ∈ [getA, getB], bytes ≠ [] := by decide +kernel
  have fits : [getA, getB].flatten.length ≤ Frame.maxSize := by decide +kernel
  have both := answers_every_turn_iff_unhurried localPeer [getA, getB] nonempty fits
  exact ⟨nonempty, fits, both.1 recordPaths, both.2⟩

/-- Two requests that arrive at once: the second is never given to the handler. It is when each
arrives by itself. -/
theorem pipelined_request_unanswered :
    (serve recordPaths [getA ++ getB, []] (accepted localPeer) []).2 = ["/a"] ∧
    (serve recordPaths [getA, getB, []] (accepted localPeer) []).2 = ["/a", "/b"] ∧
    (answerAll recordPaths (turns localPeer (getA ++ getB)) []).2 = ["/a", "/b"] := by
  refine ⟨by decide +kernel, by decide +kernel, ?_⟩
  obtain ⟨a, foundA, openA, pathA⟩ :
      ∃ r, Frame.ofBuffer localPeer (getA ++ getB) = .request r getB ∧
        r.isKeepAlive = true ∧ r.path = "/a" := ⟨_, rfl, by decide +kernel, by decide +kernel⟩
  obtain ⟨b, foundB, openB, pathB⟩ :
      ∃ r, Frame.ofBuffer localPeer getB = .request r [] ∧
        r.isKeepAlive = true ∧ r.path = "/b" := ⟨_, rfl, by decide +kernel, by decide +kernel⟩
  have both : turns localPeer (getA ++ getB) = [.request a, .request b] := by
    have turnsA := turns_of_request foundA []
    have turnsB := turns_of_request foundB []
    rw [List.append_nil] at turnsA turnsB
    rw [turnsA, openA, if_pos rfl, List.append_nil, turnsB, openB, if_pos rfl, List.append_nil,
      turns_nil]
  simp [both, answerAll, Turn.answer, recordPaths, pathA, pathB, Run.modify, Run.bind_apply,
    Run.map_apply]

end Connection

end Turnstile
