import Turnstile.Proofs.Connection.Dispatch

/-!
What a response says of the connection, and what becomes of the connection. The field is written
from the flag of the response and from fields that its maker has set, the connection goes on as the
request has asked. A refusal tells the truth. `tells_iff_flag_is_kept` says when the answer of a
handler does: its flag is what the request has asked for, and its own fields do not say otherwise.
-/

namespace Turnstile

/-- One of the fields says this of the connection. -/
def Headers.announces (h : Headers) (fate : String) : Bool :=
  (h.getAll "connection").any (Ascii.sameWord · fate)

theorem Headers.announces_append (fs gs : List (String × String)) (fate : String) :
    (⟨fs ++ gs⟩ : Headers).announces fate =
      ((⟨fs⟩ : Headers).announces fate || (⟨gs⟩ : Headers).announces fate) := by
  simp only [announces, getAll, List.filterMap_append, List.any_append]

namespace Response

/-- What is sent says this of the connection. -/
def announces (w : Response) (fate : String) : Bool := (⟨w.wireFields⟩ : Headers).announces fate

/-- The fields that are written by rule name the connection once. -/
theorem announces_eq (w : Response) (fate : String) :
    w.announces fate = (w.headers.announces fate || Ascii.sameWord w.connectionField.2 fate) := by
  have typed : (⟨w.defaultType⟩ : Headers).announces fate = false := by
    unfold defaultType
    split <;> rfl
  have ruled : (⟨[w.connectionField, w.lengthField]⟩ : Headers).announces fate =
      Ascii.sameWord w.connectionField.2 fate := by
    have named : Ascii.sameWord w.connectionField.1 "connection" = true := by
      show Ascii.sameWord "Connection" "connection" = true
      decide
    have other : Ascii.sameWord w.lengthField.1 "connection" = false := by
      show Ascii.sameWord "Content-Length" "connection" = false
      decide
    simp [Headers.announces, Headers.getAll, named, other]
  unfold announces wireFields
  rw [Headers.announces_append, Headers.announces_append, typed, ruled, Bool.or_false]

theorem announces_close (w : Response) :
    w.announces "close" = (w.headers.announces "close" || !w.keepAlive) := by
  rw [announces_eq]
  cases flag : w.keepAlive <;> simp only [connectionField, flag] <;> rfl

theorem announces_keepAlive (w : Response) :
    w.announces "keep-alive" = (w.headers.announces "keep-alive" || w.keepAlive) := by
  rw [announces_eq]
  cases flag : w.keepAlive <;> simp only [connectionField, flag] <;> rfl

end Response

namespace Connection

/-- A response says `close` just when the connection is closed behind it, and `keep-alive` just when
it goes on. -/
def Tells (w : Response) (after : Connection) : Prop :=
  (w.announces "close" = true ↔ after = .closed) ∧
    (w.announces "keep-alive" = true ↔ after ≠ .closed)

theorem tells_closed_iff {w : Response} :
    Tells w .closed ↔ w.keepAlive = false ∧ w.headers.announces "keep-alive" = false := by
  unfold Tells
  rw [w.announces_close, w.announces_keepAlive]
  cases w.keepAlive <;> simp

theorem tells_reading_iff {w : Response} {peer : Peer} {buffer : List UInt8} :
    Tells w (.reading peer buffer) ↔ w.keepAlive = true ∧ w.headers.announces "close" = false := by
  unfold Tells
  rw [w.announces_close, w.announces_keepAlive]
  cases w.keepAlive <;> simp

/-- What contradicts the fate that a request asks for. -/
def contrary (r : Request) : String := if r.isKeepAlive then "close" else "keep-alive"

theorem tells_behind_iff {w : Response} (peer : Peer) (r : Request) (rest : List UInt8) :
    Tells w (behind peer r rest) ↔
      w.keepAlive = r.isKeepAlive ∧ w.headers.announces (contrary r) = false := by
  unfold behind contrary
  by_cases opens : r.isKeepAlive = true
  · rw [if_pos opens, if_pos opens, opens]
    exact tells_reading_iff
  · rw [if_neg opens, if_neg opens, Bool.eq_false_iff.mpr opens]
    exact tells_closed_iff

theorem behind_eq_closed_iff (peer : Peer) (r : Request) (rest : List UInt8) :
    behind peer r rest = .closed ↔ r.isKeepAlive = false := by
  unfold behind
  cases r.isKeepAlive <;> simp

theorem tells_of_isRefusal {w : Response} (h : Frame.IsRefusal w) : Tells w .closed := by
  obtain rfl | ⟨fault, rfl⟩ := h
  · exact tells_closed_iff.mpr ⟨rfl, rfl⟩
  · exact tells_closed_iff.mpr ⟨rfl, rfl⟩

variable {σ : Type} {handle : Request → Run σ Response}

/-- All that can be written on an arrival. -/
theorem written_cases {bytes : List UInt8} {c after : Connection} {t u : σ} {w : Response}
    (written : receive handle bytes c t = (.ok (some w, after), u)) :
    (Frame.IsRefusal w ∧ after = .closed) ∨
      ∃ peer r rest, handle r t = (.ok w, u) ∧ after = behind peer r rest := by
  cases c with
  | closed => cases written
  | reading peer buffer =>
    rw [receive_reading] at written
    cases h : heard peer buffer bytes with
    | none =>
      rw [h] at written
      cases written
    | some frame =>
      rw [h] at written
      cases frame with
      | partly => cases written
      | refused response =>
        cases written
        exact .inl ⟨isRefusal_of_heard h, rfl⟩
      | request r rest =>
        obtain ⟨response, v, answered, last⟩ := Run.bind_eq_ok.mp written
        cases last
        exact .inr ⟨peer, r, rest, answered, rfl⟩

/-- What is written behind earlier arrivals: if the connection is closed then, nothing follows. -/
theorem serve_of_closed {bytes : List UInt8} {cut : List (List UInt8)} {c₀ c : Connection}
    {s t u : σ} {answers : List Response} {w : Response}
    (served : serve handle cut c₀ s = (.ok (answers, c), t))
    (written : receive handle bytes c t = (.ok (some w, .closed), u)) (more : List (List UInt8)) :
    serve handle (cut ++ bytes :: more) c₀ s = (.ok (answers ++ [w], .closed), u) := by
  have next : serve handle (bytes :: more) c t = (.ok ([w], .closed), u) := by
    rw [serve, Run.bind_of_ok written]
    simp [serve_closed]
  rw [serve_append]
  exact (Run.bind_of_ok served _).trans (Run.bind_of_ok next _)

/-- A response is written on an arrival, somewhere in a run of a connection. If the connection is
closed behind it, nothing is written any more. A refusal says so. The answer of a handler is written
before the connection does as the request has asked, and says what the connection does just when the
flag of the answer is what the request has asked for and no field of the answer's own says the
contrary. -/
theorem tells_iff_flag_is_kept {peer : Peer} {cut : List (List UInt8)} {bytes : List UInt8}
    {s t u : σ} {answers : List Response} {c after : Connection} {w : Response}
    (served : serve handle cut (accepted peer) s = (.ok (answers, c), t))
    (written : receive handle bytes c t = (.ok (some w, after), u)) :
    (after = .closed → ∀ more,
      serve handle (cut ++ bytes :: more) (accepted peer) s =
        (.ok (answers ++ [w], .closed), u)) ∧
    (Frame.IsRefusal w ∧ after = .closed ∧ Tells w after ∨
      ∃ r, handle r t = (.ok w, u) ∧ (after = .closed ↔ r.isKeepAlive = false) ∧
        (Tells w after ↔
          w.keepAlive = r.isKeepAlive ∧ w.headers.announces (contrary r) = false)) := by
  constructor
  · rintro rfl more
    exact serve_of_closed served written more
  · rcases written_cases written with ⟨refusal, rfl⟩ | ⟨peer', r, rest, answered, rfl⟩
    · exact .inl ⟨refusal, rfl, tells_of_isRefusal refusal⟩
    · exact .inr ⟨r, answered, behind_eq_closed_iff peer' r rest, tells_behind_iff peer' r rest⟩

def getAndClose : List UInt8 := Utf8.encode "GET /a HTTP/1.1\r\nConnection: close\r\n\r\n"

/-- Answers with the flag that the request has asked for. -/
def obey (r : Request) : Run Unit Response := pure { status := .ok, keepAlive := r.isKeepAlive }

/-- A second request asks for the connection to be closed, and its answer says so. -/
theorem tells_when_obeyed :
    let ok : Response := { status := .ok, keepAlive := true }
    let bye : Response := { status := .ok, keepAlive := false }
    serve obey [getA] (accepted localPeer) () = (.ok ([ok], .reading localPeer []), ()) ∧
    receive obey getAndClose (.reading localPeer []) () = (.ok (some bye, .closed), ()) ∧
    serve obey [getA, getAndClose, getB] (accepted localPeer) () =
      (.ok ([ok, bye], .closed), ()) ∧
    Tells bye .closed := by
  intro ok bye
  have served : serve obey [getA] (accepted localPeer) () =
      (.ok ([ok], .reading localPeer []), ()) := rfl
  have written : receive obey getAndClose (.reading localPeer []) () =
      (.ok (some bye, .closed), ()) := rfl
  obtain ⟨silent, told⟩ := tells_iff_flag_is_kept served written
  refine ⟨served, written, silent rfl [getB], ?_⟩
  rcases told with ⟨-, -, tells⟩ | ⟨r, answered, -, iff⟩
  · exact tells
  · have flag : bye.keepAlive = r.isKeepAlive := by
      have same : { bye with keepAlive := r.isKeepAlive } = bye := by
        simpa [obey] using congrArg Prod.fst answered
      exact (congrArg Response.keepAlive same).symm
    exact iff.mpr ⟨flag, rfl⟩

/-- Handlers that do not look at what a request asks for: one says `keep-alive` of a connection that
is closed, where the next request has no answer; another says `close` of one that goes on. -/
theorem closed_without_saying :
    let plain : Response := .ofStatus .ok
    let bye : Response := { plain with keepAlive := false }
    let always (w : Response) : Request → Run Unit Response := fun _ => pure w
    serve (always plain) [getAndClose, getB] (accepted localPeer) () =
      (.ok ([plain], .closed), ()) ∧
    plain.announces "keep-alive" = true ∧ plain.announces "close" = false ∧
    plain.wire =
      Utf8.encode "HTTP/1.1 200 OK\r\nConnection: keep-alive\r\nContent-Length: 0\r\n\r\n" ∧
    serve (always bye) [getA, getB] (accepted localPeer) () =
      (.ok ([bye, bye], .reading localPeer []), ()) ∧
    bye.announces "close" = true ∧ bye.announces "keep-alive" = false := by
  intro plain bye always
  exact ⟨rfl, by decide, by decide, by decide +kernel, rfl, by decide, by decide⟩

end Connection

end Turnstile
