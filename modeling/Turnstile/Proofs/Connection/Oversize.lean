import Turnstile.Proofs.Connection.Framing
import Turnstile.Proofs.Http.Lengths

/-!
Requests whose heads declare a body that is too large. The declaration is a decimal numeral of any
size, but a length is a number below `Head.lengthBound`, and a numeral from there on is taken for no
length at all. `oversized_refused_iff_lt_bound` tells the two apart: below the bound the request is
refused and the connection closed, whatever else arrives; from there on the request is dispatched
without a body, and the bytes behind its head are taken for the next request.
-/

namespace Turnstile

namespace Connection

/-- At the front of the buffer stands a head that declares a body by a numeral, and with it makes a
request larger than any may be. -/
structure Oversized (buffer : List UInt8) (head : Head) (rest : List UInt8) (n : Nat) : Prop where
  read : Head.read buffer = .done head rest
  declared : ∃ value,
    head.headers.get? "content-length" = some value ∧ Ascii.Numeral value.toList n
  large : Frame.maxSize < buffer.length - rest.length + n

def bodiless (peer : Peer) (head : Head) : Request :=
  { toHead := head, body := [], peer := some peer }

section

variable {peer : Peer} {buffer bytes rest : List UInt8} {head : Head} {n : Nat}

theorem ofBuffer_of_oversized (h : Oversized buffer head rest n) (bound : n < Head.lengthBound) :
    Frame.ofBuffer peer buffer = .refused Frame.tooLarge := by
  obtain ⟨value, declared, numeral⟩ := h.declared
  have length : head.contentLength? = some n := by
    rw [Head.contentLength?_of_written (Head.get?_eq_some_iff.mp declared) (.plain numeral),
      if_pos bound]
  simp only [Frame.ofBuffer, h.read, Frame.ofHead, length, Option.getD_some, if_pos h.large]

theorem ofBuffer_of_unbounded (h : Oversized buffer head rest n) (bound : ¬ n < Head.lengthBound)
    (fits : buffer.length ≤ Frame.maxSize) :
    Frame.ofBuffer peer buffer = .request (bodiless peer head) rest := by
  obtain ⟨value, declared, numeral⟩ := h.declared
  have length : head.contentLength? = none := by
    rw [Head.contentLength?_of_written (Head.get?_eq_some_iff.mp declared) (.plain numeral),
      if_neg bound]
  have small : ¬ Frame.maxSize < buffer.length - rest.length + 0 := by omega
  simp only [Frame.ofBuffer, h.read, Frame.ofHead, length, Option.getD_none, if_neg small,
    if_neg (Nat.not_lt_zero _), List.take_zero, List.drop_zero]
  rfl

theorem heard_of_large (nonempty : bytes ≠ []) (large : Frame.maxSize < (buffer ++ bytes).length) :
    heard peer buffer bytes = some (.refused Frame.tooLarge) := by
  rw [heard, if_neg (by simpa using nonempty), if_pos large]

theorem heard_of_oversized (nonempty : bytes ≠ []) (h : Oversized (buffer ++ bytes) head rest n)
    (bound : n < Head.lengthBound) : heard peer buffer bytes = some (.refused Frame.tooLarge) := by
  by_cases fits : (buffer ++ bytes).length ≤ Frame.maxSize
  · rw [heard_of_fits peer buffer nonempty fits, ofBuffer_of_oversized h bound]
  · exact heard_of_large nonempty (Nat.lt_of_not_le fits)

theorem serve_of_unbounded (nonempty : bytes ≠ []) (h : Oversized (buffer ++ bytes) head rest n)
    (unbounded : Head.lengthBound ≤ n) (fits : (buffer ++ bytes).length ≤ Frame.maxSize)
    {σ : Type} (handle : Request → Run σ Response) (more : List (List UInt8)) :
    serve handle (bytes :: more) (.reading peer buffer) = do
      let response ← handle (bodiless peer head)
      let (answers, c) ← serve handle more (behind peer (bodiless peer head) rest)
      return (response :: answers, c) := by
  rw [serve_heard, heard_of_fits peer buffer nonempty fits,
    ofBuffer_of_unbounded h (Nat.not_lt.mpr unbounded) fits]

/-- A head that declares too large a body by a numeral is refused as soon as it has been read, and
nothing behind it is looked at, just when the number can be a length or the buffer alone is too
large. Else it is dispatched as a request without a body, and what is behind it is read as the next
request. -/
theorem oversized_refused_iff_lt_bound (nonempty : bytes ≠ [])
    (h : Oversized (buffer ++ bytes) head rest n) :
    ((∀ {σ : Type} (handle : Request → Run σ Response) (more : List (List UInt8)),
      serve handle (bytes :: more) (.reading peer buffer) = pure ([Frame.tooLarge], .closed)) ↔
        n < Head.lengthBound ∨ Frame.maxSize < (buffer ++ bytes).length) ∧
    (Head.lengthBound ≤ n → (buffer ++ bytes).length ≤ Frame.maxSize →
      ∀ {σ : Type} (handle : Request → Run σ Response) (more : List (List UInt8)),
        serve handle (bytes :: more) (.reading peer buffer) = do
          let response ← handle (bodiless peer head)
          let (answers, c) ← serve handle more (behind peer (bodiless peer head) rest)
          return (response :: answers, c)) := by
  refine ⟨⟨?_, ?_⟩, serve_of_unbounded nonempty h⟩
  · intro refused
    by_contra neither
    obtain ⟨unbounded, fits⟩ := not_or.mp neither
    -- A handler whose answers are no refusals tells a dispatched request from a refused one.
    have same := refused (fun _ => (pure (.ofStatus .ok) : Run Unit Response)) []
    rw [serve_of_unbounded nonempty h (Nat.le_of_not_lt unbounded) (Nat.le_of_not_lt fits)] at same
    have answer : Response.ofStatus .ok = Frame.tooLarge := by
      simpa [serve, Except.map] using
        congrArg (fun out => out.1.map (·.1.head?)) (congrFun same ())
    exact absurd (congrArg Response.keepAlive answer) (by decide)
  · intro either σ handle more
    rw [serve_heard]
    rcases either with bound | large
    · rw [heard_of_oversized nonempty h bound]
    · rw [heard_of_large nonempty large]

end

def posting (length : String) : List UInt8 :=
  Utf8.encode ("POST /a HTTP/1.1\r\nContent-Length: " ++ length ++ "\r\n\r\n")

/-- The largest number that can be a length is refused. -/
theorem largest_length_refused :
    let largest := posting "18446744073709551615"
    largest ≠ [] ∧ (∃ head, Oversized ([] ++ largest) head [] (Head.lengthBound - 1)) ∧
      serve recordPaths [largest, getB] (accepted localPeer) =
        pure ([Frame.tooLarge], .closed) := by
  intro largest
  have nonempty : largest ≠ [] := by decide +kernel
  obtain ⟨head, read, declared⟩ : ∃ head, Head.read ([] ++ largest) = .done head [] ∧
      head.headers.get? "content-length" = some "18446744073709551615" :=
    ⟨_, rfl, by decide +kernel⟩
  have numeral : Ascii.Numeral "18446744073709551615".toList (Head.lengthBound - 1) :=
    Ascii.numeral_of_digits (by decide) (by decide +kernel)
  have oversized : Oversized ([] ++ largest) head [] (Head.lengthBound - 1) :=
    ⟨read, ⟨_, declared, numeral⟩, by decide +kernel⟩
  refine ⟨nonempty, ⟨head, oversized⟩, ?_⟩
  exact (oversized_refused_iff_lt_bound nonempty oversized).1.mpr (.inl (by decide)) recordPaths _

/-- One more, and the request is dispatched at once, and the next arrival is not its body but
another request. -/
theorem larger_length_dispatched :
    let endless := posting "18446744073709551616"
    (∃ head, Oversized endless head [] Head.lengthBound) ∧
    (serve recordPaths [endless, getB] (accepted localPeer) []).2 = ["/a", "/b"] ∧
    (serve recordPaths [endless, getB] (accepted localPeer) []).1.toOption.map
      (fun out => (out.1.map (·.status), out.2)) =
      some ([.ok, .ok], .reading localPeer []) := by
  intro endless
  obtain ⟨head, read, declared⟩ : ∃ head, Head.read endless = .done head [] ∧
      head.headers.get? "content-length" = some "18446744073709551616" :=
    ⟨_, rfl, by decide +kernel⟩
  have numeral : Ascii.Numeral "18446744073709551616".toList Head.lengthBound :=
    Ascii.numeral_of_digits (by decide) (by decide +kernel)
  exact ⟨⟨head, read, ⟨_, declared, numeral⟩, by decide +kernel⟩, by decide +kernel,
    by decide +kernel⟩

end Connection

end Turnstile
