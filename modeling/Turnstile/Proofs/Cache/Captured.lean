import Turnstile.Cache.Stage
import Turnstile.Proofs.Json.RoundTrip

namespace Turnstile

open Json (Reads)

/-- What the text of a body reads as. -/
def CapturedBody.tree : CapturedBody → Json.Tree
  | .text t => .string (Json.textPieces t)
  | .binary s => .array (s.map fun b => .numeral (.ofNat b.toNat))

theorem CapturedBody.reads_toJson (b : CapturedBody) : Reads b.toJson b.tree := by
  cases b with
  | text t => exact Json.reads_string t
  | binary s =>
    apply Json.reads_array
    rw [List.forall₂_map_left_iff, List.forall₂_map_right_iff, List.forall₂_same]
    exact fun b _ => Json.reads_ofNat b.toNat

theorem CapturedBody.ofTree?_tree (b : CapturedBody) : ofTree? b.tree = some b := by
  cases b with
  | text t => simp [tree, ofTree?, Json.piecesText?_textPieces]
  | binary s =>
    have bytes : (s.map fun b => Json.Tree.numeral (.ofNat b.toNat)).mapM
        (Json.Tree.natBelow? 256) = some (s.map UInt8.toNat) := by
      induction s with
      | nil => rfl
      | cons b s ih =>
        have byte : Json.Tree.natBelow? 256 (.numeral (.ofNat b.toNat)) = some b.toNat :=
          Json.natBelow?_ofNat b.toNat_lt (by decide)
        simp [byte, ih]
    have back : UInt8.ofNat ∘ UInt8.toNat = id := funext fun _ => UInt8.ofNat_toNat
    simp only [tree, ofTree?, bytes, Option.map_some, List.map_map, back, List.map_id]

/-- A body is kept by its bytes. -/
theorem CapturedBody.bytes_ofBytes (s : List UInt8) : (ofBytes s).bytes = s := by
  rw [ofBytes]
  split
  · next decoded => exact Utf8.encode_of_text? decoded
  · rfl

/-- A body that is the UTF-8 of a text is kept as that text. -/
theorem CapturedBody.ofBytes_encode (t : String) : ofBytes (Utf8.encode t) = .text t := by
  rw [ofBytes, Utf8.text?_encode]

/-- Any other body is kept as it is. -/
theorem CapturedBody.ofBytes_of_ne_encode {s : List UInt8} (h : ∀ t, Utf8.encode t ≠ s) :
    ofBytes s = .binary s := by
  rw [ofBytes]
  split
  · next t decoded => exact absurd (Utf8.encode_of_text? decoded) (h t)
  · rfl

namespace CapturedResponse

/-- What the text of a kept response reads as. -/
def tree (c : CapturedResponse) : Json.Tree :=
  .object
    ((Json.textPieces "status", .numeral (.ofNat c.status)) ::
      ((match c.contentType with
        | some t => [(Json.textPieces "contentType", .string (Json.textPieces t))]
        | none => [])
      ++ [(Json.textPieces "body", c.body.tree)]))

theorem reads_toJson (c : CapturedResponse) : Reads c.toJson c.tree := by
  apply Json.reads_object
  refine .cons ⟨rfl, Json.reads_ofNat c.status⟩ ?_
  have body : List.Forall₂ (fun m t => t.1 = Json.textPieces m.1 ∧ Reads m.2 t.2)
      [("body", c.body.toJson)] [(Json.textPieces "body", c.body.tree)] :=
    .cons ⟨rfl, c.body.reads_toJson⟩ .nil
  cases c.contentType with
  | none => exact body
  | some t => exact .cons ⟨rfl, Json.reads_string t⟩ body

theorem ofTree?_tree (c : CapturedResponse) (h : c.status < statusBound) :
    ofTree? c.tree = some c := by
  have status := Json.natBelow?_ofNat h (by decide)
  obtain ⟨n, contentType, body⟩ := c
  have fields : (tree ⟨n, contentType, body⟩).fields? fieldNames =
      some [some (.numeral (.ofNat n)),
        contentType.map fun t => .string (Json.textPieces t), some body.tree] := by
    cases contentType <;>
      simp [tree, Json.Tree.fields?, Json.Tree.members?, Json.piecesText?_textPieces, fieldNames,
        Keyed.get?]
  have kind : Json.optional Json.Tree.string? (contentType.map fun t => .string (Json.textPieces t))
      = some contentType :=
    Json.optional_textTree Json.string?_textTree contentType
  simp [ofTree?, fields, kind, Json.required, status, CapturedBody.ofTree?_tree]

/-- A kept response is read as it was written, if its status has sixteen bits. -/
theorem parse?_toJson (c : CapturedResponse) (h : c.status < statusBound) :
    parse? (Utf8.encodeChars c.toJson.chars) = some c := by
  rw [parse?, c.reads_toJson.parse?]
  exact ofTree?_tree c h

theorem code_lt_statusBound (s : Status) : s.code < statusBound := by cases s <;> decide

/-- A captured response is read as it was captured. -/
theorem parse?_capture (r : Response) :
    parse? (Utf8.encodeChars (capture r).toJson.chars) = some (capture r) :=
  parse?_toJson (capture r) (code_lt_statusBound r.status)

/-- The one field that a captured response keeps. -/
def typeField (r : Response) : List (String × String) :=
  match r.headers.get? "content-type" with
  | some t => [("Content-Type", t)]
  | none => []

theorem replay_capture (r : Response) :
    (capture r).replay = { status := r.status, headers := ⟨typeField r⟩, body := r.body } := by
  simp only [replay, capture, Status.ofCode?_code, CapturedBody.bytes_ofBytes, typeField]
  cases r.headers.get? "content-type" <;> rfl

/-- A response that is written down as it is kept, and read back, is given again with its status,
the bytes of its body, its first content type if it has one, and no other field. If the body is the
UTF-8 of a text, it has come back as that text, and otherwise as a list of bytes. -/
theorem replays_what_was_captured (r : Response) :
    ∃ c, parse? (Utf8.encodeChars (capture r).toJson.chars) = some c ∧
      c.replay.status = r.status ∧ c.replay.body = r.body ∧
      c.replay.headers.entries =
        ((r.headers.getAll "content-type").head?.map fun t => ("Content-Type", t)).toList ∧
      (∀ t, Utf8.encode t = r.body → c.body = .text t) ∧
      ((∀ t, Utf8.encode t ≠ r.body) → c.body = .binary r.body) := by
  refine ⟨capture r, parse?_capture r, ?_, ?_, ?_, ?_, ?_⟩
  · rw [replay_capture]
  · rw [replay_capture]
  · rw [replay_capture, typeField, ← Headers.get?_eq_head?_getAll]
    cases r.headers.get? "content-type" <;> rfl
  · intro t same
    show CapturedBody.ofBytes r.body = .text t
    rw [← same, CapturedBody.ofBytes_encode]
  · intro illFormed
    exact CapturedBody.ofBytes_of_ne_encode illFormed

section Case

/-- A text with a field that is not kept. -/
def page : Response :=
  ((Response.ofText .created "\"é\"").addHeader "X-Cache" "MISS").addHeader "content-type" "a/b"

/-- A byte that no character has. -/
def blob : Response := { status := .notFound, body := [0xFF] }

theorem blob_is_no_text (t : String) : Utf8.encode t ≠ blob.body := by
  intro same
  have read : Utf8.text? blob.body = some t := by rw [← same, Utf8.text?_encode]
  have unreadable : Utf8.text? blob.body = none := by decide +kernel
  rw [unreadable] at read
  cases read

/-- Each comes back in its own form, and of its fields only the content type. -/
theorem page_and_blob_replayed :
    (∃ c, parse? (Utf8.encodeChars (capture page).toJson.chars) = some c ∧
      c.replay.headers.entries = [("Content-Type", "a/b")] ∧ c.body = .text "\"é\"") ∧
    ∃ c, parse? (Utf8.encodeChars (capture blob).toJson.chars) = some c ∧
      c.replay.headers.entries = [] ∧ c.body = .binary [0xFF] := by
  obtain ⟨c, read, -, -, fields, text, -⟩ := replays_what_was_captured page
  obtain ⟨d, read', -, -, fields', -, bytes⟩ := replays_what_was_captured blob
  have kept : page.headers.getAll "content-type" = ["a/b"] := by decide +kernel
  have nothing : blob.headers.getAll "content-type" = [] := by decide +kernel
  rw [kept] at fields
  rw [nothing] at fields'
  exact ⟨⟨c, read, fields, text _ rfl⟩, d, read', fields', bytes blob_is_no_text⟩

end Case

end CapturedResponse

end Turnstile
