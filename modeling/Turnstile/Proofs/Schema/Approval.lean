import Turnstile.Proofs.Json.RoundTrip
import Turnstile.Proofs.Schema.Payloads
import Turnstile.Proofs.Schema.Sanitize

namespace Turnstile

open Json (Value Reads)

namespace ApproveSubmission

/-- The members of an object that is an approval. -/
structure Describes (members : List (String × Value)) (p : ApproveSubmission) : Prop where
  declared : ∀ m ∈ members, m.1 ∈ ["notes"]
  notes : NotesOf (Keyed.get? "notes" members) p.notes

/-- The items of an array that becomes an approval. -/
inductive Listed : List Value → ApproveSubmission → Prop
  | nothing : Listed [] ⟨none⟩
  | null : Listed [.null] ⟨none⟩
  | text (t : String) : Listed [.string t] ⟨some t⟩

theorem agrees : payload.Agrees Describes where
  passes_iff := by
    intro v
    rw [payload, schema, Schema.validate_forbidUnknown_eq_ok_iff (by simp)]
    simp only [Schema.rules_field, Schema.rules_empty, List.nil_append, List.map_cons,
      List.map_nil, List.forall_mem_cons, fulfils_optionalNotes]
    constructor
    · rintro ⟨declared, ⟨n, notes⟩, -⟩
      exact ⟨⟨n⟩, declared, notes⟩
    · rintro ⟨p, declared, notes⟩
      exact ⟨declared, ⟨_, notes⟩, nofun⟩
  reads := by
    intro members p described
    have all : TextField.readAll "ApproveSubmission" fields (.object members) = .ok [p.notes] := by
      apply TextField.readAll_object
      simp [fields, described.notes.read]
    change read (.object members) = .ok p
    rw [read, all]
    rfl

theorem describes_nil : Describes [] ⟨none⟩ := ⟨nofun, .missing⟩

theorem read_array_iff {items : List Value} {p : ApproveSubmission} :
    payload.read (.array items) = .ok p ↔ Listed items p := by
  constructor
  · intro read
    rcases items with _ | ⟨v, _ | ⟨w, rest⟩⟩
    · obtain rfl := Except.ok.inj read
      exact .nothing
    · cases v with
      | null =>
        obtain rfl := Except.ok.inj read
        exact .null
      | string t =>
        obtain rfl := Except.ok.inj read
        exact .text t
      | _ => cases read
    · cases v <;> cases read
  · intro listed
    cases listed <;> rfl

theorem validate_array (items : List Value) : payload.schema.validate (.array items) = .ok () :=
  (agrees.passes_iff _).mpr ⟨_, describes_nil⟩

/-- What is accepted is an object that is described, or an array of one item at most. -/
theorem accept_eq_ok_iff {body : List UInt8} {p : ApproveSubmission} :
    payload.accept body = .ok p ↔ ∃ raw, Value.parse? body = some raw ∧
      ((∃ members, raw.sanitize = .object members ∧ Describes members p) ∨
        ∃ items, raw.sanitize = .array items ∧ Listed items p) := by
  rw [Payload.accept_eq_ok_iff]
  refine exists_congr fun raw => and_congr_right fun _ => ?_
  constructor
  · rintro ⟨valid, read⟩
    cases same : raw.sanitize with
    | object members =>
      rw [same] at valid read
      exact .inl ⟨members, rfl, (agrees.read_object_iff valid).mp read⟩
    | array items =>
      rw [same] at read
      exact .inr ⟨items, rfl, read_array_iff.mp read⟩
    | _ =>
      rw [same] at read
      cases read
  · rintro (⟨members, same, described⟩ | ⟨items, same, listed⟩)
    · rw [same]
      exact ⟨(agrees.passes_iff _).mpr ⟨p, described⟩, agrees.reads described⟩
    · rw [same]
      exact ⟨validate_array items, read_array_iff.mpr listed⟩

/-- The body of an array with one text. -/
def listedBody (t : String) : List UInt8 := Utf8.encodeChars (Value.array [.string t]).chars

theorem parse?_listedBody (t : String) :
    Value.parse? (listedBody t) = some (.array [.string t]) := by
  have reads : Reads (.array [.string t]) (.array [.string (Json.textPieces t)]) :=
    Json.reads_array (.cons (Json.reads_string t) .nil)
  rw [Value.parse?, listedBody, reads.parse?]
  simp [Json.maxDepth, Json.Tree.value?, Json.itemValues?, Json.piecesText?_textPieces]

/-- A text that cleaning leaves alone is accepted from an array, however long it is. -/
theorem accept_listedBody {t : String} (safe : ∀ c ∈ t.toList, Sanitize.IsSafe c) :
    payload.accept (listedBody t) = .ok ⟨some t⟩ := by
  refine accept_eq_ok_iff.mpr ⟨_, parse?_listedBody t, .inr ⟨[.string t], ?_, .text t⟩⟩
  rw [Value.sanitize, Json.sanitizeItems, Json.sanitizeItems, Value.sanitize,
    Sanitize.text_of_isSafe safe]

/-- Notes of an accepted approval are longer than the bound just when they were listed. -/
theorem notes_exceed_iff_listed (body : List UInt8) (p : ApproveSubmission) :
    (payload.accept body = .ok p ∧ ∃ t, p.notes = some t ∧ 1000 < t.length) ↔
      ∃ raw t, Value.parse? body = some raw ∧ raw.sanitize = .array [.string t] ∧
        1000 < t.length ∧ p = ⟨some t⟩ := by
  rw [accept_eq_ok_iff]
  constructor
  · rintro ⟨⟨raw, parsed, ⟨members, -, described⟩ | ⟨items, same, listed⟩⟩, t, noted, long⟩
    · exact absurd (described.notes.bounded noted) (Nat.not_le.mpr long)
    · cases listed with
      | nothing => cases noted
      | null => cases noted
      | text u =>
        obtain rfl := Option.some.inj noted
        exact ⟨raw, u, parsed, same, long, rfl⟩
  · rintro ⟨raw, t, parsed, same, long, rfl⟩
    exact ⟨⟨raw, parsed, .inr ⟨_, same, .text t⟩⟩, t, rfl, long⟩

section Case

/-- One character too many, in an array. -/
theorem long_notes_listed :
    let t := String.ofList (List.replicate 1001 'x')
    payload.accept (listedBody t) = .ok ⟨some t⟩ ∧ 1000 < t.length := by
  intro t
  have safe : ∀ c ∈ t.toList, Sanitize.IsSafe c := by
    intro c mem
    rw [String.toList_ofList] at mem
    obtain rfl := List.eq_of_mem_replicate mem
    exact ⟨by decide, by decide, by decide, by decide⟩
  have long : t.length = 1001 := by
    rw [String.length_ofList, List.length_replicate]
  exact ⟨accept_listedBody safe, by omega⟩

end Case

end ApproveSubmission

end Turnstile
