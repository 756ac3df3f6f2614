import Turnstile.Proofs.Schema.Formats
import Turnstile.Proofs.Schema.Violations
import Turnstile.Schema.Payload

/-!
What the gateway's payloads accept. A body is looked at twice, by a schema and by the reader of a
record, and these need not see the same: the schema takes what is no object for an empty one, and
the reader takes an array for a record's fields in order. Where a field is required the two agree,
and such a payload accepts just what is written down for it.
-/

namespace Turnstile

open Json (Value)

namespace Mismatch

/-- What is reported of a value that does not become a record starts in one of two ways. -/
theorem head_message (e : Mismatch) :
    e.message.toList.head? = some 'i' ∨ e.message.toList.head? = some 'm' := by
  have first (s t : String) (c : Char) (h : s.toList.head? = some c) :
      (s ++ t).toList.head? = some c := by
    rw [String.toList_append, List.head?_append, h]
    rfl
  cases e with
  | wrongType found expected => exact .inl (first _ _ _ (first _ _ _ (first _ _ _ (by decide))))
  | missing field => exact .inr (first _ _ _ (first _ _ _ (by decide)))
  | tooFew found record wanted =>
    exact .inl (first _ _ _ (first _ _ _ (first _ _ _ (first _ _ _ (first _ _ _
      (first _ _ _ (by decide)))))))
  | tooMany found => exact .inl (first _ _ _ (first _ _ _ (by decide)))

end Mismatch

namespace Schema

/-- No message of the schema starts as that of a mismatch does, and no field has its own schema. -/
def SpeaksApart (s : Schema) : Prop :=
  (∀ r ∈ s.rules, r.2.2 = none) ∧ ∀ r ∈ s.rules, ∀ c ∈ r.2.1,
    (c.message r.1).toList.head? ≠ some 'i' ∧ (c.message r.1).toList.head? ≠ some 'm'

instance (s : Schema) : Decidable s.SpeaksApart := inferInstanceAs (Decidable (_ ∧ _))

/-- The failures of such a schema hold no mismatch, whatever names the object has. -/
theorem SpeaksApart.message_notMem {s : Schema} (apart : s.SpeaksApart) {v : Value} {f : Failures}
    (failed : s.validate v = .error f) (path : String) (e : Mismatch) :
    e.message ∉ f.messages path := by
  intro mem
  obtain ⟨rules, forbids⟩ := s
  obtain ⟨flat, clear⟩ := apart
  have head := e.head_message
  obtain ⟨name, same⟩ | ⟨r, inside, c, mem, same⟩ :=
    mem_violations_of_flat flat (mem_violations_of_messages failed mem)
  · have property : e.message.toList.head? = some 'p' := by
      rw [same, String.toList_append, String.toList_append]
      rfl
    simp [property] at head
  · rw [same] at head
    exact head.elim (clear r inside c mem).1 (clear r inside c mem).2

end Schema

namespace Payload

variable {α : Type} {p : Payload α}

theorem accept_eq_ok_iff {body : List UInt8} {a : α} :
    p.accept body = .ok a ↔ ∃ raw, Value.parse? body = some raw ∧
      p.schema.validate raw.sanitize = .ok () ∧ p.read raw.sanitize = .ok a := by
  rw [accept]
  cases Value.parse? body with
  | none => simp
  | some raw =>
    simp only [Option.some.injEq, exists_eq_left']
    cases valid : p.schema.validate raw.sanitize with
    | error failures => simp
    | ok _ => cases found : p.read raw.sanitize <;> simp

/-- The payload accepts just the bodies whose cleaned value is an object that is described, each as
the record that it is described by. Of any other JSON all failures are those of the schema, for what
passes the schema becomes a record. -/
def AcceptsJust (p : Payload α) (Describes : List (String × Value) → α → Prop) : Prop :=
  ∀ body,
    (∀ a, p.accept body = .ok a ↔ ∃ raw members, Value.parse? body = some raw ∧
      raw.sanitize = .object members ∧ Describes members a) ∧
    ∀ raw, Value.parse? body = some raw →
      (p.schema.validate raw.sanitize = .ok () → ∃ a, p.read raw.sanitize = .ok a) ∧
      ∀ f, p.accept body = .error f →
        p.schema.validate raw.sanitize = .error f ∧
          ∀ (path : String) (e : Mismatch), e.message ∉ f.messages path

/-- The schema holds of the members that are described, and an object is read as described. -/
structure Agrees (p : Payload α) (Describes : List (String × Value) → α → Prop) : Prop where
  passes_iff : ∀ v, p.schema.validate v = .ok () ↔ ∃ a, Describes (Schema.membersOf v) a
  reads : ∀ {members a}, Describes members a → p.read (.object members) = .ok a

namespace Agrees

variable {Describes : List (String × Value) → α → Prop}

theorem read_object_iff (agrees : p.Agrees Describes) {members : List (String × Value)}
    (valid : p.schema.validate (.object members) = .ok ()) {a : α} :
    p.read (.object members) = .ok a ↔ Describes members a := by
  obtain ⟨b, described⟩ := (agrees.passes_iff _).mp valid
  rw [Schema.membersOf_object] at described
  constructor
  · intro read
    rw [agrees.reads described] at read
    obtain rfl := Except.ok.inj read
    exact described
  · exact agrees.reads

/-- Where no record is described by an object without members, what passes is an object. -/
theorem object_of_passes (agrees : p.Agrees Describes) (some_member : ∀ a, ¬ Describes [] a)
    {v : Value} (valid : p.schema.validate v = .ok ()) : ∃ members, v = .object members := by
  obtain ⟨a, described⟩ := (agrees.passes_iff v).mp valid
  cases v with
  | object members => exact ⟨members, rfl⟩
  | _ => exact absurd described (some_member a)

theorem acceptsJust (agrees : p.Agrees Describes) (some_member : ∀ a, ¬ Describes [] a)
    (apart : p.schema.SpeaksApart) : p.AcceptsJust Describes := by
  have becomes {v : Value} (valid : p.schema.validate v = .ok ()) : ∃ a, p.read v = .ok a := by
    obtain ⟨members, rfl⟩ := agrees.object_of_passes some_member valid
    obtain ⟨a, described⟩ := (agrees.passes_iff _).mp valid
    exact ⟨a, agrees.reads described⟩
  intro body
  constructor
  · intro a
    rw [accept_eq_ok_iff]
    constructor
    · rintro ⟨raw, parsed, valid, read⟩
      obtain ⟨members, same⟩ := agrees.object_of_passes some_member valid
      rw [same] at valid read
      exact ⟨raw, members, parsed, same, (agrees.read_object_iff valid).mp read⟩
    · rintro ⟨raw, members, parsed, same, described⟩
      refine ⟨raw, parsed, ?_⟩
      rw [same]
      exact ⟨(agrees.passes_iff _).mpr ⟨a, described⟩, agrees.reads described⟩
  · intro raw parsed
    refine ⟨becomes, fun f refused => ?_⟩
    rw [accept, parsed] at refused
    simp only at refused
    cases valid : p.schema.validate raw.sanitize with
    | ok _ =>
      obtain ⟨a, read⟩ := becomes valid
      simp [valid, read] at refused
    | error g =>
      rw [valid] at refused
      obtain rfl := Except.error.inj refused
      exact ⟨rfl, apart.message_notMem valid⟩

end Agrees

end Payload

section Fields

open Constraint (onText)
open Schema (Fulfils)

variable {value : Option Value} {object : List (String × Value)}

theorem exists_string_of_onText {p : String → Bool} (h : onText value p = true) :
    ∃ s, value = some (.string s) := by
  rcases value with _ | v
  · cases h
  · cases v with
    | string s => exact ⟨s, rfl⟩
    | _ => cases h

/-- A field that may not be left out, and that a constraint holds to be a text, is a text for which
all its constraints hold. -/
theorem fulfils_iff_text {constraints : List Constraint}
    (required : constraints.any Constraint.isOptional = false) {c : Constraint}
    (mem : c ∈ constraints) {p : String → Bool}
    (textual : ∀ value, c.holds value object = onText value p) :
    Fulfils constraints value object ↔ ∃ s, value = some (.string s) ∧
      ∀ c ∈ constraints, c.holds (some (.string s)) object = true := by
  rw [Fulfils, required]
  constructor
  · rintro (⟨-, optional⟩ | holds)
    · cases optional
    · have here := holds c mem
      rw [textual] at here
      obtain ⟨s, rfl⟩ := exists_string_of_onText here
      exact ⟨s, rfl, holds⟩
  · rintro ⟨s, rfl, holds⟩
    exact .inr holds

theorem fulfils_uuid :
    Fulfils [.isUuid, .notEmpty] value object ↔
      ∃ s, value = some (.string s) ∧ Formats.IsUuid s := by
  rw [fulfils_iff_text (c := .isUuid) rfl (by simp) (fun _ => rfl)]
  refine exists_congr fun s => and_congr_right fun _ => ?_
  have not_empty : Formats.isUuid s = true → s ≠ "" := by
    rintro uuid rfl
    revert uuid
    decide
  simpa [Constraint.holds, onText, Constraint.isBlank, ← Formats.isUuid_iff] using not_empty

theorem fulfils_fileName :
    Fulfils [.isString, .notEmpty, .minLength 1, .maxLength 255] value object ↔
      ∃ s, value = some (.string s) ∧ 1 ≤ s.length ∧ s.length ≤ 255 := by
  rw [fulfils_iff_text (c := .isString) rfl (by simp) (fun _ => rfl)]
  refine exists_congr fun s => and_congr_right fun _ => ?_
  have not_empty : 1 ≤ s.length → s ≠ "" := by
    rintro some_chars rfl
    exact absurd some_chars (by decide)
  simpa [Constraint.holds, onText, Constraint.isBlank] using fun one _ => not_empty one

theorem fulfils_fileContent :
    Fulfils [.isString, .notEmpty] value object ↔
      ∃ s, value = some (.string s) ∧ s ≠ "" := by
  rw [fulfils_iff_text (c := .isString) rfl (by simp) (fun _ => rfl)]
  refine exists_congr fun s => and_congr_right fun _ => ?_
  simp [Constraint.holds, onText, Constraint.isBlank]

theorem fulfils_reason :
    Fulfils
        [Constraint.notEmpty.withMessage "Rejection reason is required",
          .isString,
          (Constraint.minLength 10).withMessage "Rejection reason must be at least 10 characters",
          (Constraint.maxLength 500).withMessage "Rejection reason cannot exceed 500 characters"]
        value object ↔
      ∃ s, value = some (.string s) ∧ 10 ≤ s.length ∧ s.length ≤ 500 := by
  rw [fulfils_iff_text (c := .isString) rfl (by simp) (fun _ => rfl)]
  refine exists_congr fun s => and_congr_right fun _ => ?_
  have not_empty : 10 ≤ s.length → s ≠ "" := by
    rintro some_chars rfl
    exact absurd some_chars (by decide)
  simpa [Constraint.holds, Constraint.withMessage, onText, Constraint.isBlank] using
    fun ten _ => not_empty ten

theorem fulfils_account :
    Fulfils
        [.isString, .notEmpty,
          Constraint.isAccount.withMessage "Must be a valid Stellar public key address"]
        value object ↔
      ∃ s, value = some (.string s) ∧ Address.IsAccount s := by
  rw [fulfils_iff_text (c := .isString) rfl (by simp) (fun _ => rfl)]
  refine exists_congr fun s => and_congr_right fun _ => ?_
  have not_empty : Address.isAccount s = true → s ≠ "" := by
    rintro account rfl
    revert account
    decide
  simpa [Constraint.holds, Constraint.withMessage, onText, Constraint.isBlank,
    ← Address.isAccount_iff] using not_empty

inductive NotesOf : Option Value → Option String → Prop
  | missing : NotesOf none none
  | null : NotesOf (some .null) none
  | text {t : String} (bounded : t.length ≤ 1000) : NotesOf (some (.string t)) (some t)

theorem fulfils_optionalNotes : Fulfils optionalNotes value object ↔ ∃ n, NotesOf value n := by
  constructor
  · rintro (⟨absent, -⟩ | holds)
    · rcases value with _ | v
      · exact ⟨none, .missing⟩
      · cases v with
        | null => exact ⟨none, .null⟩
        | _ => cases absent
    · obtain ⟨s, rfl⟩ := exists_string_of_onText (holds .isString (by simp [optionalNotes]))
      have bounded := holds (.maxLength 1000) (by simp [optionalNotes])
      exact ⟨some s, .text (of_decide_eq_true bounded)⟩
  · rintro ⟨n, notes⟩
    cases notes with
    | missing => exact .inl ⟨rfl, rfl⟩
    | null => exact .inl ⟨rfl, rfl⟩
    | text bounded =>
      right
      simpa [optionalNotes, Constraint.holds, onText] using bounded

theorem NotesOf.bounded {notes : Option String} (h : NotesOf value notes) {t : String}
    (noted : notes = some t) : t.length ≤ 1000 := by
  cases h with
  | missing => cases noted
  | null => cases noted
  | text bounded =>
    obtain rfl := Option.some.inj noted
    exact bounded

theorem NotesOf.read {notes : Option String} (h : NotesOf value notes) :
    TextField.read ⟨"notes", false⟩ value = .ok notes := by
  cases h <;> rfl

end Fields

@[simp] theorem TextField.read_string (f : TextField) (s : String) :
    f.read (some (.string s)) = .ok (some s) := rfl

/-- Fields read one by one make up the record's fields. -/
theorem TextField.readAll_object {record : String} {members : List (String × Value)}
    {fields : List TextField} {ts : List (Option String)}
    (each : List.Forall₂ (fun f t => f.read (Keyed.get? f.name members) = .ok t) fields ts) :
    readAll record fields (.object members) = .ok ts := by
  rw [readAll]
  induction each with
  | nil => rfl
  | cons here later ih =>
    rw [List.mapM_cons, here, ih]
    rfl

namespace SubmitProof

/-- The members of an object that is a proof. -/
structure Describes (members : List (String × Value)) (p : SubmitProof) : Prop where
  declared : ∀ m ∈ members, m.1 ∈ ["userId", "questId", "fileName", "fileContent"]
  userId : Keyed.get? "userId" members = some (.string p.userId) ∧ Formats.IsUuid p.userId
  questId : Keyed.get? "questId" members = some (.string p.questId) ∧ Formats.IsUuid p.questId
  fileName : Keyed.get? "fileName" members = some (.string p.fileName) ∧
    1 ≤ p.fileName.length ∧ p.fileName.length ≤ 255
  fileContent : Keyed.get? "fileContent" members = some (.string p.fileContent) ∧
    p.fileContent ≠ ""

theorem agrees : payload.Agrees Describes where
  passes_iff := by
    intro v
    rw [payload, schema, Schema.validate_forbidUnknown_eq_ok_iff (by simp)]
    simp only [Schema.rules_field, Schema.rules_empty, List.nil_append, List.cons_append,
      List.map_cons, List.map_nil, List.forall_mem_cons, fulfils_uuid, fulfils_fileName,
      fulfils_fileContent]
    constructor
    · rintro ⟨declared, ⟨u, userId⟩, ⟨q, questId⟩, ⟨n, fileName⟩, ⟨c, fileContent⟩, -⟩
      exact ⟨⟨u, q, n, c⟩, declared, userId, questId, fileName, fileContent⟩
    · rintro ⟨p, declared, userId, questId, fileName, fileContent⟩
      exact ⟨declared, ⟨_, userId⟩, ⟨_, questId⟩, ⟨_, fileName⟩, ⟨_, fileContent⟩, nofun⟩
  reads := by
    intro members p described
    have all : TextField.readAll "SubmitProof" fields (.object members) =
        .ok [some p.userId, some p.questId, some p.fileName, some p.fileContent] := by
      apply TextField.readAll_object
      simp [fields, described.userId.1, described.questId.1, described.fileName.1,
        described.fileContent.1]
    change read (.object members) = .ok p
    rw [read, all]
    rfl

theorem not_describes_nil (p : SubmitProof) : ¬ Describes [] p := by
  intro described
  cases described.userId.1

theorem speaksApart : payload.schema.SpeaksApart := by decide +kernel

end SubmitProof

namespace RejectSubmission

/-- The members of an object that is a rejection. -/
structure Describes (members : List (String × Value)) (p : RejectSubmission) : Prop where
  declared : ∀ m ∈ members, m.1 ∈ ["reason", "notes"]
  reason : Keyed.get? "reason" members = some (.string p.reason) ∧
    10 ≤ p.reason.length ∧ p.reason.length ≤ 500
  notes : NotesOf (Keyed.get? "notes" members) p.notes

theorem agrees : payload.Agrees Describes where
  passes_iff := by
    intro v
    rw [payload, schema, Schema.validate_forbidUnknown_eq_ok_iff (by simp)]
    simp only [Schema.rules_field, Schema.rules_empty, List.nil_append, List.cons_append,
      List.map_cons, List.map_nil, List.forall_mem_cons, fulfils_reason, fulfils_optionalNotes]
    constructor
    · rintro ⟨declared, ⟨r, reason⟩, ⟨n, notes⟩, -⟩
      exact ⟨⟨r, n⟩, declared, reason, notes⟩
    · rintro ⟨p, declared, reason, notes⟩
      exact ⟨declared, ⟨_, reason⟩, ⟨_, notes⟩, nofun⟩
  reads := by
    intro members p described
    have all : TextField.readAll "RejectSubmission" fields (.object members) =
        .ok [some p.reason, p.notes] := by
      apply TextField.readAll_object
      simp [fields, described.reason.1, described.notes.read]
    change read (.object members) = .ok p
    rw [read, all]
    rfl

theorem not_describes_nil (p : RejectSubmission) : ¬ Describes [] p := by
  intro described
  cases described.reason.1

theorem speaksApart : payload.schema.SpeaksApart := by decide +kernel

end RejectSubmission

namespace ChallengeRequest

/-- The members of an object that is a request for a challenge. -/
structure Describes (members : List (String × Value)) (p : ChallengeRequest) : Prop where
  declared : ∀ m ∈ members, m.1 ∈ ["stellarAddress"]
  stellarAddress : Keyed.get? "stellarAddress" members = some (.string p.stellarAddress) ∧
    Address.IsAccount p.stellarAddress

theorem agrees : payload.Agrees Describes where
  passes_iff := by
    intro v
    rw [payload, schema, Schema.validate_forbidUnknown_eq_ok_iff (by simp)]
    simp only [Schema.rules_field, Schema.rules_empty, List.nil_append,
      List.map_cons, List.map_nil, List.forall_mem_cons, fulfils_account]
    constructor
    · rintro ⟨declared, ⟨a, address⟩, -⟩
      exact ⟨⟨a⟩, declared, address⟩
    · rintro ⟨p, declared, address⟩
      exact ⟨declared, ⟨_, address⟩, nofun⟩
  reads := by
    intro members p described
    have all : TextField.readAll "ChallengeRequest" fields (.object members) =
        .ok [some p.stellarAddress] := by
      apply TextField.readAll_object
      simp [fields, described.stellarAddress.1]
    change read (.object members) = .ok p
    rw [read, all]
    rfl

theorem not_describes_nil (p : ChallengeRequest) : ¬ Describes [] p := by
  intro described
  cases described.stellarAddress.1

theorem speaksApart : payload.schema.SpeaksApart := by decide +kernel

end ChallengeRequest

/-- Proofs, rejections and requests for a challenge are accepted just as they are described, and no
JSON that passes their schemas fails to become a record. -/
theorem Payload.accept_just_what_is_described :
    SubmitProof.payload.AcceptsJust SubmitProof.Describes ∧
    RejectSubmission.payload.AcceptsJust RejectSubmission.Describes ∧
    ChallengeRequest.payload.AcceptsJust ChallengeRequest.Describes := by
  refine ⟨?_, ?_, ?_⟩
  · exact SubmitProof.agrees.acceptsJust SubmitProof.not_describes_nil SubmitProof.speaksApart
  · exact RejectSubmission.agrees.acceptsJust RejectSubmission.not_describes_nil
      RejectSubmission.speaksApart
  · exact ChallengeRequest.agrees.acceptsJust ChallengeRequest.not_describes_nil
      ChallengeRequest.speaksApart

/-- The reason counts as it is once it has been cleaned, so that the second one is too short, and
notes that are null are none. -/
theorem Payload.cleaned_reason_counts :
    let fine := Utf8.encode "\x7b\"notes\": null, \"reason\": \" <b>Too blurry</b>\"\x7d"
    let short := Utf8.encode "\x7b\"reason\": \"<b>Too short</b>\"\x7d"
    RejectSubmission.payload.accept fine = .ok ⟨"Too blurry", none⟩ ∧
    (∃ raw members, Value.parse? fine = some raw ∧ raw.sanitize = .object members ∧
      RejectSubmission.Describes members ⟨"Too blurry", none⟩) ∧
    (∃ raw f, Value.parse? short = some raw ∧ RejectSubmission.payload.accept short = .error f ∧
      RejectSubmission.payload.schema.validate raw.sanitize = .error f ∧
      f.messages "reason" = ["Rejection reason must be at least 10 characters"] ∧
      ∀ (path : String) (e : Mismatch), e.message ∉ f.messages path) := by
  intro fine short
  obtain ⟨-, rejections, -⟩ := Payload.accept_just_what_is_described
  have accepted : RejectSubmission.payload.accept fine = .ok ⟨"Too blurry", none⟩ := by
    have record : (RejectSubmission.payload.accept fine).toOption = some ⟨"Too blurry", none⟩ := by
      decide +kernel
    cases outcome : RejectSubmission.payload.accept fine with
    | error f =>
      rw [outcome] at record
      cases record
    | ok a =>
      rw [outcome] at record
      rw [Option.some.inj record]
  have json : (Value.parse? short).isSome = true := by decide +kernel
  obtain ⟨raw, parsed⟩ := Option.isSome_iff_exists.mp json
  have told : (match RejectSubmission.payload.accept short with
      | .error f => f.messages "reason"
      | .ok _ => []) = ["Rejection reason must be at least 10 characters"] := by
    decide +kernel
  cases outcome : RejectSubmission.payload.accept short with
  | ok a =>
    rw [outcome] at told
    cases told
  | error f =>
    rw [outcome] at told
    obtain ⟨failed, apart⟩ := ((rejections short).2 raw parsed).2 f outcome
    exact ⟨accepted, ((rejections fine).1 _).mp accepted, raw, f, parsed, rfl, failed, told, apart⟩

end Turnstile
