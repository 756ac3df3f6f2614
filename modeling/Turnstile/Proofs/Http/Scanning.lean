import Turnstile.Http.Head

namespace Turnstile

namespace Reading

variable {α β : Type}

theorem extend_map (f : α → β) (more : List UInt8) (r : Reading α) :
    (r.map f).extend more = (r.extend more).map f := by
  cases r <;> rfl

theorem map_eq_incomplete {f : α → β} {r : Reading α} :
    r.map f = .incomplete ↔ r = .incomplete := by
  cases r <;> simp [Reading.map]

theorem map_eq_done {f : α → β} {r : Reading α} {b : β} {rest : List UInt8} :
    r.map f = .done b rest ↔ ∃ a, r = .done a rest ∧ f a = b := by
  cases r with
  | done a rest' =>
    constructor
    · rintro ⟨⟩
      exact ⟨a, rfl, rfl⟩
    · rintro ⟨a, ⟨⟩, rfl⟩
      rfl
  | incomplete => simp [Reading.map]
  | invalid fault => simp [Reading.map]

theorem bind_eq_done {f : α → Reader β} {r : Reading α} {b : β} {rest : List UInt8} :
    r.bind f = .done b rest ↔ ∃ a middle, r = .done a middle ∧ f a middle = .done b rest := by
  cases r with
  | done a middle =>
    constructor
    · intro h
      exact ⟨a, middle, rfl, h⟩
    · rintro ⟨a, middle, ⟨⟩, h⟩
      exact h
  | incomplete => simp [Reading.bind]
  | invalid fault => simp [Reading.bind]

end Reading

namespace Reader

variable {α β : Type}

/-- A reader that ends leaves a rest behind at least so many bytes. -/
def Takes (n : Nat) (r : Reader α) : Prop :=
  ∀ s a rest, r s = .done a rest → rest <:+ s ∧ rest.length + n ≤ s.length

/-- A reader that moves on through a stream: bytes behind those it has read are nothing to it, and
it takes at least so many bytes. -/
structure Scans (n : Nat) (r : Reader α) : Prop where
  stable : r.Stable
  takes : r.Takes n

theorem Scans.bind {n m : Nat} {r : Reader α} {f : α → Reader β} (hr : Scans n r)
    (hf : ∀ a, Scans m (f a)) : Scans (n + m) fun s => (r s).bind f where
  stable := hr.stable.bind fun a => (hf a).stable
  takes := by
    intro s b rest h
    obtain ⟨a, middle, found, h⟩ := Reading.bind_eq_done.mp h
    obtain ⟨suffix, size⟩ := hr.takes s a middle found
    obtain ⟨suffix', size'⟩ := (hf a).takes middle b rest h
    exact ⟨suffix'.trans suffix, by omega⟩

theorem Scans.map {n : Nat} {r : Reader α} (h : Scans n r) (f : α → β) :
    Scans n fun s => (r s).map f where
  stable := by
    intro s more found
    rw [ne_eq, Reading.map_eq_incomplete] at found
    show (r (s ++ more)).map f = ((r s).map f).extend more
    rw [Reading.extend_map, h.stable s more found]
  takes := by
    intro s b rest found
    obtain ⟨a, found, -⟩ := Reading.map_eq_done.mp found
    exact h.takes s a rest found

theorem Scans.weaken {n m : Nat} {r : Reader α} (h : Scans n r) (le : m ≤ n) : Scans m r where
  stable := h.stable
  takes := by
    intro s a rest found
    obtain ⟨suffix, size⟩ := h.takes s a rest found
    exact ⟨suffix, by omega⟩

theorem scans_done (a : α) : Scans 0 fun s => .done a s where
  stable := fun _ _ _ => rfl
  takes := by
    rintro s - - ⟨⟩
    exact ⟨List.suffix_rfl, Nat.le_refl _⟩

theorem scans_invalid (n : Nat) (e : HeadFault) : Scans n fun _ => (.invalid e : Reading α) where
  stable := fun _ _ _ => rfl
  takes := nofun

section Bytes

variable (accept : UInt8 → Bool) (stop : UInt8) (fault : HeadFault)

theorem scans_upTo : Scans 1 (upTo accept stop fault) where
  stable := by
    intro s more h
    induction s with
    | nil => exact absurd rfl h
    | cons b s ih =>
      simp only [upTo, List.cons_append] at h ⊢
      split
      · rfl
      · next stopped =>
        rw [if_neg stopped] at h
        split
        · next accepted =>
          rw [if_pos accepted, ne_eq, Reading.map_eq_incomplete] at h
          rw [ih h, Reading.extend_map]
        · rfl
  takes := by
    intro s
    induction s with
    | nil => exact nofun
    | cons b s ih =>
      intro bs rest h
      rw [upTo] at h
      split at h
      · cases h
        exact ⟨List.suffix_cons b s, Nat.le_refl _⟩
      · split at h
        · obtain ⟨bs, h, -⟩ := Reading.map_eq_done.mp h
          obtain ⟨suffix, size⟩ := ih bs rest h
          exact ⟨suffix.trans (List.suffix_cons b s), by rw [List.length_cons]; omega⟩
        · cases h

theorem scans_upTo1 : Scans 1 (upTo1 accept stop fault) := by
  refine (scans_upTo accept stop fault).bind (m := 0) fun bs => ?_
  split
  · exact scans_invalid 0 fault
  · exact scans_done bs

theorem scans_literal (ws : List UInt8) : Scans ws.length (literal fault ws) where
  stable := by
    intro s more h
    fun_induction literal fault ws s <;> simp_all [literal, Reading.extend]
  takes := by
    intro s
    fun_induction literal fault ws s with
    | case1 s => exact (scans_done ()).takes s
    | case2 => exact nofun
    | case3 w ws b s same ih =>
      intro a rest h
      obtain ⟨suffix, size⟩ := ih a rest h
      exact ⟨suffix.trans (List.suffix_cons b s), by simp only [List.length_cons]; omega⟩
    | case4 => exact nofun

end Bytes

theorem scans_lineEnd : Scans 1 lineEnd where
  stable := by
    intro s more h
    fun_cases lineEnd s with
    | case5 b s => rcases s with _ | ⟨c, s⟩ <;> simp_all [lineEnd, Reading.extend]
    | _ => simp_all [lineEnd, Reading.extend]
  takes := by
    intro s a rest h
    fun_cases lineEnd s with
    | case2 t =>
      cases h
      exact ⟨List.suffix_cons _ _, Nat.le_refl _⟩
    | case4 t =>
      cases h
      exact ⟨(List.suffix_cons _ _).trans (List.suffix_cons _ _), by simp⟩
    | _ => simp_all [lineEnd]

end Reader

namespace Head.Grammar

open Reader

theorem scans_skipEmptyLines : Scans 0 skipEmptyLines where
  stable := by
    intro s more h
    fun_induction skipEmptyLines s with
    | case6 b s => rcases s with _ | ⟨c, s⟩ <;> simp_all [skipEmptyLines, Reading.extend]
    | _ => simp_all [skipEmptyLines, Reading.extend]
  takes := by
    intro s a rest
    fun_induction skipEmptyLines s with
    | case2 s ih =>
      intro h
      obtain ⟨suffix, size⟩ := ih h
      exact ⟨suffix.trans (List.suffix_cons _ s), by simp only [List.length_cons]; omega⟩
    | case4 s ih =>
      intro h
      obtain ⟨suffix, size⟩ := ih h
      refine ⟨suffix.trans ((List.suffix_cons _ s).trans (List.suffix_cons _ _)), ?_⟩
      simp only [List.length_cons]
      omega
    | case6 b s => exact (scans_done ()).takes (b :: s) a rest
    | _ => exact nofun

theorem scans_skipBlanks : Scans 0 skipBlanks where
  stable := by
    intro s more h
    fun_induction skipBlanks s <;> simp_all [skipBlanks, Reading.extend]
  takes := by
    intro s a rest
    fun_induction skipBlanks s with
    | case1 => exact nofun
    | case2 b s blank ih =>
      intro h
      obtain ⟨suffix, size⟩ := ih h
      exact ⟨suffix.trans (List.suffix_cons b s), by simp only [List.length_cons]; omega⟩
    | case3 b s => exact (scans_done ()).takes (b :: s) a rest

theorem scans_valueBytes : Scans 0 valueBytes where
  stable := by
    intro s more h
    fun_induction valueBytes s with
    | case5 b s lf cr crlf accepted ih =>
      rw [ne_eq, Reading.map_eq_incomplete] at h
      have step : valueBytes (b :: (s ++ more)) = (valueBytes (s ++ more)).map (b :: ·) := by
        rcases s with _ | ⟨c, s⟩ <;> simp_all [valueBytes]
      rw [List.cons_append, step, ih h, Reading.extend_map]
    | case6 b s => rcases s with _ | ⟨c, s⟩ <;> simp_all [valueBytes, Reading.extend]
    | _ => simp_all [valueBytes, Reading.extend]
  takes := by
    intro s
    fun_induction valueBytes s with
    | case2 s =>
      rintro - - ⟨⟩
      exact ⟨List.suffix_cons _ s, by simp⟩
    | case4 s =>
      rintro - - ⟨⟩
      exact ⟨(List.suffix_cons _ s).trans (List.suffix_cons _ _), by simp; omega⟩
    | case5 b s _ _ _ _ ih =>
      intro bs rest h
      obtain ⟨bs, h, -⟩ := Reading.map_eq_done.mp h
      obtain ⟨suffix, size⟩ := ih bs rest h
      exact ⟨suffix.trans (List.suffix_cons b s), by simp only [List.length_cons]; omega⟩
    | _ => exact nofun

theorem scans_method : Scans 1 method :=
  (scans_upTo1 _ _ _).bind (m := 0) fun bs => scans_done (Method.ofToken (asciiText bs))

theorem scans_target : Scans 1 target := by
  refine (scans_upTo1 _ _ _).bind (m := 0) fun bs => ?_
  cases Utf8.text? bs with
  | some t => exact scans_done t
  | none => exact scans_invalid 0 .token

theorem scans_minorVersion : Scans 1 minorVersion where
  stable := by
    intro s more h
    fun_cases minorVersion s <;> simp_all [minorVersion, Reading.extend]
  takes := by
    intro s v rest h
    fun_cases minorVersion s <;> simp_all [minorVersion]

theorem scans_version : Scans 9 version := by
  show Scans (7 + (1 + (1 + 0))) version
  refine (scans_literal .version [0x48, 0x54, 0x54, 0x50, 0x2F, 0x31, 0x2E]).bind fun _ => ?_
  exact scans_minorVersion.bind fun v => scans_lineEnd.bind fun _ => scans_done v

theorem scans_field : Scans 1 field :=
  (scans_upTo1 _ _ _).bind (m := 0) fun _ =>
    scans_skipBlanks.bind fun _ => scans_valueBytes.bind (m := 0) fun _ => scans_done _

def fieldLine (limit : Nat) : Reader (List (String × List UInt8)) := fun s =>
  (field s).bind fun f s =>
    match limit with
    | 0 => .invalid .tooManyHeaders
    | limit + 1 => (fields limit s).map (f :: ·)

theorem fields_cons (limit : Nat) (b : UInt8) (s : List UInt8) :
    fields limit (b :: s) =
      if b = 0x0A ∨ b = 0x0D then (lineEnd (b :: s)).map fun _ => []
      else fieldLine limit (b :: s) := by
  split
  · next stop =>
    obtain rfl | rfl := stop
    · simp [fields, lineEnd, Reading.map]
    · match s with
      | [] => simp [fields, lineEnd, Reading.map]
      | c :: s =>
        by_cases lf : c = 0x0A
        · simp [lf, fields, lineEnd, Reading.map]
        · simp [lf, fields, lineEnd, Reading.map]
  · cases limit <;> rw [fields] <;> simp_all [fieldLine]

theorem scans_fields_of_line {limit : Nat} (line : Scans 1 (fieldLine limit)) :
    Scans 1 (fields limit) where
  stable := by
    intro s more h
    rcases s with _ | ⟨b, s⟩
    · exact absurd (by rw [fields]) h
    · rw [List.cons_append, fields_cons, fields_cons]
      rw [fields_cons] at h
      by_cases stop : b = 0x0A ∨ b = 0x0D
      · simp only [if_pos stop] at h ⊢
        exact (scans_lineEnd.map _).stable (b :: s) more h
      · simp only [if_neg stop] at h ⊢
        exact line.stable (b :: s) more h
  takes := by
    intro s fs rest h
    rcases s with _ | ⟨b, s⟩
    · rw [fields] at h
      cases h
    · rw [fields_cons] at h
      split at h
      · exact (scans_lineEnd.map _).takes (b :: s) fs rest h
      · exact line.takes (b :: s) fs rest h

theorem scans_fields (limit : Nat) : Scans 1 (fields limit) := by
  induction limit with
  | zero => exact scans_fields_of_line (scans_field.bind fun _ => scans_invalid 0 _)
  | succ n ih =>
    exact scans_fields_of_line (scans_field.bind fun f => (ih.map (f :: ·)).weaken (Nat.zero_le 1))

end Head.Grammar

theorem Head.scans_read : Reader.Scans 12 Head.read := by
  show Reader.Scans (0 + (1 + (1 + (9 + (1 + 0))))) Head.read
  refine Grammar.scans_skipEmptyLines.bind fun _ => ?_
  refine Grammar.scans_method.bind fun m => ?_
  refine Grammar.scans_target.bind fun t => ?_
  refine Grammar.scans_version.bind fun v => ?_
  exact (Grammar.scans_fields _).bind fun fs => Reader.scans_done _

end Turnstile
