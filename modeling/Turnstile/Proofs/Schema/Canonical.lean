import Turnstile.Proofs.Json.Decimals
import Turnstile.Proofs.Json.Proper
import Turnstile.Schema.Constraint

/-!
What a canonical text says of its value: everything but how its numbers are written. Two values have
one canonical text exactly when they correspond, arrays item by item and objects key by key, and the
numbers in corresponding places have one text (`canonical_eq_iff`).
-/

namespace Turnstile

namespace Json

/-- Values that are alike but for their numbers, which are related where they correspond: arrays
item by item, objects key by key. -/
inductive Value.Corresponds (related : Number → Number → Prop) : Value → Value → Prop
  | null : Corresponds related .null .null
  | bool (b : Bool) : Corresponds related (.bool b) (.bool b)
  | number {m n : Number} (h : related m n) : Corresponds related (.number m) (.number n)
  | string (s : String) : Corresponds related (.string s) (.string s)
  | array {vs ws : List Value} (length : vs.length = ws.length)
      (items : ∀ (i : Nat) v w, vs[i]? = some v → ws[i]? = some w → Corresponds related v w) :
      Corresponds related (.array vs) (.array ws)
  | object {ms ns : List (String × Value)}
      (keys : ∀ key, key ∈ Keyed.keys ms ↔ key ∈ Keyed.keys ns)
      (members : ∀ key v w, Keyed.get? key ms = some v → Keyed.get? key ns = some w →
        Corresponds related v w) :
      Corresponds related (.object ms) (.object ns)

namespace Value

variable {related : Number → Number → Prop}

theorem Corresponds.of_forall₂ {vs ws : List Value}
    (h : List.Forall₂ (Corresponds related) vs ws) :
    Corresponds related (.array vs) (.array ws) := by
  refine .array h.length_eq fun i v w hv hw => ?_
  obtain ⟨hi, rfl⟩ := List.getElem?_eq_some_iff.mp hv
  obtain ⟨hj, rfl⟩ := List.getElem?_eq_some_iff.mp hw
  exact h.get hi hj

theorem Corresponds.of_alike {ms ns : List (String × Value)}
    (h : Keyed.Alike (Corresponds related) ms ns) :
    Corresponds related (.object ms) (.object ns) := by
  refine .object (fun key => ?_) fun key v w hv hw => h.related hv hw
  rw [h.keys_eq]

theorem Corresponds.mono {q : Number → Number → Prop} (implies : ∀ m n, related m n → q m n)
    {v w : Value} (h : v.Corresponds related w) : v.Corresponds q w := by
  induction h with
  | null => exact .null
  | bool b => exact .bool b
  | number h => exact .number (implies _ _ h)
  | string s => exact .string s
  | array length _ ih => exact .array length ih
  | object keys _ ih => exact .object keys ih

theorem corresponds_and {q : Number → Number → Prop} {v w : Value} :
    v.Corresponds (fun m n => related m n ∧ q m n) w ↔
      v.Corresponds related w ∧ v.Corresponds q w := by
  constructor
  · intro h
    exact ⟨h.mono fun _ _ => And.left, h.mono fun _ _ => And.right⟩
  · rintro ⟨first, second⟩
    induction first with
    | null => exact .null
    | bool b => exact .bool b
    | number h => cases second with | number h' => exact .number ⟨h, h'⟩
    | string s => exact .string s
    | array length _ ih =>
      cases second with
      | array _ items => exact .array length fun i v w hv hw => ih i v w hv hw (items i v w hv hw)
    | object keys _ ih =>
      cases second with
      | object _ members =>
        exact .object keys fun key v w hv hw => ih key v w hv hw (members key v w hv hw)

/-- The numbers in proper values are proper. -/
theorem Corresponds.mono_of_isProper {q : Number → Number → Prop}
    (implies : ∀ m n, m.IsProper → n.IsProper → related m n → q m n) {v w : Value}
    (hv : v.IsProper) (hw : w.IsProper) (h : v.Corresponds related w) : v.Corresponds q w := by
  induction h with
  | null => exact .null
  | bool b => exact .bool b
  | number h =>
    cases hv with | number hm =>
    cases hw with | number hn =>
    exact .number (implies _ _ hm hn h)
  | string s => exact .string s
  | array length _ ih =>
    cases hv with | array hv =>
    cases hw with | array hw =>
    exact .array length fun i v w at_v at_w => ih i v w at_v at_w
      (hv v (List.mem_of_getElem? at_v)) (hw w (List.mem_of_getElem? at_w))
  | object keys _ ih =>
    cases hv with | object _ hv =>
    cases hw with | object _ hw =>
    exact .object keys fun key v w under_v under_w => ih key v w under_v under_w
      (hv _ (Keyed.mem_of_get? under_v)) (hw _ (Keyed.mem_of_get? under_w))

end Value

/-- No numeral goes on at the front of the text. -/
def Ended (s : List Char) : Prop := ∀ c ∈ s.head?, isNumeralChar c = false

theorem ended_cons {c : Char} {s : List Char} (h : isNumeralChar c = false) : Ended (c :: s) :=
  fun _ front => Option.some.inj front ▸ h

/-- A numeral is known from the text that it starts. -/
theorem numeral_append_inj {a b s t : List Char} (ha : ∀ c ∈ a, isNumeralChar c = true)
    (hb : ∀ c ∈ b, isNumeralChar c = true) (hs : Ended s) (ht : Ended t)
    (same : a ++ s = b ++ t) : a = b ∧ s = t := by
  have front {a s : List Char} (ha : ∀ c ∈ a, isNumeralChar c = true) (hs : Ended s) :
      (a ++ s).takeWhile isNumeralChar = a := by
    rw [List.takeWhile_append_of_pos ha]
    cases s with
    | nil => simp
    | cons c s => simp [hs c rfl]
  have numeral : a = b := by rw [← front ha hs, same, front hb ht]
  exact ⟨numeral, List.append_cancel_left (numeral ▸ same)⟩

/-- A string is known from the text that it starts. -/
theorem quote_append_inj {k l : String} {s t : List Char}
    (same : quote k.toList ++ s = quote l.toList ++ t) : k = l ∧ s = t := by
  have behind : k.toList.flatMap escapeChar ++ ['"'] ++ s =
      l.toList.flatMap escapeChar ++ ['"'] ++ t := (List.cons.inj same).2
  have read (k : String) (s : List Char) :
      Grammar.pieces (Utf8.encodeChars (k.toList.flatMap escapeChar ++ ['"'] ++ s)) =
        some (textPieces k, Utf8.encodeChars s) := by
    rw [Utf8.encodeChars_append]
    exact Grammar.pieces_quote _ _
  have pieces : textPieces k = textPieces l := by
    have both := read k s
    rw [behind, read l t] at both
    exact (congrArg Prod.fst (Option.some.inj both)).symm
  have text : k = l := by
    have both := piecesText?_textPieces k
    rw [pieces, piecesText?_textPieces] at both
    exact (Option.some.inj both).symm
  exact ⟨text, List.append_cancel_left (text ▸ same)⟩

end Json

namespace Constraint

open Json (Value Number Ended isNumeralChar quote)

/-- What the first character of a canonical text gives away. -/
inductive Kind where
  | null
  | bool
  | number
  | string
  | array
  | object

def kindOf : Value → Kind
  | .null => .null
  | .bool _ => .bool
  | .number _ => .number
  | .string _ => .string
  | .array _ => .array
  | .object _ => .object

def kindOf? (c : Char) : Option Kind :=
  if isNumeralChar c then some .number
  else
    match c with
    | 'n' => some .null
    | 't' => some .bool
    | 'f' => some .bool
    | '"' => some .string
    | '[' => some .array
    | '{' => some .object
    | _ => none

/-- Numbers that are written alike. -/
def SameText (m n : Number) : Prop := canonical (.number m) = canonical (.number n)

theorem canonical_number (n : Number) :
    ∃ c cs, canonical (.number n) = c :: cs ∧ ∀ d ∈ c :: cs, isNumeralChar d = true := by
  have integer (i : Int) :
      ∃ c cs, Json.intChars i = c :: cs ∧ ∀ d ∈ c :: cs, isNumeralChar d = true := by
    obtain ⟨c, cs, written⟩ := List.exists_cons_of_ne_nil (Json.intChars_ne_nil i)
    exact ⟨c, cs, written, written ▸ Json.isNumeralChar_intChars⟩
  cases n with
  | integer i => exact integer i
  | double x =>
    rw [canonical]
    split
    · exact integer _
    · obtain ⟨c, cs, written⟩ := List.exists_cons_of_ne_nil (Json.doubleChars_ne_nil x)
      exact ⟨c, cs, written, written ▸ Json.isNumeralChar_doubleChars⟩

theorem canonical_cons (v : Value) :
    ∃ c cs, canonical v = c :: cs ∧ kindOf? c = some (kindOf v) := by
  cases v with
  | null => exact ⟨_, _, rfl, rfl⟩
  | bool b => cases b <;> exact ⟨_, _, rfl, rfl⟩
  | number n =>
    obtain ⟨c, cs, written, numeral⟩ := canonical_number n
    exact ⟨c, cs, written, by simp [kindOf?, numeral c List.mem_cons_self, kindOf]⟩
  | string s => exact ⟨_, _, rfl, rfl⟩
  | array vs => cases vs <;> exact ⟨_, _, rfl, rfl⟩
  | object ms => cases ms <;> exact ⟨_, _, rfl, rfl⟩

theorem kindOf_eq {v w : Value} {s t : List Char} (same : canonical v ++ s = canonical w ++ t) :
    kindOf v = kindOf w := by
  obtain ⟨c, cs, hv, first⟩ := canonical_cons v
  obtain ⟨d, ds, hw, second⟩ := canonical_cons w
  rw [hv, hw] at same
  rw [(List.cons.inj same).1, second] at first
  exact (Option.some.inj first).symm

theorem ended_canonicalItems (vs : List Value) (s : List Char) :
    Ended (canonicalItems vs ++ s) := by
  cases vs <;> exact Json.ended_cons rfl

theorem ended_canonicalMembers (ms : List (String × Value)) (s : List Char) :
    Ended (canonicalMembers ms ++ s) := by
  obtain _ | ⟨⟨k, v⟩, ms⟩ := ms <;> exact Json.ended_cons rfl

/-- No value starts with the bracket that closes an array. -/
theorem bracket_ne_canonical (v : Value) (s t : List Char) : ']' :: s ≠ canonical v ++ t := by
  intro same
  obtain ⟨c, cs, written, kind⟩ := canonical_cons v
  rw [written] at same
  rw [← (List.cons.inj same).1] at kind
  cases kind

mutual

/-- Texts that are alike start with corresponding values and are alike behind them. What is behind a
value must not go on with a numeral, since `1` starts the text of `12`. -/
theorem canonical_append : ∀ (v w : Value) {s t : List Char},
    canonical v ++ s = canonical w ++ t → Ended s → Ended t → v.Corresponds SameText w ∧ s = t
  | .null, w, s, t, same, hs, ht => by
    have kind := kindOf_eq same
    cases w with
    | null => exact ⟨.null, List.append_cancel_left same⟩
    | _ => cases kind
  | .bool a, w, s, t, same, hs, ht => by
    have kind := kindOf_eq same
    cases w with
    | bool b =>
      obtain rfl : a = b := by
        cases a <;> cases b
        · rfl
        · cases (List.cons.inj same).1
        · cases (List.cons.inj same).1
        · rfl
      exact ⟨.bool a, List.append_cancel_left same⟩
    | _ => cases kind
  | .number m, w, s, t, same, hs, ht => by
    have kind := kindOf_eq same
    cases w with
    | number n =>
      obtain ⟨_, _, hm, numeral⟩ := canonical_number m
      obtain ⟨_, _, hn, numeral'⟩ := canonical_number n
      obtain ⟨alike, rest⟩ := Json.numeral_append_inj (hm ▸ numeral) (hn ▸ numeral') hs ht same
      exact ⟨.number alike, rest⟩
    | _ => cases kind
  | .string k, w, s, t, same, hs, ht => by
    have kind := kindOf_eq same
    cases w with
    | string l =>
      obtain ⟨rfl, rest⟩ := Json.quote_append_inj same
      exact ⟨.string k, rest⟩
    | _ => cases kind
  | .array [], w, s, t, same, hs, ht => by
    have kind := kindOf_eq same
    cases w with
    | array ws =>
      cases ws with
      | nil => exact ⟨.of_forall₂ .nil, List.append_cancel_left same⟩
      | cons w ws =>
        simp only [canonical, List.cons_append, List.append_assoc, List.cons.injEq] at same
        exact absurd same.2 (bracket_ne_canonical _ _ _)
    | _ => cases kind
  | .array (v :: vs), w, s, t, same, hs, ht => by
    have kind := kindOf_eq same
    cases w with
    | array ws =>
      cases ws with
      | nil =>
        simp only [canonical, List.cons_append, List.append_assoc, List.cons.injEq] at same
        exact absurd same.2.symm (bracket_ne_canonical _ _ _)
      | cons w ws =>
        simp only [canonical, List.cons_append, List.append_assoc, List.cons.injEq] at same
        obtain ⟨alike, rest⟩ := canonical_append v w same.2 (ended_canonicalItems vs s)
          (ended_canonicalItems ws t)
        obtain ⟨later, rest⟩ := canonicalItems_append vs ws rest
        exact ⟨.of_forall₂ (.cons alike later), rest⟩
    | _ => cases kind
  | .object [], w, s, t, same, hs, ht => by
    have kind := kindOf_eq same
    cases w with
    | object ns =>
      cases ns with
      | nil => exact ⟨.of_alike .nil, List.append_cancel_left same⟩
      | cons n ns => cases (List.cons.inj (List.cons.inj same).2).1
    | _ => cases kind
  | .object ((k, v) :: ms), w, s, t, same, hs, ht => by
    have kind := kindOf_eq same
    cases w with
    | object ns =>
      cases ns with
      | nil => cases (List.cons.inj (List.cons.inj same).2).1
      | cons n ns =>
        obtain ⟨l, w⟩ := n
        simp only [canonical, List.cons_append, List.append_assoc, List.cons.injEq] at same
        obtain ⟨rfl, rest⟩ := Json.quote_append_inj same.2
        obtain ⟨alike, rest⟩ := canonical_append v w (List.cons.inj rest).2
          (ended_canonicalMembers ms s) (ended_canonicalMembers ns t)
        obtain ⟨later, rest⟩ := canonicalMembers_append ms ns rest
        exact ⟨.of_alike (.cons ⟨rfl, alike⟩ later), rest⟩
    | _ => cases kind

theorem canonicalItems_append : ∀ (vs ws : List Value) {s t : List Char},
    canonicalItems vs ++ s = canonicalItems ws ++ t →
      List.Forall₂ (Value.Corresponds SameText) vs ws ∧ s = t
  | [], [], _, _, same => ⟨.nil, List.append_cancel_left same⟩
  | [], _ :: _, _, _, same => by cases (List.cons.inj same).1
  | _ :: _, [], _, _, same => by cases (List.cons.inj same).1
  | v :: vs, w :: ws, s, t, same => by
    rw [canonicalItems, canonicalItems, List.cons_append, List.cons_append, List.append_assoc,
      List.append_assoc] at same
    obtain ⟨alike, rest⟩ := canonical_append v w (List.cons.inj same).2
      (ended_canonicalItems vs s) (ended_canonicalItems ws t)
    obtain ⟨later, rest⟩ := canonicalItems_append vs ws rest
    exact ⟨.cons alike later, rest⟩

theorem canonicalMembers_append : ∀ (ms ns : List (String × Value)) {s t : List Char},
    canonicalMembers ms ++ s = canonicalMembers ns ++ t →
      Keyed.Alike (Value.Corresponds SameText) ms ns ∧ s = t
  | [], [], _, _, same => ⟨.nil, List.append_cancel_left same⟩
  | [], _ :: _, _, _, same => by cases (List.cons.inj same).1
  | _ :: _, [], _, _, same => by cases (List.cons.inj same).1
  | (k, v) :: ms, (l, w) :: ns, s, t, same => by
    rw [canonicalMembers, canonicalMembers, List.cons_append, List.cons_append, List.append_assoc,
      List.append_assoc] at same
    obtain ⟨rfl, rest⟩ := Json.quote_append_inj (List.cons.inj same).2
    rw [List.cons_append, List.cons_append, List.append_assoc, List.append_assoc] at rest
    obtain ⟨alike, rest⟩ := canonical_append v w (List.cons.inj rest).2
      (ended_canonicalMembers ms s) (ended_canonicalMembers ns t)
    obtain ⟨later, rest⟩ := canonicalMembers_append ms ns rest
    exact ⟨.cons ⟨rfl, alike⟩ later, rest⟩

end

theorem canonicalItems_congr {vs ws : List Value}
    (h : List.Forall₂ (fun v w => canonical v = canonical w) vs ws) :
    canonicalItems vs = canonicalItems ws := by
  induction h with
  | nil => rfl
  | cons first _ ih => rw [canonicalItems, canonicalItems, first, ih]

theorem canonicalMembers_congr {ms ns : List (String × Value)}
    (h : Keyed.Alike (fun v w => canonical v = canonical w) ms ns) :
    canonicalMembers ms = canonicalMembers ns := by
  induction h with
  | nil => rfl
  | @cons m n _ _ first _ ih =>
    obtain ⟨k, v⟩ := m
    obtain ⟨l, w⟩ := n
    obtain ⟨rfl : k = l, first : canonical v = canonical w⟩ := first
    rw [canonicalMembers, canonicalMembers, first, ih]

theorem canonical_congr {v w : Value} (hv : v.IsProper) (hw : w.IsProper)
    (h : v.Corresponds SameText w) : canonical v = canonical w := by
  induction h with
  | null | bool | string => rfl
  | number alike => exact alike
  | @array vs ws length items ih =>
    cases hv with | array hv =>
    cases hw with | array hw =>
    have alike : List.Forall₂ (fun v w => canonical v = canonical w) vs ws :=
      List.forall₂_of_length_eq_of_get length fun i hi hj =>
        ih i _ _ (List.getElem?_eq_getElem hi) (List.getElem?_eq_getElem hj)
          (hv _ (List.get_mem _ _)) (hw _ (List.get_mem _ _))
    cases alike with
    | nil => rfl
    | cons first later => rw [canonical, canonical, first, canonicalItems_congr later]
  | @object ms ns keys members ih =>
    cases hv with | object orderedV hv =>
    cases hw with | object orderedW hw =>
    have alike : Keyed.Alike (fun v w => canonical v = canonical w) ms ns :=
      Keyed.alike_of_ordered orderedV orderedW keys fun key v w v_under w_under =>
        ih key v w v_under w_under (hv _ (Keyed.mem_of_get? v_under))
          (hw _ (Keyed.mem_of_get? w_under))
    cases alike with
    | nil => rfl
    | @cons m n _ _ first later =>
      obtain ⟨k, v⟩ := m
      obtain ⟨l, w⟩ := n
      obtain ⟨rfl : k = l, first : canonical v = canonical w⟩ := first
      rw [canonical, canonical, first, canonicalMembers_congr later]

/-- A canonical text says everything of its value but how its numbers are written. -/
theorem canonical_eq_iff {v w : Value} (hv : v.IsProper) (hw : w.IsProper) :
    canonical v = canonical w ↔ v.Corresponds SameText w := by
  constructor
  · intro same
    exact (canonical_append v w (s := []) (t := []) (by rw [same]) (by simp [Ended])
      (by simp [Ended])).1
  · exact canonical_congr hv hw

end Constraint

end Turnstile
