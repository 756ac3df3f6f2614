import Turnstile.Proofs.Schema.Sanitize
import Turnstile.Proofs.Text.Blank

/-!
How often an entity is decoded. The entities are decoded one after the other, so what the
ampersand's own entity leaves behind is read again by those that come after it, and by no others.
`decodeEntities_escape` says what that does to an escaped text, and `escaped_comes_back_iff` that it
comes back exactly if it spells none of the later entities itself.
-/

namespace Turnstile.Sanitize

namespace Entity

def spelling (e : Entity) : List Char := '&' :: e.name

variable {e f : Entity}

theorem eq_of_char (he : e ∈ entities) (hf : f ∈ entities) (h : e.char = f.char) : e = f := by
  have distinct : ∀ e ∈ entities, ∀ f ∈ entities, e.char = f.char → e = f := by decide
  exact distinct e he f hf h

theorem char_notMem_name (he : e ∈ entities) (hf : f ∈ entities) : f.char ∉ e.name := by
  have apart : ∀ e ∈ entities, ∀ f ∈ entities, f.char ∉ e.name := by decide
  exact apart e he f hf

theorem ampersand_notMem_name (he : e ∈ entities) : '&' ∉ e.name := by
  have absent : ∀ e ∈ entities, '&' ∉ e.name := by decide
  exact absent e he

/-- No name is a part of the text of another entity. -/
theorem eq_of_front_name (he : e ∈ entities) (hf : f ∈ entities) {s : List Char}
    (h : e.name <+: f.name ++ s) : e = f := by
  have free : ∀ e ∈ entities, ∀ f ∈ entities, e.name <+: f.name → e = f := by decide
  obtain front | front := List.prefix_or_prefix_of_prefix h (List.prefix_append f.name s)
  · exact free e he f hf front
  · exact (free f hf e he front).symm

theorem isBlank_of_mem_name (he : e ∈ entities) : ∀ c ∈ e.name, Text.isBlank c = false := by
  have solid : ∀ e ∈ entities, e.name.all (!Text.isBlank ·) = true := by decide
  intro c mem
  simpa using List.all_eq_true.mp (solid e he) c mem

theorem decode_cons_of_front {s r : List Char} (h : s = e.name ++ r) :
    e.decode ('&' :: s) = e.char :: e.decode r := by
  have here : '&' = '&' ∧ e.name.isPrefixOf s := ⟨rfl, by simp [h]⟩
  rw [decode, if_pos here, h, List.drop_left]

theorem decode_cons_of_not_front {s : List Char} (h : ¬ e.name <+: s) :
    e.decode ('&' :: s) = '&' :: e.decode s := by
  rw [decode, if_neg]
  rintro ⟨-, front⟩
  exact h (List.isPrefixOf_iff_prefix.mp front)

theorem decode_append_of_notMem (e : Entity) {u : List Char} (h : '&' ∉ u) (s : List Char) :
    e.decode (u ++ s) = u ++ e.decode s := by
  induction u with
  | nil => rfl
  | cons c u ih =>
    obtain ⟨first, later⟩ := List.ne_and_not_mem_of_not_mem_cons h
    rw [List.cons_append, decode, if_neg (fun here => first here.1.symm), ih later]
    rfl

/-- Another entity stays. -/
theorem decode_spelling_append (he : e ∈ entities) (hf : f ∈ entities) (other : e ≠ f)
    (s : List Char) : e.decode (f.spelling ++ s) = f.spelling ++ e.decode s := by
  have apart : ¬ e.name <+: f.name ++ s := fun front => other (eq_of_front_name he hf front)
  rw [spelling, List.cons_append, decode_cons_of_not_front apart,
    decode_append_of_notMem e (ampersand_notMem_name hf)]
  rfl

end Entity

/-- A text with the characters of some of the entities written as entities, all at once. -/
def escapeBy (es : List Entity) (s : List Char) : List Char :=
  s.flatMap fun c =>
    match es.find? (fun e => e.char = c) with
    | some e => e.spelling
    | none => [c]

theorem escape_eq (s : List Char) : escape s = escapeBy entities s := rfl

example : escape "&<>\"'".toList = "&amp;&lt;&gt;&quot;&#x27;".toList := by decide +kernel

section Escape

variable {es : List Entity} {e : Entity}

theorem escapeBy_append (es : List Entity) (s u : List Char) :
    escapeBy es (s ++ u) = escapeBy es s ++ escapeBy es u := by
  unfold escapeBy
  exact List.flatMap_append

theorem escapeBy_cons_of_notMem {c : Char} (h : ∀ e ∈ es, e.char ≠ c) (s : List Char) :
    escapeBy es (c :: s) = c :: escapeBy es s := by
  have none : es.find? (fun e => e.char = c) = none := by simpa using h
  rw [escapeBy, List.flatMap_cons, none]
  rfl

theorem escapeBy_cons_of_mem (known : es ⊆ entities) (mem : e ∈ es) (s : List Char) :
    escapeBy es (e.char :: s) = e.spelling ++ escapeBy es s := by
  have found : es.find? (fun f => f.char = e.char) = some e := by
    obtain ⟨f, found⟩ := Option.isSome_iff_exists.mp
      (List.find?_isSome (p := fun f => f.char = e.char).mpr ⟨e, mem, by simp⟩)
    have same : f.char = e.char := by simpa using List.find?_some found
    rw [found, Entity.eq_of_char (known (List.mem_of_find?_eq_some found)) (known mem) same]
  rw [escapeBy, List.flatMap_cons, found]
  rfl

theorem char_ne_of_notMem (known : e :: es ⊆ entities) (once : e ∉ es) :
    ∀ f ∈ es, f.char ≠ e.char := by
  intro f mem same
  have twice : f = e :=
    Entity.eq_of_char (known (List.mem_cons_of_mem e mem)) (known List.mem_cons_self) same
  exact once (twice ▸ mem)

/-- A list without the characters is its own escaped form. -/
theorem escapeBy_of_notMem {u : List Char} (h : ∀ e ∈ es, e.char ∉ u) : escapeBy es u = u := by
  induction u with
  | nil => rfl
  | cons c u ih =>
    have first : ∀ e ∈ es, e.char ≠ c := fun e mem same => h e mem (by simp [same])
    have later : ∀ e ∈ es, e.char ∉ u := fun e mem inside => h e mem (by simp [inside])
    rw [escapeBy_cons_of_notMem first, ih later]

/-- What an escaped text starts with without ampersands, the text itself starts with. -/
theorem front_of_front_escapeBy {u s : List Char} (known : es ⊆ entities) (h : '&' ∉ u)
    (front : u <+: escapeBy es s) : u <+: s := by
  induction u generalizing s with
  | nil => exact List.nil_prefix
  | cons c u ih =>
    obtain ⟨first, later⟩ := List.ne_and_not_mem_of_not_mem_cons h
    cases s with
    | nil => exact front
    | cons d s =>
      by_cases escaped : ∃ e ∈ es, e.char = d
      · obtain ⟨e, mem, rfl⟩ := escaped
        rw [escapeBy_cons_of_mem known mem, Entity.spelling, List.cons_append,
          List.cons_prefix_cons] at front
        exact absurd front.1.symm first
      · have plain : ∀ e ∈ es, e.char ≠ d := fun e mem same => escaped ⟨e, mem, same⟩
        rw [escapeBy_cons_of_notMem plain, List.cons_prefix_cons] at front
        rw [List.cons_prefix_cons]
        exact ⟨front.1, ih later front.2⟩

/-- Decoding an entity undoes its own escaping, and leaves what another one has escaped and what
starts no entity. -/
theorem decode_escapeBy_cons (known : e :: es ⊆ entities) (once : e ∉ es) {c : Char}
    (sheltered : c = '&' → ∃ a ∈ e :: es, a.char = '&') (s : List Char) :
    e.decode (escapeBy (e :: es) (c :: s)) =
      escapeBy es [c] ++ e.decode (escapeBy (e :: es) s) := by
  have he : e ∈ entities := known List.mem_cons_self
  have others : es ⊆ entities := fun f mem => known (List.mem_cons_of_mem e mem)
  by_cases own : e.char = c
  · subst own
    rw [escapeBy_cons_of_mem known List.mem_cons_self,
      escapeBy_cons_of_notMem (char_ne_of_notMem known once), Entity.spelling, List.cons_append,
      Entity.decode_cons_of_front rfl]
    rfl
  by_cases escaped : ∃ f ∈ es, f.char = c
  · obtain ⟨f, mem, rfl⟩ := escaped
    have other : e ≠ f := fun same => own (same ▸ rfl)
    rw [escapeBy_cons_of_mem known (List.mem_cons_of_mem e mem), escapeBy_cons_of_mem others mem,
      Entity.decode_spelling_append he (others mem) other, List.append_assoc]
    rfl
  · have plain : ∀ f ∈ es, f.char ≠ c := fun f mem same => escaped ⟨f, mem, same⟩
    have plain' : ∀ f ∈ e :: es, f.char ≠ c := List.forall_mem_cons.mpr ⟨own, plain⟩
    have ordinary : '&' ∉ [c] := by
      rw [List.mem_singleton]
      intro amp
      obtain ⟨a, mem, same⟩ := sheltered amp.symm
      exact plain' a mem (same.trans amp)
    rw [escapeBy_cons_of_notMem plain, escapeBy_cons_of_notMem plain',
      ← List.singleton_append (l := escapeBy (e :: es) s), e.decode_append_of_notMem ordinary]
    rfl

/-- As long as ampersands are escaped, what the text itself spells is out of reach. -/
theorem decode_escapeBy_of_sheltered (known : e :: es ⊆ entities) (once : e ∉ es)
    (sheltered : ∃ a ∈ e :: es, a.char = '&') (s : List Char) :
    e.decode (escapeBy (e :: es) s) = escapeBy es s := by
  induction s with
  | nil => rw [escapeBy, escapeBy, List.flatMap_nil, List.flatMap_nil, Entity.decode]
  | cons c s ih =>
    rw [decode_escapeBy_cons known once (fun _ => sheltered), ih]
    exact (escapeBy_append es [c] s).symm

/-- Where ampersands stand as they are, an entity that the text spells is decoded as well. -/
theorem decode_escapeBy_of_exposed (known : e :: es ⊆ entities) (once : e ∉ es)
    (exposed : ∀ a ∈ e :: es, a.char ≠ '&') (s : List Char) :
    e.decode (escapeBy (e :: es) s) = escapeBy es (e.decode s) := by
  have he : e ∈ entities := known List.mem_cons_self
  fun_induction Entity.decode e s with
  | case1 => rw [escapeBy, escapeBy, List.flatMap_nil, List.flatMap_nil, Entity.decode]
  | case2 c s here ih =>
    obtain ⟨rfl, front⟩ := here
    obtain ⟨r, rfl⟩ := List.isPrefixOf_iff_prefix.mp front
    rw [List.drop_left] at ih ⊢
    have name : escapeBy (e :: es) e.name = e.name :=
      escapeBy_of_notMem fun f mem => Entity.char_notMem_name he (known mem)
    rw [escapeBy_cons_of_notMem exposed, escapeBy_append, name, Entity.decode_cons_of_front rfl,
      ih, escapeBy_cons_of_notMem (char_ne_of_notMem known once)]
  | case3 c s here ih =>
    by_cases amp : c = '&'
    · -- An ampersand that starts no entity in the text starts none in its escaped form.
      subst amp
      have apart : ¬ e.name <+: escapeBy (e :: es) s := by
        intro front
        have spelled := front_of_front_escapeBy known (Entity.ampersand_notMem_name he) front
        exact here ⟨rfl, List.isPrefixOf_iff_prefix.mpr spelled⟩
      have plain : ∀ f ∈ es, f.char ≠ '&' := fun f mem => exposed f (List.mem_cons_of_mem e mem)
      rw [escapeBy_cons_of_notMem exposed, Entity.decode_cons_of_not_front apart, ih,
        escapeBy_cons_of_notMem plain]
    · rw [decode_escapeBy_cons known once (fun same => absurd same amp), ih]
      exact (escapeBy_append es [c] (e.decode s)).symm

/-- Up to the ampersand's own entity, each one only undoes its escaping. -/
theorem foldl_decode_escapeBy {es fs : List Entity} {a : Entity}
    (known : es ++ a :: fs ⊆ entities) (once : (es ++ a :: fs).Nodup) (amp : a.char = '&')
    (s : List Char) :
    es.foldl (fun s e => e.decode s) (escapeBy (es ++ a :: fs) s) = escapeBy (a :: fs) s := by
  induction es with
  | nil => rfl
  | cons e es ih =>
    rw [List.cons_append] at known once ⊢
    obtain ⟨new, once⟩ := List.nodup_cons.mp once
    have sheltered : ∃ b ∈ e :: (es ++ a :: fs), b.char = '&' := ⟨a, by simp, amp⟩
    rw [List.foldl_cons, decode_escapeBy_of_sheltered known new sheltered]
    exact ih (fun f mem => known (List.mem_cons_of_mem e mem)) once

/-- Behind it, each one decodes what stands in the text itself. -/
theorem foldl_decode_escapeBy_of_exposed {fs : List Entity} (known : fs ⊆ entities)
    (once : fs.Nodup) (exposed : ∀ f ∈ fs, f.char ≠ '&') (s : List Char) :
    fs.foldl (fun s e => e.decode s) (escapeBy fs s) = fs.foldl (fun s e => e.decode s) s := by
  induction fs generalizing s with
  | nil => exact List.flatMap_singleton' s
  | cons e fs ih =>
    obtain ⟨new, once⟩ := List.nodup_cons.mp once
    rw [List.foldl_cons, decode_escapeBy_of_exposed known new exposed, List.foldl_cons]
    exact ih (fun f mem => known (List.mem_cons_of_mem e mem)) once
      (fun f mem => exposed f (List.mem_cons_of_mem e mem)) (e.decode s)

/-- The entities that are decoded after the ampersand's own. -/
def lateEntities : List Entity := [⟨"quot;".toList, '"'⟩, ⟨"#x27;".toList, '\''⟩]

/-- The late entities decoded one after the other. -/
def decodeLate (s : List Char) : List Char := lateEntities.foldl (fun s e => e.decode s) s

/-- An escaped text is decoded to itself with the late entities decoded in it once more. -/
theorem decodeEntities_escape (s : List Char) : decodeEntities (escape s) = decodeLate s := by
  have early : entities = [⟨"lt;".toList, '<'⟩, ⟨"gt;".toList, '>'⟩] ++
      ⟨"amp;".toList, '&'⟩ :: lateEntities := rfl
  have known : entities ⊆ entities := List.Subset.refl _
  have once : entities.Nodup := by decide
  rw [early] at known once
  rw [decodeEntities, escape_eq, early, List.foldl_append]
  rw [foldl_decode_escapeBy known once rfl, List.foldl_cons,
    decode_escapeBy_of_sheltered (by decide) (by decide) ⟨_, List.mem_cons_self, rfl⟩]
  exact foldl_decode_escapeBy_of_exposed (by decide) (by decide) (by decide) s

/-- An escaped text has no tag and no stray character that the text has not. -/
theorem cleaned_escape {s : List Char} (plain : Plain s) :
    stripTags ((escape s).filter (!isStray ·)) = escape s := by
  have names : ∀ e ∈ entities, e.spelling.all (fun c => !isStray c && c != '<') = true := by decide
  have bracket : ∃ e ∈ entities, e.char = '<' := by decide
  have each : ∀ c ∈ escape s, isStray c = false ∧ c ≠ '<' := by
    intro c mem
    obtain ⟨d, inside, mem⟩ := List.mem_flatMap.mp mem
    unfold escapeChar at mem
    split at mem
    · next e found =>
      simpa using List.all_eq_true.mp (names e (List.mem_of_find?_eq_some found)) c mem
    · next absent =>
      obtain rfl := List.mem_singleton.mp mem
      refine ⟨plain_iff.mp plain c inside, ?_⟩
      rintro rfl
      obtain ⟨e, mem, same⟩ := bracket
      exact absurd same (by simpa using List.find?_eq_none.mp absent e mem)
  rw [filter_of_noStray fun c mem => (each c mem).1]
  exact stripTags_of_notMem fun mem => (each '<' mem).2 rfl

end Escape

section Late

open Text

/-- Decoding leaves a list alone that does not spell the entity, and any other loses characters that
are no blanks by it, which trimming would not take away. -/
theorem Entity.decode_cases {e : Entity} (he : e ∈ entities) (s : List Char) :
    ¬ e.spelling <:+: s ∧ e.decode s = s ∨
      e.spelling <:+: s ∧ solid (e.decode s) < solid s := by
  have solidName : solid e.name = e.name.length := solid_eq_length (e.isBlank_of_mem_name he)
  have named : 0 < e.name.length := by
    have named : ∀ e ∈ entities, 0 < e.name.length := by decide
    exact named e he
  have ampersand : solid ['&'] = 1 := by decide
  fun_induction Entity.decode e s with
  | case1 => exact .inl ⟨by simp [Entity.spelling], rfl⟩
  | case2 c s here ih =>
    obtain ⟨rfl, front⟩ := here
    obtain ⟨r, rfl⟩ := List.isPrefixOf_iff_prefix.mp front
    rw [List.drop_left] at ih ⊢
    refine .inr ⟨⟨[], r, rfl⟩, ?_⟩
    have shrunk : solid (e.decode r) ≤ solid r := by
      obtain ⟨-, same⟩ | ⟨-, less⟩ := ih
      · rw [same]
      · exact less.le
    have one := solid_singleton_le e.char
    rw [solid_cons, solid_cons '&', solid_append, solidName, ampersand]
    omega
  | case3 c s here ih =>
    obtain ⟨absent, same⟩ | ⟨spelled, less⟩ := ih
    · refine .inl ⟨?_, by rw [same]⟩
      rw [List.infix_cons_iff]
      rintro (front | later)
      · rw [Entity.spelling, List.cons_prefix_cons] at front
        exact here ⟨front.1.symm, List.isPrefixOf_iff_prefix.mpr front.2⟩
      · exact absent later
    · refine .inr ⟨List.infix_cons spelled, ?_⟩
      rw [solid_cons, solid_cons c s]
      omega

/-- The same for a row of entities. -/
theorem foldl_decode_cases {es : List Entity} (known : es ⊆ entities) (s : List Char) :
    (∀ e ∈ es, ¬ e.spelling <:+: s) ∧ es.foldl (fun s e => e.decode s) s = s ∨
      (∃ e ∈ es, e.spelling <:+: s) ∧ solid (es.foldl (fun s e => e.decode s) s) < solid s := by
  induction es generalizing s with
  | nil => exact .inl ⟨List.forall_mem_nil _, rfl⟩
  | cons e es ih =>
    have later := ih fun f mem => known (List.mem_cons_of_mem e mem)
    rw [List.foldl_cons]
    obtain ⟨absent, same⟩ | ⟨spelled, less⟩ := Entity.decode_cases (known List.mem_cons_self) s
    · rw [same]
      obtain ⟨absents, same⟩ | ⟨⟨f, mem, spelled⟩, less⟩ := later s
      · exact .inl ⟨List.forall_mem_cons.mpr ⟨absent, absents⟩, same⟩
      · exact .inr ⟨⟨f, List.mem_cons_of_mem e mem, spelled⟩, less⟩
    · refine .inr ⟨⟨e, List.mem_cons_self, spelled⟩, ?_⟩
      obtain ⟨-, same⟩ | ⟨-, more⟩ := later (e.decode s)
      · rw [same]
        exact less
      · exact more.trans less

theorem trimChars_decodeLate_eq_iff (s : List Char) :
    trimChars (decodeLate s) = trimChars s ↔ ∀ e ∈ lateEntities, ¬ e.spelling <:+: s := by
  have known : lateEntities ⊆ entities := by decide
  unfold decodeLate
  obtain ⟨absent, same⟩ | ⟨⟨e, mem, spelled⟩, less⟩ := foldl_decode_cases known s
  · rw [same]
    exact ⟨fun _ => absent, fun _ => rfl⟩
  · constructor
    · intro same
      have equal := congrArg solid same
      rw [solid_trimChars, solid_trimChars] at equal
      omega
    · exact fun absent => absurd spelled (absent e mem)

/-- An escaped text is cleaned to itself with the late entities decoded in it, so it comes back
trimmed and otherwise unchanged exactly if it spells none of these: `&quot;` and `&#x27;`. -/
theorem escaped_comes_back_iff {t : String} (plain : Plain t.toList) :
    text (String.ofList (escape t.toList)) = trim (String.ofList (decodeLate t.toList)) ∧
      (text (String.ofList (escape t.toList)) = trim t ↔
        ¬ "&quot;".toList <:+: t.toList ∧ ¬ "&#x27;".toList <:+: t.toList) := by
  have cleaned : text (String.ofList (escape t.toList)) =
      String.ofList (trimChars (decodeLate t.toList)) := by
    rw [text, clean, String.toList_ofList, cleaned_escape plain, decodeEntities_escape]
  constructor
  · rw [cleaned, trim, String.toList_ofList]
  · rw [cleaned, trim, String.ofList_inj, trimChars_decodeLate_eq_iff]
    simp [lateEntities, Entity.spelling]

/-- A quotation mark that a text spells by its entity comes back as the mark. -/
theorem spelled_mark_comes_back_as_mark :
    Plain "&quot;".toList ∧ escape "&quot;".toList = "&amp;quot;".toList ∧
    text (String.ofList (escape "&quot;".toList)) = "\"" ∧ trim "&quot;" = "&quot;" := by
  have plain : Plain "&quot;".toList := by decide
  have decoded : decodeLate "&quot;".toList = ['"'] := by
    simp [decodeLate, lateEntities, Entity.decode]
  refine ⟨plain, by decide +kernel, ?_, by decide +kernel⟩
  rw [text, clean, String.toList_ofList, cleaned_escape plain, decodeEntities_escape, decoded]
  decide +kernel

/-- All five characters come back, and an entity that is decoded early does too. -/
theorem marked_text_comes_back :
    Plain " &lt; <b> \"R&D\" isn't ".toList ∧
    ¬ "&quot;".toList <:+: " &lt; <b> \"R&D\" isn't ".toList ∧
    ¬ "&#x27;".toList <:+: " &lt; <b> \"R&D\" isn't ".toList ∧
    text (String.ofList (escape " &lt; <b> \"R&D\" isn't ".toList)) =
      trim " &lt; <b> \"R&D\" isn't " := by
  have plain : Plain " &lt; <b> \"R&D\" isn't ".toList := by decide
  have absent : ¬ "&quot;".toList <:+: " &lt; <b> \"R&D\" isn't ".toList ∧
      ¬ "&#x27;".toList <:+: " &lt; <b> \"R&D\" isn't ".toList := by decide +kernel
  exact ⟨plain, absent.1, absent.2, (escaped_comes_back_iff plain).2.mpr absent⟩

end Late

end Turnstile.Sanitize
