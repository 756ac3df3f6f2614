import Turnstile.Proofs.Schema.Sanitize
import Turnstile.Proofs.Text.Blank

/-!
What is left when tags have been taken out. One pass is enough: it removes all from a `<` up to the
next `>`, so a `<` that stays has no `>` anywhere behind it, and pieces that move together form no
tag. `text_holds_no_tag` says so of whole texts, as long as they spell no mark by an entity.
-/

namespace Turnstile.Sanitize

theorem suffix_of_afterClose? {s r : List Char} (h : afterClose? s = some r) : r <:+ s := by
  induction s with
  | nil => cases h
  | cons c s ih =>
    unfold afterClose? at h
    by_cases close : c = '>'
    · rw [if_pos close] at h
      cases h
      exact List.suffix_cons c _
    · rw [if_neg close] at h
      exact (ih h).trans (List.suffix_cons c s)

theorem afterClose?_eq_none_iff {s : List Char} : afterClose? s = none ↔ '>' ∉ s := by
  induction s with
  | nil => simp [afterClose?]
  | cons c s ih =>
    unfold afterClose?
    rw [List.mem_cons, not_or]
    by_cases close : c = '>'
    · simp [close]
    · rw [if_neg close, ih]
      exact ⟨fun absent => ⟨Ne.symm close, absent⟩, And.right⟩

theorem stripTags_sublist (s : List Char) : (stripTags s).Sublist s := by
  fun_induction stripTags s with
  | case1 => exact List.nil_sublist _
  | case2 s r found ih =>
    exact ih.trans ((suffix_of_afterClose? found).sublist.trans (List.sublist_cons_self '<' s))
  | case3 s _ ih => exact ih.cons_cons '<'
  | case4 c s _ ih => exact ih.cons_cons c

/-- No `<` has a `>` anywhere behind it. -/
def NoTag (s : List Char) : Prop := ¬ ['<', '>'].Sublist s

theorem NoTag.sublist {s u : List Char} (h : NoTag s) (part : u.Sublist s) : NoTag u :=
  fun tag => h (tag.trans part)

theorem noTag_cons_of_ne {c : Char} (h : c ≠ '<') {s : List Char} :
    NoTag (c :: s) ↔ NoTag s := by
  unfold NoTag
  rw [not_iff_not]
  constructor
  · intro tag
    cases tag with
    | cons _ tag => exact tag
    | cons_cons => exact absurd rfl h
  · exact fun tag => tag.cons c

theorem noTag_cons_open {s : List Char} : NoTag ('<' :: s) ↔ '>' ∉ s := by
  unfold NoTag
  rw [not_iff_not]
  constructor
  · intro tag
    cases tag with
    | cons _ tag => exact tag.subset (by simp)
    | cons_cons _ close => exact close.subset (by simp)
  · exact fun close => (List.singleton_sublist.mpr close).cons_cons '<'

/-- Taking tags out forms no new one. -/
theorem noTag_stripTags (s : List Char) : NoTag (stripTags s) := by
  fun_induction stripTags s with
  | case1 => exact nofun
  | case2 _ _ _ ih => exact ih
  | case3 s unclosed _ =>
    rw [noTag_cons_open]
    exact fun close => afterClose?_eq_none_iff.mp unclosed ((stripTags_sublist s).subset close)
  | case4 c s other ih => exact (noTag_cons_of_ne other).mpr ih

theorem stripTags_of_noTag {s : List Char} (h : NoTag s) : stripTags s = s := by
  fun_induction stripTags s with
  | case1 => rfl
  | case2 s r closed _ =>
    have unclosed := afterClose?_eq_none_iff.mpr (noTag_cons_open.mp h)
    rw [unclosed] at closed
    cases closed
  | case3 s _ ih => rw [ih (h.sublist (List.sublist_cons_self '<' s))]
  | case4 c s other ih => rw [ih ((noTag_cons_of_ne other).mp h)]

/-- A text that cleaning leaves as it is: it has been cleaned of everything that is taken out, and
has nothing that is decoded. -/
structure IsClean (s : List Char) : Prop where
  noStray : ∀ c ∈ s, isStray c = false
  noTag : NoTag s
  noEntity : '&' ∉ s
  trimmed : Text.trimChars s = s

theorem IsClean.clean_eq {s : List Char} (h : IsClean s) : clean s = s := by
  rw [clean, filter_of_noStray h.noStray, stripTags_of_noTag h.noTag,
    decodeEntities_of_notMem h.noEntity, h.trimmed]

/-- What is cleaned is clean if no entity was spelled in it: nothing then adds a character. -/
theorem isClean_clean {s : List Char} (h : '&' ∉ s) : IsClean (clean s) := by
  have bare : '&' ∉ stripTags (s.filter (!isStray ·)) := fun mem =>
    h (List.mem_of_mem_filter ((stripTags_sublist _).subset mem))
  have trimmed : clean s = Text.trimChars (stripTags (s.filter (!isStray ·))) := by
    rw [clean, decodeEntities_of_notMem bare]
  have part : (clean s).Sublist (stripTags (s.filter (!isStray ·))) := by
    rw [trimmed]
    exact Text.trimChars_sublist _
  constructor
  · intro c mem
    have kept := (stripTags_sublist _).subset (part.subset mem)
    rw [List.mem_filter] at kept
    simpa using kept.2
  · exact (noTag_stripTags _).sublist part
  · exact fun mem => bare (part.subset mem)
  · rw [trimmed, Text.trimChars_trimChars]

/-- Tags cannot be put together out of pieces: a text without entities has, once cleaned, no `<`
with a `>` behind it and no control character but tab, line feed and carriage return, and cleaning
it again changes nothing. -/
theorem text_holds_no_tag {t : String} (h : '&' ∉ t.toList) :
    ¬ ['<', '>'].Sublist (text t).toList ∧ Plain (text t).toList ∧ text (text t) = text t := by
  have cleaned : IsClean (text t).toList := by
    rw [text, String.toList_ofList]
    exact isClean_clean h
  refine ⟨cleaned.noTag, plain_iff.mpr cleaned.noStray, ?_⟩
  rw [text, cleaned.clean_eq, String.ofList_toList]

/-- A tag with another one inside it, cut by a control character: what is left is no tag. -/
theorem nested_tags_leave_no_tag :
    let t := "<<\x00b>i> a > b < c"
    '&' ∉ t.toList ∧ text t = "i> a > b < c" ∧ ¬ ['<', '>'].Sublist (text t).toList ∧
      Plain (text t).toList ∧ text (text t) = text t := by
  intro t
  have bare : '&' ∉ t.toList := by decide
  exact ⟨bare, by decide +kernel, text_holds_no_tag bare⟩

end Turnstile.Sanitize
