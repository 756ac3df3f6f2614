import Turnstile.Schema.Sanitize

namespace Turnstile.Sanitize

/-- No control character of ASCII but tab, line feed and carriage return. -/
def Plain (s : List Char) : Prop := ∀ c ∈ s, c.toNat < 32 ∨ c.toNat = 127 → c ∈ ['\t', '\n', '\r']

instance : DecidablePred Plain := fun s => List.decidableBAll _ s

theorem plain_iff {s : List Char} : Plain s ↔ ∀ c ∈ s, isStray c = false := by
  have each (c : Char) :
      (c.toNat < 32 ∨ c.toNat = 127 → c ∈ ['\t', '\n', '\r']) ↔ isStray c = false := by
    rw [isStray, Ascii.isControl]
    simp only [List.mem_cons, List.not_mem_nil, or_false, Bool.and_eq_false_iff, Bool.or_eq_false_iff,
      decide_eq_false_iff_not, beq_eq_false_iff_ne, bne_eq_false_iff_eq]
    grind
  exact forall₂_congr fun c _ => each c

theorem filter_of_noStray {s : List Char} (h : ∀ c ∈ s, isStray c = false) :
    s.filter (!isStray ·) = s := by
  rw [List.filter_eq_self]
  intro c mem
  rw [h c mem]
  rfl

theorem stripTags_of_notMem {s : List Char} (h : '<' ∉ s) : stripTags s = s := by
  induction s with
  | nil => rw [stripTags]
  | cons c s ih =>
    obtain ⟨first, later⟩ := List.ne_and_not_mem_of_not_mem_cons h
    rw [stripTags, if_neg (Ne.symm first), ih later]

theorem Entity.decode_of_notMem (e : Entity) {s : List Char} (h : '&' ∉ s) : e.decode s = s := by
  induction s with
  | nil => rw [Entity.decode]
  | cons c s ih =>
    obtain ⟨first, later⟩ := List.ne_and_not_mem_of_not_mem_cons h
    rw [Entity.decode, if_neg (fun here => first here.1.symm), ih later]

theorem decodeEntities_of_notMem {s : List Char} (h : '&' ∉ s) : decodeEntities s = s := by
  rw [decodeEntities]
  induction entities with
  | nil => rfl
  | cons e es ih => rw [List.foldl_cons, e.decode_of_notMem h, ih]

structure IsSafe (c : Char) : Prop where
  not_stray : isStray c = false
  not_blank : Text.isBlank c = false
  no_tag : c ≠ '<'
  no_entity : c ≠ '&'

/-- A text of such characters stays as it is. -/
theorem text_of_isSafe {t : String} (safe : ∀ c ∈ t.toList, IsSafe c) : text t = t := by
  have unfiltered := filter_of_noStray fun c mem => (safe c mem).not_stray
  have no_tag : '<' ∉ t.toList := fun mem => (safe '<' mem).no_tag rfl
  have no_entity : '&' ∉ t.toList := fun mem => (safe '&' mem).no_entity rfl
  rw [text, clean, unfiltered, stripTags_of_notMem no_tag, decodeEntities_of_notMem no_entity,
    Text.trimChars_of_forall fun c mem => (safe c mem).not_blank, String.ofList_toList]

end Turnstile.Sanitize
