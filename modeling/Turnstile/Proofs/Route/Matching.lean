import Mathlib.Data.List.Forall2
import Turnstile.Route.Pattern

/-!
What patterns match and capture. `Pattern.Covers` is the language of patterns by itself, read off
the text of a pattern, with `Trimmed` and `Parted` for the slashes of texts; `isMatch_ofText_iff`
says that it is what is matched. What has been captured, put into the pattern in place of what
captured it, gives the path back.
-/

namespace Turnstile

namespace Pattern

/-! ### One slash at the end -/

theorem normalize_append_slash {path : List Char} (h : path ≠ []) :
    normalize (path ++ ['/']) = path := by
  have longer : path ++ ['/'] ≠ ['/'] := by simpa using h
  have last : (path ++ ['/']).getLast? = some '/' := by simp
  rw [normalize, if_neg longer, if_pos last, List.dropLast_concat]

theorem normalize_of_getLast? {path : List Char} (h : path.getLast? ≠ some '/') :
    normalize path = path := by
  unfold normalize
  by_cases root : path = ['/']
  · rw [if_pos root]
  · rw [if_neg root, if_neg h]

/-- One more slash behind a path changes neither the match nor the captures. -/
theorem matchPath_append_slash (p : Pattern) {path : String} (nonempty : path ≠ "")
    (h : path.toList.getLast? ≠ some '/') : p.matchPath (path ++ "/") = p.matchPath path := by
  have chars : path.toList ≠ [] := fun empty => nonempty (String.toList_eq_nil_iff.mp empty)
  have same : normalize (path ++ "/").toList = normalize path.toList := by
    rw [String.toList_append, normalize_of_getLast? h]
    exact normalize_append_slash chars
  unfold matchPath
  rw [same]

/-- A path, and what it is without one slash at its end. -/
inductive Trimmed : List Char → List Char → Prop
  | root : Trimmed ['/'] ['/']
  | slash {path : List Char} (nonempty : path ≠ []) : Trimmed (path ++ ['/']) path
  | plain {path : List Char} (unslashed : path.getLast? ≠ some '/') : Trimmed path path

theorem trimmed_normalize (path : List Char) : Trimmed path (normalize path) := by
  by_cases last : path.getLast? = some '/'
  · obtain ⟨front, rfl⟩ := List.getLast?_eq_some_iff.mp last
    by_cases empty : front = []
    · subst empty
      exact .root
    · rw [normalize_append_slash empty]
      exact .slash empty
  · rw [normalize_of_getLast? last]
    exact .plain last

theorem Trimmed.eq {path trimmed : List Char} (h : Trimmed path trimmed) :
    normalize path = trimmed := by
  cases h with
  | root => rfl
  | slash nonempty => exact normalize_append_slash nonempty
  | plain unslashed => exact normalize_of_getLast? unslashed

/-! ### The parts between slashes -/

/-- A path is slashes and these parts, each of which goes on to the next slash or to the end of the
path. -/
inductive Parted : List Char → List (List Char) → Prop
  | nil : Parted [] []
  | slash {path : List Char} {ps : List (List Char)} (h : Parted path ps) : Parted ('/' :: path) ps
  | part {p behind : List Char} {ps : List (List Char)} (nonempty : p ≠ []) (unslashed : '/' ∉ p)
      (ends : behind = [] ∨ behind.head? = some '/') (h : Parted behind ps) :
      Parted (p ++ behind) (p :: ps)

theorem parts_append_slash (front behind : List Char) :
    parts (front ++ '/' :: behind) = parts front ++ parts behind := by
  have cut : (front ++ '/' :: behind).splitOn '/' = front.splitOn '/' ++ behind.splitOn '/' :=
    List.splitOnP_append_cons front behind (beq_self_eq_true '/')
  rw [parts, cut, List.filter_append]
  rfl

theorem parts_slash (path : List Char) : parts ('/' :: path) = parts path :=
  parts_append_slash [] path

theorem parts_unslashed {p : List Char} (nonempty : p ≠ []) (unslashed : '/' ∉ p) :
    parts p = [p] := by
  rw [parts, List.splitOn_eq_singleton unslashed]
  simp [nonempty]

theorem Parted.eq {path : List Char} {ps : List (List Char)} (h : Parted path ps) :
    parts path = ps := by
  induction h with
  | nil => rfl
  | slash _ ih => rw [parts_slash, ih]
  | @part p behind ps nonempty unslashed ends _ ih =>
    have one := parts_unslashed nonempty unslashed
    rcases behind with _ | ⟨c, behind⟩
    · rw [List.append_nil, one, ← ih]
      rfl
    · obtain rfl : c = '/' := by simpa using ends
      rw [parts_append_slash, one, ← parts_slash, ih, List.singleton_append]

theorem Parted.exists_cons {path : List Char} {ps : List (List Char)} (h : Parted path ps)
    (c : Char) : ∃ qs, Parted (c :: path) qs := by
  by_cases slash : c = '/'
  · subst slash
    exact ⟨ps, .slash h⟩
  · have alone : ('/' : Char) ∉ [c] := by simpa using Ne.symm slash
    cases h with
    | nil => exact ⟨_, .part (List.cons_ne_nil c []) alone (.inl rfl) .nil⟩
    | slash h => exact ⟨_, .part (List.cons_ne_nil c []) alone (.inr rfl) (.slash h)⟩
    | @part p _ _ _ unslashed ends h =>
      have longer : ('/' : Char) ∉ c :: p := by simpa using ⟨Ne.symm slash, unslashed⟩
      exact ⟨_, .part (List.cons_ne_nil c p) longer ends h⟩

theorem exists_parted (path : List Char) : ∃ ps, Parted path ps := by
  induction path with
  | nil => exact ⟨[], .nil⟩
  | cons c path ih =>
    obtain ⟨ps, parted⟩ := ih
    exact parted.exists_cons c

theorem parted_parts (path : List Char) : Parted path (parts path) := by
  obtain ⟨ps, parted⟩ := exists_parted path
  exact parted.eq ▸ parted

/-! ### The language of patterns -/

/-- The name of the parameter that a part of a pattern stands for. -/
def parameterName? : List Char → Option (List Char)
  | ':' :: name => some name
  | _ => none

/-- A part of a pattern agrees with a part of a path: it is a parameter or the same text. -/
def Agrees (segment part : List Char) : Prop := segment.head? = some ':' ∨ segment = part

/-- The pattern matches the path, both without the slash at their ends. -/
inductive Covers : List Char → List Char → Prop
  | below (base : List Char) {rest : List Char} (boundary : rest = [] ∨ rest.head? = some '/') :
    Covers (base ++ ['/', '*']) (base ++ rest)
  | parts {pattern path : List Char} {segments ps : List (List Char)}
    (closed : ¬ ['/', '*'] <:+ pattern) (named : ':' ∈ pattern) (segmented : Parted pattern segments)
    (parted : Parted path ps) (agree : List.Forall₂ Agrees segments ps) : Covers pattern path
  | same {pattern : List Char} (closed : ¬ ['/', '*'] <:+ pattern) (unnamed : ':' ∉ pattern) :
    Covers pattern pattern

/-- The pattern matches the path. -/
def Fits (pattern path : List Char) : Prop :=
  ∃ p q, Trimmed pattern p ∧ Trimmed path q ∧ Covers p q

theorem fits_iff {pattern path : List Char} :
    Fits pattern path ↔ Covers (normalize pattern) (normalize path) := by
  constructor
  · rintro ⟨p, q, trimmedPattern, trimmedPath, covers⟩
    rw [trimmedPattern.eq, trimmedPath.eq]
    exact covers
  · exact fun covers => ⟨_, _, trimmed_normalize pattern, trimmed_normalize path, covers⟩

theorem beforeSuffix?_append (base suffix : List Char) :
    beforeSuffix? suffix (base ++ suffix) = some base := by
  have ends : suffix.isSuffixOf (base ++ suffix) = true := by
    rw [List.isSuffixOf_iff_suffix]
    exact List.suffix_append base suffix
  rw [beforeSuffix?, if_pos ends, List.length_append, Nat.add_sub_cancel, List.take_left']
  rfl

theorem beforeSuffix?_of_not_suffix {suffix text : List Char} (h : ¬ suffix <:+ text) :
    beforeSuffix? suffix text = none := by
  rw [beforeSuffix?, if_neg]
  rwa [List.isSuffixOf_iff_suffix]

/-- The three kinds of patterns, told by their texts. -/
theorem ofText_cases (t : String) :
    (∃ base, normalize t.toList = base ++ ['/', '*'] ∧ ofText t = .below base) ∨
    (¬ ['/', '*'] <:+ normalize t.toList ∧ ':' ∈ normalize t.toList ∧
      ofText t = .segments ((parts (normalize t.toList)).map segmentOf)) ∨
    (¬ ['/', '*'] <:+ normalize t.toList ∧ ':' ∉ normalize t.toList ∧
      ofText t = .exact (normalize t.toList)) := by
  unfold ofText
  by_cases star : ['/', '*'] <:+ normalize t.toList
  · obtain ⟨base, whole⟩ := star
    left
    refine ⟨base, whole.symm, ?_⟩
    simp only [← whole, beforeSuffix?_append]
  · right
    simp only [beforeSuffix?_of_not_suffix star]
    by_cases named : ':' ∈ normalize t.toList
    · left
      refine ⟨star, named, ?_⟩
      rw [if_pos (by simpa using named)]
    · right
      refine ⟨star, named, ?_⟩
      rw [if_neg (by simpa using named)]

/-! ### Captures -/

theorem matchPath_below_eq_some_iff {base : List Char} {path : String} {ps : Params} :
    (below base).matchPath path = some ps ↔
      ∃ rest, normalize path.toList = base ++ rest ∧ (rest = [] ∨ rest.head? = some '/') ∧
        ps = [(wildcardName, String.ofList rest)] := by
  unfold matchPath
  by_cases front : base <+: normalize path.toList
  · obtain ⟨rest, whole⟩ := front
    simp only [← whole, List.isPrefixOf_iff_prefix, List.prefix_append, if_true, List.drop_left]
    by_cases boundary : rest = [] ∨ rest.head? = some '/'
    · rw [if_pos boundary, Option.some.injEq]
      constructor
      · rintro rfl
        exact ⟨rest, rfl, boundary, rfl⟩
      · rintro ⟨other, same, -, rfl⟩
        rw [List.append_cancel_left same]
    · rw [if_neg boundary]
      constructor
      · exact nofun
      · rintro ⟨other, same, here, -⟩
        rw [← List.append_cancel_left same] at here
        exact absurd here boundary
  · simp only [List.isPrefixOf_iff_prefix, front, if_false]
    constructor
    · exact nofun
    · rintro ⟨rest, whole, -, -⟩
      exact absurd ⟨rest, whole.symm⟩ front

/-- A part of a pattern is a parameter by its colon, and static without one. -/
theorem segment_cases (segment : List Char) :
    (∃ name, segment = ':' :: name ∧ parameterName? segment = some name ∧
      segmentOf segment = .parameter name) ∨
    (segment.head? ≠ some ':' ∧ parameterName? segment = none ∧
      segmentOf segment = .static segment) := by
  cases segment with
  | nil => exact .inr ⟨nofun, rfl, rfl⟩
  | cons c name =>
    by_cases colon : c = ':'
    · subst colon
      exact .inl ⟨name, rfl, rfl, rfl⟩
    · refine .inr ⟨by simpa using colon, ?_, ?_⟩
      · unfold parameterName?
        split
        · next same => exact absurd (List.cons.inj same).1 colon
        · rfl
      · unfold segmentOf
        split
        · next same => exact absurd (List.cons.inj same).1 colon
        · rfl

theorem isSome_capture_iff (segments path : List (List Char)) :
    (capture (segments.map segmentOf) path).isSome ↔ List.Forall₂ Agrees segments path := by
  induction segments generalizing path with
  | nil => cases path <;> simp [capture]
  | cons segment segments ih =>
    cases path with
    | nil => simp [capture]
    | cons part path =>
      rw [List.map_cons, List.forall₂_cons, ← ih path]
      obtain ⟨name, rfl, -, parameter⟩ | ⟨unnamed, -, static⟩ := segment_cases segment
      · rw [parameter, capture, Option.isSome_map]
        exact (and_iff_right (.inl rfl)).symm
      · rw [static, capture]
        by_cases same : segment = part
        · rw [if_pos same]
          exact (and_iff_right (.inr same)).symm
        · rw [if_neg same]
          constructor
          · exact nofun
          · rintro ⟨colon | equal, -⟩
            · exact absurd colon unnamed
            · exact absurd equal same

/-- A pattern matches just the paths that its text covers. -/
theorem isMatch_ofText_iff {t path : String} :
    (ofText t).isMatch path = true ↔ Fits t.toList path.toList := by
  unfold isMatch
  rw [fits_iff]
  obtain ⟨base, whole, kind⟩ | ⟨closed, named, kind⟩ | ⟨closed, unnamed, kind⟩ := ofText_cases t
  · rw [kind, whole, Option.isSome_iff_exists]
    constructor
    · rintro ⟨ps, found⟩
      obtain ⟨rest, path, boundary, -⟩ := matchPath_below_eq_some_iff.mp found
      rw [path]
      exact .below base boundary
    · intro covers
      generalize pattern : base ++ ['/', '*'] = p at covers
      generalize target : normalize path.toList = q at covers
      cases covers with
      | below base' boundary =>
        rw [List.append_cancel_right pattern] at *
        exact ⟨_, matchPath_below_eq_some_iff.mpr ⟨_, target, boundary, rfl⟩⟩
      | parts closed => exact absurd ⟨base, pattern⟩ closed
      | same closed => exact absurd ⟨base, pattern⟩ closed
  · rw [kind]
    have captured : ((segments ((parts (normalize t.toList)).map segmentOf)).matchPath path) =
        capture ((parts (normalize t.toList)).map segmentOf) (parts (normalize path.toList)) := rfl
    rw [captured, isSome_capture_iff]
    constructor
    · exact .parts closed named (parted_parts _) (parted_parts _)
    · intro covers
      generalize normalize t.toList = p at *
      generalize normalize path.toList = q at *
      cases covers with
      | below base => exact absurd ⟨base, rfl⟩ closed
      | parts _ _ segmented parted agree =>
        rw [segmented.eq, parted.eq]
        exact agree
      | same _ unnamed => exact absurd named unnamed
  · rw [kind]
    have equal : ((exact (normalize t.toList)).matchPath path).isSome ↔
        normalize t.toList = normalize path.toList := by
      unfold matchPath
      by_cases same : normalize t.toList = normalize path.toList <;> simp [same]
    rw [equal]
    constructor
    · intro same
      rw [← same]
      exact .same closed unnamed
    · intro covers
      generalize normalize t.toList = p at *
      generalize normalize path.toList = q at *
      cases covers with
      | below base => exact absurd ⟨base, rfl⟩ closed
      | parts _ named => exact absurd named unnamed
      | same => rfl

/-! ### What has been captured, put in place -/

/-- A part of a pattern with the value of its parameter in its place. -/
def fill (ps : Params) (segment : List Char) : Option (List Char) :=
  match parameterName? segment with
  | some name => (ps.get? (String.ofList name)).map String.toList
  | none => some segment

/-- The names of the parameters among the parts of a pattern. -/
def parameterNames (segments : List (List Char)) : List (List Char) :=
  segments.filterMap parameterName?

theorem get?_cons (name value other : String) (ps : Params) :
    Params.get? ((name, value) :: ps) other =
      (ps.get? other).or (if name = other then some value else none) := by
  unfold Params.get?
  rw [List.reverse_cons, List.find?_append, Option.map_or]
  congr 1
  by_cases same : name = other <;> simp [same]

theorem get?_eq_none {ps : Params} {name : String} (h : name ∉ ps.map (·.1)) :
    ps.get? name = none := by
  unfold Params.get?
  rw [Option.map_eq_none_iff, List.find?_eq_none]
  intro p mem same
  exact h (List.mem_map.mpr ⟨p, List.mem_reverse.mp mem, eq_of_beq same⟩)

theorem fill_of_parameterName? {segment name : List Char}
    (h : parameterName? segment = some name) (ps : Params) :
    fill ps segment = (ps.get? (String.ofList name)).map String.toList := by
  rw [fill, h]

theorem fill_static {segment : List Char} (h : parameterName? segment = none) (ps : Params) :
    fill ps segment = some segment := by
  rw [fill, h]

/-- A capture under another name changes nothing. -/
theorem fill_cons_of_ne {segment name : List Char} (h : parameterName? segment ≠ some name)
    (value : String) (ps : Params) :
    fill ((String.ofList name, value) :: ps) segment = fill ps segment := by
  cases named : parameterName? segment with
  | none => rw [fill_static named, fill_static named]
  | some other =>
    have apart : String.ofList name ≠ String.ofList other := by
      rw [Ne, String.ofList_inj]
      rintro rfl
      exact h named
    rw [fill_of_parameterName? named, fill_of_parameterName? named, get?_cons, if_neg apart,
      Option.or_none]

/-- Only parameters of the pattern are captured. -/
theorem names_capture {segments path : List (List Char)} {ps : Params}
    (h : capture (segments.map segmentOf) path = some ps) :
    ps.map (·.1) = (parameterNames segments).map String.ofList := by
  induction segments generalizing path ps with
  | nil =>
    cases path with
    | nil => cases h; rfl
    | cons => cases h
  | cons segment segments ih =>
    cases path with
    | nil => simp [capture] at h
    | cons part path =>
      rw [List.map_cons] at h
      unfold parameterNames
      obtain ⟨name, -, named, parameter⟩ | ⟨-, named, static⟩ := segment_cases segment
      · rw [parameter, capture] at h
        obtain ⟨later, found, rfl⟩ := Option.map_eq_some_iff.mp h
        rw [List.filterMap_cons_some named, List.map_cons, List.map_cons, ih found]
        rfl
      · rw [static, capture] at h
        rw [List.filterMap_cons_none named]
        by_cases same : segment = part
        · rw [if_pos same] at h
          exact ih h
        · rw [if_neg same] at h
          cases h

/-- If no name stands twice, the captures put in place give the parts of the path. -/
theorem map_fill_capture {segments path : List (List Char)} {ps : Params}
    (h : capture (segments.map segmentOf) path = some ps)
    (distinct : (parameterNames segments).Nodup) : segments.map (fill ps) = path.map some := by
  induction segments generalizing path ps with
  | nil =>
    cases path with
    | nil => rfl
    | cons => cases h
  | cons segment segments ih =>
    cases path with
    | nil => simp [capture] at h
    | cons part path =>
      rw [List.map_cons] at h ⊢
      unfold parameterNames at distinct
      obtain ⟨name, -, named, parameter⟩ | ⟨-, named, static⟩ := segment_cases segment
      · rw [parameter, capture] at h
        obtain ⟨later, found, rfl⟩ := Option.map_eq_some_iff.mp h
        rw [List.filterMap_cons_some named, List.nodup_cons] at distinct
        obtain ⟨new, distinct⟩ := distinct
        have absent : Params.get? later (String.ofList name) = none := by
          apply get?_eq_none
          rw [names_capture found, List.mem_map]
          rintro ⟨other, mem, same⟩
          exact new (String.ofList_inj.mp same ▸ mem)
        have others : ∀ s ∈ segments,
            fill ((String.ofList name, String.ofList part) :: later) s = fill later s := by
          intro s mem
          apply fill_cons_of_ne
          exact fun same => new (List.mem_filterMap.mpr ⟨s, mem, same⟩)
        rw [List.map_congr_left others, ih found distinct, fill_of_parameterName? named, get?_cons,
          absent, if_pos rfl, Option.none_or, Option.map_some, String.toList_ofList, List.map_cons]
      · rw [static, capture] at h
        rw [List.filterMap_cons_none named] at distinct
        by_cases same : segment = part
        · rw [if_pos same] at h
          rw [ih h distinct, fill_static named, same, List.map_cons]
        · rw [if_neg same] at h
          cases h

end Pattern

end Turnstile
