import Turnstile.Identity.Claims
import Turnstile.Proofs.Json.RoundTrip

namespace Turnstile.Claims

open Json (Reads textTree objectTree)

/-- A text under its name, if there is one. -/
def entry (name : String) (t : Option String) : List (String × Json.Tree) :=
  (t.map fun t => (name, textTree t)).toList

/-- What the text of the claims reads as, member by member. -/
def members (c : Claims) : List (String × Json.Tree) :=
  entry "sub" c.sub ++ entry "stellarAddress" c.stellarAddress ++
    entry "role" (c.role.map Role.name) ++ [("exp", .numeral (.ofNat c.exp))]

def tree (c : Claims) : Json.Tree := objectTree c.members

theorem reads_toJson (c : Claims) : Reads c.toJson c.tree := by
  apply Json.reads_object
  rw [List.forall₂_map_right_iff]
  refine List.rel_append (List.rel_append (List.rel_append ?_ ?_) ?_) ?_
  · cases c.sub with
    | none => exact .nil
    | some sub => exact .cons ⟨rfl, Json.reads_string sub⟩ .nil
  · cases c.stellarAddress with
    | none => exact .nil
    | some address => exact .cons ⟨rfl, Json.reads_string address⟩ .nil
  · cases c.role with
    | none => exact .nil
    | some role => exact .cons ⟨rfl, Json.reads_string role.name⟩ .nil
  · exact .cons ⟨rfl, Json.reads_ofNat c.exp⟩ .nil

theorem get?_entry (key name : String) (t : Option String) :
    Keyed.get? key (entry name t) = if name = key then t.map textTree else none := by
  cases t with
  | none => simp [entry]
  | some t => simp [entry, Keyed.get?]

theorem keys_entry (name : String) (t : Option String) :
    ((entry name t).map (·.1)).Sublist [name] := by
  cases t with
  | none => exact List.nil_sublist _
  | some t => exact List.Sublist.refl _

/-- Each claim stands once, in the order of the fields. -/
theorem keys_members (c : Claims) : (c.members.map (·.1)).Sublist fieldNames := by
  rw [members, List.map_append, List.map_append, List.map_append]
  exact (((keys_entry "sub" _).append (keys_entry "stellarAddress" _)).append
    (keys_entry "role" _)).append (List.Sublist.refl ["exp"])

theorem fields?_tree (c : Claims) (names : List String) :
    c.tree.fields? names = some (names.map fun n => Keyed.get? n c.members) := by
  have distinct : fieldNames.Nodup := by decide
  exact Json.fields?_objectTree (distinct.sublist c.keys_members) names

/-- Claims are read as they were written, if their expiry fits. -/
theorem ofTree?_tree {c : Claims} (fits : c.exp < expiryBound) : ofTree? c.tree = some c := by
  have fields : c.tree.fields? fieldNames =
      some [c.sub.map textTree, c.stellarAddress.map textTree, (c.role.map Role.name).map textTree,
        some (.numeral (.ofNat c.exp))] := by
    simp [fields?_tree, fieldNames, members, Keyed.get?_append, get?_entry, Keyed.get?]
  have sub := Json.optional_textTree Json.string?_textTree c.sub
  have address := Json.optional_textTree Json.string?_textTree c.stellarAddress
  have role := Json.optional_textTree Json.variant?_textTree (c.role.map Role.name)
  have named : (c.role.map Role.name).map Role.ofName = c.role := by cases c.role <;> simp
  have exp : Json.Tree.natBelow? expiryBound (.numeral (.ofNat c.exp)) = some c.exp :=
    Json.natBelow?_ofNat fits (by decide)
  simp [-Option.map_map, ofTree?, fields, sub, address, role, Json.required, exp, named]

end Turnstile.Claims
