namespace Turnstile.Keyed

def get? {α : Type} (key : String) : List (String × α) → Option α
  | [] => none
  | (k, v) :: rest => if k = key then some v else get? key rest

/-- The table with a value under a key, in place of the one that was there. -/
def insert {α : Type} (key : String) (value : α) : List (String × α) → List (String × α)
  | [] => [(key, value)]
  | (k, v) :: rest =>
    if k = key then (key, value) :: rest
    else if key < k then (key, value) :: (k, v) :: rest
    else (k, v) :: insert key value rest

def erase {α : Type} (key : String) : List (String × α) → List (String × α)
  | [] => []
  | (k, v) :: rest => if k = key then erase key rest else (k, v) :: erase key rest

def keys {α : Type} (table : List (String × α)) : List String := table.map (·.1)

/-- The table of a list in which the last of several equal keys counts. -/
def ofList {α : Type} (members : List (String × α)) : List (String × α) :=
  members.foldl (fun acc m => insert m.1 m.2 acc) []

@[simp] theorem get?_nil {α : Type} (key : String) :
    get? key ([] : List (String × α)) = none := rfl

theorem get?_insert {α : Type} (key : String) (value : α) (table : List (String × α))
    (k : String) :
    get? k (insert key value table) = if key = k then some value else get? k table := by
  induction table with
  | nil => simp [insert, get?]
  | cons m rest ih =>
    obtain ⟨l, v⟩ := m
    simp only [insert]
    split
    · next h => by_cases hk : key = k <;> simp [get?, h, hk]
    · next h =>
      split
      · by_cases hk : key = k <;> simp [get?, hk]
      · by_cases hl : l = k
        · by_cases hk : key = k
          · exact absurd (hl.trans hk.symm) h
          · simp [get?, hl, hk]
        · simp [get?, hl, ih]

theorem get?_erase {α : Type} (key : String) (table : List (String × α)) (k : String) :
    get? k (erase key table) = if k = key then none else get? k table := by
  induction table with
  | nil => simp [erase]
  | cons m rest ih => grind [erase, get?]

end Turnstile.Keyed
