/-!
Finite maps from names, with one entry for each name.
-/
namespace Logo

structure Dictionary (α : Type) where
  entries : List (String × α) := []

namespace Dictionary

variable {α : Type}

def get? (d : Dictionary α) (name : String) : Option α := d.entries.lookup name

/-- The entry replaces an earlier one of the same name. -/
def insert (d : Dictionary α) (name : String) (value : α) : Dictionary α :=
  ⟨(name, value) :: d.entries.filter (·.1 != name)⟩

/-- Of several entries for one name the last one wins. -/
def ofList (entries : List (String × α)) : Dictionary α :=
  entries.foldl (fun d (name, value) => d.insert name value) {}

@[simp] theorem get?_empty (name : String) : ({} : Dictionary α).get? name = none := rfl

theorem get?_insert (d : Dictionary α) (name other : String) (value : α) :
    (d.insert name value).get? other = if other = name then some value else d.get? other := by
  by_cases h : other = name
  · simp [get?, insert, h]
  · have hb : (other == name) = false := by simp [h]
    simp only [get?, insert, List.lookup_cons, hb, if_neg h]
    induction d.entries with
    | nil => rfl
    | cons entry entries ih =>
        obtain ⟨key, held⟩ := entry
        by_cases hk : key = name
        · simp [hk, List.lookup_cons, hb, ih]
        · by_cases ho : other = key <;> simp_all [List.lookup_cons]

theorem get?_ofList (entries : List (String × α)) (name : String) :
    (ofList entries).get? name = entries.reverse.lookup name := by
  -- in the fold, what was there before counts last
  suffices ∀ d : Dictionary α,
      (entries.foldl (fun d (name, value) => d.insert name value) d).get? name =
        (entries.reverse.lookup name).or (d.get? name) by
    simpa [ofList] using this {}
  induction entries with
  | nil =>
      intro d
      rfl
  | cons entry entries ih =>
      intro d
      obtain ⟨key, held⟩ := entry
      rw [List.foldl_cons, ih, List.reverse_cons, List.lookup_append, get?_insert, Option.or_assoc]
      by_cases h : name = key
      · simp [h]
      · have hb : (name == key) = false := by simp [h]
        simp [List.lookup_cons, h, hb]

end Dictionary

end Logo
