/-!
# Entries

Maps with text keys that keep the order in which keys were first put in. A key stands at most once
in a map that is built by `set`.
-/

namespace Whiteboard

/-- Keys with their values, in order of insertion. -/
abbrev Entries (β : Type) := List (String × β)

namespace Entries

variable {β γ : Type}

def get? (key : String) : Entries β → Option β
  | [] => none
  | (k, v) :: rest => if k = key then some v else get? key rest

def has (key : String) (es : Entries β) : Bool := (get? key es).isSome

def keys (es : Entries β) : List String := es.map (·.1)

/-- A key that is present keeps its place and takes the new value. -/
def set (key : String) (value : β) : Entries β → Entries β
  | [] => [(key, value)]
  | (k, v) :: rest => if k = key then (key, value) :: rest else (k, v) :: set key value rest

def erase (key : String) (es : Entries β) : Entries β := es.filter (·.1 != key)

/-- The entries of `base` with those of `changes` put in, one after the other. -/
def merge (base changes : Entries β) : Entries β :=
  changes.foldl (fun es (k, v) => set k v es) base

/-- The last value of a repeated key wins; its first place counts. -/
def ofList (es : List (String × β)) : Entries β := merge [] es

def mapValues (f : β → γ) (es : Entries β) : Entries γ := es.map fun (k, v) => (k, f v)

/-- Setting a key changes what stands under it, and nothing else. -/
theorem get?_set (key other : String) (value : β) (es : Entries β) :
    get? other (set key value es) = if key = other then some value else get? other es := by
  induction es with
  | nil => simp [set, get?]
  | cons e rest ih => grind [set, get?]

/-- Erasing a key leaves nothing under it, and all else as it was. -/
theorem get?_erase (key other : String) (es : Entries β) :
    get? other (erase key es) = if key = other then none else get? other es := by
  induction es with
  | nil => simp [erase, get?]
  | cons e rest ih => grind [erase, get?]

/-- There is something under the keys, and under nothing else. -/
theorem has_eq_true_iff {key : String} {es : Entries β} : has key es = true ↔ key ∈ es.keys := by
  induction es with
  | nil => simp [has, get?, keys]
  | cons e rest ih => grind [has, get?, keys]

end Entries

end Whiteboard
