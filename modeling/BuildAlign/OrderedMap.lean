/-! # Maps that keep the order of insertion

A key that is set again keeps its first place and takes the last value. -/
namespace BuildAlign

/-- Associations with pairwise distinct keys. -/
structure OrderedMap (κ : Type) (α : Type) where
  entries : List (κ × α)
  distinct : (entries.map Prod.fst).Nodup
deriving DecidableEq

namespace OrderedMap
variable {κ α β : Type} [DecidableEq κ]

/-- Sets a key in a list of associations, in its place or at the end. -/
def put (key : κ) (value : α) : List (κ × α) → List (κ × α)
  | [] => [(key, value)]
  | (k, v) :: rest => if k = key then (k, value) :: rest else (k, v) :: put key value rest

def find (key : κ) : List (κ × α) → Option α
  | [] => none
  | (k, v) :: rest => if k = key then some v else find key rest

theorem mem_keys_put {key k : κ} {value : α} {l : List (κ × α)} :
    k ∈ (put key value l).map Prod.fst ↔ k = key ∨ k ∈ l.map Prod.fst := by
  induction l with
  | nil => simp [put]
  | cons p l ih =>
    obtain ⟨k', v'⟩ := p
    by_cases h : k' = key
    · simp [put, h]
    · simp only [put, h, if_false, List.map_cons, List.mem_cons, ih]
      constructor <;> rintro (h | h | h) <;> simp [h]

theorem nodup_put {key : κ} {value : α} {l : List (κ × α)} (h : (l.map Prod.fst).Nodup) :
    ((put key value l).map Prod.fst).Nodup := by
  induction l with
  | nil => simp [put]
  | cons p l ih =>
    obtain ⟨k, v⟩ := p
    simp only [List.map_cons, List.nodup_cons] at h
    by_cases hk : k = key
    · simp only [put, hk, if_true, List.map_cons, List.nodup_cons]; exact hk ▸ h
    · simp only [put, hk, if_false, List.map_cons, List.nodup_cons]
      exact ⟨fun hm => (mem_keys_put.1 hm).elim hk h.1, ih h.2⟩

private theorem find_put {key k : κ} {value : α} {l : List (κ × α)} :
    find k (put key value l) = if key = k then some value else find k l := by
  induction l with
  | nil => simp [put, find]
  | cons p l ih =>
    obtain ⟨k', v'⟩ := p
    by_cases h : k' = key
    · by_cases hk : key = k <;> simp [put, find, h, hk]
    · by_cases hk : k' = k
      · have : key ≠ k := fun e => h (hk.trans e.symm)
        simp [put, find, hk, this, Ne.symm this]
      · simp [put, find, h, hk, ih]

def empty : OrderedMap κ α := ⟨[], by simp⟩
instance : EmptyCollection (OrderedMap κ α) := ⟨empty⟩
instance : Inhabited (OrderedMap κ α) := ⟨empty⟩

def get? (m : OrderedMap κ α) (key : κ) : Option α := find key m.entries
def contains (m : OrderedMap κ α) (key : κ) : Bool := (m.get? key).isSome
def keys (m : OrderedMap κ α) : List κ := m.entries.map Prod.fst
def isEmpty (m : OrderedMap κ α) : Bool := m.entries.isEmpty

def insert (m : OrderedMap κ α) (key : κ) (value : α) : OrderedMap κ α :=
  ⟨put key value m.entries, nodup_put m.distinct⟩

/-- Keeps the value that a key already has. -/
def insertIfNew (m : OrderedMap κ α) (key : κ) (value : α) : OrderedMap κ α :=
  if m.contains key then m else m.insert key value

/-- Sets every association of a list, in its order. -/
def insertAll (m : OrderedMap κ α) (l : List (κ × α)) : OrderedMap κ α :=
  l.foldl (fun m (key, value) => m.insert key value) m

def ofList (l : List (κ × α)) : OrderedMap κ α := insertAll empty l

def mapValues (f : α → β) (m : OrderedMap κ α) : OrderedMap κ β :=
  ⟨m.entries.map fun (key, value) => (key, f value), by
    have : (m.entries.map fun (key, value) => (key, f value)).map Prod.fst =
        m.entries.map Prod.fst := by
      simp [List.map_map, Function.comp_def]
    rw [this]; exact m.distinct⟩

@[simp] theorem get?_empty (k : κ) : (empty : OrderedMap κ α).get? k = none := rfl

@[simp] theorem get?_insert (m : OrderedMap κ α) (key k : κ) (value : α) :
    (m.insert key value).get? k = if key = k then some value else m.get? k := find_put

theorem mem_keys_of_get? {m : OrderedMap κ α} {key : κ} {value : α} (h : m.get? key = some value) :
    key ∈ m.keys := by
  obtain ⟨l, hl⟩ := m
  simp only [get?, keys] at h ⊢
  clear hl
  induction l with
  | nil => simp [find] at h
  | cons e l ih =>
    simp only [find] at h
    split at h
    · next he => simp [he]
    · exact List.mem_cons_of_mem _ (ih h)

end OrderedMap
end BuildAlign
