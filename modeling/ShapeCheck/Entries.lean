/-!
# Named entries

A finite map from names to values, kept as a list in ascending order of the names, each name once.
Two maps with the same entries are the same list.
-/

namespace ShapeCheck

abbrev Entries (α : Type) := List (String × α)

namespace Entries

variable {α : Type}

def get? (name : String) : Entries α → Option α
  | [] => none
  | (n, a) :: es => if n = name then some a else get? name es

/-- Adds an entry at its place. An entry of that name is replaced. -/
def insert (name : String) (value : α) : Entries α → Entries α
  | [] => [(name, value)]
  | (n, a) :: es =>
    if name < n then (name, value) :: (n, a) :: es
    else if name = n then (name, value) :: es
    else (n, a) :: insert name value es

/-- The map that holds the given entries; of two with one name the later stays. -/
def ofList (es : List (String × α)) : Entries α :=
  es.foldl (fun m e => m.insert e.1 e.2) []

def names (es : Entries α) : List String :=
  es.map Prod.fst

def Sorted (es : Entries α) : Prop :=
  es.names.Pairwise (· < ·)

theorem get?_insert (name other : String) (value : α) (es : Entries α) :
    (es.insert name value).get? other = if name = other then some value else es.get? other := by
  induction es with
  | nil => simp [insert, get?]
  | cons e es ih => grind [insert, get?]

theorem mem_names_insert (name other : String) (value : α) (es : Entries α) :
    other ∈ (es.insert name value).names ↔ other = name ∨ other ∈ es.names := by
  induction es with
  | nil => simp [insert, names]
  | cons e es ih => grind [insert, names]

theorem eq_or_mem_of_mem_insert {name : String} {value : α} {es : Entries α} {e : String × α}
    (h : e ∈ es.insert name value) : e = (name, value) ∨ e ∈ es := by
  induction es with
  | nil => exact Or.inl (List.mem_singleton.mp h)
  | cons e' es ih => grind [insert]

theorem mem_of_get? {name : String} {value : α} {es : Entries α} (h : es.get? name = some value) :
    (name, value) ∈ es := by
  induction es with
  | nil => cases h
  | cons e es ih => grind [get?]

theorem mem_names_iff {name : String} {es : Entries α} :
    name ∈ es.names ↔ (es.get? name).isSome := by
  induction es with
  | nil => simp [names, get?]
  | cons e es ih => grind [names, get?]

theorem Sorted.nodup {es : Entries α} (h : es.Sorted) : es.names.Nodup :=
  List.Pairwise.imp (fun hlt => Std.ne_of_lt hlt) h

theorem sorted_insert (name : String) (value : α) {es : Entries α} (h : es.Sorted) :
    (es.insert name value).Sorted := by
  induction es with
  | nil => simp [insert, Sorted, names]
  | cons e es ih =>
    obtain ⟨n, a⟩ := e
    obtain ⟨below, sorted⟩ := List.pairwise_cons.1 h
    unfold insert
    split
    case isTrue before =>
      refine List.pairwise_cons.2 ⟨fun m hm => ?_, h⟩
      rcases List.mem_cons.1 hm with rfl | hm
      · exact before
      · exact String.lt_trans before (below m hm)
    case isFalse notBefore =>
      split
      case isTrue same => subst same; exact h
      case isFalse different =>
        refine List.pairwise_cons.2 ⟨fun m hm => ?_, ih sorted⟩
        rcases (mem_names_insert name m value es).1 hm with rfl | hm
        · exact Std.lt_of_le_of_ne (String.not_lt.1 notBefore) (Ne.symm different)
        · exact below m hm

theorem sorted_ofList (es : List (String × α)) : (ofList es).Sorted :=
  List.foldlRecOn es _ List.Pairwise.nil fun _ h e _ => sorted_insert e.1 e.2 h

theorem mem_of_mem_ofList {es : List (String × α)} {e : String × α} (h : e ∈ ofList es) : e ∈ es := by
  suffices key : ∀ (es : List (String × α)) (m : Entries α),
      e ∈ es.foldl (fun m e => m.insert e.1 e.2) m → e ∈ m ∨ e ∈ es by
    exact (key es [] h).resolve_left List.not_mem_nil
  intro es
  induction es with
  | nil => exact fun _ h => Or.inl h
  | cons e' es ih =>
    intro m h
    rcases ih _ h with h | h
    · rcases eq_or_mem_of_mem_insert h with rfl | h
      · exact Or.inr List.mem_cons_self
      · exact Or.inl h
    · exact Or.inr (List.mem_cons_of_mem _ h)

end Entries

end ShapeCheck
