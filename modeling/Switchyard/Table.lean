/-!
# Tables

Entries under distinct names, in name order.
-/

namespace Switchyard

structure Table (α : Type) where
  entries : List (String × α)
  distinct : (entries.map Prod.fst).Nodup

namespace Table

variable {α : Type}

def empty : Table α := ⟨[], List.nodup_nil⟩

instance : Inhabited (Table α) := ⟨empty⟩

def find? (t : Table α) (name : String) : Option α := t.entries.lookup name

def names (t : Table α) : List String := t.entries.map Prod.fst

/-- Put an entry in front of the first one with a greater name. -/
def place (name : String) (x : α) : List (String × α) → List (String × α)
  | [] => [(name, x)]
  | e :: rest => if name < e.1 then (name, x) :: e :: rest else e :: place name x rest

def without (name : String) (l : List (String × α)) : List (String × α) :=
  l.filter fun e => e.1 != name

theorem place_perm (name : String) (x : α) (l : List (String × α)) :
    (place name x l).Perm ((name, x) :: l) := by
  induction l with
  | nil => exact .refl _
  | cons e rest ih =>
    simp only [place]
    split
    · exact .refl _
    · exact (ih.cons e).trans (.swap _ _ _)

theorem nodup_without {l : List (String × α)} (h : (l.map Prod.fst).Nodup) (name : String) :
    ((without name l).map Prod.fst).Nodup :=
  h.sublist (List.filter_sublist.map _)

theorem notMem_without (name : String) (l : List (String × α)) :
    name ∉ (without name l).map Prod.fst := by
  simp [without]

def erase (name : String) (t : Table α) : Table α :=
  ⟨without name t.entries, nodup_without t.distinct name⟩

/-- Bind `name` in place of what it was bound to. -/
def insert (name : String) (x : α) (t : Table α) : Table α where
  entries := place name x (without name t.entries)
  distinct := by
    rw [((place_perm name x _).map Prod.fst).nodup_iff, List.map_cons, List.nodup_cons]
    exact ⟨notMem_without name _, nodup_without t.distinct name⟩

/-- The first entry, and the table after it. -/
def pop? : Table α → Option ((String × α) × Table α)
  | ⟨[], _⟩ => none
  | ⟨e :: rest, h⟩ => some (e, ⟨rest, (List.nodup_cons.mp h).2⟩)

end Table

end Switchyard
