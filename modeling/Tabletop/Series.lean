/-
# Series: lists that grow at their end

The entries of an entity's list, the names in a cell, the waiting delays and the
log are all added to at the end and read from the front.  A series holds its
entries last one first, so that adding one costs the same however many there
are.

`Series.toList` is the view in order, and every operation has one equation for
it: what is pushed comes last (`toList_push`), what is appended comes after what
was there (`toList_append`).  Series with the same view are the same
(`toList_inj`).
-/

namespace Tabletop

/-- A list that grows at its end. -/
structure Series (α : Type) where
  /-- The entries, the last one first. -/
  backward : List α := []
deriving DecidableEq, Inhabited

namespace Series

variable {α β : Type}

/-- Equality, entry by entry. -/
instance [BEq α] : BEq (Series α) := ⟨fun a b => a.backward == b.backward⟩

instance [BEq α] [LawfulBEq α] : LawfulBEq (Series α) where
  rfl := beq_self_eq_true (α := List α) _
  eq_of_beq h := congrArg mk (eq_of_beq h)

/-- The series without entries. -/
def empty : Series α := {}

/-- The series of given entries. -/
def ofList (entries : List α) : Series α := ⟨entries.reverse⟩

/-- The entries in order. -/
def toList (s : Series α) : List α := s.backward.reverse

/-- How many entries there are. -/
def length (s : Series α) : Nat := s.backward.length

/-- Adds an entry at the end. -/
def push (s : Series α) (entry : α) : Series α := ⟨entry :: s.backward⟩

/-- Adds entries at the end, in their order. -/
def append (s : Series α) (entries : List α) : Series α := ⟨entries.reverse ++ s.backward⟩

/-- The series with every entry changed. -/
def map (f : α → β) (s : Series α) : Series β := ⟨s.backward.map f⟩

/-- The series of the entries that pass a test. -/
def filter (p : α → Bool) (s : Series α) : Series α := ⟨s.backward.filter p⟩

@[simp]
theorem toList_empty : (empty : Series α).toList = [] := rfl

@[simp]
theorem toList_ofList (entries : List α) : (ofList entries).toList = entries :=
  List.reverse_reverse entries

@[simp]
theorem ofList_toList (s : Series α) : ofList s.toList = s :=
  congrArg mk (List.reverse_reverse s.backward)

@[simp]
theorem length_toList (s : Series α) : s.toList.length = s.length := List.length_reverse

/-- What is pushed comes last. -/
@[simp]
theorem toList_push (s : Series α) (entry : α) : (s.push entry).toList = s.toList ++ [entry] :=
  List.reverse_cons

/-- What is appended comes after what was there. -/
@[simp]
theorem toList_append (s : Series α) (entries : List α) :
    (s.append entries).toList = s.toList ++ entries := by
  simp [append, toList]

@[simp]
theorem toList_map (f : α → β) (s : Series α) : (s.map f).toList = s.toList.map f :=
  List.map_reverse.symm

@[simp]
theorem toList_filter (p : α → Bool) (s : Series α) : (s.filter p).toList = s.toList.filter p :=
  List.filter_reverse.symm

/-- Series with the same entries in order are the same. -/
theorem toList_inj {a b : Series α} : a.toList = b.toList ↔ a = b :=
  ⟨fun h => by rw [← ofList_toList a, h, ofList_toList], congrArg toList⟩

end Series
end Tabletop
