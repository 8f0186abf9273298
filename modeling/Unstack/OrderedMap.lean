/-!
# Ordered maps

A finite map from numbers, kept as its entries in the order of the keys.
-/

namespace Unstack

/-- Entries whose keys ascend, so that a key has at most one value. -/
structure OrderedMap (α : Type) where
  entries : List (Nat × α)
  ascending : entries.Pairwise fun a b => a.1 < b.1

namespace OrderedMap

variable {α : Type} {key : Nat} {merge : Option α → α} {entries : List (Nat × α)}

/-- Puts a value at a key among ascending entries, made from the value that is there, if there is
one. -/
def place (key : Nat) (merge : Option α → α) : List (Nat × α) → List (Nat × α)
  | [] => [(key, merge none)]
  | (k, old) :: rest =>
    if key < k then (key, merge none) :: (k, old) :: rest
    else if key = k then (key, merge (some old)) :: rest
    else (k, old) :: place key merge rest

/-- The entries are then those from before and the one at the key. -/
theorem eq_or_mem_of_mem_place {entry : Nat × α} (h : entry ∈ place key merge entries) :
    entry.1 = key ∨ entry ∈ entries := by
  fun_induction place key merge entries with
  | case1 => exact .inl (congrArg Prod.fst (List.mem_singleton.mp h))
  | case2 k old rest hbefore =>
    rcases List.mem_cons.mp h with rfl | hrest
    · exact .inl rfl
    · exact .inr hrest
  | case3 old rest hnot =>
    rcases List.mem_cons.mp h with rfl | hrest
    · exact .inl rfl
    · exact .inr (List.mem_cons_of_mem _ hrest)
  | case4 k old rest hnot hne ih =>
    rcases List.mem_cons.mp h with rfl | hrest
    · exact .inr List.mem_cons_self
    · exact (ih hrest).imp id (List.mem_cons_of_mem _)

/-- The entries still ascend. -/
theorem place_ascending (h : entries.Pairwise fun a b => a.1 < b.1) :
    (place key merge entries).Pairwise fun a b => a.1 < b.1 := by
  fun_induction place key merge entries with
  | case1 => exact List.pairwise_singleton _ _
  | case2 k old rest hbefore =>
    refine List.pairwise_cons.mpr ⟨fun entry hentry => ?_, h⟩
    rcases List.mem_cons.mp hentry with rfl | hrest
    · exact hbefore
    · exact Nat.lt_trans hbefore ((List.pairwise_cons.mp h).1 entry hrest)
  | case3 old rest hnot =>
    exact List.pairwise_cons.mpr (List.pairwise_cons.mp h)
  | case4 k old rest hnot hne ih =>
    have hfirst := (List.pairwise_cons.mp h).1
    refine List.pairwise_cons.mpr ⟨fun entry hentry => ?_, ih (List.pairwise_cons.mp h).2⟩
    rcases eq_or_mem_of_mem_place hentry with hkey | hrest
    · change k < entry.1
      omega
    · exact hfirst entry hrest

/-- The map with one entry. -/
def singleton (key : Nat) (value : α) : OrderedMap α := ⟨[(key, value)], List.pairwise_singleton _ _⟩

/-- Enters a value, in place of the one at its key. -/
def insert (m : OrderedMap α) (key : Nat) (value : α) : OrderedMap α :=
  ⟨place key (fun _ => value) m.entries, place_ascending m.ascending⟩

/-- Enters a value, unless its key has one. -/
def insertNew (m : OrderedMap α) (key : Nat) (value : α) : OrderedMap α :=
  ⟨place key (fun old => old.getD value) m.entries, place_ascending m.ascending⟩

end OrderedMap

end Unstack
