import Unstack.Graph
import Unstack.Outcome
import Unstack.Proofs.BinarySearch
import Mathlib.Data.List.Induction
import Mathlib.Data.List.Sort

/-!
# The map of leaders

Collecting leaders is a run of checks and of entries into an ordered map. The checks look only at the
body, so that the collection fails with the first of them that fails, or else is the whole run of
entries. An entry either adds a place if it is missing, or writes the depth of a place. So the places
of the map are those of all entries, the depth of a place is the one written last, and two entries may
change places unless they write different depths to one place.
-/

namespace Unstack

namespace OrderedMap

variable {α : Type} {entries : List (Nat × α)} {m other : OrderedMap α}

/-- The value at a key. -/
def get? (m : OrderedMap α) (key : Nat) : Option α := m.entries.lookup key

/-- A lookup takes the first entry or goes on. -/
theorem lookup_cons_eq_ite (k : Nat) (value : α) (rest : List (Nat × α)) (key : Nat) :
    ((k, value) :: rest).lookup key = if key = k then some value else rest.lookup key := by
  by_cases hkey : key = k
  · simp [hkey]
  · rw [List.lookup_cons, beq_eq_false_iff_ne.mpr hkey, if_neg hkey]

/-- Among ascending entries the one at a key is found. -/
theorem lookup_eq_some_iff (hentries : entries.Pairwise fun a b => a.1 < b.1) (key : Nat) (value : α) :
    entries.lookup key = some value ↔ (key, value) ∈ entries := by
  induction entries with
  | nil => simp
  | cons entry rest ih =>
    obtain ⟨k, old⟩ := entry
    obtain ⟨hfirst, hrest⟩ := List.pairwise_cons.mp hentries
    rw [lookup_cons_eq_ite, List.mem_cons, Prod.mk.injEq]
    by_cases hkey : key = k
    · subst hkey
      have hnot : (key, value) ∉ rest := fun hmem => Nat.lt_irrefl key (hfirst _ hmem)
      simp [hnot, eq_comm]
    · simp [hkey, ih hrest]

/-- The entries of a map are its values at their keys. -/
theorem mem_entries_iff (m : OrderedMap α) (key : Nat) (value : α) :
    (key, value) ∈ m.entries ↔ m.get? key = some value :=
  (lookup_eq_some_iff m.ascending key value).symm

/-- Maps with the same values are the same. -/
theorem ext_get? (h : ∀ key, m.get? key = other.get? key) : m = other := by
  have : Std.Irrefl fun a b : Nat × α => a.1 < b.1 := ⟨fun a => Nat.lt_irrefl a.1⟩
  have : Std.Antisymm fun a b : Nat × α => a.1 < b.1 :=
    ⟨fun a b hab hba => absurd hab (Nat.lt_asymm hba)⟩
  have hentries : m.entries = other.entries := by
    apply m.ascending.eq_of_mem_iff other.ascending
    rintro ⟨key, value⟩
    rw [mem_entries_iff, mem_entries_iff, h]
  cases m
  cases other
  cases hentries
  rfl

/-- A value is found where it was put, and the others where they were. -/
theorem lookup_place (hentries : entries.Pairwise fun a b => a.1 < b.1) (key : Nat)
    (merge : Option α → α) (k : Nat) :
    (place key merge entries).lookup k =
      if k = key then some (merge (entries.lookup key)) else entries.lookup k := by
  fun_induction place key merge entries with
  | case1 => simp [lookup_cons_eq_ite]
  | case2 first old rest hbefore =>
    have hmissing : ((first, old) :: rest).lookup key = none := by
      rw [Option.eq_none_iff_forall_ne_some]
      intro value hvalue
      have hmem := (lookup_eq_some_iff hentries key value).mp hvalue
      rcases List.mem_cons.mp hmem with heq | hrest
      · obtain ⟨rfl, -⟩ := Prod.mk.inj heq
        exact Nat.lt_irrefl _ hbefore
      · exact Nat.lt_asymm hbefore ((List.pairwise_cons.mp hentries).1 _ hrest)
    rw [lookup_cons_eq_ite, hmissing]
  | case3 old rest hnot => by_cases hk : k = key <;> simp [lookup_cons_eq_ite, hk]
  | case4 first old rest hnot hne ih =>
    simp only [lookup_cons_eq_ite, ih (List.pairwise_cons.mp hentries).2, if_neg hne]
    by_cases hk : k = first
    · simp [hk, Ne.symm hne]
    · simp [hk]

/-- The map with one entry has that value. -/
theorem get?_singleton (key : Nat) (value : α) (k : Nat) :
    (singleton key value).get? k = if k = key then some value else none := by
  simp [get?, singleton, lookup_cons_eq_ite]

/-- A value that is entered is there. -/
theorem get?_insert (m : OrderedMap α) (key : Nat) (value : α) (k : Nat) :
    (m.insert key value).get? k = if k = key then some value else m.get? k :=
  lookup_place m.ascending key _ k

/-- A value that is entered unless there is one leaves the one that is there. -/
theorem get?_insertNew (m : OrderedMap α) (key : Nat) (value : α) (k : Nat) :
    (m.insertNew key value).get? k = if k = key then some ((m.get? key).getD value) else m.get? k :=
  lookup_place m.ascending key _ k

end OrderedMap

namespace Graph

open OrderedMap

/-- A place that is found holds an instruction at the offset. -/
theorem of_indexOf?_eq_some {body : Array Instruction} {offset : Offset} {place : Nat}
    (h : indexOf? body offset = some place) : ∃ i, body[place]? = some i ∧ i.offset = offset := by
  obtain ⟨-, hwanted⟩ := Search.of_bisect_eq_some h
  rw [Std.LawfulEqCmp.compare_eq_iff_eq] at hwanted
  exact Option.map_eq_some_iff.mp hwanted

namespace Leaders

/-- Makes one entry: a place without a depth is added if it is missing, a place with a depth is
written. -/
def put (leaders : Leaders) : Nat × Option Nat → Leaders
  | (place, none) => leaders.insertNew place none
  | (place, some depth) => leaders.insert place (some depth)

/-- Is the place a leader? -/
def Has (leaders : Leaders) (place : Nat) : Prop := (leaders.get? place).isSome = true

/-- The depth that is written at a place. -/
def depthAt (leaders : Leaders) (place : Nat) : Option Nat := (leaders.get? place).join

section Entries

variable (body : Array Instruction)

/-- The entry for an offset that starts a block. -/
def placeEntry (offset : Offset) : List (Nat × Option Nat) :=
  ((indexOf? body offset).map (·, none)).toList

/-- The entry for an offset that the runtime enters. -/
def depthEntry (entry : Offset × Nat) : List (Nat × Option Nat) :=
  ((indexOf? body entry.1).map (·, some entry.2)).toList

/-- The entries for an instruction and its place. -/
def instructionEntries (item : Instruction × Nat) : List (Nat × Option Nat) :=
  item.1.branchTargets.flatMap (placeEntry body) ++
    if item.1.flowKind != .fallthrough && item.2 + 1 < body.size then [(item.2 + 1, none)] else []

/-- The entries for a region. -/
def regionEntries (region : Region) : List (Nat × Option Nat) :=
  region.boundaries.flatMap (placeEntry body) ++ region.entryPoints.flatMap (depthEntry body)

/-- All the entries for a body, in the order in which they are made. -/
def allEntries (regions : List Region) : List (Nat × Option Nat) :=
  body.toList.zipIdx.flatMap (instructionEntries body) ++ regions.flatMap (regionEntries body)

/-- The leaders that all the entries make. -/
def collected (regions : List Region) : Leaders :=
  (allEntries body regions).foldl put (.singleton 0 none)

/-- What is wrong with a target. -/
def targetFault? (source target : Offset) : Option GraphError :=
  if (indexOf? body target).isNone then some (.danglingTarget source target) else none

/-- What is wrong with a boundary in a body that ends at `stop`. -/
def boundaryFault? (stop boundary : Offset) : Option GraphError :=
  if (indexOf? body boundary).isNone && boundary != stop then some (.danglingBoundary boundary)
  else none

/-- What is wrong with a body: the first target of a branch that has no place, else the first boundary
of a region. -/
def fault? (stop : Offset) (regions : List Region) : Option GraphError :=
  (body.toList.findSome? fun i =>
    (i.branchTargets.find? fun target => (indexOf? body target).isNone).map
      (.danglingTarget i.offset)).or
    (((regions.flatMap Region.boundaries).find? fun boundary =>
      (indexOf? body boundary).isNone && boundary != stop).map .danglingBoundary)

end Entries

/-- A search that reports the first item to fail a test finds it and then reports it. -/
theorem findSome?_ite_eq {α β : Type} (items : List α) (test : α → Bool) (report : α → β) :
    (items.findSome? fun a => if test a then some (report a) else none) =
      (items.find? test).map report := by
  induction items with
  | nil => rfl
  | cons a items ih =>
    rw [List.findSome?_cons, List.find?_cons]
    cases test a with
    | true => rfl
    | false => exact ih

section Collecting

variable (body : Array Instruction) (leaders : Leaders)

/-- A target is checked and entered. -/
theorem addTarget_eq (source target : Offset) :
    addTarget body source leaders target =
      Outcome.checked (targetFault? body source target)
        ((placeEntry body target).foldl put leaders) := by
  unfold addTarget targetFault? placeEntry
  cases indexOf? body target with
  | none => rfl
  | some place => rfl

/-- The targets of an instruction are checked, and its entries are made. -/
theorem addInstruction_eq (item : Instruction × Nat) :
    addInstruction body leaders item =
      Outcome.checked (item.1.branchTargets.findSome? (targetFault? body item.1.offset))
        ((instructionEntries body item).foldl put leaders) := by
  obtain ⟨i, place⟩ := item
  have htargets := Outcome.foldlM_checked (fun leaders => addTarget_eq body leaders i.offset)
    i.branchTargets leaders
  rw [addInstruction, htargets, instructionEntries, List.foldl_append]
  cases i.branchTargets.findSome? (targetFault? body i.offset) with
  | some e => rfl
  | none =>
    by_cases hends : (i.flowKind != .fallthrough && place + 1 < body.size) = true
    · simp only [hends, if_true]
      rfl
    · simp only [hends]
      rfl

/-- A boundary is checked, and entered if it is not the end of the body. -/
theorem addBoundary_eq (stop boundary : Offset) :
    addBoundary body stop leaders boundary =
      Outcome.checked (boundaryFault? body stop boundary)
        ((placeEntry body boundary).foldl put leaders) := by
  unfold addBoundary boundaryFault? placeEntry
  cases indexOf? body boundary with
  | some place => rfl
  | none => by_cases hstop : boundary = stop <;> simp [hstop, Outcome.checked]

/-- An entry point is entered. -/
theorem addEntry_eq (entry : Offset × Nat) :
    addEntry body leaders entry = (depthEntry body entry).foldl put leaders := by
  obtain ⟨offset, depth⟩ := entry
  rw [addEntry, depthEntry]
  cases indexOf? body offset with
  | none => rfl
  | some place => rfl

/-- The boundaries of a region are checked, and its entries are made. -/
theorem addRegion_eq (stop : Offset) (region : Region) :
    addRegion body stop leaders region =
      Outcome.checked (region.boundaries.findSome? (boundaryFault? body stop))
        ((regionEntries body region).foldl put leaders) := by
  have hboundaries := Outcome.foldlM_checked (fun leaders => addBoundary_eq body leaders stop)
    region.boundaries leaders
  have hpoints : ∀ leaders, region.entryPoints.foldl (addEntry body) leaders =
      (region.entryPoints.flatMap (depthEntry body)).foldl put leaders := by
    intro leaders
    rw [List.foldl_flatMap]
    congr
    funext leaders entry
    exact addEntry_eq body leaders entry
  simp only [addRegion, hboundaries, hpoints, regionEntries, List.foldl_append]
  cases region.boundaries.findSome? (boundaryFault? body stop) with
  | some e => rfl
  | none => rfl

/-- Collecting leaders fails with the first fault of the body and its regions, or else makes all their
entries. -/
theorem collect_eq (stop : Offset) (regions : List Region) :
    collect body stop regions =
      Outcome.checked (fault? body stop regions) (collected body regions) := by
  have hinstructions := Outcome.foldlM_checked (addInstruction_eq body) body.toList.zipIdx
    (.singleton 0 none)
  have htargets : (body.toList.zipIdx.findSome? fun item =>
      item.1.branchTargets.findSome? (targetFault? body item.1.offset)) =
        body.toList.findSome? fun i =>
          (i.branchTargets.find? fun target => (indexOf? body target).isNone).map
            (.danglingTarget i.offset) := by
    conv_rhs => rw [← List.zipIdx_map_fst 0 body.toList, List.findSome?_map]
    congr
    funext item
    exact findSome?_ite_eq _ _ _
  have hboundaries : (regions.findSome? fun region =>
      region.boundaries.findSome? (boundaryFault? body stop)) =
        ((regions.flatMap Region.boundaries).find? fun boundary =>
          (indexOf? body boundary).isNone && boundary != stop).map .danglingBoundary := by
    rw [List.find?_flatMap, List.map_findSome?]
    congr
    funext region
    exact findSome?_ite_eq _ _ _
  have hregions := fun leaders : Leaders =>
    Outcome.foldlM_checked (fun leaders => addRegion_eq body leaders stop) regions leaders
  simp only [collect, hinstructions, hregions, htargets, hboundaries, Outcome.checked_bind_checked,
    fault?, collected, allEntries, List.foldl_append]

end Collecting

section Put

/-- The value at a place after an entry. -/
theorem get?_put (leaders : Leaders) (entry : Nat × Option Nat) (place : Nat) :
    (leaders.put entry).get? place =
      if place = entry.1 then some (entry.2.or (leaders.depthAt place)) else leaders.get? place := by
  obtain ⟨key, depth⟩ := entry
  cases depth with
  | none =>
    rw [put, get?_insertNew]
    by_cases hplace : place = key
    · subst hplace
      cases hvalue : leaders.get? place <;> simp [depthAt, hvalue]
    · simp [hplace]
  | some depth => rw [put, get?_insert, Option.some_or]

/-- An entry adds its place. -/
theorem has_put_iff (leaders : Leaders) (entry : Nat × Option Nat) (place : Nat) :
    (leaders.put entry).Has place ↔ leaders.Has place ∨ entry.1 = place := by
  unfold Has
  rw [get?_put]
  by_cases hplace : place = entry.1
  · simp [hplace]
  · simp [hplace, Ne.symm hplace]

/-- An entry with a depth writes it. -/
theorem depthAt_put (leaders : Leaders) (entry : Nat × Option Nat) (place : Nat) :
    (leaders.put entry).depthAt place =
      (if entry.1 = place then entry.2 else none).or (leaders.depthAt place) := by
  conv_lhs => rw [depthAt, get?_put]
  by_cases hplace : place = entry.1
  · simp [hplace]
  · simp [hplace, Ne.symm hplace, depthAt]

/-- The places after a run of entries are those from before and those of the entries. -/
theorem has_foldl_put_iff (entries : List (Nat × Option Nat)) (leaders : Leaders) (place : Nat) :
    (entries.foldl put leaders).Has place ↔ leaders.Has place ∨ ∃ entry ∈ entries, entry.1 = place := by
  induction entries generalizing leaders with
  | nil => simp
  | cons entry entries ih =>
    rw [List.foldl_cons, ih, has_put_iff, or_assoc]
    simp

/-- The depths that a run of entries writes at a place. -/
def depthsAt (place : Nat) (entries : List (Nat × Option Nat)) : List Nat :=
  entries.filterMap fun entry => if entry.1 = place then entry.2 else none

/-- Two runs write one after the other. -/
theorem depthsAt_append (place : Nat) (entries later : List (Nat × Option Nat)) :
    depthsAt place (entries ++ later) = depthsAt place entries ++ depthsAt place later :=
  List.filterMap_append

/-- Entries without depths write none. -/
theorem depthsAt_eq_nil {entries : List (Nat × Option Nat)} (h : ∀ entry ∈ entries, entry.2 = none)
    (place : Nat) : depthsAt place entries = [] := by
  rw [depthsAt, List.filterMap_eq_nil_iff]
  intro entry hentry
  rw [h entry hentry, ite_self]

/-- The depth of a place after a run of entries is the last one written there. -/
theorem depthAt_foldl_put (entries : List (Nat × Option Nat)) (leaders : Leaders) (place : Nat) :
    (entries.foldl put leaders).depthAt place =
      (depthsAt place entries).getLast?.or (leaders.depthAt place) := by
  induction entries using List.reverseRecOn with
  | nil => rfl
  | append_singleton entries entry ih =>
    have hlast : (depthsAt place [entry]).getLast? = if entry.1 = place then entry.2 else none := by
      rw [depthsAt, List.filterMap_cons, List.filterMap_nil]
      cases (if entry.1 = place then entry.2 else none) <;> rfl
    rw [List.foldl_append, List.foldl_cons, List.foldl_nil, depthAt_put, ih, depthsAt_append,
      List.getLast?_append, hlast, Option.or_assoc]

/-- Two entries that do not write different depths to one place may be made in either order. -/
theorem put_comm (leaders : Leaders) {a b : Nat × Option Nat}
    (h : a.1 = b.1 → ∀ depth ∈ a.2, ∀ depth' ∈ b.2, depth = depth') :
    (leaders.put a).put b = (leaders.put b).put a := by
  apply ext_get?
  intro place
  simp only [get?_put, depthAt_put]
  by_cases ha : place = a.1
  · by_cases hb : place = b.1
    · have hdepths : ∀ old : Option Nat, b.2.or (a.2.or old) = a.2.or (b.2.or old) := by
        intro old
        specialize h (ha.symm.trans hb)
        cases hd : a.2 with
        | none => simp
        | some depth =>
          cases he : b.2 with
          | none => simp
          | some depth' => simp [h depth hd depth' he]
      simp only [← ha, ← hb, if_true, hdepths]
    · simp only [if_pos ha, if_neg hb, if_neg (Ne.symm hb), Option.none_or]
  · simp only [if_neg ha, if_neg (Ne.symm ha), Option.none_or]

/-- Entries that write no place twice with different depths may be made in any order. -/
theorem foldl_put_perm {entries others : List (Nat × Option Nat)} (hperm : entries.Perm others)
    (hagree : ∀ a ∈ entries, ∀ b ∈ entries, a.1 = b.1 → ∀ depth ∈ a.2, ∀ depth' ∈ b.2, depth = depth')
    (leaders : Leaders) : entries.foldl put leaders = others.foldl put leaders :=
  hperm.foldl_eq' (fun a ha b hb leaders => put_comm leaders (hagree a ha b hb)) leaders

end Put

section Collected

variable {body : Array Instruction} {regions : List Region}

/-- The entry for an offset that starts a block is at its place and has no depth. -/
theorem mem_placeEntry_iff (offset : Offset) (entry : Nat × Option Nat) :
    entry ∈ placeEntry body offset ↔ indexOf? body offset = some entry.1 ∧ entry.2 = none := by
  unfold placeEntry
  cases indexOf? body offset with
  | none => simp
  | some place => simp [Prod.ext_iff, eq_comm]

/-- The entry for an offset that the runtime enters is at its place and has its depth. -/
theorem mem_depthEntry_iff (point : Offset × Nat) (entry : Nat × Option Nat) :
    entry ∈ depthEntry body point ↔
      indexOf? body point.1 = some entry.1 ∧ entry.2 = some point.2 := by
  unfold depthEntry
  cases indexOf? body point.1 with
  | none => simp
  | some place => simp [Prod.ext_iff, eq_comm]

/-- The entries for an instruction are at the places of its targets, and behind it if it does not simply
go on; none has a depth. -/
theorem mem_instructionEntries_iff (item : Instruction × Nat) (entry : Nat × Option Nat) :
    entry ∈ instructionEntries body item ↔ entry.2 = none ∧
      ((∃ t ∈ item.1.branchTargets, indexOf? body t = some entry.1) ∨
        item.1.flowKind ≠ .fallthrough ∧ entry.1 = item.2 + 1 ∧ entry.1 < body.size) := by
  have hnext : entry ∈ (if item.1.flowKind != .fallthrough && item.2 + 1 < body.size
      then [(item.2 + 1, none)] else []) ↔
        entry.2 = none ∧ item.1.flowKind ≠ .fallthrough ∧ entry.1 = item.2 + 1 ∧
          entry.1 < body.size := by
    by_cases hends : item.1.flowKind ≠ .fallthrough ∧ item.2 + 1 < body.size
    · rw [if_pos (by simpa using hends), List.mem_singleton, Prod.ext_iff]
      constructor
      · rintro ⟨hplace, hdepth⟩
        exact ⟨hdepth, hends.1, hplace, hplace ▸ hends.2⟩
      · rintro ⟨hdepth, -, hplace, -⟩
        exact ⟨hplace, hdepth⟩
    · rw [if_neg (by simpa using hends)]
      refine iff_of_false List.not_mem_nil ?_
      rintro ⟨-, hkind, hplace, hsize⟩
      exact hends ⟨hkind, hplace ▸ hsize⟩
  rw [instructionEntries, List.mem_append, hnext, List.mem_flatMap]
  simp only [mem_placeEntry_iff]
  constructor
  · rintro (⟨t, ht, hplace, hdepth⟩ | ⟨hdepth, hbehind⟩)
    · exact ⟨hdepth, .inl ⟨t, ht, hplace⟩⟩
    · exact ⟨hdepth, .inr hbehind⟩
  · rintro ⟨hdepth, ⟨t, ht, hplace⟩ | hbehind⟩
    · exact .inl ⟨t, ht, hplace, hdepth⟩
    · exact .inr ⟨hdepth, hbehind⟩

/-- The entries for a region are at the places of its boundaries, without a depth, and at those of its
entry points. -/
theorem mem_regionEntries_iff (region : Region) (entry : Nat × Option Nat) :
    entry ∈ regionEntries body region ↔
      (∃ boundary ∈ region.boundaries, indexOf? body boundary = some entry.1 ∧ entry.2 = none) ∨
        ∃ point ∈ region.entryPoints, indexOf? body point.1 = some entry.1 ∧ entry.2 = some point.2 := by
  simp only [regionEntries, List.mem_append, List.mem_flatMap, mem_placeEntry_iff, mem_depthEntry_iff]

/-- Every entry is for a place of the body. -/
theorem lt_size_of_mem_allEntries {entry : Nat × Option Nat} (h : entry ∈ allEntries body regions) :
    entry.1 < body.size := by
  have hfound : ∀ {offset}, indexOf? body offset = some entry.1 → entry.1 < body.size :=
    fun hplace => (Search.of_bisect_eq_some hplace).1
  rcases List.mem_append.mp h with hcode | hregions
  · obtain ⟨item, -, hitem⟩ := List.mem_flatMap.mp hcode
    obtain ⟨-, ⟨t, -, hplace⟩ | ⟨-, -, hsize⟩⟩ := (mem_instructionEntries_iff item entry).mp hitem
    · exact hfound hplace
    · exact hsize
  · obtain ⟨region, -, hregion⟩ := List.mem_flatMap.mp hregions
    rcases (mem_regionEntries_iff region entry).mp hregion with ⟨b, -, hplace, -⟩ | ⟨e, -, hplace, -⟩
    · exact hfound hplace
    · exact hfound hplace

/-- An entry point writes its depth at its place. -/
theorem depthsAt_depthEntry (point : Offset × Nat) (place : Nat) :
    depthsAt place (depthEntry body point) =
      if indexOf? body point.1 == some place then [point.2] else [] := by
  unfold depthEntry
  cases indexOf? body point.1 with
  | none => rfl
  | some found => by_cases hfound : found = place <;> simp [depthsAt, hfound]

/-- A region writes the depths of its entry points, in their order. -/
theorem depthsAt_regionEntries (region : Region) (place : Nat) :
    depthsAt place (regionEntries body region) =
      (region.entryPoints.filter fun point => indexOf? body point.1 == some place).map Prod.snd := by
  have hboundaries : ∀ entry ∈ region.boundaries.flatMap (placeEntry body), entry.2 = none := by
    intro entry hentry
    obtain ⟨boundary, -, hplace⟩ := List.mem_flatMap.mp hentry
    exact ((mem_placeEntry_iff boundary entry).mp hplace).2
  rw [regionEntries, depthsAt_append, depthsAt_eq_nil hboundaries, List.nil_append]
  induction region.entryPoints with
  | nil => rfl
  | cons point points ih =>
    rw [List.flatMap_cons, depthsAt_append, depthsAt_depthEntry, ih, List.filter_cons]
    split <;> rfl

/-- The depths that are written at a place are those of the entry points there, in the order of the
regions. -/
theorem depthsAt_allEntries (body : Array Instruction) (regions : List Region) (place : Nat) :
    depthsAt place (allEntries body regions) =
      ((regions.flatMap Region.entryPoints).filter fun point =>
        indexOf? body point.1 == some place).map Prod.snd := by
  have hcode : ∀ entry ∈ body.toList.zipIdx.flatMap (instructionEntries body), entry.2 = none := by
    intro entry hentry
    obtain ⟨item, -, hitem⟩ := List.mem_flatMap.mp hentry
    exact ((mem_instructionEntries_iff item entry).mp hitem).1
  rw [allEntries, depthsAt_append, depthsAt_eq_nil hcode, List.nil_append]
  induction regions with
  | nil => rfl
  | cons region regions ih =>
    rw [List.flatMap_cons, depthsAt_append, depthsAt_regionEntries, ih, List.flatMap_cons,
      List.filter_append, List.map_append]

end Collected

end Leaders

end Graph

end Unstack
