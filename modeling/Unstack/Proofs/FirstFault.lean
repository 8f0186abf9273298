import Unstack.Proofs.Construction

/-!
# Building names the first fault

A body can have many faults of shape: branches that lead nowhere, and regions with ends that are no
places of the body. Building a graph reports one of them, and which one is decided by the order in which
a reader would come to them. A body without instructions has no other fault. Branches come before
regions; of the branches the first in the program counts, and of its targets the first in its table;
of the regions the first, and of its boundaries the first in the order in which a region lists them. A
body without any of these faults has a graph.
-/

namespace Unstack

section FirstAt

variable {α β γ : Type}

/-- Item `n` of list `m` is the first item with the property, the lists taken in order and each of them
from its start. -/
structure FirstAt (P : α → Prop) (lists : List (List α)) (m n : Nat) (a : α) : Prop where
  item : ∃ list, lists[m]? = some list ∧ list[n]? = some a
  holds : P a
  earlier : ∀ m' n' list b, lists[m']? = some list → list[n']? = some b →
    m' < m ∨ m' = m ∧ n' < n → ¬P b

/-- The first item is in the first list if none of the items before it there has the property. -/
theorem firstAt_zero_iff (P : α → Prop) (first : List α) (rest : List (List α)) (n : Nat) (a : α) :
    FirstAt P (first :: rest) 0 n a ↔
      first[n]? = some a ∧ P a ∧ ∀ n' < n, ∀ b, first[n']? = some b → ¬P b := by
  constructor
  · intro h
    obtain ⟨list, hlist, hitem⟩ := h.item
    obtain rfl : first = list := by simpa using hlist
    exact ⟨hitem, h.holds, fun n' hn' b hb => h.earlier 0 n' first b rfl hb (.inr ⟨rfl, hn'⟩)⟩
  · rintro ⟨hitem, hholds, hearlier⟩
    refine ⟨⟨first, rfl, hitem⟩, hholds, fun m' n' list b hlist hb hbefore => ?_⟩
    rcases hbefore with hlt | ⟨rfl, hlt⟩
    · exact absurd hlt (Nat.not_lt_zero m')
    · obtain rfl : first = list := by simpa using hlist
      exact hearlier n' hlt b hb

/-- The first item is in a later list if none in the first list has the property. -/
theorem firstAt_succ_iff (P : α → Prop) (first : List α) (rest : List (List α)) (m n : Nat) (a : α) :
    FirstAt P (first :: rest) (m + 1) n a ↔ (∀ b ∈ first, ¬P b) ∧ FirstAt P rest m n a := by
  constructor
  · intro h
    refine ⟨fun b hb => ?_, h.item, h.holds, fun m' n' list b hlist hb hbefore => ?_⟩
    · obtain ⟨n', hn'⟩ := List.getElem?_of_mem hb
      exact h.earlier 0 n' first b rfl hn' (.inl (Nat.succ_pos m))
    · exact h.earlier (m' + 1) n' list b hlist hb (by omega)
  · rintro ⟨hfirst, h⟩
    refine ⟨h.item, h.holds, fun m' n' list b hlist hb hbefore => ?_⟩
    cases m' with
    | zero =>
      obtain rfl : first = list := by simpa using hlist
      exact hfirst b (List.mem_of_getElem? hb)
    | succ m' => exact h.earlier m' n' list b hlist hb (by omega)

/-- A search through the first list finds the first item if it is there. -/
theorem find?_eq_some_iff_firstAt (test : α → Bool) (first : List α) (rest : List (List α)) (a : α) :
    first.find? test = some a ↔ ∃ n, FirstAt (test · = true) (first :: rest) 0 n a := by
  simp only [firstAt_zero_iff, List.find?_eq_some_iff_getElem]
  constructor
  · rintro ⟨htest, n, hn, rfl, hearlier⟩
    refine ⟨n, List.getElem?_eq_getElem hn, htest, fun n' hn' b hb => ?_⟩
    obtain ⟨_, rfl⟩ := List.getElem?_eq_some_iff.mp hb
    simpa using hearlier n' hn'
  · rintro ⟨n, hitem, htest, hearlier⟩
    obtain ⟨hn, rfl⟩ := List.getElem?_eq_some_iff.mp hitem
    refine ⟨htest, n, hn, rfl, fun n' hn' => ?_⟩
    simpa using hearlier n' hn' _ (List.getElem?_eq_getElem (Nat.lt_trans hn' hn))

/-- A search through the entries of each item in turn finds the first entry that passes the test, and
reports it with its item. -/
theorem findSome?_find?_eq_some_iff (items : List α) (entries : α → List β) (test : β → Bool)
    (report : α → β → γ) (c : γ) :
    (items.findSome? fun a => ((entries a).find? test).map (report a)) = some c ↔
      ∃ m n a b, items[m]? = some a ∧ FirstAt (test · = true) (items.map entries) m n b ∧
        report a b = c := by
  induction items with
  | nil => simp
  | cons a items ih =>
    rw [List.findSome?_cons, List.map_cons]
    constructor
    · intro h
      cases hfind : (entries a).find? test with
      | some b =>
        rw [hfind] at h
        obtain ⟨n, hfirst⟩ := (find?_eq_some_iff_firstAt test _ (items.map entries) b).mp hfind
        exact ⟨0, n, a, b, rfl, hfirst, Option.some.inj h⟩
      | none =>
        rw [hfind] at h
        obtain ⟨m, n, other, b, hitem, hfirst, hreport⟩ := ih.mp h
        have hnone := List.find?_eq_none.mp hfind
        exact ⟨m + 1, n, other, b, hitem, (firstAt_succ_iff _ _ _ m n b).mpr ⟨hnone, hfirst⟩, hreport⟩
    · rintro ⟨m, n, other, b, hitem, hfirst, rfl⟩
      cases m with
      | zero =>
        obtain rfl : a = other := by simpa using hitem
        rw [(find?_eq_some_iff_firstAt test _ (items.map entries) b).mpr ⟨n, hfirst⟩]
        rfl
      | succ m =>
        obtain ⟨hnone, hfirst⟩ := (firstAt_succ_iff _ _ _ m n b).mp hfirst
        rw [List.find?_eq_none.mpr hnone]
        exact ih.mpr ⟨m, n, other, b, hitem, hfirst, rfl⟩

/-- Such a search that does not report the item finds the first entry that passes the test. -/
theorem findSome?_find?_eq_some_iff_firstAt (items : List α) (entries : α → List β) (test : β → Bool)
    (report : β → γ) (c : γ) :
    (items.findSome? fun a => ((entries a).find? test).map report) = some c ↔
      ∃ m n b, FirstAt (test · = true) (items.map entries) m n b ∧ report b = c := by
  rw [findSome?_find?_eq_some_iff items entries test (fun _ => report)]
  constructor
  · rintro ⟨m, n, a, b, -, hfirst, hreport⟩
    exact ⟨m, n, b, hfirst, hreport⟩
  · rintro ⟨m, n, b, hfirst, hreport⟩
    obtain ⟨list, hlist, -⟩ := hfirst.item
    rw [List.getElem?_map] at hlist
    obtain ⟨a, ha, -⟩ := Option.map_eq_some_iff.mp hlist
    exact ⟨m, n, a, b, ha, hfirst, hreport⟩

end FirstAt

namespace Graph

variable {body : List Instruction} {regions : List Region}

/-- No instruction of the body starts at the offset. -/
def Stray (body : List Instruction) (offset : Offset) : Prop := ∀ i ∈ body, i.offset ≠ offset

/-- What building makes of a body: every fault that it can report, and when it reports it. -/
structure NamesFirstFault (body : List Instruction) (regions : List Region) : Prop where
  /-- A body is refused for want of instructions exactly if it has none. -/
  empty : build body regions = .error .emptyMethod ↔ body = []
  /-- It is refused for a branch exactly if some target is no start of an instruction, -/
  branches : (∃ source target, build body regions = .error (.danglingTarget source target)) ↔
    ∃ branch ∈ body, ∃ t ∈ branch.branchTargets, Stray body t
  /-- and the branch and the target are those of the first such target. -/
  branch : ∀ source target, build body regions = .error (.danglingTarget source target) ↔
    ∃ m n i, body[m]? = some i ∧ i.offset = source ∧
      FirstAt (Stray body) (body.map Instruction.branchTargets) m n target
  /-- Otherwise it is refused for a region exactly if some boundary dangles, -/
  boundaries : (∃ offset, build body regions = .error (.danglingBoundary offset)) ↔
    body ≠ [] ∧ (∀ branch ∈ body, ∀ t ∈ branch.branchTargets, ¬Stray body t) ∧
      ∃ region ∈ regions, ∃ boundary ∈ region.boundaries, Dangles body boundary
  /-- and the boundary is the first such one. -/
  boundary : ∀ offset, build body regions = .error (.danglingBoundary offset) ↔
    body ≠ [] ∧ (∀ branch ∈ body, ∀ t ∈ branch.branchTargets, ¬Stray body t) ∧
      ∃ m n, FirstAt (Dangles body) (regions.map Region.boundaries) m n offset
  /-- A body with none of these faults has a graph. -/
  accepted : (∃ g, build body regions = .ok g) ↔
    body ≠ [] ∧ (∀ branch ∈ body, ∀ t ∈ branch.branchTargets, ¬Stray body t) ∧
      ∀ region ∈ regions, ∀ boundary ∈ region.boundaries, ¬Dangles body boundary

/-- The test for a target that leads nowhere. -/
theorem not_isStart_iff (body : List Instruction) (offset : Offset) :
    (!isStart body offset) = true ↔ Stray body offset := by
  rw [Bool.not_eq_true', isStart_eq_false_iff, Stray]

/-- The search for a branch that dangles finds the first target that leads nowhere. -/
theorem danglingTarget?_eq_some_iff_firstAt (body : List Instruction) (source target : Offset) :
    danglingTarget? body = some (source, target) ↔
      ∃ m n i, body[m]? = some i ∧ i.offset = source ∧
        FirstAt (Stray body) (body.map Instruction.branchTargets) m n target := by
  unfold danglingTarget?
  rw [findSome?_find?_eq_some_iff body Instruction.branchTargets _ (fun i t => (i.offset, t))]
  simp only [not_isStart_iff, Prod.mk.injEq]
  constructor
  · rintro ⟨m, n, i, t, hi, hfirst, hsource, rfl⟩
    exact ⟨m, n, i, hi, hsource, hfirst⟩
  · rintro ⟨m, n, i, hi, hsource, hfirst⟩
    exact ⟨m, n, i, target, hi, hfirst, hsource, rfl⟩

/-- The search for a boundary that dangles finds the first one. -/
theorem danglingBoundary?_eq_some_iff_firstAt (body : List Instruction) (regions : List Region)
    (offset : Offset) :
    danglingBoundary? body regions = some offset ↔
      ∃ m n, FirstAt (Dangles body) (regions.map Region.boundaries) m n offset := by
  have hsearch := findSome?_find?_eq_some_iff_firstAt regions Region.boundaries
    (fun boundary => !(isStart body boundary || endOfBody? body == some boundary)) id offset
  simp only [Option.map_id_fun, id_eq, not_start_or_end_iff, exists_eq_right] at hsearch
  unfold danglingBoundary?
  rw [List.find?_flatMap, hsearch]

/-- No branch is found exactly if no target leads nowhere. -/
theorem danglingTarget?_eq_none_iff_stray (body : List Instruction) :
    danglingTarget? body = none ↔ ∀ branch ∈ body, ∀ t ∈ branch.branchTargets, ¬Stray body t := by
  rw [danglingTarget?_eq_none_iff]
  simp only [← not_isStart_iff, Bool.not_eq_true', Bool.not_eq_false]

/-- A body is refused for a branch exactly if the search finds it. -/
theorem build_eq_danglingTarget_iff (hinc : Increasing body) (regions : List Region)
    (source target : Offset) :
    build body regions = .error (.danglingTarget source target) ↔
      danglingTarget? body = some (source, target) := by
  rw [build_eq_error_iff hinc]
  cases body with
  | nil => simp [danglingTarget?]
  | cons i rest => simp

/-- A body is refused for a boundary exactly if it has instructions, no branch is found, and the search
finds the boundary. -/
theorem build_eq_danglingBoundary_iff (hinc : Increasing body) (regions : List Region)
    (offset : Offset) :
    build body regions = .error (.danglingBoundary offset) ↔
      body ≠ [] ∧ danglingTarget? body = none ∧ danglingBoundary? body regions = some offset := by
  rw [build_eq_error_iff hinc]
  simp

/-- With increasing offsets, whatever the regions, building a graph reports the first fault that there
is, and succeeds if there is none. -/
theorem build_namesFirstFault (hinc : Increasing body) (regions : List Region) :
    NamesFirstFault body regions where
  empty := by
    rw [build_eq_error_iff hinc]
    simp
  branches := by
    have hfound : (∃ source target, danglingTarget? body = some (source, target)) ↔
        danglingTarget? body ≠ none := by
      rw [Option.ne_none_iff_exists', Prod.exists]
    simp only [build_eq_danglingTarget_iff hinc, hfound, Ne, danglingTarget?_eq_none_iff_stray]
    simp
  branch source target := by
    rw [build_eq_danglingTarget_iff hinc, danglingTarget?_eq_some_iff_firstAt]
  boundaries := by
    simp only [build_eq_danglingBoundary_iff hinc, exists_and_left, danglingTarget?_eq_none_iff_stray,
      ← Option.ne_none_iff_exists', Ne, danglingBoundary?_eq_none_iff]
    simp
  boundary offset := by
    rw [build_eq_danglingBoundary_iff hinc, danglingTarget?_eq_none_iff_stray,
      danglingBoundary?_eq_some_iff_firstAt]
  accepted := by
    simp only [build_eq_ok_iff hinc, exists_and_left, exists_eq, and_true]
    rw [← danglingTarget?_eq_none_iff, danglingTarget?_eq_none_iff_stray]

/-- A switch with two targets that lead nowhere, behind it a branch with one, and a return. -/
def strayBranches : List Instruction :=
  [⟨0, ⟨"ldc.i4.0", 0x16, .next, .pop0, .push1, .inlineNone⟩, .none⟩,
    ⟨1, ⟨"switch", 0x45, .condBranch, .pop1, .push0, .inlineSwitch⟩, .targets [16, 40, 30]⟩,
    ⟨18, ⟨"br.s", 0x2B, .branch, .pop0, .push0, .shortInlineBrTarget⟩, .target 19⟩,
    ⟨20, ⟨"ret", 0x2A, .ret, .varPop, .push0, .inlineNone⟩, .none⟩]

/-- Regions with three boundaries that are no places of the guarded loop, the first in the second
region. -/
def strayRegions : List Region :=
  [{ kind := .finalizes, tryStart := 0, tryEnd := 5, handlerStart := 5, handlerEnd := 11 },
    { kind := .catches, tryStart := 0, tryEnd := 2, handlerStart := 4, handlerEnd := 8 },
    { kind := .catches, tryStart := 7, tryEnd := 8, handlerStart := 8, handlerEnd := 9 }]

/-- Of three targets that lead nowhere the first is named, with the switch that has it, whatever the
regions. Where all targets are right, the first boundary that dangles is named; the end of the body does
not dangle. -/
theorem strayBranches_namesFirstFault :
    (Increasing strayBranches ∧ NamesFirstFault strayBranches strayRegions ∧
        build strayBranches strayRegions = .error (.danglingTarget 1 16)) ∧
      Increasing guardedLoop ∧ NamesFirstFault guardedLoop strayRegions ∧
        build guardedLoop strayRegions = .error (.danglingBoundary 2) := by
  have hstray : Increasing strayBranches := by decide
  have hloop := guardedLoop_wellFormed.increasing
  refine ⟨⟨hstray, build_namesFirstFault hstray strayRegions, ?_⟩, hloop,
    build_namesFirstFault hloop strayRegions, ?_⟩
  · rw [build_eq_checked hstray]
    rfl
  · rw [build_eq_checked hloop]
    rfl

end Graph

end Unstack
