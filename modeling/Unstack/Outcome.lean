/-!
# Computations that may fail

When a sequence of steps succeeds: each step does, on what the steps before it gave. When it fails,
it fails as one of its steps does.
-/

namespace Unstack.Outcome

variable {ε α β γ : Type}

/-- A step and what follows it succeed exactly if the step succeeds and the rest does on its
result. -/
theorem bind_eq_ok_iff (first : Except ε α) (next : α → Except ε β) (b : β) :
    first >>= next = .ok b ↔ ∃ a, first = .ok a ∧ next a = .ok b := by
  cases first with
  | error e => simp [bind, Except.bind]
  | ok a => simp [bind, Except.bind]

/-- What makes something of a result succeeds exactly if there is a result. -/
theorem map_eq_ok_iff (result : Except ε α) (make : α → β) (b : β) :
    result.map make = .ok b ↔ ∃ a, result = .ok a ∧ make a = b := by
  cases result with
  | error e => simp [Except.map]
  | ok a => simp [Except.map]

/-- A step on each item of a list succeeds exactly if every one of them does. -/
theorem mapM_eq_ok_iff (step : α → Except ε β) (items : List α) (results : List β) :
    items.mapM step = .ok results ↔ items.map step = results.map Except.ok := by
  induction items generalizing results with
  | nil =>
    cases results with
    | nil => simp [pure, Except.pure]
    | cons b rest => simp [pure, Except.pure]
  | cons a items ih =>
    rw [List.mapM_cons, bind_eq_ok_iff]
    cases results with
    | nil =>
      simp only [bind_eq_ok_iff, List.map_cons, List.map_nil, reduceCtorEq, iff_false]
      rintro ⟨b, -, rest, -, h⟩
      cases h
    | cons b rest =>
      simp only [bind_eq_ok_iff, List.map_cons, List.cons.injEq]
      constructor
      · rintro ⟨b', hb, rest', hrest, h⟩
        cases h
        exact ⟨hb, (ih rest).mp hrest⟩
      · rintro ⟨hb, hrest⟩
        exact ⟨b, hb, rest, (ih rest).mpr hrest, rfl⟩

/-- A step on each item of a list gives as many results as there are items. -/
theorem length_of_mapM {step : α → Except ε β} {items : List α} {results : List β}
    (h : items.mapM step = .ok results) : results.length = items.length := by
  have hlength := congrArg List.length ((mapM_eq_ok_iff step items results).mp h)
  simpa using hlength.symm

/-- What each step keeps of its item, the results keep of the list. -/
theorem map_eq_of_mapM {step : α → Except ε β} {items : List α} {results : List β}
    (h : items.mapM step = .ok results) (before : α → γ) (after : β → γ)
    (hkeeps : ∀ a ∈ items, ∀ b, step a = .ok b → after b = before a) :
    results.map after = items.map before := by
  rw [mapM_eq_ok_iff] at h
  induction items generalizing results with
  | nil =>
    obtain rfl : results = [] := by simpa using h.symm
    rfl
  | cons a items ih =>
    cases results with
    | nil => simp at h
    | cons b results =>
      obtain ⟨hstep, hrest⟩ := List.cons.inj h
      rw [List.forall_mem_cons] at hkeeps
      rw [List.map_cons, List.map_cons, hkeeps.1 b hstep, ih hrest hkeeps.2]

/-- Steps that agree on the items of a list agree on the list. -/
theorem mapM_congr {step other : α → Except ε β} {items : List α}
    (h : ∀ a ∈ items, step a = other a) : items.mapM step = items.mapM other := by
  induction items with
  | nil => rfl
  | cons a items ih =>
    rw [List.forall_mem_cons] at h
    rw [List.mapM_cons, List.mapM_cons, h.1, ih h.2]

/-- Whatever fault there is, it has the property. -/
def FaultsWith (P : ε → Prop) (result : Except ε α) : Prop := ∀ e, result = .error e → P e

/-- A result is no fault. -/
theorem faultsWith_ok (P : ε → Prop) (a : α) : FaultsWith P (.ok a) := by
  intro e h
  cases h

/-- A fault is its own and only fault. -/
theorem faultsWith_error {P : ε → Prop} {e : ε} (h : P e) :
    FaultsWith P (.error e : Except ε α) := by
  intro e' h'
  cases h'
  exact h

/-- A step and what follows it fail as one of the two does. -/
theorem FaultsWith.bind {P : ε → Prop} {first : Except ε α} {next : α → Except ε β}
    (hfirst : FaultsWith P first) (hnext : ∀ a, FaultsWith P (next a)) :
    FaultsWith P (first >>= next) := by
  intro e h
  cases first with
  | error e' =>
    cases h
    exact hfirst e rfl
  | ok a => exact hnext a e h

/-- A step on each item of a list fails as it does on one of them. -/
theorem faultsWith_mapM {P : ε → Prop} {step : α → Except ε β}
    (hstep : ∀ a, FaultsWith P (step a)) (items : List α) : FaultsWith P (items.mapM step) := by
  induction items with
  | nil => exact faultsWith_ok P []
  | cons a items ih =>
    rw [List.mapM_cons]
    exact (hstep a).bind fun b => ih.bind fun rest => faultsWith_ok P (b :: rest)

/-- The fault of a computation, if it fails. -/
def fault? : Except ε α → Option ε
  | .error e => some e
  | .ok _ => none

/-- A computation has the fault with which it fails. -/
theorem fault?_eq_some_iff (result : Except ε α) (e : ε) :
    fault? result = some e ↔ result = .error e := by
  cases result with
  | error e' => simp [fault?]
  | ok a => simp [fault?]

/-- A computation has no fault if it gives a result. -/
theorem fault?_eq_none_iff (result : Except ε α) : fault? result = none ↔ ∃ a, result = .ok a := by
  cases result with
  | error e => simp [fault?]
  | ok a => simp [fault?]

/-- What only makes something of the result keeps the fault. -/
theorem fault?_bind_pure (first : Except ε α) (make : α → β) :
    fault? (first >>= fun a => pure (make a)) = fault? first := by
  cases first with
  | error e => rfl
  | ok a => rfl

/-- A step and what follows it have the fault of the step, or else the fault of what follows, if that
does not depend on the result of the step. -/
theorem fault?_bind_of_fixed (first : Except ε α) (next : α → Except ε β) {later : Option ε}
    (h : ∀ a, fault? (next a) = later) : fault? (first >>= next) = (fault? first).or later := by
  cases first with
  | error e => rfl
  | ok a => exact h a

/-- A step on each item of a list has the fault of the first item on which it fails. -/
theorem fault?_mapM (step : α → Except ε β) (items : List α) :
    fault? (items.mapM step) = items.findSome? fun a => fault? (step a) := by
  induction items with
  | nil => rfl
  | cons a items ih =>
    rw [List.mapM_cons, List.findSome?_cons, ← ih]
    cases step a with
    | error e => rfl
    | ok b => exact fault?_bind_pure (items.mapM step) (b :: ·)

/-- A result that is given unless there is a fault. -/
def checked (fault : Option ε) (result : α) : Except ε α :=
  match fault with
  | some e => .error e
  | none => .ok result

/-- What only makes something of the result is given unless there is the same fault. -/
theorem map_checked (fault : Option ε) (result : α) (make : α → β) :
    (checked fault result).map make = checked fault (make result) := by
  cases fault with
  | some e => rfl
  | none => rfl

/-- Two checks one after the other are one, for the first fault of both. -/
theorem checked_bind_checked (fault later : Option ε) (result : α) (make : α → β) :
    (checked fault result >>= fun a => checked later (make a)) =
      checked (fault.or later) (make result) := by
  cases fault with
  | some e => rfl
  | none => rfl

/-- A loop in which an item fails by itself, or else adds entries to a log, fails with the first fault
of an item, or else adds the entries of all. -/
theorem foldlM_checked {step : β → α → Except ε β} {fault : α → Option ε} {log : α → List γ}
    {add : β → γ → β} (hstep : ∀ b a, step b a = checked (fault a) ((log a).foldl add b))
    (items : List α) (b : β) :
    items.foldlM step b = checked (items.findSome? fault) ((items.flatMap log).foldl add b) := by
  induction items generalizing b with
  | nil => rfl
  | cons a items ih =>
    rw [List.foldlM_cons, hstep, List.findSome?_cons, List.flatMap_cons, List.foldl_append]
    cases fault a with
    | some e => rfl
    | none => exact ih _

end Unstack.Outcome
