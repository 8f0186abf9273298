import Unstack.Lowered
import Unstack.Proofs.Body

/-!
# Running instructions

What it is to run a body, whatever its instructions are taken to mean. A machine steps through the
code: it hands each instruction its operands, keeps the results, and goes where the instruction says,
as far as the code allows it. Everything but the keeping of values is the same for all machines, so a
machine is the shared control together with a storage: an evaluation stack, which knows what
instructions take and leave, or a file of registers, which instructions name. Main statement: if two
storages are related place by place, they give the same run.
-/

namespace Unstack.Machine

universe u v w

/-- What an instruction asks for, given its operands: a new store for all that is not on the
evaluation stack, and where to go. -/
inductive Reply (σ : Type u) (V : Type v) where
  /-- Leave results and go on with the next instruction. -/
  | next (store : σ) (results : List V)
  /-- Leave results and go to the branch target with the given number. -/
  | branch (store : σ) (results : List V) (target : Nat)
  /-- Leave the rest to the runtime, which drops the stack and resumes at an offset with values of
  its own: an exception on its way to a handler, or the way out of a handler. -/
  | resume (store : σ) (offset : Offset) (values : List V)
  /-- End the method. -/
  | finish (store : σ)

/-- A body with its regions and what its instructions mean, over any stores and values. -/
structure Program (σ : Type u) (V : Type v) where
  code : List Instruction
  regions : List Region
  meaning : Instruction → σ → List V → Reply σ V

/-- Where a machine keeps the values that instructions leave to each other. -/
structure Storage (V : Type v) (M : Type w) where
  /-- The operands of the instruction at a position; none if one of them is missing. -/
  operands : Nat → M → Option (List V)
  /-- What the results of the instruction at a position leave; none if they are too many or too
  few. -/
  retire : Nat → M → List V → Option M
  /-- What the runtime puts in place. -/
  reset : List V → M
  /-- Are there so many values, as far as the storage can tell? -/
  holds : M → Nat → Bool

/-- A machine about to run the instruction at a position. -/
structure State (σ : Type u) (M : Type w) where
  position : Nat
  store : σ
  memory : M

/-- An instruction that was run, with all that its meaning was given. -/
structure Event (σ : Type u) (V : Type v) where
  source : Instruction
  store : σ
  operands : List V

/-- How far a machine has come. -/
inductive Status (σ : Type u) (M : Type w) where
  | running (state : State σ M)
  | finished (store : σ)
  /-- The code does not allow what an instruction asked for. -/
  | refused
  /-- Control flowed into a handler or a filter at a depth that is not its own. -/
  | strayed
  /-- There is no instruction, or an operand of it is missing. -/
  | faulted

/-- The position of the instruction at an offset. -/
def position? (code : List Instruction) (offset : Offset) : Option Nat :=
  code.findIdx? (·.offset == offset)

/-- How many values the runtime resumes with at an offset, if it may at all: handlers and filters are
entered at their depth, and where an instruction leaves to, the stack is empty. -/
def resumeDepth? (code : List Instruction) (regions : List Region) (offset : Offset) : Option Nat :=
  match Region.entryDepthAt regions offset with
  | some depth => some depth
  | none =>
    if ∃ i ∈ code, i.opcode.pop = .popAll ∧ i.opcode.push = .push0 ∧ offset ∈ i.branchTargets then
      some 0
    else none

section Control

variable {σ : Type u} {V : Type v} {M : Type w} (p : Program σ V) (storage : Storage V M)

/-- Control flows to a position. -/
def arrive (store : σ) (memory : M) (position : Nat) : Status σ M :=
  match p.code[position]? with
  | none => .refused
  | some i =>
    match Region.entryDepthAt p.regions i.offset with
    | none => .running ⟨position, store, memory⟩
    | some depth =>
      if storage.holds memory depth then .running ⟨position, store, memory⟩ else .strayed

/-- Does what the instruction at a position asks for. -/
def obey (position : Nat) (i : Instruction) (memory : M) : Reply σ V → Status σ M
  | .next store results =>
    match storage.retire position memory results with
    | none => .refused
    | some left => if i.fallsThrough then arrive p storage store left (position + 1) else .refused
  | .branch store results n =>
    match storage.retire position memory results, i.branchTargets[n]?.bind (position? p.code) with
    | some left, some target => arrive p storage store left target
    | _, _ => .refused
  | .resume store offset values =>
    match position? p.code offset with
    | none => .refused
    | some target =>
      if resumeDepth? p.code p.regions offset = some values.length then
        .running ⟨target, store, storage.reset values⟩
      else .refused
  | .finish store => .finished store

/-- Runs one instruction. -/
def step (s : State σ M) : List (Event σ V) × Status σ M :=
  match p.code[s.position]?, storage.operands s.position s.memory with
  | some i, some operands =>
    ([⟨i, s.store, operands⟩],
      obey p storage s.position i s.memory (p.meaning i s.store operands))
  | _, _ => ([], .faulted)

/-- Runs at most `n` instructions. -/
def run : Nat → State σ M → List (Event σ V) × Status σ M
  | 0, s => ([], .running s)
  | n + 1, s =>
    match step p storage s with
    | (events, .running next) => ((run n next).map (events ++ ·) id)
    | stopped => stopped

end Control

/-- A found position is that of an instruction at the offset. -/
theorem getElem?_position? {code : List Instruction} {offset : Offset} {k : Nat}
    (h : position? code offset = some k) : ∃ i, code[k]? = some i ∧ i.offset = offset := by
  obtain ⟨hk, hoffset, -⟩ := List.findIdx?_eq_some_iff_getElem.mp h
  exact ⟨code[k], List.getElem?_eq_getElem hk, by simpa using hoffset⟩

variable {σ : Type u} {V : Type v} {M N : Type w}

/-- What a second machine does is what a first one does: the same events, and an end of the same
kind. Neither is faulted. When the first has strayed, the second, which cannot tell, may have gone
on. -/
inductive Follows (R : State σ M → State σ N → Prop) :
    List (Event σ V) × Status σ M → List (Event σ V) × Status σ N → Prop where
  | running (events : List (Event σ V)) {s : State σ M} {r : State σ N} (h : R s r) :
      Follows R (events, .running s) (events, .running r)
  | finished (events : List (Event σ V)) (store : σ) :
      Follows R (events, .finished store) (events, .finished store)
  | refused (events : List (Event σ V)) : Follows R (events, .refused) (events, .refused)
  | strayed (events more : List (Event σ V)) (status : Status σ N) :
      Follows R (events, .strayed) (events ++ more, status)

/-- Events that both had before stay in front. -/
theorem Follows.prepend {R : State σ M → State σ N → Prop} {x : List (Event σ V) × Status σ M}
    {y : List (Event σ V) × Status σ N} (h : Follows R x y) (before : List (Event σ V)) :
    Follows R (x.map (before ++ ·) id) (y.map (before ++ ·) id) := by
  cases h with
  | running events hR => exact .running _ hR
  | finished events store => exact .finished _ store
  | refused events => exact .refused _
  | strayed events more status =>
    have hmore := Follows.strayed (R := R) (before ++ events) more status
    rwa [List.append_assoc] at hmore

/-- Two machines at the same instruction, with the same store and related memories. -/
structure Alike (code : List Instruction) (R : Nat → M → N → Prop) (s : State σ M)
    (r : State σ N) : Prop where
  position : r.position = s.position
  store : r.store = s.store
  present : ∃ i, code[s.position]? = some i
  memory : R s.position s.memory r.memory

/-- A relation between memories at each position that running an instruction keeps. -/
structure Keeps (p : Program σ V) (a : Storage V M) (b : Storage V N) (R : Nat → M → N → Prop) :
    Prop where
  /-- Both find the same operands. -/
  operands : ∀ k i m n, p.code[k]? = some i → R k m n →
    ∃ values, a.operands k m = some values ∧ b.operands k n = some values
  /-- Both take the same results, and are related again wherever control may flow. -/
  retire : ∀ k i m n results, p.code[k]? = some i → R k m n →
    Option.Rel (fun m' n' => ∀ j target, p.code[j]? = some target → FlowsTo p.code k j →
        (∀ depth, Region.entryDepthAt p.regions target.offset = some depth →
          a.holds m' depth = true) → R j m' n')
      (a.retire k m results) (b.retire k n results)
  /-- The runtime puts related memories in place. -/
  reset : ∀ k i values, p.code[k]? = some i →
    resumeDepth? p.code p.regions i.offset = some values.length → R k (a.reset values) (b.reset values)
  /-- The second cannot tell how many values there are. -/
  holds : ∀ n depth, b.holds n depth = true

namespace Keeps

variable {p : Program σ V} {a : Storage V M} {b : Storage V N} {R : Nat → M → N → Prop}

/-- Control flows to the same place, unless the first strays there. -/
theorem arrive (h : Keeps p a b R) (events : List (Event σ V)) (store : σ) {m : M} {n : N}
    {position : Nat}
    (hleft : ∀ target, p.code[position]? = some target →
      (∀ depth, Region.entryDepthAt p.regions target.offset = some depth → a.holds m depth = true) →
        R position m n) :
    Follows (Alike p.code R) (events, Machine.arrive p a store m position)
      (events, Machine.arrive p b store n position) := by
  unfold Machine.arrive
  cases htarget : p.code[position]? with
  | none => exact .refused events
  | some target =>
    have halike (hholds : ∀ depth, Region.entryDepthAt p.regions target.offset = some depth →
        a.holds m depth = true) : Alike p.code R ⟨position, store, m⟩ ⟨position, store, n⟩ :=
      ⟨rfl, rfl, ⟨target, htarget⟩, hleft target htarget hholds⟩
    cases hentry : Region.entryDepthAt p.regions target.offset with
    | none =>
      simp only [hentry]
      exact .running events (halike (by simp [hentry]))
    | some depth =>
      simp only [hentry, h.holds, if_true]
      by_cases hholds : a.holds m depth = true
      · rw [if_pos hholds]
        exact .running events (halike (by simp [hentry, hholds]))
      · rw [if_neg hholds]
        simpa using Follows.strayed events [] _

/-- Both do the same for an instruction. -/
theorem obey (h : Keeps p a b R) (events : List (Event σ V)) {k : Nat} {i : Instruction} {m : M}
    {n : N} (hi : p.code[k]? = some i) (hR : R k m n) (reply : Reply σ V) :
    Follows (Alike p.code R) (events, Machine.obey p a k i m reply)
      (events, Machine.obey p b k i n reply) := by
  cases reply with
  | next store results =>
    have hretire := h.retire k i m n results hi hR
    simp only [Machine.obey]
    generalize a.retire k m results = first at hretire
    generalize b.retire k n results = second at hretire
    cases hretire with
    | none => exact .refused events
    | some hrel =>
      by_cases hfalls : i.fallsThrough = true
      · simp only [hfalls, if_true]
        exact h.arrive events store fun target htarget =>
          hrel _ target htarget ⟨i, target, hi, htarget, .inl ⟨hfalls, rfl⟩⟩
      · simp only [hfalls]
        exact .refused events
  | branch store results number =>
    have hretire := h.retire k i m n results hi hR
    simp only [Machine.obey]
    generalize a.retire k m results = first at hretire
    generalize b.retire k n results = second at hretire
    cases hretire with
    | none => exact .refused events
    | some hrel =>
      cases hposition : i.branchTargets[number]?.bind (position? p.code) with
      | none => exact .refused events
      | some target =>
        obtain ⟨offset, hoffset, hfound⟩ := Option.bind_eq_some_iff.mp hposition
        obtain ⟨landing, hlanding, rfl⟩ := getElem?_position? hfound
        refine h.arrive events store fun target htarget => hrel _ target htarget ?_
        obtain rfl := Option.some.inj (hlanding.symm.trans htarget)
        exact ⟨i, landing, hi, hlanding, .inr (List.mem_of_getElem? hoffset)⟩
  | resume store offset values =>
    simp only [Machine.obey]
    cases hposition : position? p.code offset with
    | none => exact .refused events
    | some target =>
      obtain ⟨landing, hlanding, rfl⟩ := getElem?_position? hposition
      by_cases hdepth : resumeDepth? p.code p.regions landing.offset = some values.length
      · simp only [hdepth, if_true]
        exact .running events
          ⟨rfl, rfl, ⟨landing, hlanding⟩, h.reset target landing values hlanding hdepth⟩
      · simp only [hdepth, if_false]
        exact .refused events
  | finish store => exact .finished events store

/-- One step of the one is one step of the other. -/
theorem step (h : Keeps p a b R) {s : State σ M} {r : State σ N} (hsr : Alike p.code R s r) :
    Follows (Alike p.code R) (Machine.step p a s) (Machine.step p b r) := by
  obtain ⟨i, hi⟩ := hsr.present
  obtain ⟨values, hfirst, hsecond⟩ := h.operands _ i _ _ hi hsr.memory
  have hstep : Machine.step p a s = ([⟨i, s.store, values⟩],
      Machine.obey p a s.position i s.memory (p.meaning i s.store values)) := by
    simp only [Machine.step, hi, hfirst]
  have hstep' : Machine.step p b r = ([⟨i, s.store, values⟩],
      Machine.obey p b s.position i r.memory (p.meaning i s.store values)) := by
    simp only [Machine.step, hsr.position, hsr.store, hi, hsecond]
  rw [hstep, hstep']
  exact h.obey _ hi hsr.memory _

/-- A run of the one is a run of the other. -/
theorem run (h : Keeps p a b R) (count : Nat) {s : State σ M} {r : State σ N}
    (hsr : Alike p.code R s r) :
    Follows (Alike p.code R) (Machine.run p a count s) (Machine.run p b count r) := by
  induction count generalizing s r with
  | zero => exact .running [] hsr
  | succ count ih =>
    have hstep := h.step hsr
    simp only [Machine.run]
    generalize Machine.step p a s = first at hstep
    generalize Machine.step p b r = second at hstep
    cases hstep with
    | running events hsr' => exact (ih hsr').prepend events
    | finished events store => exact .finished events store
    | refused events => exact .refused events
    | strayed events more status =>
      cases status with
      | running r' =>
        have hmore := Follows.strayed (R := Alike p.code R) events
          (more ++ (Machine.run p b count r').1) (Machine.run p b count r').2
        rwa [← List.append_assoc] at hmore
      | finished store => exact .strayed events more _
      | refused => exact .strayed events more _
      | strayed => exact .strayed events more _
      | faulted => exact .strayed events more _

end Keeps

end Unstack.Machine
