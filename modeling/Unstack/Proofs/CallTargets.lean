import Unstack.Module
import Unstack.Outcome
import Mathlib.Data.List.Basic

/-!
# What calls of a loaded module refer to

A description names the methods that calls may refer to in two places: as references, and as the methods
of its types. Both give a token as text, and the same token may be spelled in several ways and occur many
times. A description with a token text that cannot be read is refused for the first of them, references
before methods. Any other description is loaded, and then a token stands for the last method that has it,
and only where there is none for the last reference that has it.
-/

namespace Unstack

open Outcome

/-- The text can be read as a token. -/
def Token.Readable (text : String) : Prop := ∃ token, Token.parse text = .ok token

instance (text : String) : Decidable (Token.Readable text) :=
  match h : Token.parse text with
  | .ok token => isTrue ⟨token, h⟩
  | .error _ => isFalse fun ⟨_, hread⟩ => nomatch h.symm.trans hread

/-- A token text that cannot be read is the fault of reading it. -/
theorem fault?_readToken_eq_some_iff (text : String) (cause : ModuleError) :
    fault? (readToken text) = some cause ↔
      ¬Token.Readable text ∧ .invalidToken text = cause := by
  unfold readToken Token.Readable
  cases Token.parse text with
  | ok token => simp [fault?]
  | error e => simp [fault?]

/-- Reading a token text has no fault exactly if the text can be read. -/
theorem fault?_readToken_eq_none_iff (text : String) :
    fault? (readToken text) = none ↔ Token.Readable text := by
  unfold readToken Token.Readable
  cases Token.parse text with
  | ok token => simp [fault?]
  | error e => simp [fault?]

/-- The methods of a type as calls refer to them. -/
def TypeDescription.definitions (t : TypeDescription) : List ReferenceDescription :=
  t.methods.map fun m =>
    ⟨m.token, m.signature.fullName (qualifiedName t.nameSpace t.name) m.name, m.signature⟩

namespace ModuleDescription

/-- The methods that a module defines, types in order and the methods of each in order. -/
def definitions (d : ModuleDescription) : List ReferenceDescription :=
  d.types.flatMap TypeDescription.definitions

/-- The token texts of a description, those of its references first. -/
def tokenTexts (d : ModuleDescription) : List String :=
  (d.references ++ d.definitions).map ReferenceDescription.token

end ModuleDescription

/-- The text is the first of several that cannot be read as a token. -/
def FirstUnreadable (texts : List String) (text : String) : Prop :=
  ∃ earlier later, texts = earlier ++ text :: later ∧ ¬Token.Readable text ∧
    ∀ other ∈ earlier, Token.Readable other

namespace ReferenceDescription

/-- The entry has the token, however it is spelled. -/
def Names (entry : ReferenceDescription) (token : Token) : Prop :=
  Token.parse entry.token = .ok token

instance (entry : ReferenceDescription) (token : Token) : Decidable (entry.Names token) :=
  inferInstanceAs (Decidable (Token.parse entry.token = .ok token))

/-- The entry is the last of several that have the token. -/
def LastNaming (entries : List ReferenceDescription) (token : Token) (entry : ReferenceDescription) :
    Prop :=
  ∃ earlier later, entries = earlier ++ entry :: later ∧ entry.Names token ∧
    ∀ other ∈ later, ¬other.Names token

end ReferenceDescription

/-- A search of lists joined is a search of each in turn. -/
theorem findSome?_flatMap {α β γ : Type} (items : List α) (parts : α → List β) (f : β → Option γ) :
    (items.flatMap parts).findSome? f = items.findSome? fun a => (parts a).findSome? f := by
  induction items with
  | nil => rfl
  | cons a items ih =>
    rw [List.flatMap_cons, List.findSome?_append, ih, List.findSome?_cons]
    cases (parts a).findSome? f <;> rfl

namespace Module

/-- Loading a reference fails as reading its token does. -/
theorem fault?_loadReference (entry : ReferenceDescription) :
    fault? (loadReference entry) = fault? (readToken entry.token) :=
  fault?_bind_pure _ _

/-- Loading a method fails as reading its token does. -/
theorem fault?_loadMethod (declaringType : String) (d : MethodDescription) :
    fault? (loadMethod declaringType d) = fault? (readToken d.token) :=
  fault?_bind_pure _ _

/-- Loading a type fails at the first of its methods whose token cannot be read. -/
theorem fault?_loadType (t : TypeDescription) :
    fault? (loadType t) = t.definitions.findSome? fun entry => fault? (readToken entry.token) := by
  unfold loadType TypeDescription.definitions
  rw [fault?_bind_pure, fault?_mapM, List.findSome?_map]
  simp only [fault?_loadMethod, Function.comp_def]

/-- Loading a module fails at its first token text that cannot be read. -/
theorem fault?_ofDescription (d : ModuleDescription) :
    fault? (ofDescription d) = d.tokenTexts.findSome? fun text => fault? (readToken text) := by
  have htypes : ∀ references : List MethodRef,
      fault? (d.types.mapM loadType >>= fun types => pure (⟨d.name, types, references⟩ : Module)) =
        d.definitions.findSome? fun entry => fault? (readToken entry.token) := by
    intro references
    rw [fault?_bind_pure, fault?_mapM, ModuleDescription.definitions, findSome?_flatMap]
    simp only [fault?_loadType]
  unfold ofDescription ModuleDescription.tokenTexts
  rw [fault?_bind_of_fixed _ _ htypes, fault?_mapM, List.findSome?_map, List.findSome?_append]
  simp only [fault?_loadReference, Function.comp_def]

/-- A description is refused exactly for its first token text that cannot be read. -/
theorem ofDescription_eq_error_iff (d : ModuleDescription) (cause : ModuleError) :
    ofDescription d = .error cause ↔
      ∃ text, cause = .invalidToken text ∧ FirstUnreadable d.tokenTexts text := by
  rw [← fault?_eq_some_iff, fault?_ofDescription, List.findSome?_eq_some_iff]
  simp only [fault?_readToken_eq_some_iff, fault?_readToken_eq_none_iff]
  constructor
  · rintro ⟨earlier, text, later, htexts, ⟨hbad, rfl⟩, hearlier⟩
    exact ⟨text, rfl, earlier, later, htexts, hbad, hearlier⟩
  · rintro ⟨text, rfl, earlier, later, htexts, hbad, hearlier⟩
    exact ⟨earlier, text, later, htexts, ⟨hbad, rfl⟩, hearlier⟩

/-- A description is loaded if all its token texts can be read. -/
theorem exists_module_of_readable {d : ModuleDescription}
    (h : ∀ text ∈ d.tokenTexts, Token.Readable text) : ∃ m, ofDescription d = .ok m := by
  rw [← fault?_eq_none_iff, fault?_ofDescription, List.findSome?_eq_none_iff]
  intro text htext
  exact (fault?_readToken_eq_none_iff text).mpr (h text htext)

/-- A reference is loaded if its token can be read, and nothing else of it changes. -/
theorem loadReference_eq_ok_iff (entry : ReferenceDescription) (ref : MethodRef) :
    loadReference entry = .ok ref ↔
      entry.Names ref.token ∧ ref = ⟨ref.token, entry.fullName, entry.signature⟩ := by
  unfold loadReference readToken ReferenceDescription.Names
  rw [bind_eq_ok_iff]
  cases Token.parse entry.token with
  | error e => simp
  | ok token =>
    constructor
    · rintro ⟨read, hread, href⟩
      cases hread
      cases href
      exact ⟨rfl, rfl⟩
    · rintro ⟨htoken, href⟩
      rw [href]
      exact ⟨token, rfl, by rw [Except.ok.inj htoken]; rfl⟩

/-- The methods of a loaded type are loaded from the methods of its description. -/
theorem map_reference_of_loadType {t : TypeDescription} {type : TypeDef} (h : loadType t = .ok type) :
    type.methods.map (fun method => .ok method.reference) = t.definitions.map loadReference := by
  obtain ⟨methods, hmethods, htype⟩ := (bind_eq_ok_iff _ _ _).mp h
  cases htype
  rw [TypeDescription.definitions, List.map_map]
  apply map_eq_of_mapM hmethods
  intro m _ method hmethod
  obtain ⟨token, htoken, hloaded⟩ := (bind_eq_ok_iff _ _ _).mp hmethod
  cases hloaded
  rw [Function.comp_apply, eq_comm, loadReference, htoken]
  rfl

/-- A loaded module has the references and the definitions of its description, in their order. -/
theorem callables_of_ofDescription {d : ModuleDescription} {m : Module}
    (h : ofDescription d = .ok m) :
    d.references.map loadReference = m.references.map .ok ∧
      d.definitions.map loadReference = m.definitions.map .ok := by
  obtain ⟨references, hreferences, hrest⟩ := (bind_eq_ok_iff _ _ _).mp h
  obtain ⟨types, htypes, hmodule⟩ := (bind_eq_ok_iff _ _ _).mp hrest
  cases hmodule
  refine ⟨(mapM_eq_ok_iff _ _ _).mp hreferences, ?_⟩
  have hmethods := map_eq_of_mapM htypes (fun t => t.definitions.map loadReference)
    (fun type => type.methods.map fun method => .ok method.reference)
    (fun t _ type htype => map_reference_of_loadType htype)
  rw [ModuleDescription.definitions, definitions, List.map_flatMap, List.map_flatMap,
    List.flatMap_def, List.flatMap_def, ← hmethods]
  simp only [List.map_map, Function.comp_def]

/-- A loaded entry has the token that its description names. -/
theorem names_iff_of_loadReference {entry : ReferenceDescription} {ref : MethodRef}
    (h : loadReference entry = .ok ref) (token : Token) : entry.Names token ↔ ref.token = token := by
  have hown := ((loadReference_eq_ok_iff entry ref).mp h).1
  constructor
  · intro hnames
    exact Except.ok.inj (hown.symm.trans hnames)
  · rintro rfl
    exact hown

variable {entries : List ReferenceDescription} {refs : List MethodRef} {token : Token}

/-- Among loaded entries there is none with a token that no description names. -/
theorem find?_reverse_of_unnamed (hload : entries.map loadReference = refs.map .ok)
    (h : ∀ entry ∈ entries, ¬entry.Names token) :
    refs.reverse.find? (·.token == token) = none := by
  rw [List.find?_eq_none]
  intro ref href htoken
  have hok : .ok ref ∈ entries.map loadReference :=
    hload ▸ List.mem_map_of_mem (List.mem_reverse.mp href)
  obtain ⟨entry, hentry, hentryLoad⟩ := List.mem_map.mp hok
  exact h entry hentry ((names_iff_of_loadReference hentryLoad token).mpr (beq_iff_eq.mp htoken))

/-- The last of the loaded entries with a token comes from the last description that names it. -/
theorem find?_reverse_of_lastNaming (hload : entries.map loadReference = refs.map .ok)
    {entry : ReferenceDescription} (h : entry.LastNaming entries token) :
    refs.reverse.find? (·.token == token) = some ⟨token, entry.fullName, entry.signature⟩ := by
  obtain ⟨earlier, later, rfl, hnames, hlater⟩ := h
  rw [List.map_append, List.map_cons, eq_comm] at hload
  -- the loaded entries fall apart where their descriptions do
  obtain ⟨front, back, rfl, -, hback⟩ := List.map_eq_append_iff.mp hload
  obtain ⟨ref, rest, rfl, href, hrest⟩ := List.map_eq_cons_iff.mp hback
  have htoken : ref.token = token := (names_iff_of_loadReference href.symm token).mp hnames
  have hloaded := ((loadReference_eq_ok_iff entry ref).mp href.symm).2
  rw [htoken] at hloaded
  have hbehind := find?_reverse_of_unnamed hrest.symm hlater
  have hfound : (front ++ [ref]).reverse.find? (·.token == token) = some ref := by
    simp [htoken]
  rw [List.append_cons, List.reverse_append, List.find?_append, hbehind, Option.none_or, hfound, hloaded]

/-- Definitions go before references. -/
theorem resolve_eq_or (m : Module) (token : Token) :
    m.resolve token = (m.definitions.reverse.find? (·.token == token)).or
      (m.references.reverse.find? (·.token == token)) := by
  rw [resolve, callables, List.reverse_append, List.find?_append]

/-- The tokens of a module stand for what its description says: for the last method that has the token,
else for the last reference that has it, else for nothing. -/
structure ResolvesCalls (m : Module) (d : ModuleDescription) : Prop where
  defined : ∀ token (entry : ReferenceDescription), entry.LastNaming d.definitions token →
    m.resolve token = some ⟨token, entry.fullName, entry.signature⟩
  referred : ∀ token (entry : ReferenceDescription),
    (∀ definition ∈ d.definitions, ¬definition.Names token) → entry.LastNaming d.references token →
      m.resolve token = some ⟨token, entry.fullName, entry.signature⟩
  unknown : ∀ token, (∀ definition ∈ d.definitions, ¬definition.Names token) →
    (∀ reference ∈ d.references, ¬reference.Names token) → m.resolve token = none
  /-- Whatever a token stands for has that token. -/
  own : ∀ token ref, m.resolve token = some ref → ref.token = token

/-- The tokens of a loaded module stand for what its description says. -/
theorem resolvesCalls_of_ofDescription {d : ModuleDescription} {m : Module}
    (h : ofDescription d = .ok m) : m.ResolvesCalls d := by
  obtain ⟨hreferences, hdefinitions⟩ := callables_of_ofDescription h
  refine
    { defined := fun token entry hlast => ?_
      referred := fun token entry hnone hlast => ?_
      unknown := fun token hdefinition hreference => ?_
      own := fun token ref href => ?_ }
  · rw [resolve_eq_or, find?_reverse_of_lastNaming hdefinitions hlast, Option.some_or]
  · rw [resolve_eq_or, find?_reverse_of_unnamed hdefinitions hnone, Option.none_or,
      find?_reverse_of_lastNaming hreferences hlast]
  · rw [resolve_eq_or, find?_reverse_of_unnamed hdefinitions hdefinition, Option.none_or,
      find?_reverse_of_unnamed hreferences hreference]
  · have htoken : (ref.token == token) = true := by
      apply List.find?_some href
    exact beq_iff_eq.mp htoken

/-- A description is refused exactly for its first token text that cannot be read. If there is none, it
is loaded, and tokens stand for what it says. -/
structure LoadsCalls (d : ModuleDescription) : Prop where
  refused : ∀ cause, ofDescription d = .error cause ↔
    ∃ text, cause = .invalidToken text ∧ FirstUnreadable d.tokenTexts text
  loaded : (∀ text ∈ d.tokenTexts, Token.Readable text) →
    ∃ m, ofDescription d = .ok m ∧ m.ResolvesCalls d

/-- Every description is refused for a token text or loaded with the calls that it describes. -/
theorem ofDescription_loadsCalls (d : ModuleDescription) : LoadsCalls d where
  refused := ofDescription_eq_error_iff d
  loaded h := by
    obtain ⟨m, hm⟩ := exists_module_of_readable h
    exact ⟨m, hm, resolvesCalls_of_ofDescription hm⟩

/-- A module in which three spellings of one token occur, two of them for methods, and two spellings of
another for references. -/
def respelledCalls : ModuleDescription where
  name := "respelled"
  references :=
    [⟨"0x0A000001", "First", { returnType := "System.Void" }⟩,
      ⟨" 0X06000001", "Hidden", { returnType := "System.Void" }⟩,
      ⟨"167772161", "Second", { returnType := "System.Int32" }⟩]
  types :=
    [{ name := "T"
       methods :=
        [{ name := "a", token := "0x06000001", signature := { returnType := "System.Void" } }] },
      { nameSpace := "N"
        name := "U"
        methods :=
          [{ name := "b", token := "+100663297\n", signature := { returnType := "System.Int32" } }] }]

/-- The respelled module is loaded. Its method `b` stands for one token, its last reference for the
other, and a third token stands for nothing. -/
theorem respelledCalls_loadsCalls :
    (∀ text ∈ respelledCalls.tokenTexts, Token.Readable text) ∧
      ∃ m, ofDescription respelledCalls = .ok m ∧
        m.resolve ⟨0x06000001⟩ =
          some ⟨⟨0x06000001⟩, "System.Int32 N.U::b()", { returnType := "System.Int32" }⟩ ∧
        m.resolve ⟨0x0A000001⟩ = some ⟨⟨0x0A000001⟩, "Second", { returnType := "System.Int32" }⟩ ∧
        m.resolve ⟨0x0A000002⟩ = none := by
  have hreadable : ∀ text ∈ respelledCalls.tokenTexts, Token.Readable text := by decide
  obtain ⟨m, hm, hcalls⟩ := (ofDescription_loadsCalls respelledCalls).loaded hreadable
  refine ⟨hreadable, m, hm, ?_, ?_, ?_⟩
  · exact hcalls.defined _ ⟨"+100663297\n", "System.Int32 N.U::b()", { returnType := "System.Int32" }⟩
      ⟨respelledCalls.definitions.take 1, [], by decide, by decide, by decide⟩
  · exact hcalls.referred _ ⟨"167772161", "Second", { returnType := "System.Int32" }⟩ (by decide)
      ⟨respelledCalls.references.take 2, [], by decide, by decide, by decide⟩
  · exact hcalls.unknown _ (by decide) (by decide)

end Module

end Unstack
