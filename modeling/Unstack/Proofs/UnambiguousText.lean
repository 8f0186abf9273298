import Unstack.Proofs.Isolation
import Unstack.Proofs.Numerals
import Unstack.Proofs.Reassembly
import Mathlib.Data.List.Forall2

/-!
# Lowered instructions are told apart by their texts

The text of a lowered instruction is a row of words with a blank between them: its label, the registers
that it writes and an arrow behind them, its mnemonic, the registers that it reads, and a bar with its
targets behind it. No word has a blank in it, so the text gives the words back. Registers are told from
the other words by the digit behind their first letter, so the words give the parts back; and labels,
register names and mnemonics each stand for one thing. What the text leaves out is an operand other than
a target.
-/

namespace Unstack

/-- A list is cut in one way into a front of one kind and a back that does not go on with that kind. -/
theorem append_inj_of_kind {α : Type} {p : α → Prop} {front front' back back' : List α}
    (hfront : ∀ a ∈ front, p a) (hfront' : ∀ a ∈ front', p a) (hback : ∀ a ∈ back.head?, ¬p a)
    (hback' : ∀ a ∈ back'.head?, ¬p a) (h : front ++ back = front' ++ back') :
    front = front' ∧ back = back' := by
  induction front generalizing front' with
  | nil =>
    cases front' with
    | nil => exact ⟨rfl, h⟩
    | cons a front' =>
      rw [List.nil_append] at h
      exact absurd (hfront' a List.mem_cons_self) (hback a (by simp [h]))
  | cons a front ih =>
    cases front' with
    | nil =>
      rw [List.nil_append] at h
      exact absurd (hfront a List.mem_cons_self) (hback' a (by simp [← h]))
    | cons a' front' =>
      obtain ⟨rfl, hrest⟩ := List.cons.inj h
      rw [List.forall_mem_cons] at hfront hfront'
      obtain ⟨rfl, rfl⟩ := ih hfront.2 hfront'.2 hrest
      exact ⟨rfl, rfl⟩

/-- Parts that are each ended by the same mark, which none of them holds, are told apart. -/
theorem ended_injective {α : Type} {mark : α} {parts others : List (List α)}
    (hparts : ∀ part ∈ parts, ∀ a ∈ part, a ≠ mark) (hothers : ∀ part ∈ others, ∀ a ∈ part, a ≠ mark)
    (h : parts.flatMap (· ++ [mark]) = others.flatMap (· ++ [mark])) : parts = others := by
  induction parts generalizing others with
  | nil =>
    cases others with
    | nil => rfl
    | cons other others => simp at h
  | cons part parts ih =>
    cases others with
    | nil => simp at h
    | cons other others =>
      rw [List.forall_mem_cons] at hparts hothers
      rw [List.flatMap_cons, List.flatMap_cons, List.append_assoc, List.append_assoc] at h
      obtain ⟨rfl, hrest⟩ := append_inj_of_kind hparts.1 hothers.1 (by simp) (by simp) h
      rw [ih hparts.2 hothers.2 (List.append_cancel_left hrest)]

namespace Text

/-- Texts that are each ended by the same mark, which none of them holds, are told apart. -/
theorem join_ended_injective {mark : String} {c : Char} (hmark : mark.toList = [c])
    {texts others : List String} (htexts : ∀ text ∈ texts, All (· ≠ c) text)
    (hothers : ∀ text ∈ others, All (· ≠ c) text)
    (h : String.join (texts.map (· ++ mark)) = String.join (others.map (· ++ mark))) :
    texts = others := by
  have hlists : (texts.map String.toList).flatMap (· ++ [c]) =
      (others.map String.toList).flatMap (· ++ [c]) := by
    simpa [String.toList_join, List.flatMap_map, hmark] using congrArg String.toList h
  have hsame := ended_injective (List.forall_mem_map.mpr htexts) (List.forall_mem_map.mpr hothers) hlists
  exact (List.map_injective_iff.mpr fun _ _ => String.toList_inj.mp) hsame

/-- A mark before each text is a mark behind each but for one. -/
theorem join_map_append (mark : String) (texts : List String) :
    String.join (texts.map (mark ++ ·)) ++ mark = mark ++ String.join (texts.map (· ++ mark)) := by
  induction texts with
  | nil => simp
  | cons text texts ih =>
    simp only [List.map_cons, String.join_cons, String.append_assoc]
    rw [ih]

end Text

open Text

/-- Has the word a digit behind its first letter? The bytes of digits go from 48 to 57. -/
def isNumbered (word : String) : Bool :=
  (encoded word)[1]?.any fun byte => 48 ≤ byte.toNat && byte.toNat ≤ 57

/-- A numeral has no blank. -/
theorem Numeral.ne_blank_of_mem {base n : Nat} (htwo : 2 ≤ base) (hbase : base ≤ 16) :
    ∀ c ∈ digits base n, c ≠ ' ' := fun c hc => (Char.ne_of_lt (lt_of_mem_digits htwo hbase n c hc)).symm

/-- A register has a digit behind its first letter. -/
theorem Register.isNumbered_name (register : Register) : isNumbered register.name = true := by
  obtain ⟨c, rest, hdigits⟩ := List.exists_cons_of_ne_nil (Numeral.digits_ne_nil 10 register.index)
  have hc : c ∈ Numeral.digits 10 register.index := hdigits ▸ List.mem_cons_self
  obtain ⟨d, hd, rfl⟩ := Numeral.exists_digit_of_mem (by decide) hc
  have hbyte : ∀ d < 10, String.utf8EncodeChar (Numeral.digitChar d) = [UInt8.ofNat (48 + d)] := by
    decide
  have hname : encoded register.name =
      118 :: UInt8.ofNat (48 + d) :: rest.flatMap String.utf8EncodeChar := by
    rw [Register.name, encoded_append, encoded_eq (Numeral.decimal _), Numeral.decimal,
      String.toList_ofList, hdigits, List.flatMap_cons, hbyte d hd]
    rfl
  have hrange : ∀ d < 10, (48 ≤ (UInt8.ofNat (48 + d)).toNat &&
      (UInt8.ofNat (48 + d)).toNat ≤ 57) = true := by
    decide
  rw [isNumbered, hname]
  exact hrange d hd

/-- A name is that of one register only. -/
theorem Register.name_injective : Function.Injective Register.name := by
  intro r r' h
  have hindex := Numeral.decimal_injective ((String.append_right_inj "v").mp h)
  cases r
  cases r'
  exact congrArg Register.mk hindex

/-- A label is that of one offset only. -/
theorem Offset.label_injective : Function.Injective Offset.label := by
  intro m n h
  exact Numeral.hexadecimal_injective 4 ((String.append_right_inj "IL_").mp h)

/-- The name of a register has no blank. -/
theorem Register.name_unspaced (register : Register) : All (· ≠ ' ') register.name := by
  refine (all_append _ _).mpr ⟨by decide, (all_ofList _).mpr ?_⟩
  exact Numeral.ne_blank_of_mem (by decide) (by decide)

/-- A label has no blank. -/
theorem Offset.label_unspaced (offset : Offset) : All (· ≠ ' ') offset.label := by
  refine (all_append _ _).mpr ⟨by decide, (all_ofList _).mpr ?_⟩
  refine List.forall_mem_append.mpr ⟨fun c hc => ?_, Numeral.ne_blank_of_mem (by decide) (by decide)⟩
  rw [List.eq_of_mem_replicate hc]
  decide

/-- A mnemonic of the table has no blank. -/
theorem Opcode.name_unspaced {opcode : Opcode} (h : opcode ∈ Opcode.table) :
    All (· ≠ ' ') opcode.name :=
  (Opcode.name_visible h).mono fun _ hc => (Char.ne_of_lt hc).symm

/-- A mnemonic has no digit behind its first letter. -/
theorem Opcode.not_isNumbered_name :
    ∀ opcode ∈ Opcode.table, isNumbered opcode.name = false := by
  decide +kernel

/-- A mnemonic is that of one opcode of the table only. -/
theorem Opcode.eq_of_name_eq {opcode other : Opcode} (h : opcode ∈ Opcode.table)
    (hother : other ∈ Opcode.table) (hname : opcode.name = other.name) : opcode = other := by
  have hfound := Opcode.ofName?_name h
  rw [hname, Opcode.ofName?_name hother] at hfound
  exact (Option.some.inj hfound).symm

namespace Lowered

/-- The words of the registers that are written: an arrow is behind them, if there are any. -/
def outputWords (outputs : List Register) : List String :=
  outputs.map Register.name ++ if outputs.isEmpty then [] else ["<-"]

/-- The words of the targets: a bar is before them, if there are any. -/
def targetWords (targets : List Offset) : List String :=
  if targets.isEmpty then []
  else "|" :: (if targets.length = 1 then "target:" else "targets:") :: targets.map Offset.label

/-- The words before the mnemonic, as they are written. -/
theorem join_outputWords (outputs : List Register) :
    String.join ((outputWords outputs).map (· ++ " ")) =
      if outputs.isEmpty then ""
      else String.join (outputs.map fun r => r.name ++ " ") ++ "<- " := by
  unfold outputWords
  split <;> simp_all [Function.comp_def]

/-- The words of the targets, as they are written. -/
theorem join_targetWords (targets : List Offset) :
    String.join ((targetWords targets).map (" " ++ ·)) =
      if targets.isEmpty then ""
      else (if targets.length = 1 then " | target:" else " | targets:") ++
        String.join (targets.map fun t => " " ++ t.label) := by
  have hbar : (if targets.length = 1 then " | target:" else " | targets:") =
      " " ++ "|" ++ (" " ++ if targets.length = 1 then "target:" else "targets:") := by
    split <;> rfl
  unfold targetWords
  rw [hbar]
  split
  · rfl
  · simp [String.append_assoc, Function.comp_def]

/-- The words behind the mnemonic. -/
def trailingWords (l : Lowered) : List String :=
  l.inputs.map Register.name ++ targetWords l.targets

/-- The words of a lowered instruction. -/
def words (l : Lowered) : List String :=
  (l.source.offset.label ++ ":") ::
    (outputWords l.outputs ++ l.source.opcode.name :: l.trailingWords)

/-- The text of a lowered instruction is its words with a blank behind each but the last. -/
theorem text_append_blank (l : Lowered) :
    l.text ++ " " = String.join (l.words.map (· ++ " ")) := by
  have htrailing : String.join (l.trailingWords.map (" " ++ ·)) =
      String.join (l.inputs.map fun r => " " ++ r.name) ++
        String.join ((targetWords l.targets).map (" " ++ ·)) := by
    simp [trailingWords, String.join_append, Function.comp_def]
  calc l.text ++ " "
      = l.source.offset.label ++ (":" ++ " ") ++
          String.join ((outputWords l.outputs).map (· ++ " ")) ++ l.source.opcode.name ++
          (String.join (l.trailingWords.map (" " ++ ·)) ++ " ") := by
        rw [text, htrailing, join_outputWords, join_targetWords]
        simp only [String.append_assoc]
        rfl
    _ = l.source.offset.label ++ (":" ++ " ") ++
          String.join ((outputWords l.outputs).map (· ++ " ")) ++ l.source.opcode.name ++
          (" " ++ String.join (l.trailingWords.map (· ++ " "))) := by rw [join_map_append]
    _ = String.join (l.words.map (· ++ " ")) := by
        simp only [words, List.map_cons, List.map_append, String.join_cons, String.join_append,
          String.append_assoc]

/-- No word of a lowered instruction has a blank. -/
theorem words_unspaced {l : Lowered} (h : l.source.opcode ∈ Opcode.table) :
    ∀ word ∈ l.words, All (· ≠ ' ') word := by
  have hregisters : ∀ registers : List Register,
      ∀ word ∈ registers.map Register.name, All (· ≠ ' ') word := fun registers =>
    List.forall_mem_map.mpr fun r _ => r.name_unspaced
  unfold words outputWords trailingWords targetWords
  simp only [List.forall_mem_cons, List.forall_mem_append]
  refine ⟨(all_append _ _).mpr ⟨l.source.offset.label_unspaced, by decide⟩,
    ⟨hregisters _, ?_⟩, Opcode.name_unspaced h, hregisters _, ?_⟩
  · split <;> decide
  · split
    · decide
    · simp only [List.forall_mem_cons]
      refine ⟨by decide, by split <;> decide, ?_⟩
      exact List.forall_mem_map.mpr fun t _ => t.label_unspaced

/-- What the text of a lowered instruction says: where it stands, what it does, which registers it reads
and writes, and where it may jump to. -/
structure SaysSame (l l' : Lowered) : Prop where
  offset : l.source.offset = l'.source.offset
  opcode : l.source.opcode = l'.source.opcode
  inputs : l.inputs = l'.inputs
  outputs : l.outputs = l'.outputs
  targets : l.targets = l'.targets

/-- The words of targets are those of one list of targets only. -/
theorem targetWords_injective : Function.Injective targetWords := by
  intro targets targets' h
  unfold targetWords at h
  cases targets with
  | nil =>
    cases targets' with
    | nil => rfl
    | cons t targets' => simp at h
  | cons t targets =>
    cases targets' with
    | nil => simp at h
    | cons t' targets' =>
      have hlabels := (List.cons.inj (List.cons.inj h).2).2
      exact List.map_injective_iff.mpr Offset.label_injective hlabels

/-- Registers that a word follows which is no register are told from what is behind them. -/
theorem registers_append_injective {registers registers' : List Register} {back back' : List String}
    (hback : ∀ word ∈ back.head?, isNumbered word = false)
    (hback' : ∀ word ∈ back'.head?, isNumbered word = false)
    (h : registers.map Register.name ++ back = registers'.map Register.name ++ back') :
    registers = registers' ∧ back = back' := by
  have hnumbered : ∀ registers : List Register,
      ∀ word ∈ registers.map Register.name, isNumbered word = true := fun registers =>
    List.forall_mem_map.mpr fun r _ => r.isNumbered_name
  obtain ⟨hnames, hbacks⟩ := append_inj_of_kind (hnumbered registers) (hnumbered registers')
    (fun word hword => Bool.eq_false_iff.mp (hback word hword))
    (fun word hword => Bool.eq_false_iff.mp (hback' word hword)) h
  exact ⟨List.map_injective_iff.mpr Register.name_injective hnames, hbacks⟩

/-- The registers before the mnemonic are told from the mnemonic and what is behind it. -/
theorem outputWords_append_injective {outputs outputs' : List Register} {name name' : String}
    (hname : isNumbered name = false) (hname' : isNumbered name' = false) {rest rest' : List String}
    (h : outputWords outputs ++ name :: rest = outputWords outputs' ++ name' :: rest') :
    outputs = outputs' ∧ name = name' ∧ rest = rest' := by
  have hhead : ∀ (outputs : List Register) (name : String) (rest : List String),
      isNumbered name = false →
      ∀ word ∈ ((if outputs.isEmpty then [] else ["<-"]) ++ name :: rest).head?,
        isNumbered word = false := by
    intro outputs name rest hname
    cases outputs.isEmpty with
    | true => simpa using hname
    | false =>
      have harrow : isNumbered "<-" = false := by decide
      simpa using harrow
  unfold outputWords at h
  rw [List.append_assoc, List.append_assoc] at h
  obtain ⟨rfl, hback⟩ := registers_append_injective (hhead outputs name rest hname)
    (hhead outputs' name' rest' hname') h
  exact ⟨rfl, List.cons.inj (List.append_cancel_left hback)⟩

/-- The words behind the mnemonic give back the registers that are read and the targets. -/
theorem trailingWords_injective {l l' : Lowered} (h : l.trailingWords = l'.trailingWords) :
    l.inputs = l'.inputs ∧ l.targets = l'.targets := by
  have hbar : ∀ targets : List Offset,
      ∀ word ∈ (targetWords targets).head?, isNumbered word = false := by
    intro targets
    unfold targetWords
    cases targets.isEmpty with
    | true => simp
    | false =>
      have hmark : isNumbered "|" = false := by decide
      simpa using hmark
  obtain ⟨hinputs, htargets⟩ := registers_append_injective (hbar l.targets) (hbar l'.targets) h
  exact ⟨hinputs, targetWords_injective htargets⟩

/-- Lowered instructions with the same words say the same. -/
theorem saysSame_of_words {l l' : Lowered} (h : l.source.opcode ∈ Opcode.table)
    (h' : l'.source.opcode ∈ Opcode.table) (hwords : l.words = l'.words) : l.SaysSame l' := by
  obtain ⟨hlabel, hrest⟩ := List.cons.inj hwords
  obtain ⟨houtputs, hname, htrailing⟩ := outputWords_append_injective
    (Opcode.not_isNumbered_name _ h) (Opcode.not_isNumbered_name _ h') hrest
  obtain ⟨hinputs, htargets⟩ := trailingWords_injective htrailing
  exact
    { offset := Offset.label_injective ((String.append_left_inj ":").mp hlabel)
      opcode := Opcode.eq_of_name_eq h h' hname
      inputs := hinputs
      outputs := houtputs
      targets := htargets }

/-- Lowered instructions have the same text exactly if they say the same. -/
theorem text_eq_iff {l l' : Lowered} (h : l.source.opcode ∈ Opcode.table)
    (h' : l'.source.opcode ∈ Opcode.table) : l.text = l'.text ↔ l.SaysSame l' := by
  constructor
  · intro htext
    have hjoined : String.join (l.words.map (· ++ " ")) = String.join (l'.words.map (· ++ " ")) := by
      rw [← text_append_blank, ← text_append_blank, htext]
    have hblank : " ".toList = [' '] := rfl
    have hwords := join_ended_injective hblank (words_unspaced h) (words_unspaced h') hjoined
    exact saysSame_of_words h h' hwords
  · intro hsame
    unfold text
    rw [hsame.offset, hsame.opcode, hsame.inputs, hsame.outputs, hsame.targets]

/-- The text of a lowered instruction of the table is one line. -/
theorem text_oneLine {l : Lowered} (h : l.source.opcode ∈ Opcode.table) : OneLine l.text :=
  (l.text_printable (Opcode.name_printable _ h)).oneLine

variable {ls ls' : List Lowered}

/-- Listings have the same lines exactly if they say the same line by line. -/
theorem map_text_eq_iff (h : ∀ l ∈ ls, l.source.opcode ∈ Opcode.table)
    (h' : ∀ l ∈ ls', l.source.opcode ∈ Opcode.table) :
    ls.map text = ls'.map text ↔ List.Forall₂ SaysSame ls ls' := by
  induction ls generalizing ls' with
  | nil => simp [eq_comm]
  | cons l ls ih =>
    cases ls' with
    | nil => simp
    | cons l' ls' =>
      rw [List.forall_mem_cons] at h h'
      rw [List.map_cons, List.map_cons, List.cons.injEq, List.forall₂_cons, text_eq_iff h.1 h'.1,
        ih h.2 h'.2]

/-- A text of lines gives back the lines of a listing. -/
theorem ofLines_map_text_eq_iff (h : ∀ l ∈ ls, l.source.opcode ∈ Opcode.table)
    (h' : ∀ l ∈ ls', l.source.opcode ∈ Opcode.table) :
    ofLines (ls.map text) = ofLines (ls'.map text) ↔ ls.map text = ls'.map text := by
  constructor
  · intro hlines
    have hfeed : "\n".toList = ['\n'] := rfl
    exact join_ended_injective hfeed (List.forall_mem_map.mpr fun l hl => text_oneLine (h l hl))
      (List.forall_mem_map.mpr fun l hl => text_oneLine (h' l hl)) hlines
  · exact congrArg ofLines

/-- The texts of two listings tell apart all that the listings say. -/
structure Unambiguous (ls ls' : List Lowered) : Prop where
  single : ∀ l ∈ ls, ∀ l' ∈ ls', l.text = l'.text ↔ l.SaysSame l'
  lines : ls.map text = ls'.map text ↔ List.Forall₂ SaysSame ls ls'
  whole : ofLines (ls.map text) = ofLines (ls'.map text) ↔ List.Forall₂ SaysSame ls ls'

/-- Listings of opcodes of the table are told apart by their texts, but for immediates. -/
theorem listings_unambiguous (h : ∀ l ∈ ls, l.source.opcode ∈ Opcode.table)
    (h' : ∀ l ∈ ls', l.source.opcode ∈ Opcode.table) : Unambiguous ls ls' where
  single l hl l' hl' := text_eq_iff (h l hl) (h' l' hl')
  lines := map_text_eq_iff h h'
  whole := (ofLines_map_text_eq_iff h h').trans (map_text_eq_iff h h')

/-- A constant is loaded and thrown away, unless the switch behind it jumps. -/
def loadAndSwitch (constant : Int) (targets : List Offset) : List Lowered :=
  [⟨⟨0, ⟨"ldc.i4.s", 0x1F, .next, .pop0, .push1, .shortInlineI⟩, .int constant⟩, [], [⟨0⟩]⟩,
    ⟨⟨2, ⟨"switch", 0x45, .condBranch, .pop1, .push0, .inlineSwitch⟩, .targets targets⟩, [⟨0⟩], []⟩]

/-- Another constant does not change the text, while targets in another order do. -/
theorem loadAndSwitch_unambiguous :
    (∀ l ∈ loadAndSwitch 7 [3, 17], l.source.opcode ∈ Opcode.table) ∧
      ofLines ((loadAndSwitch 7 [3, 17]).map text) = ofLines ((loadAndSwitch 8 [3, 17]).map text) ∧
      ofLines ((loadAndSwitch 7 [3, 17]).map text) ≠ ofLines ((loadAndSwitch 7 [17, 3]).map text) := by
  have htable : ∀ constant targets, ∀ l ∈ loadAndSwitch constant targets,
      l.source.opcode ∈ Opcode.table := by
    intro constant targets
    simp only [loadAndSwitch, List.forall_mem_cons]
    decide +kernel
  refine ⟨htable 7 [3, 17], ?_, fun htexts => ?_⟩
  · have hsame : List.Forall₂ SaysSame (loadAndSwitch 7 [3, 17]) (loadAndSwitch 8 [3, 17]) :=
      .cons ⟨rfl, rfl, rfl, rfl, rfl⟩ (.cons ⟨rfl, rfl, rfl, rfl, rfl⟩ .nil)
    exact (listings_unambiguous (htable 7 [3, 17]) (htable 8 [3, 17])).whole.mpr hsame
  · have hsame := (listings_unambiguous (htable 7 [3, 17]) (htable 7 [17, 3])).whole.mp htexts
    cases hsame with
    | cons _ hrest =>
      cases hrest with
      | cons hswitch _ => exact absurd hswitch.targets (by decide)

end Lowered

end Unstack
