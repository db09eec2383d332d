import RiscvLogism.OpcodeGenerator
import Mathlib.Data.List.TakeWhile

/-!
# The generated tables

The opcode enumeration, the case statement and the `funct3` enumeration are
built by three independent loops over the sorted instructions.  They agree:
the first two list the same names in the same order, the names within one
enumeration differ, and every instruction is listed once.
-/

namespace RiscvLogism
namespace Generator

/-! ## Names of opcodes -/

theorem opcodeName_of_get? {opcode name : String}
    (hget : opcodeToName.get? opcode = some name) :
    opcodeName opcode = name ∧ (opcode, name) ∈ opcodeToName.entries := by
  refine ⟨?_, OrderedDict.mem_entries_of_get? _ hget⟩
  rw [opcodeName, hget]
  rfl

theorem fallback_ne_name {opcode name : String} (other : String)
    (hmem : (opcode, name) ∈ opcodeToName.entries) :
    name ≠ "OPCODE_" ++ other := by
  have hprefix :
      ∀ entry ∈ opcodeToName.entries,
        ¬ "OPCODE_".toList <+: entry.2.toList := by decide
  intro hname
  apply hprefix _ hmem
  rw [hname, String.toList_append]
  exact List.prefix_append _ _

/-- A name of the table stands for one opcode, and no name of the table looks
like the fallback name. -/
theorem opcodeName_injective : Function.Injective opcodeName := by
  intro opcode opcode' hname
  cases hget : opcodeToName.get? opcode with
  | none =>
      cases hget' : opcodeToName.get? opcode' with
      | none =>
          rw [opcodeName, opcodeName, hget, hget'] at hname
          simpa using hname
      | some name' =>
          obtain ⟨heq, hmem⟩ := opcodeName_of_get? hget'
          rw [heq, opcodeName, hget] at hname
          exact absurd hname.symm (fallback_ne_name opcode hmem)
  | some name =>
      obtain ⟨heq, hmem⟩ := opcodeName_of_get? hget
      cases hget' : opcodeToName.get? opcode' with
      | none =>
          rw [heq, opcodeName, hget'] at hname
          exact absurd hname (fallback_ne_name opcode' hmem)
      | some name' =>
          obtain ⟨heq', hmem'⟩ := opcodeName_of_get? hget'
          have hnodup : (opcodeToName.entries.map Prod.snd).Nodup := by
            decide
          have hsame : name = name' := by
            rw [← heq, hname, heq']
          have hentry :=
            List.inj_on_of_nodup_map hnodup hmem hmem' hsame
          exact congrArg Prod.fst hentry

/-! ## The opcode enumeration -/

section Enums

variable {instructions : List Instruction}

theorem opcodeGroups_keys :
    (opcodeGroups instructions).keys =
      (instructions.map Instruction.opcode).eraseDups :=
  OrderedDict.keys_foldl_append Instruction.opcode Instruction.name
    instructions

/-- The entries are those of the distinct opcodes in the order of the sorted
instructions. -/
theorem buildOpcodeEnums_eq
    (hsorted : (instructions.map Instruction.opcode).Pairwise (· ≤ ·)) :
    buildOpcodeEnums instructions =
      (instructions.map Instruction.opcode).eraseDups.map fun opcode =>
        { name := opcodeName opcode
          value := opcode
          instructions :=
            (instructions.filter fun instr => instr.opcode = opcode).map
              Instruction.name } := by
  have hkeys : Sorting.sortedBy id (opcodeGroups instructions).keys =
      (instructions.map Instruction.opcode).eraseDups := by
    rw [opcodeGroups_keys]
    apply Sorting.sortedBy_eq_self
    rw [List.map_id]
    exact hsorted.sublist (FirstOccurrences.eraseDups_sublist _)
  have hgroup : ∀ opcode,
      ((opcodeGroups instructions).get? opcode).getD [] =
        (instructions.filter fun instr => instr.opcode = opcode).map
          Instruction.name :=
    OrderedDict.getD_foldl_append Instruction.opcode Instruction.name
      instructions
  unfold buildOpcodeEnums
  simp only [hkeys, hgroup]

theorem opcodeEnums_names
    (hsorted : (instructions.map Instruction.opcode).Pairwise (· ≤ ·)) :
    (buildOpcodeEnums instructions).map EnumEntry.name =
      (instructions.map Instruction.opcode).eraseDups.map opcodeName := by
  rw [buildOpcodeEnums_eq hsorted, List.map_map]
  rfl

theorem opcodeEnums_values
    (hsorted : (instructions.map Instruction.opcode).Pairwise (· ≤ ·)) :
    (buildOpcodeEnums instructions).map EnumEntry.value =
      (instructions.map Instruction.opcode).eraseDups := by
  rw [buildOpcodeEnums_eq hsorted, List.map_map]
  exact List.map_id _

theorem opcodeEnums_instructions_perm
    (hsorted : (instructions.map Instruction.opcode).Pairwise (· ≤ ·)) :
    ((buildOpcodeEnums instructions).flatMap EnumEntry.instructions).Perm
      (instructions.map Instruction.name) := by
  have hkeys : ∀ instr ∈ instructions, instr.opcode ∈
      (instructions.map Instruction.opcode).eraseDups := by
    intro instr hinstr
    exact List.mem_eraseDups.mpr (List.mem_map_of_mem hinstr)
  have hgroups := Partition.flatMap_filter_perm Instruction.opcode
    (FirstOccurrences.eraseDups_nodup _) hkeys
  rw [buildOpcodeEnums_eq hsorted, List.flatMap_map]
  have hnames := hgroups.map Instruction.name
  rw [List.map_flatMap] at hnames
  exact hnames

/-! ## The case statement -/

theorem formatCases_names :
    (buildFormatCaseEntries (buildOpcodeEnums instructions)
        instructions).map FormatCase.opcodeName =
      (instructions.map Instruction.opcode).eraseDups.map opcodeName := by
  have hkeys :
      (opcodeToFormat instructions).keys =
        (instructions.map fun instr => opcodeName instr.opcode).eraseDups :=
    OrderedDict.keys_foldl_set
      (fun instr : Instruction => opcodeName instr.opcode)
      Instruction.format instructions
  rw [← FirstOccurrences.eraseDups_map opcodeName_injective, List.map_map]
  unfold buildFormatCaseEntries
  rw [List.map_map]
  exact hkeys

theorem mem_formatCases {instr : Instruction}
    (hinstr : instr ∈ instructions)
    (hformat : ∀ other ∈ instructions, other.opcode = instr.opcode →
      other.format = instr.format) :
    { opcodeName := opcodeName instr.opcode, format := instr.format } ∈
      buildFormatCaseEntries (buildOpcodeEnums instructions)
        instructions := by
  have hget :
      (opcodeToFormat instructions).get? (opcodeName instr.opcode) =
        (instructions.filter fun other =>
          opcodeName other.opcode = opcodeName instr.opcode).getLast?.map
            Instruction.format :=
    OrderedDict.get?_foldl_set
      (fun instr : Instruction => opcodeName instr.opcode)
      Instruction.format instructions _
  have hmem : instr ∈ instructions.filter fun other =>
      opcodeName other.opcode = opcodeName instr.opcode :=
    List.mem_filter.mpr ⟨hinstr, by simp⟩
  cases hlast : (instructions.filter fun other =>
      opcodeName other.opcode = opcodeName instr.opcode).getLast? with
  | none =>
      rw [List.getLast?_eq_none_iff.mp hlast] at hmem
      exact absurd hmem List.not_mem_nil
  | some other =>
      have hother := List.mem_filter.mp (List.mem_of_getLast? hlast)
      have hopcode : other.opcode = instr.opcode :=
        opcodeName_injective (of_decide_eq_true hother.2)
      rw [hlast, Option.map_some, hformat other hother.1 hopcode] at hget
      have hentry := OrderedDict.mem_entries_of_get? _ hget
      exact List.mem_map.mpr ⟨_, hentry, rfl⟩

end Enums

/-! ## The `funct3` enumeration -/

section Funct3

def funct3Names (instructions : List Instruction) : List (String × String) :=
  instructions.filterMap fun instr =>
    instr.encoding.funct3.map fun funct3 => (funct3, instr.name)

variable {instructions : List Instruction}

theorem funct3Groups_eq :
    funct3Groups instructions =
      (funct3Names instructions).foldl
        (fun groups named => groups.append named.1 named.2) .empty := by
  unfold funct3Names funct3Groups
  rw [List.foldl_filterMap]
  congr 1
  funext groups instr
  cases instr.encoding.funct3 with
  | none => rfl
  | some funct3 => rfl

theorem map_snd_funct3Names :
    (funct3Names instructions).map Prod.snd =
      (instructions.filter fun instr =>
        instr.encoding.funct3.isSome).map Instruction.name := by
  induction instructions with
  | nil => rfl
  | cons instr rest ih =>
      unfold funct3Names at ih ⊢
      cases hfunct3 : instr.encoding.funct3 with
      | none => simpa [hfunct3] using ih
      | some funct3 => simpa [hfunct3] using ih

theorem funct3Groups_keys :
    (funct3Groups instructions).keys =
      ((funct3Names instructions).map Prod.fst).eraseDups := by
  rw [funct3Groups_eq]
  exact OrderedDict.keys_foldl_append Prod.fst Prod.snd _

theorem funct3Groups_getD (funct3 : String) :
    ((funct3Groups instructions).get? funct3).getD [] =
      ((funct3Names instructions).filter fun named =>
        named.1 = funct3).map Prod.snd := by
  rw [funct3Groups_eq]
  exact OrderedDict.getD_foldl_append Prod.fst Prod.snd _ funct3

def funct3Values (instructions : List Instruction) : List String :=
  Sorting.sortedBy id (funct3Groups instructions).keys

theorem mem_funct3Values {funct3 : String} :
    funct3 ∈ funct3Values instructions ↔
      funct3 ∈ (funct3Names instructions).map Prod.fst := by
  rw [funct3Values, (Sorting.sortedBy_perm id _).mem_iff,
    funct3Groups_keys, List.mem_eraseDups]

theorem funct3Values_nodup : (funct3Values instructions).Nodup := by
  rw [funct3Values, (Sorting.sortedBy_perm id _).nodup_iff,
    funct3Groups_keys]
  exact FirstOccurrences.eraseDups_nodup _

theorem funct3Enums_values :
    (buildFunct3Enums instructions).map EnumEntry.value =
      funct3Values instructions := by
  unfold buildFunct3Enums
  rw [List.map_map]
  exact List.map_id _

theorem funct3Enums_instructions_perm :
    ((buildFunct3Enums instructions).flatMap EnumEntry.instructions).Perm
      ((instructions.filter fun instr =>
        instr.encoding.funct3.isSome).map Instruction.name) := by
  have hkeys : ∀ named ∈ funct3Names instructions,
      named.1 ∈ funct3Values instructions := by
    intro named hnamed
    exact mem_funct3Values.mpr (List.mem_map_of_mem hnamed)
  have hgroups :=
    (Partition.flatMap_filter_perm Prod.fst funct3Values_nodup hkeys).map
      Prod.snd
  rw [List.map_flatMap, map_snd_funct3Names] at hgroups
  unfold buildFunct3Enums
  rw [List.flatMap_map]
  simp only [funct3Groups_getD]
  exact hgroups

/-! ### Labels -/

/-- A label determines the first name of its group, because the names contain
no underscore. -/
theorem takeWhile_label {names : List String} (hne : names ≠ [])
    (hplain : ∀ name ∈ names, '_' ∉ name.toList) :
    (label names).toList.takeWhile (fun c => c ≠ '_') =
      (names.head hne).toList := by
  have hwhole : ∀ name ∈ names, ∀ c ∈ name.toList,
      decide (c ≠ '_') = true := by
    intro name hname c hc
    apply decide_eq_true
    intro hunderscore
    exact hplain name hname (hunderscore ▸ hc)
  cases names with
  | nil => exact absurd rfl hne
  | cons first rest =>
      have hfirst := hwhole first (List.mem_cons_self ..)
      cases rest with
      | nil =>
          rw [label, List.take_of_length_le (by simp),
            String.intercalate_singleton]
          exact List.takeWhile_eq_self_iff.mpr hfirst
      | cons second rest =>
          have hlabel :
              label (first :: second :: rest) =
                first ++ "_" ++ second := by
            simp [label]
          rw [hlabel, String.toList_append, String.toList_append,
            List.append_assoc, List.takeWhile_append_of_pos hfirst]
          exact List.append_nil _

section Labels

variable (hnodup : (instructions.map Instruction.name).Nodup)
  (hplain : ∀ instr ∈ instructions, '_' ∉ instr.name.toList)

include hnodup in
theorem funct3Names_nodup :
    ((funct3Names instructions).map Prod.snd).Nodup := by
  rw [map_snd_funct3Names]
  exact hnodup.sublist (List.filter_sublist.map _)

include hplain in
theorem funct3Names_plain {named : String × String}
    (hnamed : named ∈ funct3Names instructions) :
    '_' ∉ named.2.toList := by
  have hname : named.2 ∈ (funct3Names instructions).map Prod.snd :=
    List.mem_map_of_mem hnamed
  rw [map_snd_funct3Names] at hname
  obtain ⟨instr, hinstr, heq⟩ := List.mem_map.mp hname
  rw [← heq]
  exact hplain instr (List.mem_filter.mp hinstr).1

include hplain in
theorem takeWhile_funct3Label {funct3 : String}
    (hmem : funct3 ∈ funct3Values instructions) :
    ∃ named ∈ funct3Names instructions, named.1 = funct3 ∧
      (label (((funct3Groups instructions).get? funct3).getD
        [])).toList.takeWhile (fun c => c ≠ '_') = named.2.toList := by
  let group := (funct3Names instructions).filter fun named =>
    named.1 = funct3
  have hgroup : ∀ named ∈ group,
      named ∈ funct3Names instructions ∧ named.1 = funct3 := by
    intro named hnamed
    obtain ⟨hin, heq⟩ := List.mem_filter.mp hnamed
    exact ⟨hin, of_decide_eq_true heq⟩
  have hne : group.map Prod.snd ≠ [] := by
    obtain ⟨named, hnamed, heq⟩ := List.mem_map.mp (mem_funct3Values.mp hmem)
    have hin : named ∈ group :=
      List.mem_filter.mpr ⟨hnamed, decide_eq_true heq⟩
    exact List.ne_nil_of_mem (List.mem_map_of_mem hin)
  have hnames : ∀ name ∈ group.map Prod.snd, '_' ∉ name.toList := by
    intro name hname
    obtain ⟨named, hnamed, rfl⟩ := List.mem_map.mp hname
    exact funct3Names_plain hplain (hgroup named hnamed).1
  obtain ⟨named, hnamed, hhead⟩ := List.mem_map.mp (List.head_mem hne)
  refine ⟨named, (hgroup named hnamed).1, (hgroup named hnamed).2, ?_⟩
  rw [funct3Groups_getD, takeWhile_label hne hnames, hhead]

include hnodup hplain in
theorem funct3Enums_names_nodup :
    ((buildFunct3Enums instructions).map EnumEntry.name).Nodup := by
  unfold buildFunct3Enums
  rw [List.map_map]
  apply List.Nodup.map_on _ funct3Values_nodup
  intro funct3 hfunct3 funct3' hfunct3' hname
  have hlabels :
      label (((funct3Groups instructions).get? funct3).getD []) =
        label (((funct3Groups instructions).get? funct3').getD []) := by
    simpa using hname
  obtain ⟨named, hnamed, hfst, hlabel⟩ :=
    takeWhile_funct3Label hplain hfunct3
  obtain ⟨named', hnamed', hfst', hlabel'⟩ :=
    takeWhile_funct3Label hplain hfunct3'
  have hsnd : named.2 = named'.2 := by
    apply String.toList_inj.mp
    rw [← hlabel, hlabels, hlabel']
  have hsame := List.inj_on_of_nodup_map (funct3Names_nodup hnodup) hnamed
    hnamed' hsnd
  rw [← hfst, hsame, hfst']

end Labels

end Funct3

/-! ## Binary values -/

def IsOpcode (opcode : String) : Prop :=
  opcode.toList.length = 7 ∧ ∀ c ∈ opcode.toList, c = '0' ∨ c = '1'

def bit (c : Char) : ℕ := if c = '1' then 1 else 0

def appendBits (value : ℕ) (bits : List Char) : ℕ :=
  bits.foldl (fun value c => 2 * value + bit c) value

def binaryValue (opcode : String) : ℕ := appendBits 0 opcode.toList

theorem bit_le_one (c : Char) : bit c ≤ 1 := by
  unfold bit
  split_ifs <;> omega

theorem appendBits_lt_of_lt {bits bits' : List Char}
    (hlength : bits.length = bits'.length) {value value' : ℕ}
    (hlt : value < value') :
    appendBits value bits < appendBits value' bits' := by
  induction bits generalizing bits' value value' with
  | nil =>
      have hnil : bits' = [] := List.length_eq_zero_iff.mp hlength.symm
      subst hnil
      exact hlt
  | cons c rest ih =>
      cases bits' with
      | nil => exact absurd hlength (by simp)
      | cons c' rest' =>
          have hbit := bit_le_one c
          have hrest : rest.length = rest'.length := by simpa using hlength
          apply ih hrest
          change 2 * value + bit c < 2 * value' + bit c'
          omega

/-- On strings of one length the order of strings is the order of values. -/
theorem appendBits_lt {bits bits' : List Char} (value : ℕ)
    (hlength : bits.length = bits'.length)
    (hbits : ∀ c ∈ bits, c = '0' ∨ c = '1')
    (hbits' : ∀ c ∈ bits', c = '0' ∨ c = '1') (hlt : bits < bits') :
    appendBits value bits < appendBits value bits' := by
  induction bits generalizing bits' value with
  | nil =>
      have hnil : bits' = [] := List.length_eq_zero_iff.mp hlength.symm
      subst hnil
      exact absurd hlt (List.not_lt_nil _)
  | cons c rest ih =>
      cases bits' with
      | nil => exact absurd hlength (by simp)
      | cons c' rest' =>
          have hrest : rest.length = rest'.length := by simpa using hlength
          rcases List.cons_lt_cons_iff.mp hlt with hc | ⟨rfl, hlt'⟩
          · have hvalues : bit c < bit c' := by
              have hzero := hbits c (List.mem_cons_self ..)
              have hone := hbits' c' (List.mem_cons_self ..)
              rcases hzero with rfl | rfl <;> rcases hone with rfl | rfl
              · exact absurd hc (lt_irrefl _)
              · decide
              · exact absurd hc (by decide)
              · exact absurd hc (lt_irrefl _)
            apply appendBits_lt_of_lt hrest
            change 2 * value + bit c < 2 * value + bit c'
            omega
          · apply ih _ hrest _ _ hlt'
            · intro d hd
              exact hbits d (List.mem_cons_of_mem _ hd)
            · intro d hd
              exact hbits' d (List.mem_cons_of_mem _ hd)

theorem binaryValue_lt {opcode opcode' : String} (hop : IsOpcode opcode)
    (hop' : IsOpcode opcode') (hlt : opcode < opcode') :
    binaryValue opcode < binaryValue opcode' :=
  appendBits_lt 0 (hop.1.trans hop'.1.symm) hop.2 hop'.2
    (String.lt_iff_toList_lt.mp hlt)

/-! ## Consistency -/

structure OpcodeEnumsConsistent (instructions : List Instruction)
    (enums : List EnumEntry) : Prop where
  mem_values : ∀ opcode, opcode ∈ enums.map EnumEntry.value ↔
    ∃ instr ∈ instructions, instr.opcode = opcode
  increasing : (enums.map EnumEntry.value).Pairwise (· < ·)
  increasing_binary : (enums.map fun entry =>
    binaryValue entry.value).Pairwise (· < ·)
  name_eq : ∀ entry ∈ enums, entry.name = opcodeName entry.value
  names_nodup : (enums.map EnumEntry.name).Nodup
  instructions_perm : (enums.flatMap EnumEntry.instructions).Perm
    (instructions.map Instruction.name)

structure FormatCasesConsistent (instructions : List Instruction)
    (enums : List EnumEntry) (cases : List FormatCase) : Prop where
  names_eq : cases.map FormatCase.opcodeName = enums.map EnumEntry.name
  names_nodup : (cases.map FormatCase.opcodeName).Nodup
  format_eq :
    (∀ instr ∈ instructions, ∀ other ∈ instructions,
      instr.opcode = other.opcode → instr.type = other.type) →
    ∀ instr ∈ instructions,
      { opcodeName := opcodeName instr.opcode, format := instr.format } ∈
        cases

structure Funct3EnumsConsistent (instructions : List Instruction)
    (enums : List EnumEntry) : Prop where
  names_nodup : (enums.map EnumEntry.name).Nodup
  values_nodup : (enums.map EnumEntry.value).Nodup
  instructions_perm : (enums.flatMap EnumEntry.instructions).Perm
    ((instructions.filter fun instr =>
      instr.encoding.funct3.isSome).map Instruction.name)

section Consistency

variable (types : Types)

theorem parseInstructions_perm :
    (parseInstructions types).Perm (flatten types) :=
  Sorting.sortedBy_perm _ _

theorem parseInstructions_sorted :
    ((parseInstructions types).map Instruction.opcode).Pairwise (· ≤ ·) :=
  Sorting.map_sortedBy_pairwise _ _

theorem format_of_mem_flatten {types : Types} {instr : Instruction}
    (hinstr : instr ∈ flatten types) :
    instr.format = formatOfType instr.type := by
  obtain ⟨type, _, hmem⟩ := List.mem_flatMap.mp hinstr
  obtain ⟨entry, _, rfl⟩ := List.mem_map.mp hmem
  rfl

theorem opcodeEnumsConsistent
    (hopcodes : ∀ instr ∈ flatten types, IsOpcode instr.opcode) :
    OpcodeEnumsConsistent (flatten types)
      (buildOpcodeEnums (parseInstructions types)) := by
  have hperm := parseInstructions_perm types
  have hsorted := parseInstructions_sorted types
  have hvalues := opcodeEnums_values hsorted
  have hmem : ∀ opcode,
      opcode ∈ (buildOpcodeEnums (parseInstructions types)).map
          EnumEntry.value ↔
        ∃ instr ∈ flatten types, instr.opcode = opcode := by
    intro opcode
    rw [hvalues, List.mem_eraseDups, (hperm.map _).mem_iff, List.mem_map]
  have hincreasing :
      ((buildOpcodeEnums (parseInstructions types)).map
        EnumEntry.value).Pairwise (· < ·) := by
    rw [hvalues]
    exact FirstOccurrences.eraseDups_pairwise_lt hsorted
  have hvalid : ∀ opcode ∈
      (buildOpcodeEnums (parseInstructions types)).map EnumEntry.value,
        IsOpcode opcode := by
    intro opcode hopcode
    obtain ⟨instr, hinstr, rfl⟩ := (hmem opcode).mp hopcode
    exact hopcodes instr hinstr
  constructor
  · exact hmem
  · exact hincreasing
  · have hbinary :
        (((buildOpcodeEnums (parseInstructions types)).map
          EnumEntry.value).map binaryValue).Pairwise (· < ·) := by
      rw [List.pairwise_map]
      apply hincreasing.imp_of_mem
      intro opcode opcode' hopcode hopcode' hlt
      exact binaryValue_lt (hvalid opcode hopcode)
        (hvalid opcode' hopcode') hlt
    rw [List.map_map] at hbinary
    exact hbinary
  · intro entry hentry
    obtain ⟨opcode, _, rfl⟩ := List.mem_map.mp hentry
    rfl
  · rw [opcodeEnums_names hsorted]
    exact (FirstOccurrences.eraseDups_nodup _).map opcodeName_injective
  · exact (opcodeEnums_instructions_perm hsorted).trans (hperm.map _)

theorem formatCasesConsistent :
    FormatCasesConsistent (flatten types)
      (buildOpcodeEnums (parseInstructions types))
      (buildFormatCaseEntries (buildOpcodeEnums (parseInstructions types))
        (parseInstructions types)) := by
  have hperm := parseInstructions_perm types
  have hsorted := parseInstructions_sorted types
  constructor
  · rw [formatCases_names, opcodeEnums_names hsorted]
  · rw [formatCases_names]
    exact (FirstOccurrences.eraseDups_nodup _).map opcodeName_injective
  · intro htypes instr hinstr
    apply mem_formatCases (hperm.mem_iff.mpr hinstr)
    intro other hother hopcode
    have hother' := hperm.mem_iff.mp hother
    rw [format_of_mem_flatten hother', format_of_mem_flatten hinstr,
      htypes other hother' instr hinstr hopcode]

theorem funct3EnumsConsistent
    (hnodup : ((flatten types).map Instruction.name).Nodup)
    (hplain : ∀ instr ∈ flatten types, '_' ∉ instr.name.toList) :
    Funct3EnumsConsistent (flatten types)
      (buildFunct3Enums (parseInstructions types)) := by
  have hperm := parseInstructions_perm types
  have hnodup' : ((parseInstructions types).map Instruction.name).Nodup :=
    (hperm.map _).nodup_iff.mpr hnodup
  have hplain' : ∀ instr ∈ parseInstructions types,
      '_' ∉ instr.name.toList := by
    intro instr hinstr
    exact hplain instr (hperm.mem_iff.mp hinstr)
  constructor
  · exact funct3Enums_names_nodup hnodup' hplain'
  · rw [funct3Enums_values]
    exact funct3Values_nodup
  · exact funct3Enums_instructions_perm.trans
      ((hperm.filter _).map _)

end Consistency

/-- The tables which the generator emits are consistent, for every instruction
table with binary opcodes; the `funct3` enumeration is, if the instructions
have different names without underscores. -/
theorem generated_tables_consistent (types : Types)
    (hopcodes : ∀ instr ∈ flatten types, IsOpcode instr.opcode) :
    let instructions := parseInstructions types
    let enums := buildOpcodeEnums instructions
    OpcodeEnumsConsistent (flatten types) enums ∧
      FormatCasesConsistent (flatten types) enums
        (buildFormatCaseEntries enums instructions) ∧
      (((flatten types).map Instruction.name).Nodup →
        (∀ instr ∈ flatten types, '_' ∉ instr.name.toList) →
          Funct3EnumsConsistent (flatten types)
            (buildFunct3Enums instructions)) :=
  ⟨opcodeEnumsConsistent types hopcodes, formatCasesConsistent types,
    funct3EnumsConsistent types⟩

/-- `r32i_base_instruction.yaml`. -/
def r32iBaseInstruction : Types where
  entries :=
    [("R_type",
      { entries :=
          [("ADD", ⟨⟨"0110011", some "000", some "0000000"⟩,
              some "rd = rs1 + rs2"⟩),
            ("SUB", ⟨⟨"0110011", some "000", some "0100000"⟩,
              some "rd = rs1 - rs2"⟩),
            ("AND", ⟨⟨"0110011", some "111", some "0000000"⟩,
              some "rd = rs1 & rs2"⟩),
            ("OR", ⟨⟨"0110011", some "110", some "0000000"⟩,
              some "rd = rs1 | rs2"⟩),
            ("XOR", ⟨⟨"0110011", some "100", some "0000000"⟩,
              some "rd = rs1 ^ rs2"⟩)]
        nodup := by decide }),
      ("I_type",
      { entries :=
          [("ADDI", ⟨⟨"0010011", some "000", none⟩,
              some "rd = rs1 + imm"⟩),
            ("LW", ⟨⟨"0000011", some "010", none⟩,
              some "rd = M[ rs1 + imm ]"⟩)]
        nodup := by decide }),
      ("S_type",
      { entries :=
          [("SW", ⟨⟨"0100011", some "010", none⟩,
              some "M[ rs1 + imm ] = rs2"⟩)]
        nodup := by decide }),
      ("B_type",
      { entries :=
          [("BEQ", ⟨⟨"1100011", some "000", none⟩,
              some "if (rs1 == rs2) PC += imm"⟩),
            ("BNE", ⟨⟨"1100011", some "001", none⟩,
              some "if (rs1 != rs2) PC += imm"⟩)]
        nodup := by decide }),
      ("J_type",
      { entries :=
          [("JAL", ⟨⟨"1101111", none, none⟩,
              some "rd = PC + 4; PC += imm"⟩)]
        nodup := by decide })]
  nodup := by decide

instance (opcode : String) : Decidable (IsOpcode opcode) :=
  decidable_of_iff
    (opcode.toList.length = 7 ∧
      opcode.toList.all (fun c => c == '0' || c == '1') = true)
    (by simp [IsOpcode])

/-- The shipped table, with the names which `opcode_defines.sv` contains. -/
theorem generated_tables_consistent_of_r32iBaseInstruction :
    let instructions := parseInstructions r32iBaseInstruction
    let enums := buildOpcodeEnums instructions
    enums.map EnumEntry.name =
        ["LOAD", "OP_IMM", "STORE", "OP", "BRANCH", "JAL"] ∧
      (buildFunct3Enums instructions).map EnumEntry.name =
        ["FUNCT3_ADDI_ADD", "FUNCT3_BNE", "FUNCT3_LW_SW", "FUNCT3_XOR",
          "FUNCT3_OR", "FUNCT3_AND"] ∧
      OpcodeEnumsConsistent (flatten r32iBaseInstruction) enums ∧
      FormatCasesConsistent (flatten r32iBaseInstruction) enums
        (buildFormatCaseEntries enums instructions) ∧
      Funct3EnumsConsistent (flatten r32iBaseInstruction)
        (buildFunct3Enums instructions) := by
  intro instructions enums
  obtain ⟨henums, hcases, hfunct3⟩ :=
    generated_tables_consistent r32iBaseInstruction (by decide)
  refine ⟨by decide, by decide, henums, hcases, ?_⟩
  exact hfunct3 (by decide) (by decide)

end Generator
end RiscvLogism
