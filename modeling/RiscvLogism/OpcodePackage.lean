import RiscvLogism.ImmediateEncoding
import RiscvLogism.OpcodeTables
import Mathlib.Data.List.Find

/-!
# The generated package

`opcode_defines_template.sv.j2` over the tables of the generator: what the
rendered package declares and what its function `get_format` returns.  The
package compiles, `get_format` knows every opcode of the table, and the
shipped package describes the decoder of the core.
-/

namespace RiscvLogism
namespace Generator

/-! ## The template -/

/-- `instr_format_t`. -/
inductive InstrFormat where
  | r
  | i
  | s
  | b
  | u
  | j
  | unknown
  deriving DecidableEq, Repr

def InstrFormat.enumerators : List (String × InstrFormat) :=
  [("FORMAT_R", .r), ("FORMAT_I", .i), ("FORMAT_S", .s), ("FORMAT_B", .b),
    ("FORMAT_U", .u), ("FORMAT_J", .j), ("FORMAT_UNKNOWN", .unknown)]

/-- A name of a format in the package. -/
def InstrFormat.ofName (name : String) : Option InstrFormat :=
  InstrFormat.enumerators.lookup name

/-- The literal `w'b` with the given digits. -/
def literal (w : ℕ) (digits : String) : BitVec w :=
  BitVec.ofNat w (binaryValue digits)

/-- What `main` renders the template with, as far as the code of the package
depends on it. -/
structure Package where
  opcodeEnums : List EnumEntry
  funct3Enums : List EnumEntry
  instructions : List Instruction
  formatCases : List FormatCase

def package (types : Types) : Package :=
  let instructions := parseInstructions types
  let opcodeEnums := buildOpcodeEnums instructions
  { opcodeEnums := opcodeEnums
    funct3Enums := buildFunct3Enums instructions
    instructions := instructions
    formatCases := buildFormatCaseEntries opcodeEnums instructions }

namespace Package

/-- The value of the enumerator `OPCODE_` followed by the name. -/
def opcode (package : Package) (name : String) : Option (BitVec 7) :=
  (package.opcodeEnums.find? fun entry => entry.name = name).map
    fun entry => literal 7 entry.value

/-- The result is open where the package uses a name it does not declare. -/
def getFormat (package : Package) (op : BitVec 7) : Option InstrFormat :=
  match package.formatCases.find? fun entry =>
      package.opcode entry.opcodeName = some op with
  | some entry => InstrFormat.ofName entry.format
  | none => some .i

/-- The types of the package and its function. -/
def ownNames : List String :=
  ["instr_format_t", "opcode_t", "funct3_t", "get_format"]

end Package

/-- The names of the local parameters of an instruction. -/
def Instruction.localparams (instr : Instruction) : List String :=
  [instr.name ++ "_OPCODE"] ++
    (if instr.hasFunct3 then [instr.name ++ "_FUNCT3"] else []) ++
    (if instr.hasFunct7 then [instr.name ++ "_FUNCT7"] else []) ++
    [instr.name ++ "_FORMAT"]

/-- All names which the package declares. -/
def Package.identifiers (package : Package) : List String :=
  Package.ownNames ++ InstrFormat.enumerators.map Prod.fst ++
    package.opcodeEnums.map (fun entry => "OPCODE_" ++ entry.name) ++
    package.funct3Enums.map EnumEntry.name ++
    package.instructions.flatMap Instruction.localparams

/-! ## Literals -/

theorem appendBits_bound (value : ℕ) (bits : List Char) :
    appendBits value bits < (value + 1) * 2 ^ bits.length := by
  induction bits generalizing value with
  | nil => simp [appendBits]
  | cons c rest ih =>
      have hbit := bit_le_one c
      have hrest := ih (2 * value + bit c)
      have hvalue : 2 * value + bit c + 1 ≤ (value + 1) * 2 := by omega
      calc
        appendBits value (c :: rest) =
            appendBits (2 * value + bit c) rest := rfl
        _ < (2 * value + bit c + 1) * 2 ^ rest.length := hrest
        _ ≤ (value + 1) * 2 * 2 ^ rest.length :=
          Nat.mul_le_mul_right _ hvalue
        _ = (value + 1) * 2 ^ (c :: rest).length := by
          rw [List.length_cons, Nat.pow_succ', Nat.mul_assoc]

theorem literal_toNat {opcode : String} (hop : IsOpcode opcode) :
    (literal 7 opcode).toNat = binaryValue opcode := by
  have hbound : binaryValue opcode < (0 + 1) * 2 ^ opcode.toList.length :=
    appendBits_bound 0 opcode.toList
  rw [hop.1] at hbound
  rw [literal, BitVec.toNat_ofNat]
  exact Nat.mod_eq_of_lt (by simpa using hbound)

theorem literal_injOn {opcode opcode' : String} (hop : IsOpcode opcode)
    (hop' : IsOpcode opcode') :
    literal 7 opcode = literal 7 opcode' ↔ opcode = opcode' := by
  constructor
  · intro hliteral
    have hvalue : binaryValue opcode = binaryValue opcode' := by
      rw [← literal_toNat hop, hliteral, literal_toNat hop']
    rcases lt_trichotomy opcode opcode' with hlt | heq | hgt
    · exact absurd hvalue (binaryValue_lt hop hop' hlt).ne
    · exact heq
    · exact absurd hvalue.symm (binaryValue_lt hop' hop hgt).ne
  · intro heq
    rw [heq]

/-! ## `get_format` -/

section GetFormat

variable {types : Types}

theorem opcodeToFormat_get? (opcode : String) :
    (opcodeToFormat (parseInstructions types)).get? (opcodeName opcode) =
      ((flatten types).filter fun instr =>
        instr.opcode = opcode).getLast?.map Instruction.format := by
  have hget :
      (opcodeToFormat (parseInstructions types)).get? (opcodeName opcode) =
        ((parseInstructions types).filter fun instr =>
          opcodeName instr.opcode = opcodeName opcode).getLast?.map
            Instruction.format :=
    OrderedDict.get?_foldl_set
      (fun instr : Instruction => opcodeName instr.opcode)
      Instruction.format _ _
  simp only [opcodeName_injective.eq_iff] at hget
  rw [hget]
  exact congrArg (fun instrs => instrs.getLast?.map Instruction.format)
    (Sorting.filter_sortedBy Instruction.opcode opcode (flatten types))

theorem formatCases_find? (opcode : String) :
    ((package types).formatCases.find? fun entry =>
        entry.opcodeName = opcodeName opcode).map FormatCase.format =
      ((flatten types).filter fun instr =>
        instr.opcode = opcode).getLast?.map Instruction.format := by
  rw [← opcodeToFormat_get?, OrderedDict.get?_eq_find?]
  change ((((opcodeToFormat _).entries.map _).find? _).map _) = _
  rw [List.find?_map, Option.map_map]
  rfl

theorem exists_of_formatCase {entry : FormatCase}
    (hentry : entry ∈ (package types).formatCases) :
    ∃ instr ∈ flatten types, entry.opcodeName = opcodeName instr.opcode ∧
      entry.format = instr.format := by
  have hnames :
      (package types).formatCases.map FormatCase.opcodeName =
        ((parseInstructions types).map Instruction.opcode).eraseDups.map
          opcodeName :=
    formatCases_names
  have hname := List.mem_map_of_mem (f := FormatCase.opcodeName) hentry
  rw [hnames] at hname
  obtain ⟨opcode, _, hopcode⟩ := List.mem_map.mp hname
  obtain ⟨⟨name, format⟩, hmem, rfl⟩ := List.mem_map.mp hentry
  obtain rfl : opcodeName opcode = name := hopcode
  have hget := (OrderedDict.get?_eq_some_iff _).mpr hmem
  rw [opcodeToFormat_get?] at hget
  obtain ⟨instr, hlast, rfl⟩ := Option.map_eq_some_iff.mp hget
  obtain ⟨hinstr, hsame⟩ :=
    List.mem_filter.mp (List.mem_of_getLast? hlast)
  refine ⟨instr, hinstr, ?_, rfl⟩
  rw [of_decide_eq_true hsame]

variable (hopcodes : ∀ instr ∈ flatten types, IsOpcode instr.opcode)

include hopcodes

theorem package_opcode {instr : Instruction}
    (hinstr : instr ∈ flatten types) :
    (package types).opcode (opcodeName instr.opcode) =
      some (literal 7 instr.opcode) := by
  have henums := opcodeEnumsConsistent types hopcodes
  have hvalue : instr.opcode ∈
      (package types).opcodeEnums.map EnumEntry.value :=
    (henums.mem_values _).mpr ⟨instr, hinstr, rfl⟩
  obtain ⟨entry, hentry, hopcode⟩ := List.mem_map.mp hvalue
  have hfound : ((package types).opcodeEnums.find? fun entry =>
      entry.name = opcodeName instr.opcode).isSome = true := by
    rw [List.find?_isSome]
    refine ⟨entry, hentry, decide_eq_true ?_⟩
    rw [henums.name_eq entry hentry, hopcode]
  obtain ⟨found, hfind⟩ := Option.isSome_iff_exists.mp hfound
  have hname : found.name = opcodeName instr.opcode := by
    simpa using List.find?_some hfind
  have hmem := List.mem_of_find?_eq_some hfind
  rw [henums.name_eq found hmem] at hname
  rw [Package.opcode, hfind, Option.map_some, opcodeName_injective hname]

theorem package_opcode_eq_iff {instr : Instruction}
    (hinstr : instr ∈ flatten types) {entry : FormatCase}
    (hentry : entry ∈ (package types).formatCases) :
    (package types).opcode entry.opcodeName = some (literal 7 instr.opcode) ↔
      entry.opcodeName = opcodeName instr.opcode := by
  obtain ⟨other, hother, hname, _⟩ := exists_of_formatCase hentry
  rw [hname, package_opcode hopcodes hother, Option.some_inj,
    literal_injOn (hopcodes other hother) (hopcodes instr hinstr),
    opcodeName_injective.eq_iff]

omit hopcodes in
theorem formats_declared {instr : Instruction}
    (hinstr : instr ∈ flatten types) :
    (InstrFormat.ofName instr.format).isSome = true := by
  have hall : ∀ entry ∈ typeToFormat.entries,
      (InstrFormat.ofName entry.2).isSome = true := by decide
  rw [format_of_mem_flatten hinstr, formatOfType]
  cases hget : typeToFormat.get? instr.type with
  | none => decide
  | some format =>
      exact hall _ (OrderedDict.mem_entries_of_get? _ hget)

theorem getFormat_of_mem {instr : Instruction}
    (hinstr : instr ∈ flatten types) :
    ∃ last, ((flatten types).filter fun other =>
        other.opcode = instr.opcode).getLast? = some last ∧
      (package types).getFormat (literal 7 instr.opcode) =
        InstrFormat.ofName last.format := by
  have hlabels :
      ((package types).formatCases.find? fun entry =>
        (package types).opcode entry.opcodeName =
          some (literal 7 instr.opcode)) =
        (package types).formatCases.find? fun entry =>
          entry.opcodeName = opcodeName instr.opcode := by
    apply List.find?_congr
    intro entry hentry
    exact decide_eq_decide.mpr (package_opcode_eq_iff hopcodes hinstr hentry)
  have hformat := @formatCases_find? types instr.opcode
  cases hlast : ((flatten types).filter fun other =>
      other.opcode = instr.opcode).getLast? with
  | none =>
      have hmem : instr ∈ (flatten types).filter fun other =>
          other.opcode = instr.opcode :=
        List.mem_filter.mpr ⟨hinstr, by simp⟩
      rw [List.getLast?_eq_none_iff.mp hlast] at hmem
      exact absurd hmem List.not_mem_nil
  | some last =>
      rw [hlast] at hformat
      obtain ⟨entry, hfind, hsame⟩ := Option.map_eq_some_iff.mp hformat
      refine ⟨last, rfl, ?_⟩
      rw [Package.getFormat, hlabels, hfind, ← hsame]

/-- For every table with binary opcodes the labels and the results of the case
statement are declared in the package, and `get_format` returns the format of
the last instruction of the table with the opcode, `FORMAT_I` for an opcode of
no instruction. -/
theorem get_format_eq_last (op : BitVec 7) :
    (∀ entry ∈ (package types).formatCases,
      ((package types).opcode entry.opcodeName).isSome = true ∧
        (InstrFormat.ofName entry.format).isSome = true) ∧
    (package types).getFormat op =
      match ((flatten types).filter fun instr =>
          literal 7 instr.opcode = op).getLast? with
      | some instr => InstrFormat.ofName instr.format
      | none => some .i := by
  constructor
  · intro entry hentry
    obtain ⟨instr, hinstr, hname, hformat⟩ := exists_of_formatCase hentry
    rw [hname, hformat, package_opcode hopcodes hinstr]
    exact ⟨rfl, formats_declared hinstr⟩
  · by_cases hknown : ∃ instr ∈ flatten types, literal 7 instr.opcode = op
    · obtain ⟨instr, hinstr, rfl⟩ := hknown
      obtain ⟨last, hlast, hformat⟩ := getFormat_of_mem hopcodes hinstr
      have hsame :
          ((flatten types).filter fun other =>
            literal 7 other.opcode = literal 7 instr.opcode) =
          (flatten types).filter fun other =>
            other.opcode = instr.opcode := by
        apply List.filter_congr
        intro other hother
        exact decide_eq_decide.mpr
          (literal_injOn (hopcodes other hother) (hopcodes instr hinstr))
      rw [hsame, hlast, hformat]
    · have hnone :
          ((flatten types).filter fun instr =>
            literal 7 instr.opcode = op) = [] := by
        rw [List.filter_eq_nil_iff]
        intro instr hinstr hop
        exact hknown ⟨instr, hinstr, of_decide_eq_true hop⟩
      have hlabels :
          ((package types).formatCases.find? fun entry =>
            (package types).opcode entry.opcodeName = some op) = none := by
        rw [List.find?_eq_none]
        intro entry hentry hop
        obtain ⟨instr, hinstr, hname, _⟩ := exists_of_formatCase hentry
        have hvalue := of_decide_eq_true hop
        rw [hname, package_opcode hopcodes hinstr] at hvalue
        exact hknown ⟨instr, hinstr, Option.some.inj hvalue⟩
      rw [hnone, Package.getFormat, hlabels]
      rfl

omit hopcodes in
/-- The opcode of the two branches of the shipped table. -/
theorem get_format_eq_last_of_branch :
    let shipped := package r32iBaseInstruction
    (∀ entry ∈ shipped.formatCases,
      (shipped.opcode entry.opcodeName).isSome = true ∧
        (InstrFormat.ofName entry.format).isSome = true) ∧
    shipped.getFormat 0b1100011#7 =
      match ((flatten r32iBaseInstruction).filter fun instr =>
          literal 7 instr.opcode = 0b1100011#7).getLast? with
      | some instr => InstrFormat.ofName instr.format
      | none => some .i :=
  @get_format_eq_last r32iBaseInstruction (by decide) 0b1100011#7

end GetFormat

/-! ## Names -/

section Names

def beforeUnderscore (name : String) : List Char :=
  name.toList.takeWhile fun c => c ≠ '_'

def afterUnderscore (name : String) : List Char :=
  (name.toList.dropWhile fun c => c ≠ '_').tail

section Split

variable {before : String} (after : String)
  (hplain : '_' ∉ before.toList)

include hplain

theorem before_all : ∀ c ∈ before.toList, decide (c ≠ '_') = true := by
  intro c hc
  apply decide_eq_true
  rintro rfl
  exact hplain hc

theorem beforeUnderscore_append :
    beforeUnderscore (before ++ "_" ++ after) = before.toList := by
  rw [beforeUnderscore, String.toList_append, String.toList_append,
    List.append_assoc, List.takeWhile_append_of_pos (before_all hplain)]
  exact List.append_nil _

theorem afterUnderscore_append :
    afterUnderscore (before ++ "_" ++ after) = after.toList := by
  rw [afterUnderscore, String.toList_append, String.toList_append,
    List.append_assoc, List.dropWhile_append_of_pos (before_all hplain)]
  rfl

end Split

def suffixes : List String := ["OPCODE", "FUNCT3", "FUNCT7", "FORMAT"]

theorem exists_suffixes (instr : Instruction) :
    ∃ kept : List String, kept.Sublist suffixes ∧
      instr.localparams = kept.map fun suffix =>
        instr.name ++ "_" ++ suffix := by
  have hjoin : ∀ suffix : String,
      instr.name ++ "_" ++ suffix = instr.name ++ ("_" ++ suffix) :=
    fun suffix => String.append_assoc
  refine ⟨["OPCODE"] ++ (if instr.hasFunct3 then ["FUNCT3"] else []) ++
    (if instr.hasFunct7 then ["FUNCT7"] else []) ++ ["FORMAT"], ?_, ?_⟩
  · cases instr.hasFunct3 <;> cases instr.hasFunct7 <;> decide
  · unfold Instruction.localparams
    simp only [hjoin]
    cases instr.hasFunct3 <;> cases instr.hasFunct7 <;> rfl

theorem localparams_nodup (instr : Instruction) :
    instr.localparams.Nodup := by
  obtain ⟨kept, hkept, heq⟩ := exists_suffixes instr
  have hsuffixes : suffixes.Nodup := by decide
  rw [heq]
  apply (hsuffixes.sublist hkept).map
  intro suffix suffix' hsame
  simpa using hsame

theorem mem_localparams {instr : Instruction} {name : String}
    (hmem : name ∈ instr.localparams) :
    ∃ suffix ∈ suffixes, name = instr.name ++ "_" ++ suffix := by
  obtain ⟨kept, hkept, heq⟩ := exists_suffixes instr
  rw [heq] at hmem
  obtain ⟨suffix, hsuffix, rfl⟩ := List.mem_map.mp hmem
  exact ⟨suffix, hkept.subset hsuffix, rfl⟩

theorem opcodeName_not_suffix (opcode : String) :
    opcodeName opcode ∉ suffixes := by
  cases hget : opcodeToName.get? opcode with
  | none =>
      have hprefix : ∀ suffix ∈ suffixes,
          ¬ "OPCODE_".toList <+: suffix.toList := by decide
      rw [opcodeName, hget]
      intro hmem
      apply hprefix _ hmem
      rw [Option.getD_none, String.toList_append]
      exact List.prefix_append _ _
  | some name =>
      obtain ⟨heq, hmem⟩ := opcodeName_of_get? hget
      have hall : ∀ entry ∈ opcodeToName.entries, entry.2 ∉ suffixes := by
        decide
      rw [heq]
      exact hall _ hmem

section Identifiers

variable {types : Types}

theorem beforeUnderscore_opcode (name : String) :
    beforeUnderscore ("OPCODE_" ++ name) = "OPCODE".toList := by
  have hjoin : "OPCODE_" = "OPCODE" ++ "_" := by decide
  rw [hjoin]
  exact beforeUnderscore_append name (by decide)

theorem afterUnderscore_opcode (name : String) :
    afterUnderscore ("OPCODE_" ++ name) = name.toList := by
  have hjoin : "OPCODE_" = "OPCODE" ++ "_" := by decide
  rw [hjoin]
  exact afterUnderscore_append name (by decide)

theorem beforeUnderscore_funct3 {name : String}
    (hmem : name ∈ (package types).funct3Enums.map EnumEntry.name) :
    beforeUnderscore name = "FUNCT3".toList := by
  obtain ⟨entry, hentry, rfl⟩ := List.mem_map.mp hmem
  obtain ⟨funct3, _, rfl⟩ := List.mem_map.mp hentry
  have hjoin : "FUNCT3_" = "FUNCT3" ++ "_" := by decide
  dsimp only
  rw [hjoin]
  exact beforeUnderscore_append _ (by decide)

/-- A fixed name of the package. -/
def fixedNames : List String :=
  Package.ownNames ++ InstrFormat.enumerators.map Prod.fst

theorem fixedNames_apart :
    fixedNames.Nodup ∧ ∀ name ∈ fixedNames,
      beforeUnderscore name ≠ "OPCODE".toList ∧
        beforeUnderscore name ≠ "FUNCT3".toList ∧
        afterUnderscore name ∉ suffixes.map String.toList := by
  decide

variable (hplain : ∀ instr ∈ flatten types, '_' ∉ instr.name.toList)

include hplain

theorem localparams_apart {name : String}
    (hmem : name ∈
      (package types).instructions.flatMap Instruction.localparams) :
    (∃ instr ∈ flatten types,
      beforeUnderscore name = instr.name.toList) ∧
      afterUnderscore name ∈ suffixes.map String.toList := by
  obtain ⟨instr, hinstr, hname⟩ := List.mem_flatMap.mp hmem
  obtain ⟨suffix, hsuffix, rfl⟩ := mem_localparams hname
  have hinstr' := (parseInstructions_perm types).mem_iff.mp hinstr
  rw [beforeUnderscore_append _ (hplain instr hinstr'),
    afterUnderscore_append _ (hplain instr hinstr')]
  exact ⟨⟨instr, hinstr', rfl⟩, List.mem_map_of_mem hsuffix⟩

theorem flatMap_localparams_nodup
    (hnodup : ((flatten types).map Instruction.name).Nodup) :
    ((package types).instructions.flatMap
      Instruction.localparams).Nodup := by
  have hnames :
      ((package types).instructions.map Instruction.name).Nodup :=
    ((parseInstructions_perm types).map _).nodup_iff.mpr hnodup
  have hplain' : ∀ instr ∈ (package types).instructions,
      '_' ∉ instr.name.toList := by
    intro instr hinstr
    exact hplain instr ((parseInstructions_perm types).mem_iff.mp hinstr)
  rw [List.nodup_flatMap]
  refine ⟨fun instr _ => localparams_nodup instr, ?_⟩
  apply (List.pairwise_map.mp hnames).imp_of_mem
  intro instr instr' hinstr hinstr' hne name hname hname'
  obtain ⟨suffix, _, rfl⟩ := mem_localparams hname
  obtain ⟨suffix', _, hsame⟩ := mem_localparams hname'
  have hbefore := congrArg beforeUnderscore hsame
  rw [beforeUnderscore_append _ (hplain' instr hinstr),
    beforeUnderscore_append _ (hplain' instr' hinstr')] at hbefore
  exact hne (String.toList_inj.mp hbefore)

/-- The package declares no name twice, for every table with binary opcodes
and different names without underscores, none of which is `FUNCT3`. -/
theorem package_identifiers_nodup
    (hopcodes : ∀ instr ∈ flatten types, IsOpcode instr.opcode)
    (hnodup : ((flatten types).map Instruction.name).Nodup)
    (hfunct3 : ∀ instr ∈ flatten types, instr.name ≠ "FUNCT3") :
    (package types).identifiers.Nodup := by
  have henums := opcodeEnumsConsistent types hopcodes
  have hfunct3Enums := funct3EnumsConsistent types hnodup hplain
  obtain ⟨hfixed, hapart⟩ := fixedNames_apart
  have hopcodeNames :
      ((package types).opcodeEnums.map fun entry =>
        "OPCODE_" ++ entry.name).Nodup := by
    have hmap := henums.names_nodup.map
      (f := fun name : String => "OPCODE_" ++ name) (by
        intro name name' hsame
        simpa using hsame)
    rw [List.map_map] at hmap
    exact hmap
  have hopcode : ∀ name ∈ (package types).opcodeEnums.map
      (fun entry => "OPCODE_" ++ entry.name),
        beforeUnderscore name = "OPCODE".toList ∧
          afterUnderscore name ∉ suffixes.map String.toList := by
    intro name hname
    obtain ⟨entry, hentry, rfl⟩ := List.mem_map.mp hname
    refine ⟨beforeUnderscore_opcode _, ?_⟩
    rw [afterUnderscore_opcode, henums.name_eq entry hentry,
      List.mem_map_of_injective fun _ _ => String.toList_inj.mp]
    exact opcodeName_not_suffix _
  have hothers :
      ((fixedNames ++ (package types).opcodeEnums.map fun entry =>
        "OPCODE_" ++ entry.name) ++
          (package types).funct3Enums.map EnumEntry.name).Nodup := by
    refine List.Nodup.append (hfixed.append hopcodeNames ?_)
      hfunct3Enums.names_nodup ?_
    · intro name hname hname'
      exact (hapart name hname).1 (hopcode name hname').1
    · intro name hname hname'
      have hbefore := beforeUnderscore_funct3 hname'
      rcases List.mem_append.mp hname with hname | hname
      · exact (hapart name hname).2.1 hbefore
      · rw [(hopcode name hname).1] at hbefore
        contradiction
  refine hothers.append (flatMap_localparams_nodup hplain hnodup) ?_
  intro name hname hname'
  obtain ⟨⟨instr, hinstr, hbefore⟩, hafter⟩ :=
    localparams_apart hplain hname'
  rcases List.mem_append.mp hname with hname | hname
  · rcases List.mem_append.mp hname with hname | hname
    · exact (hapart name hname).2.2 hafter
    · exact (hopcode name hname).2 hafter
  · rw [beforeUnderscore_funct3 hname] at hbefore
    exact hfunct3 instr hinstr (String.toList_inj.mp hbefore.symm)

omit hplain in
theorem package_identifiers_nodup_of_r32iBaseInstruction :
    (package r32iBaseInstruction).identifiers.Nodup :=
  @package_identifiers_nodup r32iBaseInstruction (by decide) (by decide)
    (by decide) (by decide)

end Identifiers

end Names

/-! ## The shipped package -/

section Shipped

/-- The name of an instruction in `r32i_base_instruction.yaml`, which lists
neither shifts nor comparisons. -/
def mnemonic : Isa.Instr → Option String
  | .op .add .. => some "ADD"
  | .op .sub .. => some "SUB"
  | .op .and .. => some "AND"
  | .op .or .. => some "OR"
  | .op .xor .. => some "XOR"
  | .op .sll .. | .op .slt .. | .op .sltu .. | .op .srl .. | .op .sra .. =>
      none
  | .addi .. => some "ADDI"
  | .lw .. => some "LW"
  | .sw .. => some "SW"
  | .beq .. => some "BEQ"
  | .bne .. => some "BNE"
  | .jal .. => some "JAL"

/-- The fields are those in the local parameters of the instruction. -/
def Instruction.admits (instr : Instruction) (opcode : BitVec 7)
    (funct3 : BitVec 3) (funct7 : BitVec 7) : Bool :=
  opcode == literal 7 instr.opcode &&
    (instr.encoding.funct3.all fun digits => funct3 == literal 3 digits) &&
    instr.encoding.funct7.all fun digits => funct7 == literal 7 digits

def Instruction.matchesWord (instr : Instruction) (word : Word) : Bool :=
  instr.admits (Isa.opcode word) (Isa.funct3 word) (Isa.funct7 word)

def admitted (opcode : BitVec 7) (funct3 : BitVec 3) (funct7 : BitVec 7) :
    List String :=
  ((package r32iBaseInstruction).instructions.filter fun instr =>
    instr.admits opcode funct3 funct7).map Instruction.name

theorem admitted_op (funct3 : BitVec 3) (funct7 : BitVec 7) :
    admitted 0b0110011#7 funct3 funct7 =
      ((Isa.regOp funct3 funct7).bind fun operation =>
        mnemonic (.op operation 0#5 0#5 0#5)).toList := by
  revert funct3 funct7
  decide +kernel

theorem admitted_of_not_op {opcode : BitVec 7}
    (hop : opcode ≠ 0b0110011#7) (funct3 : BitVec 3) (funct7 : BitVec 7) :
    admitted opcode funct3 funct7 = admitted opcode funct3 0#7 := by
  have hplain : ∀ instr ∈ (package r32iBaseInstruction).instructions,
      literal 7 instr.opcode = 0b0110011#7 ∨
        instr.encoding.funct7 = none := by
    decide +kernel
  unfold admitted
  congr 1
  apply List.filter_congr
  intro instr hinstr
  rcases hplain instr hinstr with hliteral | hnone
  · have hother : (opcode == literal 7 instr.opcode) = false := by
      rw [hliteral]
      exact beq_false_of_ne hop
    simp [Instruction.admits, hother]
  · simp [Instruction.admits, hnone]

theorem admitted_not_op (opcode : BitVec 7) (funct3 : BitVec 3)
    (hop : opcode ≠ 0b0110011#7) :
    admitted opcode funct3 0#7 =
      if opcode = 0b0010011#7 then
        if funct3 = 0b000#3 then ["ADDI"] else []
      else if opcode = 0b0000011#7 then
        if funct3 = 0b010#3 then ["LW"] else []
      else if opcode = 0b0100011#7 then
        if funct3 = 0b010#3 then ["SW"] else []
      else if opcode = 0b1100011#7 then
        if funct3 = 0b000#3 then ["BEQ"]
        else if funct3 = 0b001#3 then ["BNE"] else []
      else if opcode = 0b1101111#7 then ["JAL"]
      else [] := by
  revert opcode funct3
  decide +kernel

theorem getFormat_shipped (op : BitVec 7) :
    (package r32iBaseInstruction).getFormat op =
      if op = 0b0110011#7 then some .r
      else if op = 0b0100011#7 then some .s
      else if op = 0b1100011#7 then some .b
      else if op = 0b1101111#7 then some .j
      else some .i := by
  revert op
  decide +kernel

theorem immOut_of_default {word : Word}
    (hs : Isa.opcode word ≠ 0b0100011#7)
    (hb : Isa.opcode word ≠ 0b1100011#7)
    (hj : Isa.opcode word ≠ 0b1101111#7) :
    Main.immOut word = Isa.Format.i.immediate word := by
  have hplain : (controlUnit word).branch = false ∧
      (controlUnit word).jump = false ∧
      (controlUnit word).memWrite = false := by
    by_cases hknown : ControlUnit.KnownOpcode (ControlUnit.opcode word)
    · rcases hknown with hop | hop | hop | hop | hop | hop
      · rw [ControlUnit.controlUnit_rtype hop]
        exact ⟨rfl, rfl, rfl⟩
      · rw [ControlUnit.controlUnit_itype hop]
        exact ⟨rfl, rfl, rfl⟩
      · rw [ControlUnit.controlUnit_loadType hop]
        exact ⟨rfl, rfl, rfl⟩
      · exact absurd hop hs
      · exact absurd hop hb
      · exact absurd hop hj
    · by_cases hzero : word = 0#32
      · rw [hzero]
        exact ⟨rfl, rfl, rfl⟩
      · rw [ControlUnit.controlUnit_unknown hzero hknown]
        exact ⟨rfl, rfl, rfl⟩
  obtain ⟨hbranch, hjump, hwrite⟩ := hplain
  rw [Main.immOut, hbranch, hjump, hwrite]
  exact ImmGen.immGen_itype word

/-- The shipped package describes the decoder of the core: the local
parameters of at most one instruction fit a word, those of the instruction
which the word encodes, and `get_format` names the layout from which the
immediate is gathered, for the opcodes without an enumerator too.  For
`FORMAT_R`, which has no immediate, it is gathered as for `FORMAT_I`. -/
theorem shipped_package_describes_decoder (word : Word) :
    ((package r32iBaseInstruction).instructions.filter fun instr =>
        instr.matchesWord word).map Instruction.name =
      ((Isa.decode word).bind mnemonic).toList ∧
    Main.immOut word =
      match (package r32iBaseInstruction).getFormat (Isa.opcode word) with
      | some .s => Isa.Format.s.immediate word
      | some .b => Isa.Format.b.immediate word
      | some .j => Isa.Format.j.immediate word
      | _ => Isa.Format.i.immediate word := by
  constructor
  · change admitted (Isa.opcode word) (Isa.funct3 word) (Isa.funct7 word) = _
    by_cases hop : Isa.opcode word = 0b0110011#7
    · rw [hop, admitted_op, Isa.decode, if_pos hop]
      cases Isa.regOp (Isa.funct3 word) (Isa.funct7 word) with
      | none => rfl
      | some operation => cases operation <;> rfl
    · rw [admitted_of_not_op hop, admitted_not_op _ _ hop, Isa.decode,
        if_neg hop]
      split_ifs <;> rfl
  · rw [getFormat_shipped]
    split_ifs with hr hs hb hj
    · exact immOut_of_default (by rw [hr]; decide) (by rw [hr]; decide)
        (by rw [hr]; decide)
    · exact Bench.immOut_stype hs
    · exact Bench.immOut_btype hb
    · exact Bench.immOut_jtype hj
    · exact immOut_of_default hs hb hj

end Shipped

end Generator
end RiscvLogism
