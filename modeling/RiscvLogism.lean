import RiscvLogism.IsaRefinement
import RiscvLogism.FetchInvariant
import RiscvLogism.PcAssertions
import RiscvLogism.ResetDeterminism
import RiscvLogism.JumpAndLink
import RiscvLogism.PartialDecode
import RiscvLogism.StallTransparency
import RiscvLogism.BoardAgreement
import RiscvLogism.BoardLoads
import RiscvLogism.AluCorrectness
import RiscvLogism.ImmediateEncoding
import RiscvLogism.PcAlignment
import RiscvLogism.SummationProgram
import RiscvLogism.OpcodeGenerator
import RiscvLogism.OpcodeTables
import RiscvLogism.CoreRuns
import RiscvLogism.BoardSemantics
import RiscvLogism.LoadPriming
import RiscvLogism.BoardSafety
import RiscvLogism.BoardProgram
import RiscvLogism.TestBenchCpu
import RiscvLogism.CircuitParts
import RiscvLogism.LogisimModel
import RiscvLogism.LogisimAgreement
import RiscvLogism.LogisimRuns
import RiscvLogism.CoreAssertions
import RiscvLogism.OpcodePackage
import RiscvLogism.LogisimProgram
import RiscvLogism.SocIsolation
import RiscvLogism.SocPrograms
