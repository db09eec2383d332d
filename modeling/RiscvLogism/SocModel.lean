import RiscvLogism.BoardModel

/-!
# The core and the processor system

`soc_system` puts two masters on each of the on-chip memories: the core, on
the second ports, and the processor system, on the first ones.  Both ports
have the same clock.  The memory block leaves open what a port reads from a
word which the other port writes at the same edge, and what remains of a word
which both write; these values accompany the edge.  The program memory has
4096 words, so that its port drops the highest bit of the address of the core.
-/

namespace RiscvLogism
namespace Soc

/-! ## On-chip memories with two ports -/

/-- The inputs of one port. -/
structure Port (n : ℕ) where
  address : BitVec n
  byteenable : BitVec 4
  chipselect : Bool
  clken : Bool
  resetReq : Bool
  write : Bool
  writedata : Word

namespace Port

variable {n : ℕ} (port : Port n)

def wren : Bool := port.chipselect && port.write

def clocken : Bool := port.clken && !port.resetReq

/-- The port writes the word at an index. -/
def writes (index : BitVec n) : Bool :=
  port.clocken && port.wren && port.address == index

end Port

/-- A word of which the enabled byte lanes are new. -/
def lanes (byteenable : BitVec 4) (old new : Word) : Word :=
  let lane := fun k => if byteenable.getLsbD k then
    new.extractLsb' (8 * k) 8 else old.extractLsb' (8 * k) 8
  lane 3 ++ lane 2 ++ lane 1 ++ lane 0

/-- What the memory block makes of accesses of both ports to one word. -/
structure Collision where
  read : Word
  read2 : Word
  written : Word

/-- `soc_system_onchip_memory2_0` and `soc_system_onchip_memory2_1`. -/
structure DualPort (n : ℕ) where
  mem : BitVec n → Word
  readdata : Word
  readdata2 : Word

namespace DualPort

variable {n : ℕ}

/-- What a port shows after an edge.  The lanes which it does not write
itself are open too if it shows the new data. -/
def shown (mode : ReadDuringWrite) (mem : BitVec n → Word)
    (own other : Port n) (held collision : Word) : Word :=
  if own.clocken then
    if other.writes own.address then collision
    else if own.wren then
      match mode with
      | .newData => lanes own.byteenable collision own.writedata
      | .oldData => mem own.address
    else mem own.address
  else held

def posedgeClk (mode : ReadDuringWrite) (memory : DualPort n)
    (port port2 : Port n) (collision : Collision) : DualPort n where
  mem := fun index =>
    if port.writes index then
      if port2.writes index then collision.written
      else lanes port.byteenable (memory.mem index) port.writedata
    else if port2.writes index then
      lanes port2.byteenable (memory.mem index) port2.writedata
    else memory.mem index
  readdata :=
    shown mode memory.mem port port2 memory.readdata collision.read
  readdata2 :=
    shown mode memory.mem port2 port memory.readdata2 collision.read2

end DualPort

/-! ## The system -/

/-- What comes from outside of the core at an edge: the first ports, the
reset request of the second ones, and the outcome of collisions. -/
structure Hps where
  data : Port 13
  program : Port 12
  resetReq2 : Bool
  dataCollision : Collision
  programCollision : Collision

def Port.idle (n : ℕ) : Port n where
  address := 0
  byteenable := 0x0#4
  chipselect := false
  clken := true
  resetReq := false
  write := false
  writedata := 0#32

/-- A write of a whole word. -/
def Port.store {n : ℕ} (address : BitVec n) (word : Word) : Port n where
  address := address
  byteenable := 0xf#4
  chipselect := true
  clken := true
  resetReq := false
  write := true
  writedata := word

/-- The processor system writes a word of the program. -/
def Hps.load (address : BitVec 12) (word : Word) : Hps where
  data := .idle 13
  program := .store address word
  resetReq2 := false
  dataCollision := { read := 7#32, read2 := 7#32, written := 7#32 }
  programCollision := { read := 7#32, read2 := 7#32, written := 7#32 }

inductive Event where
  | clk (key1 : Bool) (hps : Hps)
  | key1Fall

end Soc

structure Soc where
  main : Main
  dataMemory : Soc.DualPort 13
  programMemory : Soc.DualPort 12

namespace Soc

section Edges

variable (soc : Soc)

def imemData : Word := soc.programMemory.readdata2

def dmemRdata : Word := soc.dataMemory.readdata2

def de1Inputs (key1 : Bool) : De1.Inputs where
  key1 := key1
  imemData := soc.imemData
  dmemRdata := soc.dmemRdata

def dataPort2 (resetReq2 : Bool) : Port 13 where
  address := De1.dmemAddr soc.main soc.imemData
  byteenable := 0xf#4
  chipselect := true
  clken := true
  resetReq := resetReq2
  write := De1.dmemWe soc.main soc.imemData
  writedata := De1.dmemWdata soc.main soc.imemData

/-- The data input of the port is not connected. -/
def programPort2 (resetReq2 : Bool) : Port 12 where
  address := (De1.imemAddr soc.main).setWidth 12
  byteenable := 0xf#4
  chipselect := true
  clken := true
  resetReq := resetReq2
  write := false
  writedata := 0#32

def posedgeClk (mode : ReadDuringWrite) (key1 : Bool) (hps : Hps) : Soc where
  main := De1.always soc.main (soc.de1Inputs key1)
  dataMemory := soc.dataMemory.posedgeClk mode hps.data
    (soc.dataPort2 hps.resetReq2) hps.dataCollision
  programMemory := soc.programMemory.posedgeClk mode hps.program
    (soc.programPort2 hps.resetReq2) hps.programCollision

def negedgeKey1 : Soc where
  main := De1.always soc.main (soc.de1Inputs false)
  dataMemory := soc.dataMemory
  programMemory := soc.programMemory

def step (mode : ReadDuringWrite) (soc : Soc) : Event → Soc
  | .clk key1 hps => soc.posedgeClk mode key1 hps
  | .key1Fall => soc.negedgeKey1

end Edges

/-! ## Accesses -/

section Accesses

variable {n : ℕ} (mode : ReadDuringWrite) (memory : DualPort n)
  {port port2 : Port n} (collision : Collision)

theorem lanes_all (old new : Word) : lanes 0xf#4 old new = new := by
  change new.extractLsb' 24 8 ++ new.extractLsb' 16 8 ++
    new.extractLsb' 8 8 ++ new.extractLsb' 0 8 = new
  rw [BitVec.extractLsb'_append_extractLsb'_eq_extractLsb' (by omega),
    BitVec.extractLsb'_append_extractLsb'_eq_extractLsb' (by omega),
    BitVec.extractLsb'_append_extractLsb'_eq_extractLsb' (by omega)]
  exact BitVec.extractLsb'_eq_self

theorem Port.not_writes_of_not_write (hwrite : port.write = false)
    (index : BitVec n) : port.writes index = false := by
  simp [Port.writes, Port.wren, hwrite]

namespace DualPort

/-- A word which the first port leaves alone. -/
theorem mem_posedgeClk {index : BitVec n}
    (hleft : port.writes index = false) :
    (memory.posedgeClk mode port port2 collision).mem index =
      if port2.writes index then
        lanes port2.byteenable (memory.mem index) port2.writedata
      else memory.mem index := by
  simp [posedgeClk, hleft]

/-- The second port reads a word which the first one leaves alone. -/
theorem readdata2_posedgeClk (hclock : port2.clocken = true)
    (hread : port2.wren = false)
    (hleft : port.writes port2.address = false) :
    (memory.posedgeClk mode port port2 collision).readdata2 =
      memory.mem port2.address := by
  simp [posedgeClk, shown, hclock, hleft, hread]

end DualPort

end Accesses

end Soc

end RiscvLogism
