import LibretroLab.Library.Transition
import LibretroLab.TestRom.Apu
import LibretroLab.TestRom.Ppu

/-!
# The console

The processor with the instructions that the test ROM uses, the bus between it
and the other parts, and the machine that executes instructions from the
program bank. Reads of the picture unit's status return what the environment
supplies.
-/

namespace LibretroLab
namespace TestRom

/-- The registers and flags of the 6502. -/
structure Cpu where
  a : Byte
  x : Byte
  y : Byte
  sp : Byte
  pc : BitVec 16
  carry : Bool
  zero : Bool
  interruptDisable : Bool
  decimal : Bool
  overflow : Bool
  negative : Bool

/-- Set the flags that follow a loaded value. -/
def Cpu.withFlags (value : Byte) (cpu : Cpu) : Cpu :=
  { cpu with
    zero := decide (value = 0)
    negative := value.msb }

/-- The instructions of the 6502 that the test ROM uses. -/
inductive Instruction
  | sei
  | cld
  | ldxImmediate (value : Byte)
  | stxAbsolute (address : BitVec 16)
  | txs
  | inx
  | bitAbsolute (address : BitVec 16)
  | bpl (offset : Byte)
  | ldaImmediate (value : Byte)
  | staAbsolute (address : BitVec 16)
  | jmpAbsolute (address : BitVec 16)
  deriving DecidableEq

namespace Instruction

/-- The instruction with an opcode, from the two bytes after it. -/
def decode (opcode first second : Byte) : Option Instruction :=
  if opcode = 0x78 then some .sei
  else if opcode = 0xd8 then some .cld
  else if opcode = 0xa2 then some (.ldxImmediate first)
  else if opcode = 0x8e then some (.stxAbsolute (second ++ first))
  else if opcode = 0x9a then some .txs
  else if opcode = 0xe8 then some .inx
  else if opcode = 0x2c then some (.bitAbsolute (second ++ first))
  else if opcode = 0x10 then some (.bpl first)
  else if opcode = 0xa9 then some (.ldaImmediate first)
  else if opcode = 0x8d then some (.staAbsolute (second ++ first))
  else if opcode = 0x4c then some (.jmpAbsolute (second ++ first))
  else none

/-- The length in bytes. -/
def length : Instruction → BitVec 16
  | .sei | .cld | .txs | .inx => 1
  | .ldxImmediate _ | .bpl _ | .ldaImmediate _ => 2
  | .stxAbsolute _ | .bitAbsolute _ | .staAbsolute _ | .jmpAbsolute _ => 3

end Instruction

/-- The state of the console, with the number of status reads so far. -/
structure Machine where
  cpu : Cpu
  ram : BitVec 11 → Byte
  ppu : Ppu
  apu : Apu
  statusReads : Nat

/-- A byte of the program bank, which is mapped at `$8000` and `$C000`. -/
def Cartridge.byte (cartridge : Cartridge) (address : BitVec 16) : Byte :=
  cartridge.prg (address.extractLsb' 0 14)

/-- The instruction at an address of the program bank. -/
def Cartridge.fetch
    (cartridge : Cartridge)
    (pc : BitVec 16) : Option Instruction :=
  if 0x8000 ≤ pc ∧ pc < 0xfffe then
    Instruction.decode (cartridge.byte pc) (cartridge.byte (pc + 1))
      (cartridge.byte (pc + 2))
  else none

namespace Machine

/-- Whether the bus model covers writes to an address: memory, the picture
registers but those of the sprites, the sound registers but the sprite
transfer, and the cartridge, which ignores them. -/
def covered (address : BitVec 16) : Bool :=
  if address < 0x2000 then true
  else if address < 0x4000 then
    address.extractLsb' 0 3 ∈ [(0 : BitVec 3), 1, 5, 6, 7]
  else address ≠ 0x4014

/-- A write on the bus. -/
def store
    (cartridge : Cartridge)
    (address : BitVec 16)
    (value : Byte)
    (machine : Machine) : Machine :=
  if address < 0x2000 then
    { machine with
      ram := Function.update machine.ram (address.extractLsb' 0 11) value }
  else if address < 0x4000 then
    { machine with
      ppu := machine.ppu.write cartridge (address.extractLsb' 0 3) value }
  else if address < 0x4020 then
    { machine with
      apu := machine.apu.write (address.extractLsb' 0 5) value }
  else machine

/-- Whether an address reads as the status of the picture unit. -/
def isStatus (address : BitVec 16) : Bool :=
  0x2000 ≤ address ∧ address < 0x4000 ∧ address.extractLsb' 0 3 = 2

/-- A read of the status, which is supplied, clears the write toggle. -/
def readStatus (machine : Machine) : Machine :=
  { machine with
    ppu := machine.ppu.readStatus
    statusReads := machine.statusReads + 1 }

/-- Move on to the next instruction. -/
def advance (instruction : Instruction) (machine : Machine) : Machine :=
  { machine with
    cpu := { machine.cpu with pc := machine.cpu.pc + instruction.length } }

/-- Change the registers. -/
def withCpu (f : Cpu → Cpu) (machine : Machine) : Machine :=
  { machine with cpu := f machine.cpu }

/-- Execute one instruction, for the given sequence of status values. -/
def execute
    (cartridge : Cartridge)
    (status : Nat → Byte)
    (instruction : Instruction)
    (machine : Machine) : Machine :=
  match instruction with
  | .sei =>
      (machine.withCpu fun cpu =>
        { cpu with interruptDisable := true }).advance instruction
  | .cld =>
      (machine.withCpu fun cpu =>
        { cpu with decimal := false }).advance instruction
  | .ldxImmediate value =>
      (machine.withCpu fun cpu =>
        { cpu.withFlags value with x := value }).advance instruction
  | .stxAbsolute address =>
      (machine.store cartridge address machine.cpu.x).advance instruction
  | .txs =>
      (machine.withCpu fun cpu => { cpu with sp := cpu.x }).advance instruction
  | .inx =>
      (machine.withCpu fun cpu =>
        { cpu.withFlags (cpu.x + 1) with x := cpu.x + 1 }).advance instruction
  | .bitAbsolute _ =>
      let value := status machine.statusReads
      (machine.readStatus.withCpu fun cpu =>
        { cpu with
          zero := decide (cpu.a &&& value = 0)
          overflow := value.getLsbD 6
          negative := value.msb }).advance instruction
  | .bpl offset =>
      let next := machine.advance instruction
      if machine.cpu.negative then next
      else next.withCpu fun cpu =>
        { cpu with pc := cpu.pc + offset.signExtend 16 }
  | .ldaImmediate value =>
      (machine.withCpu fun cpu =>
        { cpu.withFlags value with a := value }).advance instruction
  | .staAbsolute address =>
      (machine.store cartridge address machine.cpu.a).advance instruction
  | .jmpAbsolute address =>
      machine.withCpu fun cpu => { cpu with pc := address }

end Machine

/-- The instructions whose memory accesses the bus model covers. `BIT` is
covered as a read of the status. -/
def Instruction.covered : Instruction → Bool
  | .stxAbsolute address | .staAbsolute address => Machine.covered address
  | .bitAbsolute address => Machine.isStatus address
  | _ => true

namespace Machine

/-- One step: fetch an instruction and execute it. The machine stops at bytes
that are no covered instruction. -/
def step
    (cartridge : Cartridge)
    (status : Nat → Byte)
    (machine : Machine) : Option Machine := do
  let instruction ← cartridge.fetch machine.cpu.pc
  if instruction.covered then
    some (machine.execute cartridge status instruction)
  else none

/-- The state in which the first instruction is executed, from the state at
power-up: the program counter comes from the reset vector, and the control and
mask registers of the picture unit are zero. -/
def reset (cartridge : Cartridge) (power : Machine) : Machine where
  cpu := { power.cpu with
    pc := cartridge.byte 0xfffd ++ cartridge.byte 0xfffc }
  ram := power.ram
  ppu := { power.ppu with ctrl := 0, mask := 0 }
  apu := power.apu
  statusReads := 0

end Machine

end TestRom
end LibretroLab
