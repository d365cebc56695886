import LibretroLab.TestRom.Machine
import Mathlib.Tactic.SplitIfs

/-!
# The program in the cartridge

The cartridge that the image of the test ROM makes, with its empty pattern
table, and how the machine executes a block of the instructions that are in it:
one after another, undisturbed by interrupts.
-/

namespace LibretroLab
namespace TestRom

open Transition

/-! ## The cartridge -/

namespace Buffer

@[simp] theorem size_setByte (buffer : Buffer) (index : Nat) (byte : Byte) :
    (buffer.setByte index byte).size = buffer.size := by
  unfold setByte
  split_ifs <;> rfl

@[simp] theorem size_set
    (buffer : Buffer)
    (bytes : List Byte)
    (offset : Nat) :
    (buffer.set bytes offset).size = buffer.size := by
  induction bytes generalizing buffer offset with
  | nil => rfl
  | cons byte rest inductionHypothesis =>
      rw [set, inductionHypothesis, size_setByte]

theorem bytes_append_add (first second : Buffer) (index : Nat) :
    (first.append second).bytes (first.size + index) =
      second.bytes index := by
  have past : ¬first.size + index < first.size :=
    Nat.not_lt.mpr (Nat.le_add_right _ _)
  rw [append]
  simp only [past, if_false, Nat.add_sub_cancel_left]

end Buffer

/-- The image is the header, a program bank and an empty pattern table. -/
theorem testRom_eq_concat :
    ∃ prg : Buffer, prg.size = prgSize ∧
      testRom = Buffer.concat [header, prg, Buffer.alloc chrSize] := by
  have bankSize : emitted.toOption.map (fun result => result.2.prg.size) =
      some prgSize := by
    decide +kernel
  cases written : emitted with
  | error message =>
      rw [written] at bankSize
      contradiction
  | ok result =>
      obtain ⟨loop, emitter⟩ := result
      rw [written] at bankSize
      refine ⟨((emitter.prg.set (vec loop) 0x3ffa).set (vec org) 0x3ffc).set
        (vec loop) 0x3ffe, ?_, ?_⟩
      · rw [Buffer.size_set, Buffer.size_set, Buffer.size_set]
        exact Option.some.inj bankSize
      · rw [testRom, makeTestRom, written]
        rfl

/-- The cartridge with the image. -/
def testCartridge : Cartridge where
  prg := fun address => testRom.bytes (16 + address.toNat)
  chr := fun address => testRom.bytes (16 + 16384 + address.toNat)
  verticalMirroring := (testRom.bytes 6).getLsbD 0

theorem load_testRom : Cartridge.load testRom = some testCartridge :=
  if_pos (by decide +kernel)

/-- The pattern table is empty. -/
theorem chr_testCartridge (address : BitVec 13) :
    testCartridge.chr address = 0 := by
  obtain ⟨prg, size, image⟩ := testRom_eq_concat
  have headerSize : header.size = 16 := by simp [header, Buffer.alloc]
  have position : 16 + 16384 + address.toNat =
      header.size + (prg.size + address.toNat) := by
    have bankSize : prgSize = 16384 := by decide
    omega
  change testRom.bytes (16 + 16384 + address.toNat) = 0
  rw [position, image]
  change (header.append (prg.append
    ((Buffer.alloc chrSize).append (Buffer.alloc 0)))).bytes _ = 0
  rw [Buffer.bytes_append_add, Buffer.bytes_append_add]
  exact ite_self 0

/-! ## Blocks of instructions -/

/-- No interrupt is taken, and the next instruction is an emitted one. The
interrupt flag may still be clear at the very first. -/
structure Undisturbed (machine : Machine) : Prop where
  emitted : machine.cpu.pc ∈ emittedAddresses
  nmiOff : machine.ppu.ctrl = 0
  irqOff : machine.cpu.interruptDisable = true ∨
    machine.cpu.pc = testCartridge.byte 0xfffd ++ testCartridge.byte 0xfffc

/-- The instructions are in the cartridge from `pc` on, each where `emit` was
called. -/
def listed (pc : BitVec 16) : List Instruction → Bool
  | [] => true
  | instruction :: rest =>
      testCartridge.fetch pc = some instruction && instruction.covered &&
        decide (pc ∈ emittedAddresses) && listed (pc + instruction.length) rest

namespace Instruction

/-- Whether the next instruction is the one behind it. -/
def straight : Instruction → Bool
  | .bpl _ | .jmpAbsolute _ => false
  | _ => true

/-- Whether the instruction stores to the control register of the picture
unit. -/
def storesCtrl : Instruction → Bool
  | .stxAbsolute address | .staAbsolute address =>
      0x2000 ≤ address ∧ address < 0x4000 ∧ address.extractLsb' 0 3 = 0
  | _ => false

end Instruction

/-- Execute instructions one after another. -/
def executeAll
    (status : Nat → Byte)
    (code : List Instruction)
    (machine : Machine) : Machine :=
  code.foldl
    (fun machine instruction =>
      machine.execute testCartridge status instruction) machine

section Blocks

variable {status : Nat → Byte} {machine : Machine}

@[simp] theorem executeAll_nil :
    executeAll status [] machine = machine := rfl

@[simp] theorem executeAll_cons
    (instruction : Instruction)
    (rest : List Instruction) :
    executeAll status (instruction :: rest) machine =
      executeAll status rest
        (machine.execute testCartridge status instruction) := rfl

/-- A store changes no register of the processor, and the control register of
the picture unit only as its target. -/
theorem cpu_store (address : BitVec 16) (value : Byte) :
    (machine.store testCartridge address value).cpu = machine.cpu := by
  unfold Machine.store
  split_ifs <;> rfl

theorem ctrl_store
    {address : BitVec 16}
    (other : ¬(0x2000 ≤ address ∧ address < 0x4000 ∧
      address.extractLsb' 0 3 = 0))
    (value : Byte) :
    (machine.store testCartridge address value).ppu.ctrl =
      machine.ppu.ctrl := by
  unfold Machine.store
  split_ifs with isMemory isPicture isSound
  · rfl
  · have notCtrl : address.extractLsb' 0 3 ≠ 0 := fun isCtrl =>
      other ⟨BitVec.not_lt.mp isMemory, isPicture, isCtrl⟩
    simp only [Ppu.write, notCtrl, if_false, Ppu.writeMask, Ppu.writeScroll,
      Ppu.writeAddr, Ppu.writeData, Ppu.store]
    split_ifs <;> rfl
  · rfl
  · rfl

theorem pc_execute
    {instruction : Instruction}
    (straight : instruction.straight = true) :
    (machine.execute testCartridge status instruction).cpu.pc =
      machine.cpu.pc + instruction.length := by
  cases instruction with
  | stxAbsolute address | staAbsolute address =>
      simp [Machine.execute, Machine.advance, cpu_store]
  | bpl offset | jmpAbsolute address => contradiction
  | sei | cld | ldxImmediate | txs | inx | bitAbsolute | ldaImmediate => rfl

/-- No instruction of the program clears the interrupt flag. -/
theorem interruptDisable_execute
    (instruction : Instruction)
    (irqOff : machine.cpu.interruptDisable = true) :
    (machine.execute testCartridge status
      instruction).cpu.interruptDisable = true := by
  cases instruction with
  | stxAbsolute address | staAbsolute address =>
      simp [Machine.execute, Machine.advance, cpu_store, irqOff]
  | bpl offset =>
      simp only [Machine.execute]
      split_ifs <;> exact irqOff
  | sei => rfl
  | cld | ldxImmediate | txs | inx | bitAbsolute | ldaImmediate
  | jmpAbsolute => exact irqOff

theorem ctrl_execute
    {instruction : Instruction}
    (noStore : instruction.storesCtrl = false) :
    (machine.execute testCartridge status instruction).ppu.ctrl =
      machine.ppu.ctrl := by
  cases instruction with
  | stxAbsolute address | staAbsolute address =>
      exact ctrl_store (of_decide_eq_false noStore) _
  | bpl offset =>
      simp only [Machine.execute]
      split_ifs <;> rfl
  | sei | cld | ldxImmediate | txs | inx | bitAbsolute | ldaImmediate
  | jmpAbsolute => rfl

/-- One listed instruction is one step. -/
theorem moves_execute
    {instruction : Instruction}
    {rest : List Instruction}
    (isListed : listed machine.cpu.pc (instruction :: rest) = true)
    (nmiOff : machine.ppu.ctrl = 0)
    (irqOff : machine.cpu.interruptDisable = true ∨
      machine.cpu.pc =
        testCartridge.byte 0xfffd ++ testCartridge.byte 0xfffc) :
    Moves (Machine.step testCartridge status) Undisturbed machine
      (machine.execute testCartridge status instruction) := by
  simp only [listed, Bool.and_eq_true, decide_eq_true_eq] at isListed
  obtain ⟨⟨⟨fetched, covered⟩, isEmitted⟩, _⟩ := isListed
  refine ⟨⟨isEmitted, nmiOff, irqOff⟩, ?_⟩
  rw [Machine.step, fetched, Option.bind_eq_bind, Option.bind_some,
    if_pos covered]

/-- A block of listed instructions is executed one after another. -/
theorem travels_executeAll
    {code : List Instruction}
    (isListed : listed machine.cpu.pc code = true)
    (straight : ∀ instruction ∈ code, instruction.straight = true)
    (noStore : ∀ instruction ∈ code, instruction.storesCtrl = false)
    (nmiOff : machine.ppu.ctrl = 0)
    (irqOff : machine.cpu.interruptDisable = true) :
    Travels (Machine.step testCartridge status) Undisturbed machine
      (executeAll status code machine) := by
  induction code generalizing machine with
  | nil => exact Relation.ReflTransGen.refl
  | cons instruction rest inductionHypothesis =>
      have first : Moves (Machine.step testCartridge status) Undisturbed
          machine (machine.execute testCartridge status instruction) :=
        moves_execute isListed nmiOff (Or.inl irqOff)
      have isStraight := straight instruction List.mem_cons_self
      simp only [listed, Bool.and_eq_true] at isListed
      refine Relation.ReflTransGen.head first (inductionHypothesis ?_ ?_ ?_
        ?_ ?_)
      · rw [pc_execute isStraight]
        exact isListed.2
      · exact fun next member =>
          straight next (List.mem_cons_of_mem _ member)
      · exact fun next member =>
          noStore next (List.mem_cons_of_mem _ member)
      · rw [ctrl_execute (noStore instruction List.mem_cons_self), nmiOff]
      · exact interruptDisable_execute instruction irqOff

end Blocks

end TestRom
end LibretroLab
