import Mathlib.Logic.Function.Basic

/-!
# The generator of the test ROM

`make-test-rom.mjs`: a buffer for the program bank, the helpers `emit`, `addr`
and `rel` over the position in it, the program they write, and the image file
made of header, program and an empty character bank.
-/

namespace LibretroLab
namespace TestRom

/-- A byte. -/
abbrev Byte := BitVec 8

/-- A Node `Buffer`. Its content past the size is not read. -/
structure Buffer where
  size : Nat
  bytes : Nat → Byte

namespace Buffer

/-- `Buffer.alloc(size, 0x00)`. -/
def alloc (size : Nat) : Buffer where
  size := size
  bytes := fun _ => 0

/-- `buffer[index] = byte`, which ignores an index past the end. -/
def setByte (buffer : Buffer) (index : Nat) (byte : Byte) : Buffer :=
  if index < buffer.size then
    { buffer with bytes := Function.update buffer.bytes index byte }
  else buffer

/-- `buffer.set(bytes, offset)`. -/
def set (buffer : Buffer) : List Byte → Nat → Buffer
  | [], _ => buffer
  | byte :: rest, offset => (buffer.setByte offset byte).set rest (offset + 1)

/-- The content of one buffer after that of another. -/
def append (first second : Buffer) : Buffer where
  size := first.size + second.size
  bytes := fun index =>
    if index < first.size then first.bytes index
    else second.bytes (index - first.size)

/-- `Buffer.concat(buffers)`. -/
def concat (buffers : List Buffer) : Buffer :=
  buffers.foldr append (alloc 0)

end Buffer

/-- `PRG_BANKS`. -/
def prgBanks : Nat := 1

/-- `CHR_BANKS`. -/
def chrBanks : Nat := 1

/-- `PRG_SIZE`. -/
def prgSize : Nat := prgBanks * 16384

/-- `CHR_SIZE`. -/
def chrSize : Nat := chrBanks * 8192

/-- `ORG`. -/
def org : Int := 0xc000

/-- `n & 0xff`. -/
def lowByte (n : Int) : Byte := BitVec.ofInt 8 n

/-- `(n >> 8) & 0xff`. -/
def highByte (n : Int) : Byte := BitVec.ofInt 8 (n / 256)

/-- The variables `prg` and `pc`, and the positions at which `emit` was
called. -/
structure Emitter where
  prg : Buffer
  pc : Nat
  calls : List Nat

/-- The generator runs until it is done or throws an error. -/
abbrev Generator := StateT Emitter (Except String)

/-- The loop of `emit`. -/
def Emitter.write (emitter : Emitter) : List Int → Emitter
  | [] => emitter
  | byte :: rest =>
      { emitter with
        prg := emitter.prg.setByte emitter.pc (lowByte byte)
        pc := emitter.pc + 1 : Emitter }.write rest

/-- `emit(...bytes)`. -/
def emit (bytes : List Int) : Generator Unit :=
  modify fun emitter =>
    { emitter with calls := emitter.calls ++ [emitter.pc] }.write bytes

/-- `addr()`. -/
def addr : Generator Int := do
  let emitter ← get
  return org + emitter.pc

/-- `rel(target)`. -/
def rel (target : Int) : Generator Int := do
  let here ← addr
  let delta := target - (here + 2)
  if delta < -128 ∨ delta > 127 then
    throw ("branch out of range: " ++ toString delta)
  return (lowByte delta).toNat

/-- The program. It returns the address of its last instruction, `loop`. -/
def program : Generator Int := do
  emit [0x78]
  emit [0xd8]
  emit [0xa2, 0x40]
  emit [0x8e, 0x17, 0x40]
  emit [0xa2, 0xff]
  emit [0x9a]
  emit [0xe8]
  emit [0x8e, 0x00, 0x20]
  emit [0x8e, 0x01, 0x20]
  emit [0x8e, 0x10, 0x40]
  let vb1 ← addr
  emit [0x2c, 0x02, 0x20]
  emit [0x10, ← rel vb1]
  let vb2 ← addr
  emit [0x2c, 0x02, 0x20]
  emit [0x10, ← rel vb2]
  emit [0xa9, 0x3f]
  emit [0x8d, 0x06, 0x20]
  emit [0xa9, 0x00]
  emit [0x8d, 0x06, 0x20]
  emit [0xa9, 0x21]
  emit [0x8d, 0x07, 0x20]
  emit [0xa9, 0x00]
  emit [0x8d, 0x06, 0x20]
  emit [0x8d, 0x06, 0x20]
  emit [0x8d, 0x05, 0x20]
  emit [0x8d, 0x05, 0x20]
  emit [0xa9, 0x01]
  emit [0x8d, 0x15, 0x40]
  emit [0xa9, 0xbf]
  emit [0x8d, 0x00, 0x40]
  emit [0xa9, 0x08]
  emit [0x8d, 0x01, 0x40]
  emit [0xa9, 0xaa]
  emit [0x8d, 0x02, 0x40]
  emit [0xa9, 0x00]
  emit [0x8d, 0x03, 0x40]
  emit [0xa9, 0x0a]
  emit [0x8d, 0x01, 0x20]
  let loop ← addr
  emit [0x4c, (lowByte loop).toNat, (highByte loop).toNat]
  return loop

/-- The run of the program on an empty bank. -/
def emitted : Except String (Int × Emitter) :=
  program.run { prg := Buffer.alloc prgSize, pc := 0, calls := [] }

/-- `vec(a)`. -/
def vec (a : Int) : List Byte := [lowByte a, highByte a]

/-- The header of the image. -/
def header : Buffer :=
  ((((((Buffer.alloc 16).set [0x4e, 0x45, 0x53, 0x1a] 0).setByte 4
    (BitVec.ofNat 8 prgBanks)).setByte 5
      (BitVec.ofNat 8 chrBanks)).setByte 6 0x00).setByte 7 0x00)

/-- The bytes that the generator writes to the image file. -/
def makeTestRom : Except String Buffer := do
  let (loop, emitter) ← emitted
  let prg := ((emitter.prg.set (vec loop) 0x3ffa).set (vec org) 0x3ffc).set
    (vec loop) 0x3ffe
  let chr := Buffer.alloc chrSize
  return Buffer.concat [header, prg, chr]

/-- The addresses at which `emit` was called: where instructions begin. -/
def emittedAddresses : List (BitVec 16) :=
  match emitted with
  | .ok (_, emitter) =>
      emitter.calls.map fun (call : Nat) => BitVec.ofInt 16 (org + call)
  | .error _ => []

/-- The image. -/
def testRom : Buffer :=
  match makeTestRom with
  | .ok rom => rom
  | .error _ => Buffer.alloc 0

/-- No branch is out of range. -/
theorem makeTestRom_eq_ok : makeTestRom = .ok testRom := by
  have succeeds : makeTestRom.isOk = true := by decide +kernel
  rw [testRom]
  cases written : makeTestRom with
  | ok rom => rfl
  | error message =>
      rw [written] at succeeds
      contradiction

example : testRom.size = 24592 ∧ testRom.bytes 16 = 0x78 := by
  decide +kernel

end TestRom
end LibretroLab
