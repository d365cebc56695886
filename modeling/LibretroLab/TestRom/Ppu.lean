import LibretroLab.TestRom.Generator
import Mathlib.Tactic.SplitIfs

/-!
# The picture unit

The registers of the NES picture processing unit that a program sees, the
memory behind them, and the colour that the background has at a pixel. The
cartridge supplies the pattern table and the wiring of the nametables.
-/

namespace LibretroLab
namespace TestRom

/-- An NROM-128 cartridge: one program bank, one pattern table, and whether the
nametables are mirrored vertically. -/
structure Cartridge where
  prg : BitVec 14 → Byte
  chr : BitVec 13 → Byte
  verticalMirroring : Bool

/-- Load an iNES image of an NROM-128 cartridge: sixteen bytes of header, the
program bank, the pattern table. -/
def Cartridge.load (rom : Buffer) : Option Cartridge :=
  if rom.bytes 0 = 0x4e ∧ rom.bytes 1 = 0x45 ∧ rom.bytes 2 = 0x53 ∧
      rom.bytes 3 = 0x1a ∧ rom.bytes 4 = 1 ∧ rom.bytes 5 = 1 ∧
      (rom.bytes 6).extractLsb' 1 7 = 0 ∧ rom.bytes 7 = 0 ∧
      rom.size = 16 + 16384 + 8192 then
    some
      { prg := fun address => rom.bytes (16 + address.toNat)
        chr := fun address => rom.bytes (16 + 16384 + address.toNat)
        verticalMirroring := (rom.bytes 6).getLsbD 0 }
  else none

/-- Where a nametable address goes in the two kilobytes of video memory. -/
def Cartridge.nametableIndex
    (cartridge : Cartridge)
    (address : BitVec 12) : BitVec 11 :=
  if cartridge.verticalMirroring then
    address.extractLsb' 10 1 ++ address.extractLsb' 0 10
  else address.extractLsb' 11 1 ++ address.extractLsb' 0 10

/-- Where a palette address goes: the first entry of a sprite palette is that
of the background palette of the same number. -/
def paletteIndex (address : BitVec 5) : BitVec 5 :=
  if address.extractLsb' 0 2 = 0 then 0#1 ++ address.extractLsb' 0 4
  else address

/-- The temporary address, in the two parts that `$2006` writes. -/
structure ScrollLatch where
  high : BitVec 7
  low : BitVec 8
  deriving DecidableEq

namespace ScrollLatch

/-- The tile column. -/
def coarseX (latch : ScrollLatch) : BitVec 5 := latch.low.extractLsb' 0 5

/-- The tile row. -/
def coarseY (latch : ScrollLatch) : BitVec 5 :=
  latch.high.extractLsb' 0 2 ++ latch.low.extractLsb' 5 3

/-- The nametable. -/
def nametable (latch : ScrollLatch) : BitVec 2 := latch.high.extractLsb' 2 2

/-- The pixel row in the tile. -/
def fineY (latch : ScrollLatch) : BitVec 3 := latch.high.extractLsb' 4 3

end ScrollLatch

/-- The state of the picture unit. -/
structure Ppu where
  ctrl : Byte
  mask : Byte
  v : BitVec 15
  t : ScrollLatch
  fineX : BitVec 3
  toggle : Bool
  nametables : BitVec 11 → Byte
  palette : BitVec 5 → Byte

namespace Ppu

/-- A write to `$2000`. -/
def writeCtrl (value : Byte) (ppu : Ppu) : Ppu :=
  { ppu with
    ctrl := value
    t := { ppu.t with
      high := ppu.t.high.extractLsb' 4 3 ++ value.extractLsb' 0 2 ++
        ppu.t.high.extractLsb' 0 2 } }

/-- A write to `$2001`. -/
def writeMask (value : Byte) (ppu : Ppu) : Ppu :=
  { ppu with mask := value }

/-- A read of `$2002` leaves the write toggle clear. -/
def readStatus (ppu : Ppu) : Ppu :=
  { ppu with toggle := false }

/-- A write to `$2005`. -/
def writeScroll (value : Byte) (ppu : Ppu) : Ppu :=
  if ppu.toggle then
    { ppu with
      t :=
        { high := value.extractLsb' 0 3 ++ ppu.t.high.extractLsb' 2 2 ++
            value.extractLsb' 6 2
          low := value.extractLsb' 3 3 ++ ppu.t.low.extractLsb' 0 5 }
      toggle := false }
  else
    { ppu with
      t := { ppu.t with
        low := ppu.t.low.extractLsb' 5 3 ++ value.extractLsb' 3 5 }
      fineX := value.extractLsb' 0 3
      toggle := true }

/-- A write to `$2006`. -/
def writeAddr (value : Byte) (ppu : Ppu) : Ppu :=
  if ppu.toggle then
    { ppu with
      t := { ppu.t with low := value }
      v := ppu.t.high ++ value
      toggle := false }
  else
    { ppu with
      t := { ppu.t with high := 0#1 ++ value.extractLsb' 0 6 }
      toggle := true }

/-- A write to the video memory. The pattern table is read-only. -/
def store
    (cartridge : Cartridge)
    (address : BitVec 14)
    (value : Byte)
    (ppu : Ppu) : Ppu :=
  if 0x3f00 ≤ address then
    { ppu with
      palette := Function.update ppu.palette
        (paletteIndex (address.extractLsb' 0 5)) value }
  else if 0x2000 ≤ address then
    { ppu with
      nametables := Function.update ppu.nametables
        (cartridge.nametableIndex (address.extractLsb' 0 12)) value }
  else ppu

/-- A write to `$2007`, through the address, which moves on by one or by a
row. -/
def writeData (cartridge : Cartridge) (value : Byte) (ppu : Ppu) : Ppu :=
  { ppu.store cartridge (ppu.v.extractLsb' 0 14) value with
    v := ppu.v + if ppu.ctrl.getLsbD 2 then 32 else 1 }

/-- A write to one of the eight registers. The registers of the sprites are not
covered. -/
def write
    (cartridge : Cartridge)
    (register : BitVec 3)
    (value : Byte)
    (ppu : Ppu) : Ppu :=
  if register = 0 then ppu.writeCtrl value
  else if register = 1 then ppu.writeMask value
  else if register = 5 then ppu.writeScroll value
  else if register = 6 then ppu.writeAddr value
  else if register = 7 then ppu.writeData cartridge value
  else ppu

/-! ## Pairs of writes -/

/-- Two writes to `$2006` from a clear toggle set the address. -/
theorem writeAddr_writeAddr
    {ppu : Ppu}
    (clear : ppu.toggle = false)
    (high low : Byte) :
    (ppu.writeAddr high).writeAddr low =
      { ppu with
        t := ⟨0#1 ++ high.extractLsb' 0 6, low⟩
        v := 0#1 ++ high.extractLsb' 0 6 ++ low
        toggle := false } := by
  simp [writeAddr, clear]

/-- Two writes to `$2005` from a clear toggle set the scroll position. -/
theorem writeScroll_writeScroll
    {ppu : Ppu}
    (clear : ppu.toggle = false)
    (x y : Byte) :
    (ppu.writeScroll x).writeScroll y =
      { ppu with
        t :=
          { high := y.extractLsb' 0 3 ++ ppu.t.high.extractLsb' 2 2 ++
              y.extractLsb' 6 2
            low := y.extractLsb' 3 3 ++ (ppu.t.low.extractLsb' 5 3 ++
              x.extractLsb' 3 5).extractLsb' 0 5 }
        fineX := x.extractLsb' 0 3
        toggle := false } := by
  simp [writeScroll, clear]

/-- A write to `$2007` at `$3F00` sets the backdrop. -/
theorem palette_writeData
    {ppu : Ppu}
    (atBackdrop : ppu.v = 0x3f00)
    (cartridge : Cartridge)
    (value : Byte) :
    (ppu.writeData cartridge value).palette 0 = value := by
  have isPalette : (0x3f00 : BitVec 14) ≤
      (0x3f00 : BitVec 15).extractLsb' 0 14 := by decide
  have index : paletteIndex (((0x3f00 : BitVec 15).extractLsb' 0
      14).extractLsb' 0 5) = 0 := by decide
  simp only [writeData, store, atBackdrop, isPalette, if_true, index,
    Function.update_self]

@[simp] theorem toggle_writeData
    (ppu : Ppu)
    (cartridge : Cartridge)
    (value : Byte) :
    (ppu.writeData cartridge value).toggle = ppu.toggle := by
  simp only [writeData, store]
  split_ifs <;> rfl

/-! ## The picture -/

/-- A byte of one of the four nametables. -/
def nametableByte
    (cartridge : Cartridge)
    (ppu : Ppu)
    (nametable offset : Nat) : Byte :=
  ppu.nametables (cartridge.nametableIndex
    (BitVec.ofNat 12 (nametable * 0x400 + offset)))

/-- The two bits of a tile at a pixel: the pattern value. -/
def pattern
    (cartridge : Cartridge)
    (ppu : Ppu)
    (tile : Byte)
    (column row : Nat) : Nat :=
  let base := (if ppu.ctrl.getLsbD 4 then 0x1000 else 0) + tile.toNat * 16
  let plane (offset : Nat) : Nat :=
    ((cartridge.chr (BitVec.ofNat 13 (base + offset + row))).getLsbD
      (7 - column)).toNat
  plane 0 + 2 * plane 8

/-- The colour of the background at the pixel `(x, y)` of a frame, for a
vertical scroll within the nametable. -/
def background (cartridge : Cartridge) (ppu : Ppu) (x y : Nat) : Byte :=
  let visible := ppu.mask.getLsbD 3 ∧ (8 ≤ x ∨ ppu.mask.getLsbD 1)
  let scrolledX := ppu.t.coarseX.toNat * 8 + ppu.fineX.toNat +
    (if ppu.t.nametable.getLsbD 0 then 256 else 0) + x
  let scrolledY := ppu.t.coarseY.toNat * 8 + ppu.t.fineY.toNat +
    (if ppu.t.nametable.getLsbD 1 then 240 else 0) + y
  let nametable := scrolledX / 256 % 2 + 2 * (scrolledY / 240 % 2)
  let column := scrolledX % 256
  let row := scrolledY % 240
  let tile := ppu.nametableByte cartridge nametable
    (row / 8 * 32 + column / 8)
  let value := ppu.pattern cartridge tile (column % 8) (row % 8)
  let attributes := ppu.nametableByte cartridge nametable
    (0x3c0 + row / 32 * 8 + column / 32)
  let group :=
    (attributes.toNat >>> (row / 16 % 2 * 4 + column / 16 % 2 * 2)) % 4
  let colour :=
    if visible ∧ value ≠ 0 then
      ppu.palette (BitVec.ofNat 5 (group * 4 + value))
    else ppu.palette 0
  if ppu.mask.getLsbD 0 then colour &&& 0x30 else colour

/-- With an empty pattern table, every pixel shows the backdrop, whatever the
nametables and the other palette entries hold. -/
theorem background_of_empty
    {cartridge : Cartridge}
    (empty : ∀ address, cartridge.chr address = 0)
    {ppu : Ppu}
    (coloured : ppu.mask.getLsbD 0 = false)
    (x y : Nat) :
    ppu.background cartridge x y = ppu.palette 0 := by
  have transparent (tile : Byte) (column row : Nat) :
      ppu.pattern cartridge tile column row = 0 := by
    simp [pattern, empty]
  simp only [background, transparent, coloured, ne_eq, not_true_eq_false,
    and_false, if_false, Bool.false_eq_true]

end Ppu

end TestRom
end LibretroLab
