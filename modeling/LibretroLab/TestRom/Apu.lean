import LibretroLab.TestRom.Generator

/-!
# The sound unit

The registers of the NES sound unit as last written, and its first pulse
channel: the length counter, the sweep of its period, and the level it puts
out at each phase of its duty cycle.
-/

namespace LibretroLab
namespace TestRom

/-- The values that a length index stands for. -/
def lengthTable : List Nat :=
  [10, 254, 20, 2, 40, 4, 80, 6, 160, 8, 60, 10, 14, 12, 26, 14,
    12, 16, 24, 18, 48, 20, 96, 22, 192, 24, 72, 26, 16, 28, 32, 30]

/-- Whether the wave of a duty setting is up at a phase. -/
def dutyUp (duty : BitVec 2) (phase : Fin 8) : Bool :=
  if duty = 0 then phase = 1
  else if duty = 1 then phase = 1 ∨ phase = 2
  else if duty = 2 then 1 ≤ phase ∧ phase ≤ 4
  else ¬(phase = 1 ∨ phase = 2)

/-- The state of the sound unit that its first pulse channel depends on:
registers `$4000` to `$401f`, the period and the length counter. -/
structure Apu where
  registers : BitVec 5 → Byte
  period : BitVec 11
  lengthCounter : Nat

namespace Apu

/-- A write to a register. `$4002` and `$4003` set the period; `$4003` also
loads the length counter of an enabled channel, and `$4015` clears that of a
disabled one. -/
def write (register : BitVec 5) (value : Byte) (apu : Apu) : Apu :=
  let stored :=
    { apu with registers := Function.update apu.registers register value }
  if register = 2 then
    { stored with period := apu.period.extractLsb' 8 3 ++ value }
  else if register = 3 then
    { stored with
      period := value.extractLsb' 0 3 ++ apu.period.extractLsb' 0 8
      lengthCounter :=
        if (apu.registers 0x15).getLsbD 0 then
          lengthTable.getD (value.extractLsb' 3 5).toNat 0
        else apu.lengthCounter }
  else if register = 0x15 then
    { stored with
      lengthCounter := if value.getLsbD 0 then apu.lengthCounter else 0 }
  else stored

/-- The period that the sweep of the first pulse channel would set next. -/
def sweepTarget (apu : Apu) : Int :=
  let change : Int := apu.period.toNat >>> (apu.registers 1 &&& 7).toNat
  if (apu.registers 1).getLsbD 3 then apu.period.toNat - change - 1
  else apu.period.toNat + change

/-- The channel is silenced by a period that is too short or that the sweep
would take too far. -/
def muted (apu : Apu) : Prop :=
  apu.period.toNat < 8 ∨ 0x7ff < apu.sweepTarget

instance (apu : Apu) : Decidable apu.muted :=
  inferInstanceAs (Decidable (_ ∨ _))

/-- What the frame counter makes the first pulse channel do. -/
inductive Clock
  | length
  | sweep
  deriving DecidableEq

/-- One clock of the frame counter. A halted length counter stands still, and
a disabled sweep or one of no shift leaves the period. -/
def clock (apu : Apu) : Clock → Apu
  | .length =>
      if (apu.registers 0).getLsbD 5 then apu
      else { apu with lengthCounter := apu.lengthCounter - 1 }
  | .sweep =>
      if (apu.registers 1).getLsbD 7 ∧ (apu.registers 1 &&& 7) ≠ 0 ∧
          ¬apu.muted then
        { apu with period := BitVec.ofInt 11 apu.sweepTarget }
      else apu

/-- The level of the first pulse channel at a phase of its duty cycle. The
envelope's level counts unless the volume is constant. -/
def pulse1 (apu : Apu) (envelope : Nat) (phase : Fin 8) : Nat :=
  if apu.lengthCounter = 0 ∨ apu.muted ∨
      dutyUp ((apu.registers 0).extractLsb' 6 2) phase = false then 0
  else if (apu.registers 0).getLsbD 4 then
    ((apu.registers 0).extractLsb' 0 4).toNat
  else envelope

/-- What the program leaves in the sound unit: a constant tone on the first
pulse channel, at the period `$0AA`. -/
structure Sounding (apu : Apu) : Prop where
  enable : apu.registers 0x15 = 0x01
  control : apu.registers 0x00 = 0xbf
  sweep : apu.registers 0x01 = 0x08
  timerLow : apu.registers 0x02 = 0xaa
  timerHigh : apu.registers 0x03 = 0x00
  period : apu.period = 0x0aa
  lengthCounter : apu.lengthCounter = 10

/-- The five writes of the program start the tone, whatever the registers
were. -/
theorem sounding_write (apu : Apu) :
    Sounding (((((apu.write 0x15 0x01).write 0x00 0xbf).write 0x01
      0x08).write 0x02 0xaa).write 0x03 0x00) := by
  refine ⟨rfl, rfl, rfl, rfl, rfl, ?_, ?_⟩
  · have low : (apu.period.extractLsb' 8 3 ++ (0xaa : Byte)).extractLsb' 0 8 =
        0xaa := by
      rw [BitVec.extractLsb'_append_eq_right]
    change (0x00 : Byte).extractLsb' 0 3 ++
      (apu.period.extractLsb' 8 3 ++ (0xaa : Byte)).extractLsb' 0 8 = 0x0aa
    rw [low]
    decide
  · simp [write, lengthTable]

namespace Sounding

/-- The length counter is halted and the sweep disabled, so the clocks of the
frame counter change nothing. -/
theorem clock_eq {apu : Apu} (sounding : Sounding apu) (event : Clock) :
    apu.clock event = apu := by
  cases event with
  | length =>
      simp only [clock, sounding.control]
      exact if_pos (by decide)
  | sweep =>
      simp only [clock, sounding.sweep]
      exact if_neg fun enabled => absurd enabled.1 (by decide)

theorem foldl_clock_eq
    {apu : Apu}
    (sounding : Sounding apu)
    (clocks : List Clock) :
    clocks.foldl clock apu = apu := by
  induction clocks with
  | nil => rfl
  | cons event rest inductionHypothesis =>
      rw [List.foldl_cons, sounding.clock_eq, inductionHypothesis]

theorem not_muted {apu : Apu} (sounding : Sounding apu) : ¬apu.muted := by
  rw [muted, sweepTarget, sounding.period, sounding.sweep]
  decide

/-- The channel sounds at full volume for half of the phases and is silent for
the other half, forever. -/
theorem pulse1_eq
    {apu : Apu}
    (sounding : Sounding apu)
    (clocks : List Clock)
    (envelope : Nat)
    (phase : Fin 8) :
    (clocks.foldl clock apu).pulse1 envelope phase =
      if 1 ≤ phase ∧ phase ≤ 4 then 15 else 0 := by
  rw [sounding.foldl_clock_eq, pulse1, sounding.control,
    sounding.lengthCounter]
  have up (phase : Fin 8) :
      dutyUp (BitVec.extractLsb' 6 2 (0xbf : Byte)) phase =
        decide (1 ≤ phase ∧ phase ≤ 4) := by
    revert phase
    decide
  have constant : (0xbf : Byte).getLsbD 4 = true := by decide
  have volume : ((0xbf : Byte).extractLsb' 0 4).toNat = 15 := by decide
  rw [up, if_pos constant, volume]
  by_cases isUp : 1 ≤ phase ∧ phase ≤ 4
  · simp [isUp, sounding.not_muted]
  · simp [isUp]

end Sounding

end Apu

end TestRom
end LibretroLab
