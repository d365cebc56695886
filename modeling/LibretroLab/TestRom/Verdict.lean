import LibretroLab.TestRom.Boot
import LibretroLab.Host.SmokeTest

/-!
# The test ROM and the smoke test

The two ends of the smoke test: a core that shows the picture of the console
running the test ROM and lets its tone be heard passes the test exactly if it
paints the backdrop in a colour that is not dark.
-/

namespace LibretroLab
namespace TestRom

open Transition Host.SmokeTest

/-- A frame shows the background of the picture unit through a table of
colours. -/
structure Shows
    (colours : Byte → UInt32)
    (ppu : Ppu)
    (frame : Host.VideoFrame)
    (memory : Memory) : Prop where
  format : frame.format = .xrgb8888
  width : frame.width = 256
  height : frame.height = 240
  pixel : ∀ x y : Nat, x < 256 → y < 240 →
    memory.word (frame.data.toNat + y * frame.pitch + 4 * x) =
      colours (ppu.background testCartridge x y)

/-- A sample is the level of the first pulse channel, at some phase at which
its wave is up, through a table of amplitudes. -/
def Hears (amplitude : Nat → Int16) (apu : Apu) (sample : Int16) : Prop :=
  ∃ (clocks : List Apu.Clock) (envelope : Nat) (phase : Fin 8),
    dutyUp ((apu.registers 0).extractLsb' 6 2) phase = true ∧
      sample = amplitude ((clocks.foldl Apu.clock apu).pulse1 envelope phase)

/-- What a core that emulates the console hands to the closures: at least 55
frames, of which the last shows the picture, and some sample of the tone, whose
full level is not silence. -/
structure Emulated
    (colours : Byte → UInt32)
    (amplitude : Nat → Int16)
    (machine : Machine)
    (calls : List (Host.ClosureCall × Memory)) : Prop where
  enough : 55 ≤ (frames calls).length
  picture : ∃ frame memory, (frames calls).getLast? = some (frame, memory) ∧
    Shows colours machine.ppu frame memory
  tone : ∃ sample ∈ samples calls, Hears amplitude machine.apu sample
  loud : amplitude 15 ≠ 0

/-- The picture that the program leaves is the backdrop everywhere. -/
theorem background_of_painted
    {ppu : Ppu}
    (painted : Painted ppu)
    (x y : Nat) :
    ppu.background testCartridge x y = 0x21 := by
  have coloured : ppu.mask.getLsbD 0 = false := by
    rw [painted.mask]
    decide
  rw [Ppu.background_of_empty chr_testCartridge coloured, painted.backdrop]

/-- A frame that shows it has a single colour. -/
theorem pixels_of_shows
    {colours : Byte → UInt32}
    {ppu : Ppu}
    {frame : Host.VideoFrame}
    {memory : Memory}
    (painted : Painted ppu)
    (shown : Shows colours ppu frame memory) :
    pixels memory frame = List.replicate (240 * 256) (colours 0x21) := by
  have uniform (x y : Nat) (inside : x < frame.width.toNat)
      (below : y < frame.height.toNat) :
      memory.word (frame.data.toNat + y * frame.pitch + 4 * x) =
        colours 0x21 := by
    rw [shown.width] at inside
    rw [shown.height] at below
    rw [shown.pixel x y inside below, background_of_painted painted]
  rw [pixels_of_uniform uniform, shown.width, shown.height]
  rfl

/-- The tone that the program starts can be heard. -/
theorem sound_of_hears
    {amplitude : Nat → Int16}
    {apu : Apu}
    {sample : Int16}
    (sounding : apu.Sounding)
    (loud : amplitude 15 ≠ 0)
    (heard : Hears amplitude apu sample) :
    sample ≠ 0 := by
  obtain ⟨clocks, envelope, phase, isUp, rfl⟩ := heard
  have half (phase : Fin 8)
      (isUp : dutyUp (BitVec.extractLsb' 6 2 (0xbf : Byte)) phase = true) :
      1 ≤ phase ∧ phase ≤ 4 := by
    revert phase
    decide
  rw [sounding.control] at isUp
  rw [sounding.pulse1_eq, if_pos (half phase isUp)]
  exact loud

/-- Once the program is idle, what the core shows decides. -/
theorem pictureAndSound_iff
    {colours : Byte → UInt32}
    {amplitude : Nat → Int16}
    {machine : Machine}
    {calls : List (Host.ClosureCall × Memory)}
    (idle : Idle machine)
    (emulated : Emulated colours amplitude machine calls) :
    PictureAndSound calls ↔ 24 < brightness (colours 0x21) := by
  obtain ⟨frame, memory, isLast, shown⟩ := emulated.picture
  have uniform := pixels_of_shows idle.painted shown
  constructor
  · intro pictureAndSound
    obtain ⟨last, lastMemory, same, _, _, _, colour, fills, bright⟩ :=
      pictureAndSound.picture
    rw [isLast, Option.some.injEq, Prod.mk.injEq] at same
    obtain ⟨rfl, rfl⟩ := same
    rw [uniform, List.count_replicate] at fills
    split_ifs at fills with isColour
    · rw [beq_iff_eq] at isColour
      rw [isColour]
      exact bright
    · exact absurd fills (Nat.not_lt_zero _)
  · intro bright
    obtain ⟨sample, member, heard⟩ := emulated.tone
    refine ⟨emulated.enough, ⟨frame, memory, isLast, shown.format,
      shown.width, shown.height, colours 0x21, ?_, bright⟩,
      ⟨sample, member, sound_of_hears idle.sounding emulated.loud heard⟩⟩
    rw [uniform, List.count_replicate_self]
    decide

/-- **From power-up to the verdict.** Whatever state the console was switched on
in and however long its status took to be ready twice, from some step on every
core that shows its picture and lets its tone be heard gives the smoke test the
picture and the sound it asks for, if and only if it paints the colour `$21`
brighter than the threshold. -/
theorem emulated_run_passes_iff
    (power : Machine)
    (status : Nat → Byte)
    (i j : Nat)
    (earlier : i < j)
    (first : (status i).msb = true)
    (second : (status j).msb = true) :
    ∃ n, ∀ k, n ≤ k → ∃ machine,
      run (Machine.step testCartridge status) k
          (Machine.reset testCartridge power) = some machine ∧
        Idle machine ∧
        ∀ colours amplitude calls,
          Emulated colours amplitude machine calls →
          (PictureAndSound calls ↔ 24 < brightness (colours 0x21)) := by
  obtain ⟨final, travels, undisturbed, idle⟩ :=
    ensures_idle power earlier first second _ rfl
  obtain ⟨⟨n, stays⟩, _⟩ := settles travels idle.step_eq undisturbed
  refine ⟨n, fun k late => ⟨final, stays k late, idle, ?_⟩⟩
  intro colours amplitude calls emulated
  exact pictureAndSound_iff idle emulated

/-- A grey run of an emulator that paints everything grey and is heard. -/
theorem emulated_greyRun
    {machine : Machine}
    (sounding : machine.apu.Sounding) :
    Emulated (fun _ => 0x80808080) (fun level => if level = 15 then 1 else 0)
      machine greyRun where
  enough := pictureAndSound_greyRun.enough
  picture := by
    refine ⟨fullFrame, fun _ => 0x80, ?_, rfl, rfl, rfl, fun x y _ _ => ?_⟩
    · simp [frames, greyRun]
    · rw [Memory.word]
      decide
  tone := by
    refine ⟨1, by simp [samples, greyRun], [], 0, 1, ?_, ?_⟩
    · rw [sounding.control]
      decide
    · rw [sounding.pulse1_eq]
      rfl
  loud := by decide

/-- A console full of zeros, whose status is always ready. -/
theorem emulated_run_passes_iff_of_zeros :
    ∃ k machine,
      run (Machine.step testCartridge fun _ => 0xff) k
          (Machine.reset testCartridge
            { cpu := ⟨0, 0, 0, 0, 0, false, false, false, false, false, false⟩
              ram := fun _ => 0
              ppu := ⟨0, 0, 0, ⟨0, 0⟩, 0, false, fun _ => 0, fun _ => 0⟩
              apu := ⟨fun _ => 0, 0, 0⟩
              statusReads := 0 }) = some machine ∧
        Emulated (fun _ => 0x80808080)
          (fun level => if level = 15 then 1 else 0) machine greyRun ∧
        PictureAndSound greyRun := by
  obtain ⟨n, later⟩ := emulated_run_passes_iff
    { cpu := ⟨0, 0, 0, 0, 0, false, false, false, false, false, false⟩
      ram := fun _ => 0
      ppu := ⟨0, 0, 0, ⟨0, 0⟩, 0, false, fun _ => 0, fun _ => 0⟩
      apu := ⟨fun _ => 0, 0, 0⟩
      statusReads := 0 }
    (fun _ => 0xff) 0 1 (by decide) (by decide) (by decide)
  obtain ⟨machine, reached, idle, passes⟩ := later n le_rfl
  have emulated := emulated_greyRun idle.sounding
  exact ⟨n, machine, reached, emulated,
    (passes _ _ _ emulated).mpr (by decide)⟩

end TestRom
end LibretroLab
