import LibretroLab.TestRom.Program

/-!
# The test ROM at work

The program of the test ROM, executed from reset in any state of the console:
it initialises the picture unit, waits for two vertical blanks, sets the
backdrop, starts a tone, turns the background on and stays in its last
instruction.
-/

namespace LibretroLab
namespace TestRom

open Transition

/-! ## The stages of the program -/

/-- The machine is about to execute the instruction at `pc`, with interrupts
off. -/
structure At (pc : BitVec 16) (machine : Machine) : Prop where
  pc : machine.cpu.pc = pc
  irqOff : machine.cpu.interruptDisable = true
  nmiOff : machine.ppu.ctrl = 0

/-- The machine has read the status `n` times. -/
structure Polling (pc : BitVec 16) (n : Nat) (machine : Machine) : Prop
    extends At pc machine where
  reads : machine.statusReads = n

/-- The last read of the status left the write toggle clear. -/
structure Polled (pc : BitVec 16) (n : Nat) (machine : Machine) : Prop
    extends Polling pc n machine where
  toggle : machine.ppu.toggle = false

/-- The machine is about to branch on the status just read. -/
structure Looked
    (pc : BitVec 16)
    (n : Nat)
    (ready : Bool)
    (machine : Machine) : Prop extends Polled pc n machine where
  negative : machine.cpu.negative = ready

/-- The backdrop is set and the write toggle clear. -/
structure Coloured (ppu : Ppu) : Prop where
  backdrop : ppu.palette 0 = 0x21
  toggle : ppu.toggle = false

/-- The address and the scroll position are zero, too. -/
structure Homed (ppu : Ppu) : Prop extends Coloured ppu where
  v : ppu.v = 0
  t : ppu.t = ⟨0, 0⟩
  fineX : ppu.fineX = 0

/-- What the program leaves in the picture unit. -/
structure Painted (ppu : Ppu) : Prop extends Homed ppu where
  ctrl : ppu.ctrl = 0
  mask : ppu.mask = 0x0a

/-! ## Stores to picture and sound registers -/

section Stores

variable {address : BitVec 16} (cartridge : Cartridge) (value : Byte)
  (machine : Machine)

theorem store_of_picture
    (isPicture : ¬address < 0x2000 ∧ address < 0x4000) :
    machine.store cartridge address value =
      { machine with
        ppu := machine.ppu.write cartridge (address.extractLsb' 0 3)
          value } := by
  rw [Machine.store, if_neg isPicture.1, if_pos isPicture.2]

theorem store_of_sound
    (isSound : ¬address < 0x2000 ∧ ¬address < 0x4000 ∧ address < 0x4020) :
    machine.store cartridge address value =
      { machine with
        apu := machine.apu.write (address.extractLsb' 0 5) value } := by
  rw [Machine.store, if_neg isSound.1, if_neg isSound.2.1, if_pos isSound.2.2]

end Stores

section Stages

variable {status : Nat → Byte} {pre post : Machine → Prop}
  {pc : BitVec 16}

/-- The address behind a block. -/
def behind (pc : BitVec 16) (code : List Instruction) : BitVec 16 :=
  code.foldl (fun pc instruction => pc + instruction.length) pc

/-- A block leaves the machine behind it. -/
theorem At.executeAll
    {machine : Machine}
    {code : List Instruction}
    (before : At pc machine)
    (straight : ∀ instruction ∈ code, instruction.straight = true)
    (noStore : ∀ instruction ∈ code, instruction.storesCtrl = false) :
    At (behind pc code) (executeAll status code machine) := by
  induction code generalizing pc machine with
  | nil => exact before
  | cons instruction rest inductionHypothesis =>
      have next : At (pc + instruction.length)
          (machine.execute testCartridge status instruction) := by
        refine ⟨?_, interruptDisable_execute instruction before.irqOff, ?_⟩
        · rw [pc_execute (straight instruction List.mem_cons_self), before.pc]
        · rw [ctrl_execute (noStore instruction List.mem_cons_self),
            before.nmiOff]
      exact inductionHypothesis next
        (fun later member => straight later (List.mem_cons_of_mem _ member))
        fun later member => noStore later (List.mem_cons_of_mem _ member)

/-- A block of the program leads behind it. -/
theorem ensures_block
    (code : List Instruction)
    (isListed : listed pc code = true)
    (straight : ∀ instruction ∈ code, instruction.straight = true)
    (noStore : ∀ instruction ∈ code, instruction.storesCtrl = false)
    (before : ∀ machine, pre machine → At pc machine)
    (after : ∀ machine, pre machine →
      At (behind pc code) (executeAll status code machine) →
      post (executeAll status code machine)) :
    Ensures (Machine.step testCartridge status) Undisturbed pre post := by
  intro machine initially
  have at_pc := before machine initially
  refine ⟨executeAll status code machine, ?_, ?_⟩
  · exact travels_executeAll (by rw [at_pc.pc, isListed]) straight noStore
      at_pc.nmiOff at_pc.irqOff
  · exact after machine initially (at_pc.executeAll straight noStore)

/-- One instruction of the program, which may branch or store anywhere. -/
theorem ensures_instruction
    (instruction : Instruction)
    (isListed : listed pc [instruction] = true)
    (before : ∀ machine, pre machine → At pc machine)
    (after : ∀ machine, pre machine →
      post (machine.execute testCartridge status instruction)) :
    Ensures (Machine.step testCartridge status) Undisturbed pre post := by
  intro machine initially
  have at_pc := before machine initially
  refine ⟨_, Relation.ReflTransGen.single ?_, after machine initially⟩
  exact moves_execute (by rw [at_pc.pc, isListed]) at_pc.nmiOff
    (Or.inl at_pc.irqOff)

/-! ### Before the first vertical blank -/

/-- The instructions from the second one up to `INX`. -/
def settleCode : List Instruction :=
  [.cld, .ldxImmediate 0x40, .stxAbsolute 0x4017, .ldxImmediate 0xff, .txs,
    .inx]

/-- The instructions that clear the mask and turn off the sample interrupt. -/
def silenceCode : List Instruction :=
  [.stxAbsolute 0x2001, .stxAbsolute 0x4010]

theorem ensures_sei (power : Machine) :
    Ensures (Machine.step testCartridge status) Undisturbed
      (fun machine => machine = Machine.reset testCartridge power)
      (Polling 0xc001 0) := by
  rintro machine rfl
  have vector : testCartridge.byte 0xfffd ++ testCartridge.byte 0xfffc =
      (0xc000 : BitVec 16) := by
    decide +kernel
  have start : (Machine.reset testCartridge power).cpu.pc = 0xc000 := vector
  have isListed : listed (Machine.reset testCartridge power).cpu.pc
      [.sei] = true := by
    rw [start]
    decide +kernel
  refine ⟨_, Relation.ReflTransGen.single
    (moves_execute isListed rfl (Or.inr rfl)), ⟨?_, rfl, rfl⟩, rfl⟩
  rw [pc_execute rfl, start]
  rfl

theorem ensures_settle :
    Ensures (Machine.step testCartridge status) Undisturbed
      (Polling 0xc001 0)
      (fun machine => Polling 0xc00b 0 machine ∧ machine.cpu.x = 0) := by
  refine ensures_block settleCode (by decide +kernel) (by decide)
    (by decide) (fun _ polling => polling.toAt) fun machine polling next => ?_
  have results : (executeAll status settleCode machine).cpu.x = 0 ∧
      (executeAll status settleCode machine).statusReads =
        machine.statusReads := by
    simp (disch := decide) only [settleCode, executeAll_cons, executeAll_nil,
      Machine.execute, Machine.withCpu, Machine.advance,
      Cpu.withFlags, store_of_sound, and_true]
    decide
  exact ⟨⟨next, results.2.trans polling.reads⟩, results.1⟩

/-- `STX $2000` stores the zero in X. -/
theorem ensures_ctrl :
    Ensures (Machine.step testCartridge status) Undisturbed
      (fun machine => Polling 0xc00b 0 machine ∧ machine.cpu.x = 0)
      (Polling 0xc00e 0) := by
  refine ensures_instruction (.stxAbsolute 0x2000) (by decide +kernel)
    (fun _ before => before.1.toAt) fun machine before => ?_
  obtain ⟨polling, xZero⟩ := before
  refine ⟨⟨?_, interruptDisable_execute _ polling.irqOff, ?_⟩, ?_⟩
  · rw [pc_execute rfl, polling.pc]
    rfl
  · rw [Machine.execute, store_of_picture _ _ _ (by decide), xZero]
    rfl
  · rw [Machine.execute, store_of_picture _ _ _ (by decide)]
    exact polling.reads

theorem ensures_silence :
    Ensures (Machine.step testCartridge status) Undisturbed
      (Polling 0xc00e 0) (Polling 0xc014 0) := by
  refine ensures_block silenceCode (by decide +kernel) (by decide)
    (by decide) (fun _ polling => polling.toAt) fun machine polling next => ?_
  have reads : (executeAll status silenceCode machine).statusReads =
      machine.statusReads := by
    simp (disch := decide) only [silenceCode, executeAll_cons, executeAll_nil,
      Machine.execute, Machine.advance, store_of_picture,
      store_of_sound]
  exact ⟨next, reads.trans polling.reads⟩

/-! ### Waiting for a vertical blank -/

/-- `BIT $2002` reads the next status. -/
theorem ensures_bit
    (isListed : listed pc [.bitAbsolute 0x2002] = true)
    (n : Nat) :
    Ensures (Machine.step testCartridge status) Undisturbed
      (Polling pc n) (Looked (pc + 3) (n + 1) (status n).msb) := by
  refine ensures_instruction (.bitAbsolute 0x2002) isListed
    (fun _ polling => polling.toAt) fun machine polling => ?_
  refine ⟨⟨⟨⟨?_, polling.irqOff, polling.nmiOff⟩, ?_⟩, rfl⟩, ?_⟩
  · rw [pc_execute rfl, polling.pc]
    rfl
  · exact congrArg (· + 1) polling.reads
  · exact congrArg (fun reads => (status reads).msb) polling.reads

/-- `BPL` is taken while bit 7 is clear. -/
theorem ensures_bpl_taken
    {offset : Byte}
    (isListed : listed pc [.bpl offset] = true)
    (n : Nat) :
    Ensures (Machine.step testCartridge status) Undisturbed
      (Looked pc n false) (Polling (pc + 2 + offset.signExtend 16) n) := by
  refine ensures_instruction (.bpl offset) isListed
    (fun _ looked => looked.toAt) fun machine looked => ?_
  have taken : machine.execute testCartridge status (.bpl offset) =
      (machine.advance (.bpl offset)).withCpu fun cpu =>
        { cpu with pc := cpu.pc + offset.signExtend 16 } := by
    simp [Machine.execute, looked.negative]
  rw [taken]
  refine ⟨⟨?_, looked.irqOff, looked.nmiOff⟩, looked.reads⟩
  rw [← looked.pc]
  rfl

/-- `BPL` falls through when bit 7 is set. -/
theorem ensures_bpl_left
    {offset : Byte}
    (isListed : listed pc [.bpl offset] = true)
    (n : Nat) :
    Ensures (Machine.step testCartridge status) Undisturbed
      (Looked pc n true) (Polled (pc + 2) n) := by
  refine ensures_instruction (.bpl offset) isListed
    (fun _ looked => looked.toAt) fun machine looked => ?_
  have left : machine.execute testCartridge status (.bpl offset) =
      machine.advance (.bpl offset) := by
    simp [Machine.execute, looked.negative]
  rw [left]
  refine ⟨⟨⟨?_, looked.irqOff, looked.nmiOff⟩, looked.reads⟩, looked.toggle⟩
  rw [← looked.pc]
  rfl

/-- A polling loop is left after the first status with bit 7 set. -/
theorem ensures_poll
    (isListed :
      listed pc [.bitAbsolute 0x2002, .bpl 0xfb] = true)
    {last : Nat}
    (isReady : (status last).msb = true)
    {n : Nat}
    (before : n ≤ last) :
    Ensures (Machine.step testCartridge status) Undisturbed
      (Polling pc n)
      (fun machine => ∃ m, m ≤ last ∧ Polled (pc + 5) (m + 1) machine) := by
  simp only [listed, Bool.and_eq_true, Bool.and_true] at isListed
  have bitListed : listed pc [.bitAbsolute 0x2002] = true := by
    simp only [listed, Bool.and_eq_true, Bool.and_true]
    exact isListed.1
  have bplListed : listed (pc + 3) [.bpl 0xfb] = true := by
    simp only [listed, Bool.and_eq_true, Bool.and_true]
    exact isListed.2
  have back : pc + 3 + 2 + (0xfb : Byte).signExtend 16 = pc := by
    have round : (3 : BitVec 16) + 2 + (0xfb : Byte).signExtend 16 = 0 := by
      decide
    rw [BitVec.add_assoc, BitVec.add_assoc, ← BitVec.add_assoc 3 2, round]
    exact BitVec.add_zero pc
  have beyond : pc + 3 + 2 = pc + 5 := by
    rw [BitVec.add_assoc]
    rfl
  have looksAgain (n : Nat) (notReady : ¬(status n).msb = true) :
      Ensures (Machine.step testCartridge status) Undisturbed
        (Polling pc n) (Polling pc (n + 1)) := by
    have looked : Ensures (Machine.step testCartridge status) Undisturbed
        (Polling pc n) (Looked (pc + 3) (n + 1) (status n).msb) :=
      ensures_bit bitListed n
    rw [eq_false_of_ne_true notReady] at looked
    have taken : Ensures (Machine.step testCartridge status) Undisturbed
        (Looked (pc + 3) (n + 1) false)
        (Polling (pc + 3 + 2 + (0xfb : Byte).signExtend 16) (n + 1)) :=
      ensures_bpl_taken bplListed (n + 1)
    rw [back] at taken
    exact looked.trans taken
  have leaves (n : Nat) (ready : (status n).msb = true) :
      Ensures (Machine.step testCartridge status) Undisturbed
        (Polling pc n) (Polled (pc + 5) (n + 1)) := by
    have looked : Ensures (Machine.step testCartridge status) Undisturbed
        (Polling pc n) (Looked (pc + 3) (n + 1) (status n).msb) :=
      ensures_bit bitListed n
    rw [ready] at looked
    have left : Ensures (Machine.step testCartridge status) Undisturbed
        (Looked (pc + 3) (n + 1) true) (Polled (pc + 3 + 2) (n + 1)) :=
      ensures_bpl_left bplListed (n + 1)
    rw [beyond] at left
    exact looked.trans left
  exact Ensures.wait looksAgain leaves isReady before

/-- The two loops are left after two ready statuses at the latest. -/
theorem ensures_polls
    {i j : Nat}
    (earlier : i < j)
    (first : (status i).msb = true)
    (second : (status j).msb = true) :
    Ensures (Machine.step testCartridge status) Undisturbed
      (Polling 0xc014 0)
      (fun machine => ∃ m, m ≤ j ∧ Polled 0xc01e (m + 1) machine) := by
  have once : Ensures (Machine.step testCartridge status) Undisturbed
      (Polling 0xc014 0)
      (fun machine => ∃ m, m ≤ i ∧ Polled 0xc019 (m + 1) machine) :=
    ensures_poll (by decide +kernel) first (Nat.zero_le i)
  refine once.trans (Ensures.of_exists fun m before => ?_)
  have again : Ensures (Machine.step testCartridge status) Undisturbed
      (Polling 0xc019 (m + 1))
      (fun machine => ∃ m, m ≤ j ∧ Polled 0xc01e (m + 1) machine) :=
    ensures_poll (by decide +kernel) second
      (Nat.succ_le_of_lt (Nat.lt_of_le_of_lt before earlier))
  exact fun machine polled => again machine polled.toPolling

/-! ### After the second vertical blank -/

/-- The instructions that set the backdrop. -/
def paletteCode : List Instruction :=
  [.ldaImmediate 0x3f, .staAbsolute 0x2006, .ldaImmediate 0x00,
    .staAbsolute 0x2006, .ldaImmediate 0x21, .staAbsolute 0x2007]

/-- The instructions that reset the address and the scroll position. -/
def scrollCode : List Instruction :=
  [.ldaImmediate 0x00, .staAbsolute 0x2006, .staAbsolute 0x2006,
    .staAbsolute 0x2005, .staAbsolute 0x2005]

/-- The instructions that start the tone. -/
def toneCode : List Instruction :=
  [.ldaImmediate 0x01, .staAbsolute 0x4015, .ldaImmediate 0xbf,
    .staAbsolute 0x4000, .ldaImmediate 0x08, .staAbsolute 0x4001,
    .ldaImmediate 0xaa, .staAbsolute 0x4002, .ldaImmediate 0x00,
    .staAbsolute 0x4003]

/-- The instructions that turn the background on. -/
def renderCode : List Instruction :=
  [.ldaImmediate 0x0a, .staAbsolute 0x2001]

theorem ensures_palette (n : Nat) :
    Ensures (Machine.step testCartridge status) Undisturbed
      (Polled 0xc01e n)
      (fun machine => At 0xc02d machine ∧ Coloured machine.ppu) := by
  refine ensures_block paletteCode (by decide +kernel) (by decide)
    (by decide) (fun _ polled => polled.toAt) fun machine polled next => ?_
  have result : (executeAll status paletteCode machine).ppu =
      ((machine.ppu.writeAddr 0x3f).writeAddr 0x00).writeData testCartridge
        0x21 := by
    simp (disch := decide) only [paletteCode, executeAll_cons, executeAll_nil,
      Machine.execute, Machine.withCpu, Machine.advance,
      Cpu.withFlags, store_of_picture]
    rfl
  refine ⟨next, ?_⟩
  rw [result, Ppu.writeAddr_writeAddr polled.toggle]
  exact ⟨Ppu.palette_writeData rfl _ _, Ppu.toggle_writeData _ _ _⟩

theorem ensures_scroll :
    Ensures (Machine.step testCartridge status) Undisturbed
      (fun machine => At 0xc02d machine ∧ Coloured machine.ppu)
      (fun machine => At 0xc03b machine ∧ Homed machine.ppu) := by
  refine ensures_block scrollCode (by decide +kernel) (by decide)
    (by decide) (fun _ before => before.1) fun machine before next => ?_
  have result : (executeAll status scrollCode machine).ppu =
      (((machine.ppu.writeAddr 0x00).writeAddr 0x00).writeScroll
        0x00).writeScroll 0x00 := by
    simp (disch := decide) only [scrollCode, executeAll_cons, executeAll_nil,
      Machine.execute, Machine.withCpu, Machine.advance,
      Cpu.withFlags, store_of_picture]
    rfl
  refine ⟨next, ?_⟩
  rw [result, Ppu.writeAddr_writeAddr before.2.toggle,
    Ppu.writeScroll_writeScroll rfl]
  refine ⟨⟨before.2.backdrop, rfl⟩, rfl, ?_, rfl⟩
  refine congrArg₂ ScrollLatch.mk ?_ ?_ <;> simp

theorem ensures_tone :
    Ensures (Machine.step testCartridge status) Undisturbed
      (fun machine => At 0xc03b machine ∧ Homed machine.ppu)
      (fun machine =>
        At 0xc054 machine ∧ Homed machine.ppu ∧ machine.apu.Sounding) := by
  refine ensures_block toneCode (by decide +kernel) (by decide)
    (by decide) (fun _ before => before.1) fun machine before next => ?_
  have ppuResult :
      (executeAll status toneCode machine).ppu = machine.ppu := by
    simp (disch := decide) only [toneCode, executeAll_cons, executeAll_nil,
      Machine.execute, Machine.withCpu, Machine.advance,
      Cpu.withFlags, store_of_sound]
  have apuResult : (executeAll status toneCode machine).apu =
      ((((machine.apu.write 0x15 0x01).write 0x00 0xbf).write 0x01
        0x08).write 0x02 0xaa).write 0x03 0x00 := by
    simp (disch := decide) only [toneCode, executeAll_cons, executeAll_nil,
      Machine.execute, Machine.withCpu, Machine.advance,
      Cpu.withFlags, store_of_sound]
    rfl
  refine ⟨next, ?_, ?_⟩
  · rw [ppuResult]
    exact before.2
  · rw [apuResult]
    exact Apu.sounding_write machine.apu

theorem ensures_render :
    Ensures (Machine.step testCartridge status) Undisturbed
      (fun machine =>
        At 0xc054 machine ∧ Homed machine.ppu ∧ machine.apu.Sounding)
      (fun machine =>
        At 0xc059 machine ∧ Painted machine.ppu ∧ machine.apu.Sounding) := by
  refine ensures_block renderCode (by decide +kernel) (by decide)
    (by decide) (fun _ before => before.1) fun machine before next => ?_
  have ppuResult : (executeAll status renderCode machine).ppu =
      machine.ppu.writeMask 0x0a := by
    simp (disch := decide) only [renderCode, executeAll_cons, executeAll_nil,
      Machine.execute, Machine.withCpu, Machine.advance,
      Cpu.withFlags, store_of_picture]
    rfl
  have apuResult :
      (executeAll status renderCode machine).apu = machine.apu := by
    simp (disch := decide) only [renderCode, executeAll_cons, executeAll_nil,
      Machine.execute, Machine.withCpu, Machine.advance,
      Cpu.withFlags, store_of_picture]
  obtain ⟨isAt, homed, sounding⟩ := before
  refine ⟨next, ?_, ?_⟩
  · rw [ppuResult]
    exact ⟨⟨⟨homed.backdrop, homed.toggle⟩, homed.v, homed.t, homed.fineX⟩,
      isAt.nmiOff, rfl⟩
  · rw [apuResult]
    exact sounding

/-! ### The last instruction -/

/-- The machine stays in the last instruction, with the picture and the tone
set up. -/
structure Idle (machine : Machine) : Prop where
  loops : testCartridge.fetch machine.cpu.pc =
    some (.jmpAbsolute machine.cpu.pc)
  last : emittedAddresses.getLast? = some machine.cpu.pc
  painted : Painted machine.ppu
  sounding : machine.apu.Sounding

theorem Idle.step_eq {machine : Machine} (idle : Idle machine) :
    machine.step testCartridge status = some machine := by
  rw [Machine.step, idle.loops, Option.bind_eq_bind, Option.bind_some]
  rfl

/-- From reset, in whatever state the console was switched on, the machine
travels to the last instruction if the status is ready twice. -/
theorem ensures_idle
    (power : Machine)
    {i j : Nat}
    (earlier : i < j)
    (first : (status i).msb = true)
    (second : (status j).msb = true) :
    Ensures (Machine.step testCartridge status) Undisturbed
      (fun machine => machine = Machine.reset testCartridge power)
      (fun machine => Undisturbed machine ∧ Idle machine) := by
  have awaited : Ensures (Machine.step testCartridge status) Undisturbed
      (fun machine => machine = Machine.reset testCartridge power)
      (fun machine => ∃ m, m ≤ j ∧ Polled 0xc01e (m + 1) machine) :=
    (ensures_sei power).trans <| ensures_settle.trans <|
      ensures_ctrl.trans <| ensures_silence.trans <|
        ensures_polls earlier first second
  have rendered : Ensures (Machine.step testCartridge status) Undisturbed
      (fun machine => ∃ m, m ≤ j ∧ Polled 0xc01e (m + 1) machine)
      (fun machine =>
        At 0xc059 machine ∧ Painted machine.ppu ∧ machine.apu.Sounding) :=
    Ensures.of_exists fun m _ =>
      (ensures_palette (m + 1)).trans <| ensures_scroll.trans <|
        ensures_tone.trans ensures_render
  refine (awaited.trans rendered).weaken fun machine before => ?_
  obtain ⟨isAt, painted, sounding⟩ := before
  have emitted : (0xc059 : BitVec 16) ∈ emittedAddresses := by
    decide +kernel
  have loops : testCartridge.fetch 0xc059 = some (.jmpAbsolute 0xc059) := by
    decide +kernel
  have last : emittedAddresses.getLast? = some 0xc059 := by
    decide +kernel
  rw [← isAt.pc] at emitted loops last
  exact ⟨⟨emitted, isAt.nmiOff, Or.inl isAt.irqOff⟩,
    ⟨loops, last, painted, sounding⟩⟩

end Stages

/-- From any state at power-up and for any status values that are ready twice,
the console with the generated image executes emitted instructions only, with
no interrupt enabled; it reaches the last one and stays there. Then every pixel
of the background has the colour `$21`, and the first pulse channel puts out a
square wave at full volume from then on. -/
theorem testRom_paints_and_sounds
    (power : Machine)
    (status : Nat → Byte)
    (i j : Nat)
    (earlier : i < j)
    (first : (status i).msb = true)
    (second : (status j).msb = true) :
    makeTestRom = .ok testRom ∧
      Cartridge.load testRom = some testCartridge ∧
      (∀ k, ∃ machine,
        run (Machine.step testCartridge status) k
            (Machine.reset testCartridge power) = some machine ∧
          Undisturbed machine) ∧
      ∃ final,
        (∃ n, ∀ k, n ≤ k →
          run (Machine.step testCartridge status) k
            (Machine.reset testCartridge power) = some final) ∧
        Idle final ∧
        (∀ x y, x < 256 → y < 240 →
          final.ppu.background testCartridge x y = 0x21) ∧
        ∀ (clocks : List Apu.Clock) envelope phase,
          (clocks.foldl Apu.clock final.apu).pulse1 envelope phase =
            if 1 ≤ phase ∧ phase ≤ 4 then 15 else 0 := by
  obtain ⟨final, travels, undisturbed, idle⟩ :=
    ensures_idle power earlier first second _ rfl
  obtain ⟨stays, always⟩ := settles travels idle.step_eq undisturbed
  refine ⟨makeTestRom_eq_ok, load_testRom, always, final, stays, idle,
    fun x y _ _ => ?_, idle.sounding.pulse1_eq⟩
  have coloured : final.ppu.mask.getLsbD 0 = false := by
    rw [idle.painted.mask]
    decide
  rw [Ppu.background_of_empty chr_testCartridge coloured,
    idle.painted.backdrop]

/-- A console full of ones, whose status is always ready. -/
theorem testRom_paints_and_sounds_of_ones :
    ∃ final,
      (∃ n, ∀ k, n ≤ k →
        run (Machine.step testCartridge fun _ => 0xff) k
          (Machine.reset testCartridge
            { cpu := ⟨0xff, 0xff, 0xff, 0xff, 0xffff, true, true, true, true,
                true, true⟩
              ram := fun _ => 0xff
              ppu := ⟨0xff, 0xff, 0x7fff, ⟨0x7f, 0xff⟩, 7, true,
                fun _ => 0xff, fun _ => 0xff⟩
              apu := ⟨fun _ => 0xff, 0x7ff, 0⟩
              statusReads := 5 }) = some final) ∧
      Idle final := by
  obtain ⟨_, _, _, final, stays, idle, _⟩ :=
    testRom_paints_and_sounds
      { cpu := ⟨0xff, 0xff, 0xff, 0xff, 0xffff, true, true, true, true, true,
          true⟩
        ram := fun _ => 0xff
        ppu := ⟨0xff, 0xff, 0x7fff, ⟨0x7f, 0xff⟩, 7, true, fun _ => 0xff,
          fun _ => 0xff⟩
        apu := ⟨fun _ => 0xff, 0x7ff, 0⟩
        statusReads := 5 }
      (fun _ => 0xff) 0 1 (by decide) (by decide) (by decide)
  exact ⟨final, stays, idle⟩

end TestRom
end LibretroLab
