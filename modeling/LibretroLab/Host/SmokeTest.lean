import LibretroLab.Library.Histogram
import LibretroLab.Host.Callbacks

/-!
# The verdict of the smoke test

`testRunsROMAndProducesVideoAndAudio`: the closures it hands to the host, which
copy frames and follow the loudest sample, and the checks on what they have
captured at the end. The samples behind a pointer are the memory from there
on, as in the callbacks.
-/

namespace LibretroLab
namespace Host
namespace SmokeTest

open Histogram

/-- The bytes of the process while a closure runs. -/
abbrev Memory := Int → UInt8

/-- The `UInt32` at an address. -/
def Memory.word (memory : Memory) (address : Int) : UInt32 :=
  (memory address).toUInt32 ||| (memory (address + 1)).toUInt32 <<< 8 |||
    (memory (address + 2)).toUInt32 <<< 16 |||
    (memory (address + 3)).toUInt32 <<< 24

/-- The two loops that copy the pixels out of a frame, row by row. -/
def pixels (memory : Memory) (frame : VideoFrame) : List UInt32 :=
  (List.range frame.height.toNat).flatMap fun y : Nat =>
    (List.range frame.width.toNat).map fun x : Nat =>
      memory.word (frame.data.toNat + y * frame.pitch + 4 * x)

/-- The variables that the closures write. -/
structure Capture where
  frameCount : Nat := 0
  lastFrame : List UInt32 := []
  lastWidth : Int := 0
  lastHeight : Int := 0
  lastFormat : Option PixelFormat := none
  audioFrames : Int := 0
  audioPeak : Int16 := 0

/-- One turn of the loop over the samples. -/
def louder (audioPeak sample : Int16) : Int16 :=
  if audioPeak.toInt.natAbs < sample.toInt.natAbs then sample else audioPeak

/-- The closure `host.onVideo`. -/
def Capture.onVideo (memory : Memory) (capture : Capture) :
    Option VideoFrame → Capture
  | none => capture
  | some frame =>
      let seen := { capture with
        frameCount := capture.frameCount + 1
        lastWidth := frame.width
        lastHeight := frame.height
        lastFormat := some frame.format }
      if frame.format = .xrgb8888 then
        { seen with lastFrame := pixels memory frame }
      else seen

/-- The closure `host.onAudio`. The range of its loop traps if the number of
frames is negative. -/
def Capture.onAudio
    (capture : Capture)
    (samples : List Int16)
    (frames : Int) : Option Capture :=
  if frames < 0 then none
  else some { capture with
    audioFrames := capture.audioFrames + frames
    audioPeak :=
      (samples.take (2 * frames.toNat)).foldl louder capture.audioPeak }

/-- One call of a closure of the test. -/
def Capture.take (capture : Capture) :
    ClosureCall × Memory → Option Capture
  | (.onVideo _ frame, memory) => some (capture.onVideo memory frame)
  | (.onAudio _ samples frames, _) => capture.onAudio samples frames

/-- What the closures have captured after their calls. -/
def captured (calls : List (ClosureCall × Memory)) : Option Capture :=
  calls.foldlM Capture.take {}

/-- `(pixel >> shift) & 0xff`. -/
def channel (pixel shift : UInt32) : UInt32 := (pixel >>> shift) &&& 0xff

/-- `Int(r + g + b)`. -/
def brightness (pixel : UInt32) : Nat :=
  (channel pixel 16 + channel pixel 8 + channel pixel 0).toNat

/-- The checks at the end of the test, for an order in which the dictionary
lists its entries. `Double(modalCount) / Double(count) > 0.95` is stated
without the division. -/
def Capture.Passes (order : List (UInt32 × Nat)) (capture : Capture) : Prop :=
  55 ≤ capture.frameCount ∧
    capture.lastFormat = some .xrgb8888 ∧
    capture.lastWidth = 256 ∧
    capture.lastHeight = 240 ∧
    capture.lastFrame.length = 256 * 240 ∧
    (∃ modal modalCount, order.argmax Prod.snd = some (modal, modalCount) ∧
      19 * capture.lastFrame.length < 20 * modalCount ∧
      24 < brightness modal) ∧
    0 < capture.audioFrames ∧
    capture.audioPeak ≠ 0

/-! ## What was delivered -/

/-- The frames that were delivered. -/
def frames (calls : List (ClosureCall × Memory)) :
    List (VideoFrame × Memory) :=
  calls.filterMap fun
    | (.onVideo _ (some frame), memory) => some (frame, memory)
    | _ => none

/-- The samples that were delivered. -/
def samples (calls : List (ClosureCall × Memory)) : List Int16 :=
  calls.flatMap fun
    | (.onAudio _ samples frames, _) => samples.take (2 * frames.toNat)
    | _ => []

/-- A picture and a sound: the last of at least 55 frames is a full one, almost
all of it in one colour that is not dark, and some sample is not silent. -/
structure PictureAndSound (calls : List (ClosureCall × Memory)) : Prop where
  enough : 55 ≤ (frames calls).length
  picture : ∃ frame memory, (frames calls).getLast? = some (frame, memory) ∧
    frame.format = .xrgb8888 ∧ frame.width = 256 ∧ frame.height = 240 ∧
    ∃ colour, 19 * (256 * 240) < 20 * (pixels memory frame).count colour ∧
      24 < brightness colour
  sound : ∃ sample ∈ samples calls, sample ≠ 0

theorem length_pixels (memory : Memory) (frame : VideoFrame) :
    (pixels memory frame).length =
      frame.height.toNat * frame.width.toNat := by
  simp [pixels, List.length_flatMap]

/-- The loudest sample is silent only if all are. -/
theorem louder_ne_zero_iff (audioPeak sample : Int16) :
    louder audioPeak sample ≠ 0 ↔ audioPeak ≠ 0 ∨ sample ≠ 0 := by
  have silent (value : Int16) : value = 0 ↔ value.toInt.natAbs = 0 := by
    rw [Int.natAbs_eq_zero, ← Int16.toInt_zero, Int16.toInt_inj]
  unfold louder
  split_ifs with isLouder
  · have heard : sample ≠ 0 := by
      rw [ne_eq, silent]
      omega
    simp [heard]
  · simp only [ne_eq, silent]
    omega

theorem foldl_louder_ne_zero_iff
    (samples : List Int16)
    (audioPeak : Int16) :
    samples.foldl louder audioPeak ≠ 0 ↔
      audioPeak ≠ 0 ∨ ∃ sample ∈ samples, sample ≠ 0 := by
  induction samples generalizing audioPeak with
  | nil => simp
  | cons sample rest inductionHypothesis =>
      rw [List.foldl_cons, inductionHypothesis, louder_ne_zero_iff]
      simp [or_assoc]

/-- What the captured variables say of the calls so far. -/
structure Describes
    (calls : List (ClosureCall × Memory))
    (capture : Capture) : Prop where
  frameCount : capture.frameCount = (frames calls).length
  noFrame : (frames calls).getLast? = none → capture.lastFormat = none
  lastFrame : ∀ frame memory,
    (frames calls).getLast? = some (frame, memory) →
      capture.lastFormat = some frame.format ∧
      capture.lastWidth = frame.width ∧ capture.lastHeight = frame.height ∧
      (frame.format = .xrgb8888 → capture.lastFrame = pixels memory frame)
  audioFrames : 0 ≤ capture.audioFrames
  audible : capture.audioPeak ≠ 0 → 0 < capture.audioFrames
  audioPeak : capture.audioPeak ≠ 0 ↔ ∃ sample ∈ samples calls, sample ≠ 0

theorem describes_initial : Describes [] {} where
  frameCount := rfl
  noFrame := fun _ => rfl
  lastFrame := fun _ _ isLast => by contradiction
  audioFrames := le_rfl
  audible := fun heard => by contradiction
  audioPeak := by simp [samples]

/-- A call of the video closure. -/
theorem Describes.takeVideo
    {calls : List (ClosureCall × Memory)}
    {capture next : Capture}
    (describes : Describes calls capture)
    {h : HostId}
    {frame : Option VideoFrame}
    {memory : Memory}
    (taken : capture.take (.onVideo h frame, memory) = some next) :
    Describes (calls ++ [(.onVideo h frame, memory)]) next := by
  have noSamples : samples (calls ++ [(.onVideo h frame, memory)]) =
      samples calls := by
    simp [samples]
  rw [Capture.take, Option.some.injEq] at taken
  cases frame with
  | none =>
      have noFrames : frames (calls ++ [(.onVideo h none, memory)]) =
          frames calls := by
        simp [frames]
      subst taken
      exact ⟨noFrames ▸ describes.frameCount,
        noFrames ▸ describes.noFrame, noFrames ▸ describes.lastFrame,
        describes.audioFrames, describes.audible,
        noSamples ▸ describes.audioPeak⟩
  | some frame =>
      have oneFrame :
          frames (calls ++ [(.onVideo h (some frame), memory)]) =
            frames calls ++ [(frame, memory)] := by
        simp [frames]
      subst taken
      refine ⟨?_, ?_, ?_, ?_, ?_, ?_⟩
      · rw [oneFrame, List.length_append, ← describes.frameCount,
          Capture.onVideo]
        split_ifs <;> rfl
      · simp [oneFrame]
      · intro last lastMemory isLast
        rw [oneFrame, List.getLast?_concat, Option.some.injEq,
          Prod.mk.injEq] at isLast
        obtain ⟨rfl, rfl⟩ := isLast
        rw [Capture.onVideo]
        split_ifs with isXrgb
        · exact ⟨rfl, rfl, rfl, fun _ => rfl⟩
        · exact ⟨rfl, rfl, rfl, fun same => absurd same isXrgb⟩
      · rw [Capture.onVideo]
        split_ifs <;> exact describes.audioFrames
      · rw [Capture.onVideo]
        split_ifs <;> exact describes.audible
      · rw [noSamples, ← describes.audioPeak, Capture.onVideo]
        split_ifs <;> rfl

/-- A call of the audio closure. -/
theorem Describes.takeAudio
    {calls : List (ClosureCall × Memory)}
    {capture next : Capture}
    (describes : Describes calls capture)
    {h : HostId}
    {heard : List Int16}
    {count : Int}
    {memory : Memory}
    (taken : capture.take (.onAudio h heard count, memory) = some next) :
    Describes (calls ++ [(.onAudio h heard count, memory)]) next := by
  have noFrames : frames (calls ++ [(.onAudio h heard count, memory)]) =
      frames calls := by
    simp [frames]
  have moreSamples : samples (calls ++ [(.onAudio h heard count, memory)]) =
      samples calls ++ heard.take (2 * count.toNat) := by
    simp [samples]
  rw [Capture.take, Capture.onAudio] at taken
  split_ifs at taken with negative
  obtain rfl := Option.some.inj taken
  have sum : 0 ≤ capture.audioFrames + count :=
    Int.add_nonneg describes.audioFrames (Int.not_lt.mp negative)
  refine ⟨noFrames ▸ describes.frameCount, noFrames ▸ describes.noFrame,
    noFrames ▸ describes.lastFrame, sum, ?_, ?_⟩
  · intro audible
    rcases (foldl_louder_ne_zero_iff _ _).mp audible with
      before | ⟨sample, member, _⟩
    · have positive := describes.audible before
      simp only
      omega
    · have some : (heard.take (2 * count.toNat)).length ≠ 0 :=
        fun empty => by
          rw [List.length_eq_zero_iff.mp empty] at member
          contradiction
      rw [List.length_take] at some
      have := describes.audioFrames
      simp only
      omega
  · rw [foldl_louder_ne_zero_iff, describes.audioPeak, moreSamples]
    simp only [List.mem_append, or_and_right, exists_or]

/-- One call of a closure. -/
theorem Describes.take
    {calls : List (ClosureCall × Memory)}
    {call : ClosureCall × Memory}
    {capture next : Capture}
    (describes : Describes calls capture)
    (taken : capture.take call = some next) :
    Describes (calls ++ [call]) next := by
  obtain ⟨closureCall, memory⟩ := call
  cases closureCall with
  | onVideo h frame => exact describes.takeVideo taken
  | onAudio h heard count => exact describes.takeAudio taken

theorem describes_foldlM
    {past calls : List (ClosureCall × Memory)}
    {capture final : Capture}
    (describes : Describes past capture)
    (ran : calls.foldlM Capture.take capture = some final) :
    Describes (past ++ calls) final := by
  induction calls generalizing past capture with
  | nil =>
      obtain rfl := Option.some.inj ran
      rwa [List.append_nil]
  | cons call rest inductionHypothesis =>
      rw [List.foldlM_cons] at ran
      obtain ⟨next, taken, later⟩ := Option.bind_eq_some_iff.mp ran
      have whole := inductionHypothesis (describes.take taken) later
      rwa [List.append_assoc] at whole

/-- Nothing traps while no core delivers a negative number of frames. -/
theorem exists_foldlM_take
    {calls : List (ClosureCall × Memory)}
    (counted : ∀ call ∈ calls, ∀ h samples frames,
      call.1 = .onAudio h samples frames → 0 ≤ frames)
    (capture : Capture) :
    ∃ final, calls.foldlM Capture.take capture = some final := by
  induction calls generalizing capture with
  | nil => exact ⟨capture, rfl⟩
  | cons call rest inductionHypothesis =>
      have taken : ∃ next, capture.take call = some next := by
        obtain ⟨closureCall, memory⟩ := call
        cases closureCall with
        | onVideo h frame => exact ⟨_, rfl⟩
        | onAudio h samples frames =>
            have positive := counted _ List.mem_cons_self h samples frames rfl
            exact ⟨_, if_neg (Int.not_lt.mpr positive)⟩
      obtain ⟨next, isNext⟩ := taken
      obtain ⟨final, ran⟩ := inductionHypothesis
        (fun later member => counted later (List.mem_cons_of_mem call member))
        next
      exact ⟨final, by rw [List.foldlM_cons, isNext]; exact ran⟩

/-- **The verdict.** For all closure calls that a run makes and in whatever
order the dictionary lists the colours, the test passes if and only if it was
given a picture and a sound: the counting finds a colour that fills the frame
whenever there is one, the last captured pixels are those of the last frame,
and the peak is silent only if every sample is. -/
theorem smoke_test_passes_iff
    {calls : List (ClosureCall × Memory)}
    {capture : Capture}
    (ran : captured calls = some capture)
    {order : List (UInt32 × Nat)}
    (enumerates : Enumerates order (histogram capture.lastFrame)) :
    capture.Passes order ↔ PictureAndSound calls := by
  have describes : Describes calls capture :=
    describes_foldlM describes_initial ran
  have dominant (full : capture.lastFrame.length = 256 * 240) :
      (∃ modal modalCount,
        order.argmax Prod.snd = some (modal, modalCount) ∧
          19 * capture.lastFrame.length < 20 * modalCount ∧
          24 < brightness modal) ↔
        ∃ colour, 19 * (256 * 240) < 20 * capture.lastFrame.count colour ∧
          24 < brightness colour := by
    rw [full]
    refine exists_argmax_iff enumerates fun colour isGood => ?_
    have fills := isGood.1
    omega
  constructor
  · rintro ⟨enough, format, width, height, full, modal, _, audible⟩
    cases last : (frames calls).getLast? with
    | none =>
        rw [describes.noFrame last] at format
        contradiction
    | some found =>
        obtain ⟨frame, memory⟩ := found
        obtain ⟨sameFormat, sameWidth, sameHeight, same⟩ :=
          describes.lastFrame frame memory last
        have isXrgb : frame.format = .xrgb8888 :=
          Option.some.inj (sameFormat.symm.trans format)
        obtain ⟨colour, fills, bright⟩ := (dominant full).mp modal
        rw [same isXrgb] at fills
        exact ⟨describes.frameCount ▸ enough, ⟨frame, memory, last, isXrgb,
          sameWidth.symm.trans width, sameHeight.symm.trans height, colour,
          fills, bright⟩, describes.audioPeak.mp audible⟩
  · rintro ⟨enough, ⟨frame, memory, last, isXrgb, width, height, colour,
      fills, bright⟩, sound⟩
    obtain ⟨sameFormat, sameWidth, sameHeight, same⟩ :=
      describes.lastFrame frame memory last
    have full : capture.lastFrame.length = 256 * 240 := by
      rw [same isXrgb, length_pixels, width, height]
      rfl
    have audible := describes.audioPeak.mpr sound
    refine ⟨describes.frameCount ▸ enough, isXrgb ▸ sameFormat,
      sameWidth.trans width, sameHeight.trans height, full,
      (dominant full).mpr ⟨colour, ?_, bright⟩, describes.audible audible,
      audible⟩
    rw [same isXrgb]
    exact fills

/-- Copying a frame of one colour gives that colour everywhere. -/
theorem pixels_of_uniform
    {memory : Memory}
    {frame : VideoFrame}
    {colour : UInt32}
    (uniform : ∀ x y : Nat, x < frame.width.toNat → y < frame.height.toNat →
      memory.word (frame.data.toNat + y * frame.pitch + 4 * x) = colour) :
    pixels memory frame =
      List.replicate (frame.height.toNat * frame.width.toNat) colour := by
  rw [List.eq_replicate_iff]
  refine ⟨length_pixels memory frame, fun pixel member => ?_⟩
  simp only [pixels, List.mem_flatMap, List.mem_map, List.mem_range] at member
  obtain ⟨y, below, x, inside, rfl⟩ := member
  exact uniform x y inside below

/-- A frame of the size of the picture. -/
def fullFrame : VideoFrame where
  data := 4096
  width := 256
  height := 240
  pitch := 1024
  format := .xrgb8888

/-- Sixty grey frames and one sample. -/
def greyRun : List (ClosureCall × Memory) :=
  List.replicate 60 (.onVideo 0 (some fullFrame), fun _ => 0x80) ++
    [(.onAudio 0 [0, 1] 1, fun _ => 0)]

theorem pictureAndSound_greyRun : PictureAndSound greyRun where
  enough := by simp [frames, greyRun]
  picture := by
    refine ⟨fullFrame, fun _ => 0x80, ?_, rfl, rfl, rfl, 0x80808080, ?_,
      by decide⟩
    · simp [frames, greyRun]
    · have uniform (address : Int) :
          Memory.word (fun _ => 0x80) address = 0x80808080 := by
        rw [Memory.word]
        decide
      rw [pixels_of_uniform fun _ _ _ _ => uniform _,
        List.count_replicate_self]
      decide
  sound := ⟨1, by simp [samples, greyRun], by decide⟩

theorem smoke_test_passes_iff_grey :
    ∃ capture order, captured greyRun = some capture ∧
      Enumerates order (histogram capture.lastFrame) ∧
      capture.Passes order := by
  obtain ⟨capture, ran⟩ : ∃ capture, captured greyRun = some capture := by
    refine exists_foldlM_take (fun call member h samples frames isAudio => ?_)
      {}
    rcases List.mem_append.mp member with isFrame | isSample
    · rw [List.eq_of_mem_replicate isFrame] at isAudio
      contradiction
    · rw [List.mem_singleton.mp isSample] at isAudio
      simp only [ClosureCall.onAudio.injEq] at isAudio
      omega
  exact ⟨capture, _, ran, enumerates_map_count _,
    (smoke_test_passes_iff ran (enumerates_map_count _)).mpr
      pictureAndSound_greyRun⟩

end SmokeTest
end Host
end LibretroLab
