import Gvsoc.Himax
import Gvsoc.Emission
import Mathlib.Tactic.IntervalCases

/-! What the camera shows: frame after frame, with the bytes of the image files. -/
namespace Gvsoc.Himax
open Bytes (Byte byteOf littleEndian)
open Emission (Emits)

section Expected

variable (c : Config) (files : Nat → Option (List Byte))

def idle : Sync := ⟨true, !c.hsyncPolarity, !c.vsyncPolarity, 0⟩

def startOfFrame : Sync := ⟨true, !c.hsyncPolarity, c.vsyncPolarity, 0⟩

def dataByte (b : Byte) : Sync := ⟨true, c.hsyncPolarity, !c.vsyncPolarity, b.setWidth 32⟩

def pixelByte (image : List Byte) (pixel j : Nat) : Byte :=
  image.getD (pixel * c.pixelSize + if c.little then j else c.pixelSize - 1 - j) 0

def imageBytes (image : List Byte) : List Byte :=
  (List.range c.nbPixel).flatMap fun pixel => (List.range c.pixelSize).map (pixelByte c image pixel)

/- Three lines of synchronization, 17 lines before the image, and ten behind it. -/
def frame (image : List Byte) : List Sync :=
  List.replicate (3 * tline c.width - 1) (startOfFrame c) ++ List.replicate (17 * tline c.width + 1) (idle c) ++
    (imageBytes c image).map (dataByte c) ++ List.replicate (10 * tline c.width) (idle c)

def shownIndex : Nat → Nat
  | 0 => 0
  | k + 1 => if (files (shownIndex k + 1)).isSome then shownIndex k + 1 else 0

def shownImage (k : Nat) : List Byte := (files (shownIndex files k)).getD []

/- The formats whose bytes are sent as they are: some bytes for each pixel, or one of a gray image. -/
def Config.Plain : Prop := c.colorMode = .custom ∧ 1 ≤ c.pixelSize ∧ c.pixelSize ≤ 3 ∨ c.colorMode = .gray ∧ c.pixelSize = 1

structure Stored : Prop where
  first : (files 0).isSome = true
  long : ∀ index image, files index = some image → c.imageSize ≤ image.length

end Expected

section Pixels

variable {c : Config} {files : Nat → Option (List Byte)} {heap : Nat → Byte}

theorem maskedByte (x : Pixel) {p i : Nat} (inside : i < p) (small : p ≤ 3) :
    byteOf (x &&& ((1#32 <<< (p * 8)) - 1)) i = byteOf x i := by
  unfold byteOf
  interval_cases p <;> interval_cases i
  all_goals
    refine BitVec.eq_of_getLsbD_eq fun k low => ?_
    rw [BitVec.getLsbD_setWidth, BitVec.getLsbD_setWidth, BitVec.getLsbD_ushiftRight, BitVec.getLsbD_ushiftRight, BitVec.getLsbD_and]
    interval_cases k
  all_goals simp

theorem swappedByte (x : Pixel) {i : Nat} (inside : i < c.pixelSize) (small : c.pixelSize ≤ 3) :
    byteOf (Stream.swapped c x) i = byteOf x (c.pixelSize - 1 - i) := by
  unfold Stream.swapped byteOf
  generalize c.pixelSize = p at *
  interval_cases p <;> interval_cases i
  all_goals simp only [if_true, if_false, Nat.reduceEqDiff]
  all_goals
    refine BitVec.eq_of_getLsbD_eq fun k low => ?_
    interval_cases k
  all_goals simp

def buffer (c : Config) (heap : Nat → Byte) (image : List Byte) : Nat → Byte :=
  fun i => if i < c.imageSize then image.getD i 0 else heap i

def pixelWord (c : Config) (heap : Nat → Byte) (image : List Byte) (pixel : Nat) : Pixel :=
  if c.little then Stream.readPixel c (buffer c heap image) pixel else Stream.swapped c (Stream.readPixel c (buffer c heap image) pixel)

theorem pixelWordByte (heap : Nat → Byte) (image : List Byte) {pixel j : Nat} (inside : pixel < c.nbPixel) (below : j < c.pixelSize) (small : c.pixelSize ≤ 3) :
    byteOf (pixelWord c heap image pixel) j = pixelByte c image pixel j := by
  have position (i : Nat) (low : i < c.pixelSize) :
      byteOf (Stream.readPixel c (buffer c heap image) pixel) i = image.getD (pixel * c.pixelSize + i) 0 := by
    have within : pixel * c.pixelSize + i < c.imageSize := by
      calc pixel * c.pixelSize + i < (pixel + 1) * c.pixelSize := by rw [Nat.succ_mul]; omega
        _ ≤ c.imageSize := Nat.mul_le_mul_right _ inside
    unfold Stream.readPixel
    rw [maskedByte _ low small, Bytes.numberByte _ (by omega) (by omega)]
    exact if_pos within
  unfold pixelWord pixelByte
  cases c.little with
  | true =>
      rw [if_pos rfl, if_pos rfl]
      exact position j below
  | false =>
      rw [if_neg (by decide), if_neg (by decide), swappedByte _ below small]
      exact position _ (by omega)

def streamAt (c : Config) (heap : Nat → Byte) (image : List Byte) (before after pixel : Nat) : Stream :=
  if pixel = 0 then ⟨before, none, 0⟩
  else if pixel = c.nbPixel then ⟨after, none, 0⟩
  else ⟨after, some (buffer c heap image), pixel⟩

theorem getPixelAt {image : List Byte} {before after pixel : Nat}
    (opens : Stream.fetchImage c files heap ⟨before, none, 0⟩ = some ⟨after, some (buffer c heap image), 0⟩) (inside : pixel < c.nbPixel) :
    (streamAt c heap image before after pixel).getPixel c files heap =
      some (pixelWord c heap image pixel, streamAt c heap image before after (pixel + 1)) := by
  have next : streamAt c heap image before after (pixel + 1) =
      if pixel + 1 = c.nbPixel then ⟨after, none, 0⟩ else ⟨after, some (buffer c heap image), pixel + 1⟩ := rfl
  rw [next]
  unfold Stream.getPixel pixelWord
  by_cases first : pixel = 0
  · have start : streamAt c heap image before after pixel = ⟨before, none, 0⟩ := if_pos first
    rw [start, first]
    simp only [opens, Option.bind_eq_bind, Option.bind_some]
  · have here : streamAt c heap image before after pixel = ⟨after, some (buffer c heap image), pixel⟩ := by
      unfold streamAt
      rw [if_neg first, if_neg (Nat.ne_of_lt inside)]
    rw [here]
    simp only [Option.bind_eq_bind, Option.bind_some]

def indexBefore (files : Nat → Option (List Byte)) : Nat → Nat
  | 0 => 0
  | k + 1 => shownIndex files k + 1

theorem shownStored (stored : Stored c files) (k : Nat) : ∃ image, files (shownIndex files k) = some image := by
  cases k with
  | zero => exact Option.isSome_iff_exists.mp stored.first
  | succ k =>
      unfold shownIndex
      by_cases more : (files (shownIndex files k + 1)).isSome = true
      · rw [if_pos more]
        exact Option.isSome_iff_exists.mp more
      · rw [if_neg more]
        exact Option.isSome_iff_exists.mp stored.first

theorem shownTurns {n : Nat} (some : 0 < n) (there : ∀ index, (files index).isSome = true ↔ index < n) (k : Nat) : shownIndex files k = k % n := by
  induction k with
  | zero => exact (Nat.zero_mod n).symm
  | succ k before =>
      unfold shownIndex
      rw [before, ← Nat.mod_add_mod]
      have low := Nat.mod_lt k some
      by_cases more : k % n + 1 < n
      · rw [if_pos ((there _).mpr more), Nat.mod_eq_of_lt more]
      · have last : k % n + 1 = n := by omega
        rw [if_neg fun found => more ((there _).mp found), last, Nat.mod_self]

theorem openStored (heap : Nat → Byte) {image : List Byte} {index : Nat} (stored : Stored c files) (found : files index = some image) (t : Stream) :
    t.openImage c files heap index = some ⟨index + 1, some (buffer c heap image), t.currentPixel⟩ := by
  unfold Stream.openImage
  rw [found, Option.bind_some, if_pos (stored.long index image found)]
  rfl

theorem fetchNext {image : List Byte} {index : Nat} (stored : Stored c files) (positive : index ≠ 0)
    (found : files (if (files index).isSome then index else 0) = some image) :
    Stream.fetchImage c files heap ⟨index, none, 0⟩ =
      some ⟨(if (files index).isSome then index else 0) + 1, some (buffer c heap image), 0⟩ := by
  have opens := openStored heap stored found ⟨index, none, 0⟩
  unfold Stream.fetchImage
  cases there : files index with
  | some other =>
      rw [there, Option.isSome_some, if_pos rfl] at opens
      simp only [Option.isSome_some, if_true]
      exact opens
  | none =>
      rw [there, Option.isSome_none, if_neg (by decide)] at opens
      simp only [Option.isSome_none, Bool.false_eq_true, if_false]
      rw [if_neg positive]
      exact opens

theorem fetchShown (heap : Nat → Byte) (stored : Stored c files) (k : Nat) :
    Stream.fetchImage c files heap ⟨indexBefore files k, none, 0⟩ =
      some ⟨indexBefore files (k + 1), some (buffer c heap (shownImage files k)), 0⟩ := by
  obtain ⟨image, found⟩ := shownStored stored k
  have shown : shownImage files k = image := by
    unfold shownImage
    rw [found]
    rfl
  rw [shown]
  cases k with
  | zero =>
      change files 0 = some image at found
      unfold Stream.fetchImage
      simp only [indexBefore, found]
      exact openStored heap stored found ⟨0, none, 0⟩
  | succ k => exact fetchNext stored (Nat.succ_ne_zero _) found

end Pixels

section Phases

variable {c : Config} {files : Nat → Option (List Byte)} {heap : Nat → Byte} {s : Camera} {t : Stream} {image : List Byte}
  {before after : Nat}

def Camera.sample (s : Camera) : Sync := { s.sync with pclk := true }

structure Calm (c : Config) (t : Stream) (s : Camera) : Prop where
  pclk : s.pclk = false
  href : s.href = !c.hsyncPolarity
  data : s.data = 0
  bytesel : s.bytesel = 0
  pixelBytes : s.pixelBytes = 0
  stream : s.stream = t

structure Counts (c : Config) (t : Stream) (state : State) (target cnt : Nat) (s : Camera) : Prop where
  calm : Calm c t s
  state : s.state = state
  target : s.targetcnt = target
  cnt : s.cnt = cnt

theorem tlinePositive (width : Nat) : 0 < tline width := by
  unfold tline
  omega

theorem sofPhase (files : Nat → Option (List Byte)) (heap : Nat → Byte) (start : Counts c t .sof (3 * tline c.width) 0 s) :
    ∃ u, Emits (Camera.fallingEdge c files heap) Camera.sample s
        (List.replicate (3 * tline c.width - 1) (startOfFrame c) ++ [idle c]) u ∧
      Counts c t .waitSof (17 * tline c.width) 0 u ∧ u.vsync = !c.vsyncPolarity := by
  have positive := tlinePositive c.width
  have each : ∀ i < 3 * tline c.width - 1, ∀ s, Counts c t .sof (3 * tline c.width) i s →
      ∃ u, Camera.fallingEdge c files heap s = some u ∧ u.sample = startOfFrame c ∧ Counts c t .sof (3 * tline c.width) (i + 1) u := by
    intro i small s counts
    obtain ⟨⟨pclk, href, data, bytesel, pixelBytes, stream⟩, state, target, cnt⟩ := counts
    refine ⟨{ s with vsync := c.vsyncPolarity, cnt := s.cnt + 1 }, ?_, ?_, ⟨⟨pclk, href, data, bytesel, pixelBytes, stream⟩, state, target, ?_⟩⟩
    · unfold Camera.fallingEdge
      simp only [state]
      rw [if_neg (by omega)]
    · unfold Camera.sample Camera.sync startOfFrame
      rw [href, data]
    · rw [cnt]
  obtain ⟨u, emitted, counts⟩ := Emission.emitsConstant each start
  obtain ⟨⟨pclk, href, data, bytesel, pixelBytes, stream⟩, state, target, cnt⟩ := counts
  refine ⟨{ u with cnt := 0, targetcnt := 17 * tline c.width, state := .waitSof, vsync := !c.vsyncPolarity },
    Emission.emitsAppend emitted ?_, ⟨⟨pclk, href, data, bytesel, pixelBytes, stream⟩, rfl, rfl, rfl⟩, rfl⟩
  have moves : Camera.fallingEdge c files heap u =
      some { u with cnt := 0, targetcnt := 17 * tline c.width, state := .waitSof, vsync := !c.vsyncPolarity } := by
    unfold Camera.fallingEdge
    simp only [state]
    rw [if_pos (by omega)]
  have same : Camera.sample { u with cnt := 0, targetcnt := 17 * tline c.width, state := .waitSof, vsync := !c.vsyncPolarity } = idle c := by
    unfold Camera.sample Camera.sync idle
    rw [href, data]
  rw [← same]
  exact Emission.emitsOne moves

structure Sends (c : Config) (heap : Nat → Byte) (image : List Byte) (before after pixel byte : Nat) (s : Camera) : Prop where
  pclk : s.pclk = false
  state : s.state = .sendLine
  vsync : s.vsync = !c.vsyncPolarity
  place : s.lineptr * c.width + s.colptr = pixel
  column : s.colptr < c.width
  bytesel : s.bytesel = byte
  pixelBytes : s.pixelBytes = if byte = 0 then 0 else c.pixelSize - byte
  stream : s.stream = streamAt c heap image before after (if byte = 0 then pixel else pixel + 1)
  pixel : byte ≠ 0 → s.pixel = pixelWord c heap image pixel >>> (8 * byte)

structure Sent (c : Config) (after cnt : Nat) (s : Camera) : Prop where
  pclk : s.pclk = false
  state : s.state = .waitEof
  target : s.targetcnt = 10 * tline c.width
  vsync : s.vsync = !c.vsyncPolarity
  cnt : s.cnt = cnt
  bytesel : s.bytesel = 0
  pixelBytes : s.pixelBytes = 0
  stream : s.stream = ⟨after, none, 0⟩

theorem waitPhase (files : Nat → Option (List Byte)) (heap : Nat → Byte) (image : List Byte) (after : Nat)
    (wide : 1 ≤ c.width) (start : Counts c ⟨before, none, 0⟩ .waitSof (17 * tline c.width) 0 s) (vsync : s.vsync = !c.vsyncPolarity) :
    ∃ u, Emits (Camera.fallingEdge c files heap) Camera.sample s (List.replicate (17 * tline c.width) (idle c)) u ∧
      Sends c heap image before after 0 0 u := by
  have positive := tlinePositive c.width
  obtain ⟨n, last⟩ : ∃ n, 17 * tline c.width = n + 1 := ⟨17 * tline c.width - 1, by omega⟩
  rw [last] at start ⊢
  have each : ∀ i < n, ∀ s, (Counts c ⟨before, none, 0⟩ .waitSof (n + 1) i s ∧ s.vsync = !c.vsyncPolarity) →
      ∃ u, Camera.fallingEdge c files heap s = some u ∧ u.sample = idle c ∧
        (Counts c ⟨before, none, 0⟩ .waitSof (n + 1) (i + 1) u ∧ u.vsync = !c.vsyncPolarity) := by
    rintro i small s ⟨⟨⟨pclk, href, data, bytesel, pixelBytes, stream⟩, state, target, cnt⟩, vsync⟩
    refine ⟨{ s with cnt := s.cnt + 1 }, ?_, ?_, ⟨⟨pclk, href, data, bytesel, pixelBytes, stream⟩, state, target, ?_⟩, vsync⟩
    · unfold Camera.fallingEdge
      simp only [state]
      rw [if_neg (by omega)]
    · unfold Camera.sample Camera.sync idle
      rw [href, data, vsync]
    · rw [cnt]
  refine Emission.emitsUntil each ?_ ⟨start, vsync⟩
  rintro s ⟨⟨⟨pclk, href, data, bytesel, pixelBytes, stream⟩, state, target, cnt⟩, vsync⟩
  refine ⟨{ s with cnt := s.cnt + 1, state := .sendLine, lineptr := 0, colptr := 0 }, ?_, ?_,
    ⟨pclk, rfl, vsync, Nat.zero_mul _, wide, bytesel, pixelBytes, stream, fun more => absurd rfl more⟩⟩
  · unfold Camera.fallingEdge
    simp only [state]
    rw [if_pos (by omega)]
  · unfold Camera.sample Camera.sync idle
    rw [href, data, vsync]

theorem eofPhase (files : Nat → Option (List Byte)) (heap : Nat → Byte) (start : Sent c after 0 s) :
    ∃ u, Emits (Camera.fallingEdge c files heap) Camera.sample s (List.replicate (10 * tline c.width) (idle c)) u ∧
      Counts c ⟨after, none, 0⟩ .sof (3 * tline c.width) 0 u := by
  have positive := tlinePositive c.width
  obtain ⟨n, last⟩ : ∃ n, 10 * tline c.width = n + 1 := ⟨10 * tline c.width - 1, by omega⟩
  rw [last]
  have each : ∀ i < n, ∀ s, Sent c after i s →
      ∃ u, Camera.fallingEdge c files heap s = some u ∧ u.sample = idle c ∧ Sent c after (i + 1) u := by
    rintro i small s ⟨pclk, state, target, vsync, cnt, bytesel, pixelBytes, stream⟩
    refine ⟨{ s with href := !c.hsyncPolarity, data := 0, cnt := s.cnt + 1 }, ?_, ?_,
      ⟨pclk, state, target, vsync, ?_, bytesel, pixelBytes, stream⟩⟩
    · unfold Camera.fallingEdge
      simp only [state]
      rw [if_neg (by omega)]
    · unfold Camera.sample Camera.sync idle
      rw [vsync]
    · rw [cnt]
  refine Emission.emitsUntil each ?_ start
  rintro s ⟨pclk, state, target, vsync, cnt, bytesel, pixelBytes, stream⟩
  refine ⟨{ s with
      href := !c.hsyncPolarity, data := 0, state := .sof, cnt := 0, targetcnt := 3 * tline c.width,
      framesel := if s.framesel + 1 = c.nbImages then 0 else s.framesel + 1 }, ?_, ?_,
    ⟨⟨pclk, rfl, rfl, bytesel, pixelBytes, stream⟩, rfl, rfl, rfl⟩⟩
  · unfold Camera.fallingEdge
    simp only [state]
    rw [if_pos (by omega)]
  · unfold Camera.sample Camera.sync idle
    rw [vsync]

end Phases

section Image

variable {c : Config} {files : Nat → Option (List Byte)} {heap : Nat → Byte} {s : Camera} {image : List Byte} {before after pixel byte : Nat}

/- The pixel of a byte is fetched, or it is the rest of the one before. -/
theorem nextPixelAt (opens : Stream.fetchImage c files heap ⟨before, none, 0⟩ = some ⟨after, some (buffer c heap image), 0⟩)
    (inside : pixel < c.nbPixel) (below : byte < c.pixelSize) (sends : Sends c heap image before after pixel byte s) :
    ∃ fetched, s.nextPixel c files heap =
        some (fetched, { s with stream := streamAt c heap image before after (pixel + 1), pixelBytes := c.pixelSize - 1 - byte }) ∧
      fetched.getD s.pixel = pixelWord c heap image pixel >>> (8 * byte) ∧
      (byte = 0 → fetched = some (pixelWord c heap image pixel)) := by
  obtain ⟨pclk, state, vsync, place, column, bytesel, pixelBytes, stream, rest⟩ := sends
  unfold Camera.nextPixel
  by_cases first : byte = 0
  · rw [if_pos first] at pixelBytes stream
    rw [if_pos pixelBytes, stream, getPixelAt opens inside]
    subst first
    refine ⟨some (pixelWord c heap image pixel), rfl, ?_, fun _ => rfl⟩
    exact (BitVec.ushiftRight_zero _).symm
  · rw [if_neg first] at pixelBytes stream
    have more : s.pixelBytes ≠ 0 := by omega
    have fewer : s.pixelBytes - 1 = c.pixelSize - 1 - byte := by omega
    rw [if_neg more, fewer, ← stream]
    exact ⟨none, rfl, rest first, fun zero => absurd zero first⟩

theorem lowByte (x : Pixel) (j : Nat) : (x >>> (8 * j)) &&& 0xFF = (byteOf x j).setWidth 32 := by
  unfold byteOf
  generalize x >>> (8 * j) = y
  refine BitVec.eq_of_getLsbD_eq fun k low => ?_
  rw [BitVec.getLsbD_and, BitVec.getLsbD_setWidth, BitVec.getLsbD_setWidth]
  interval_cases k
  all_goals simp

theorem grayWord (heap : Nat → Byte) (image : List Byte) (pixel : Nat) (gray : c.pixelSize = 1) : pixelWord c heap image pixel = (byteOf (pixelWord c heap image pixel) 0).setWidth 32 := by
  have read : pixelWord c heap image pixel = Stream.readPixel c (buffer c heap image) pixel := by
    have short (x : Pixel) : Stream.swapped c x = x := by
      unfold Stream.swapped
      rw [if_neg (by omega), if_neg (by omega)]
    unfold pixelWord
    rw [short, ite_self]
  have masked : Stream.readPixel c (buffer c heap image) pixel &&& 0xFF = Stream.readPixel c (buffer c heap image) pixel := by
    unfold Stream.readPixel
    rw [gray, BitVec.and_assoc]
    rfl
  rw [read, ← lowByte]
  exact masked.symm

def handed (c : Config) (heap : Nat → Byte) (image : List Byte) (before after pixel byte : Nat) (rest : Pixel) (s : Camera) : Camera :=
  { s with
    data := (pixelByte c image pixel byte).setWidth 32
    pixel := rest
    pixelBytes := c.pixelSize - 1 - byte
    stream := streamAt c heap image before after (pixel + 1) }

theorem sendDataAt (plain : c.Plain) (opens : Stream.fetchImage c files heap ⟨before, none, 0⟩ = some ⟨after, some (buffer c heap image), 0⟩)
    (inside : pixel < c.nbPixel) (below : byte < c.pixelSize) (sends : Sends c heap image before after pixel byte s) :
    ∃ rest, s.sendData c files heap = some (handed c heap image before after pixel byte rest s) ∧
      (byte + 1 < c.pixelSize → rest = pixelWord c heap image pixel >>> (8 * (byte + 1))) := by
  obtain ⟨fetched, next, word, first⟩ := nextPixelAt opens inside below sends
  have small : c.pixelSize ≤ 3 := by
    obtain ⟨_, _, small⟩ | ⟨_, one⟩ := plain
    · exact small
    · omega
  have sent := pixelWordByte heap image inside below small
  unfold Camera.sendData
  rw [next, Option.map_some]
  obtain ⟨custom, _, _⟩ | ⟨gray, one⟩ := plain
  · refine ⟨pixelWord c heap image pixel >>> (8 * (byte + 1)), ?_, fun _ => rfl⟩
    have shifted : pixelWord c heap image pixel >>> (8 * byte) >>> 8 = pixelWord c heap image pixel >>> (8 * (byte + 1)) :=
      (BitVec.shiftRight_add _ _ _).symm
    simp only [custom]
    rw [word, lowByte, sent, shifted]
    rfl
  · refine ⟨s.pixel, ?_, fun more => by omega⟩
    have zero : byte = 0 := by omega
    have whole := grayWord heap image pixel one
    simp only [gray]
    rw [first zero, Option.getD_some, whole, ← zero, sent]
    rfl

theorem advanceByte (more : s.bytesel ≠ if c.colorMode = .custom then c.pixelSize - 1 else 0) :
    s.advance c = { s with bytesel := s.bytesel + 1 } := if_neg more

theorem advancePixel (done : s.bytesel = if c.colorMode = .custom then c.pixelSize - 1 else 0)
    (column : s.colptr < c.width) (more : s.lineptr * c.width + s.colptr + 1 < c.nbPixel) :
    ∃ lineptr colptr, s.advance c = { s with bytesel := 0, lineptr, colptr } ∧
      lineptr * c.width + colptr = s.lineptr * c.width + s.colptr + 1 ∧ colptr < c.width := by
  unfold Camera.advance
  rw [if_pos done]
  by_cases ends : s.colptr + 1 = c.width
  · have following : (s.lineptr + 1) * c.width = s.lineptr * c.width + s.colptr + 1 := by
      rw [Nat.succ_mul]
      omega
    have another : s.lineptr + 1 ≠ c.height := by
      intro last
      have whole : (s.lineptr + 1) * c.width = c.nbPixel := by
        rw [last]
        exact Nat.mul_comm _ _
      omega
    refine ⟨s.lineptr + 1, 0, ?_, following, by omega⟩
    simp only [ends, another, if_true, if_false]
  · refine ⟨s.lineptr, s.colptr + 1, ?_, rfl, by omega⟩
    simp only [ends, if_false]

theorem advanceImage (done : s.bytesel = if c.colorMode = .custom then c.pixelSize - 1 else 0)
    (column : s.colptr < c.width) (last : s.lineptr * c.width + s.colptr + 1 = c.nbPixel) :
    s.advance c = { s with bytesel := 0, colptr := 0, state := .waitEof, cnt := 0, targetcnt := 10 * tline c.width, lineptr := 0 } := by
  have whole : c.nbPixel = c.height * c.width := Nat.mul_comm _ _
  have ends : s.colptr + 1 = c.width := by
    have divides : (s.lineptr * c.width + (s.colptr + 1)) % c.width = 0 := by
      rw [← Nat.add_assoc, last, whole]
      exact Nat.mul_mod_left _ _
    rw [Nat.mul_add_mod'] at divides
    obtain low | same := Nat.lt_or_eq_of_le column
    · rw [Nat.mod_eq_of_lt low] at divides
      exact absurd divides (Nat.succ_ne_zero _)
    · exact same
  have bottom : s.lineptr + 1 = c.height := by
    have product : (s.lineptr + 1) * c.width = c.height * c.width := by
      rw [Nat.succ_mul]
      omega
    exact Nat.eq_of_mul_eq_mul_right (by omega) product
  unfold Camera.advance
  rw [if_pos done]
  simp only [ends, bottom, if_true]

theorem advanceSample (s : Camera) : (s.advance c).sample = s.sample := by
  unfold Camera.advance
  dsimp only
  split_ifs <;> rfl

theorem fallingSend (sending : s.state = .sendLine) :
    s.fallingEdge c files heap = ({ s with href := c.hsyncPolarity }.sendData c files heap).map (Camera.advance c) := by
  unfold Camera.fallingEdge
  simp only [sending]

theorem sendStep (plain : c.Plain) (opens : Stream.fetchImage c files heap ⟨before, none, 0⟩ = some ⟨after, some (buffer c heap image), 0⟩)
    (inside : pixel < c.nbPixel) (below : byte < c.pixelSize) (sends : Sends c heap image before after pixel byte s) :
    ∃ u, Camera.fallingEdge c files heap s = some u ∧ u.sample = dataByte c (pixelByte c image pixel byte) ∧
      (byte + 1 < c.pixelSize → Sends c heap image before after pixel (byte + 1) u) ∧
      (byte + 1 = c.pixelSize → pixel + 1 < c.nbPixel → Sends c heap image before after (pixel + 1) 0 u) ∧
      (byte + 1 = c.pixelSize → pixel + 1 = c.nbPixel → Sent c after 0 u) := by
  have starts : Sends c heap image before after pixel byte { s with href := c.hsyncPolarity } :=
    ⟨sends.pclk, sends.state, sends.vsync, sends.place, sends.column, sends.bytesel, sends.pixelBytes, sends.stream, sends.pixel⟩
  obtain ⟨rest, sent, left⟩ := sendDataAt plain opens inside below starts
  have lastByte : (if c.colorMode = .custom then c.pixelSize - 1 else 0) = c.pixelSize - 1 := by
    obtain ⟨custom, _, _⟩ | ⟨gray, one⟩ := plain
    · exact if_pos custom
    · rw [gray, one]
      rfl
  obtain ⟨pclk, state, vsync, place, column, bytesel, _, _, _⟩ := sends
  have counted (done : byte + 1 = c.pixelSize) : s.bytesel = if c.colorMode = .custom then c.pixelSize - 1 else 0 := by
    rw [lastByte, bytesel]
    omega
  refine ⟨Camera.advance c (handed c heap image before after pixel byte rest { s with href := c.hsyncPolarity }), ?_, ?_, ?_, ?_, ?_⟩
  · rw [fallingSend state, sent]
    rfl
  · rw [advanceSample]
    unfold Camera.sample Camera.sync dataByte handed
    rw [vsync]
  · intro more
    have another : s.bytesel ≠ if c.colorMode = .custom then c.pixelSize - 1 else 0 := by
      rw [lastByte, bytesel]
      omega
    rw [advanceByte (s := handed c heap image before after pixel byte rest { s with href := c.hsyncPolarity }) another]
    refine ⟨pclk, state, vsync, place, column, congrArg (· + 1) bytesel, ?_, ?_, fun _ => left more⟩
    · rw [if_neg (Nat.succ_ne_zero _)]
      show c.pixelSize - 1 - byte = c.pixelSize - (byte + 1)
      omega
    · rw [if_neg (Nat.succ_ne_zero _)]
      rfl
  · intro done more
    obtain ⟨lineptr, colptr, moved, next, within⟩ := advancePixel (c := c)
      (s := handed c heap image before after pixel byte rest { s with href := c.hsyncPolarity }) (counted done) column (place ▸ more)
    rw [moved]
    refine ⟨pclk, state, vsync, next.trans (congrArg (· + 1) place), within, rfl, ?_, rfl, fun other => absurd rfl other⟩
    rw [if_pos rfl]
    show c.pixelSize - 1 - byte = 0
    omega
  · intro done last
    rw [advanceImage (s := handed c heap image before after pixel byte rest { s with href := c.hsyncPolarity }) (counted done) column (place ▸ last)]
    refine ⟨pclk, rfl, rfl, vsync, rfl, rfl, ?_, ?_⟩
    · show c.pixelSize - 1 - byte = 0
      omega
    · show streamAt c heap image before after (pixel + 1) = _
      unfold streamAt
      rw [if_neg (Nat.succ_ne_zero _), if_pos last]

def Reaches (c : Config) (heap : Nat → Byte) (image : List Byte) (before after pixel : Nat) (s : Camera) : Prop :=
  if pixel < c.nbPixel then Sends c heap image before after pixel 0 s else Sent c after 0 s

theorem pixelPhase (plain : c.Plain) (opens : Stream.fetchImage c files heap ⟨before, none, 0⟩ = some ⟨after, some (buffer c heap image), 0⟩)
    (inside : pixel < c.nbPixel) (start : Reaches c heap image before after pixel s) :
    ∃ u, Emits (Camera.fallingEdge c files heap) Camera.sample s
        ((List.range c.pixelSize).map fun byte => dataByte c (pixelByte c image pixel byte)) u ∧
      Reaches c heap image before after (pixel + 1) u := by
  unfold Reaches at start
  rw [if_pos inside] at start
  have positive : 1 ≤ c.pixelSize := by
    obtain ⟨_, some, _⟩ | ⟨_, one⟩ := plain <;> omega
  have each : ∀ byte < c.pixelSize, ∀ s,
      (if byte < c.pixelSize then Sends c heap image before after pixel byte s else Reaches c heap image before after (pixel + 1) s) →
      ∃ u, Camera.fallingEdge c files heap s = some u ∧ u.sample = dataByte c (pixelByte c image pixel byte) ∧
        if byte + 1 < c.pixelSize then Sends c heap image before after pixel (byte + 1) u
        else Reaches c heap image before after (pixel + 1) u := by
    intro byte below s sends
    rw [if_pos below] at sends
    obtain ⟨u, moves, shown, same, next, last⟩ := sendStep plain opens inside below sends
    refine ⟨u, moves, shown, ?_⟩
    by_cases more : byte + 1 < c.pixelSize
    · rw [if_pos more]
      exact same more
    · have done : byte + 1 = c.pixelSize := by omega
      rw [if_neg more]
      unfold Reaches
      by_cases another : pixel + 1 < c.nbPixel
      · rw [if_pos another]
        exact next done another
      · rw [if_neg another]
        exact last done (by omega)
  obtain ⟨u, emitted, reached⟩ := Emission.emitsCounted each ((if_pos positive).mpr start)
  rw [if_neg (Nat.lt_irrefl _)] at reached
  exact ⟨u, emitted, reached⟩

theorem imagePhase (plain : c.Plain) (opens : Stream.fetchImage c files heap ⟨before, none, 0⟩ = some ⟨after, some (buffer c heap image), 0⟩)
    (some : 0 < c.nbPixel) (start : Sends c heap image before after 0 0 s) :
    ∃ u, Emits (Camera.fallingEdge c files heap) Camera.sample s ((imageBytes c image).map (dataByte c)) u ∧ Sent c after 0 u := by
  have each : ∀ pixel < c.nbPixel, ∀ s, Reaches c heap image before after pixel s →
      ∃ u, Emits (Camera.fallingEdge c files heap) Camera.sample s
          ((List.range c.pixelSize).map fun byte => dataByte c (pixelByte c image pixel byte)) u ∧
        Reaches c heap image before after (pixel + 1) u :=
    fun pixel inside s start => pixelPhase plain opens inside start
  obtain ⟨u, emitted, reached⟩ := Emission.emitsRounds each (s := s) (by
    unfold Reaches
    rw [if_pos some]
    exact start)
  unfold Reaches at reached
  rw [if_neg (Nat.lt_irrefl _)] at reached
  refine ⟨u, ?_, reached⟩
  unfold imageBytes
  rw [List.map_flatMap]
  simp only [List.map_map]
  exact emitted

theorem framePhase (plain : c.Plain) (wide : 1 ≤ c.width) (high : 1 ≤ c.height)
    (opens : Stream.fetchImage c files heap ⟨before, none, 0⟩ = some ⟨after, some (buffer c heap image), 0⟩)
    (start : Counts c ⟨before, none, 0⟩ .sof (3 * tline c.width) 0 s) :
    ∃ u, Emits (Camera.fallingEdge c files heap) Camera.sample s (frame c image) u ∧
      Counts c ⟨after, none, 0⟩ .sof (3 * tline c.width) 0 u := by
  obtain ⟨s₁, sof, waits, vsync⟩ := sofPhase files heap start
  obtain ⟨s₂, wait, sends⟩ := waitPhase files heap image after wide waits vsync
  obtain ⟨s₃, data, sent⟩ := imagePhase plain opens (Nat.mul_pos wide high) sends
  obtain ⟨s₄, eof, ends⟩ := eofPhase files heap sent
  refine ⟨s₄, ?_, ends⟩
  have whole := Emission.emitsAppend (Emission.emitsAppend (Emission.emitsAppend sof wait) data) eof
  have split : frame c image = List.replicate (3 * tline c.width - 1) (startOfFrame c) ++ [idle c] ++
      List.replicate (17 * tline c.width) (idle c) ++ (imageBytes c image).map (dataByte c) ++ List.replicate (10 * tline c.width) (idle c) := by
    unfold frame
    rw [List.replicate_succ, List.append_assoc _ [idle c], List.singleton_append]
  rw [split]
  exact whole

end Image

section Run

variable {c : Config} {files : Nat → Option (List Byte)} {heap : Nat → Byte}

def clocked (x : Sync) : List Sync := [{ x with pclk := false }, x]

theorem nextKeeps {s t : Camera} {fetched : Option Pixel} (next : s.nextPixel c files heap = some (fetched, t)) : t.pclk = s.pclk := by
  unfold Camera.nextPixel at next
  split_ifs at next with fresh
  · obtain ⟨⟨pixel, stream⟩, _, same⟩ := Option.map_eq_some_iff.mp next
    injection same with _ same
    rw [← same]
  · injection next with same
    injection same with _ same
    rw [← same]

theorem sendKeeps {s t : Camera} (sent : s.sendData c files heap = some t) : t.pclk = s.pclk := by
  unfold Camera.sendData at sent
  obtain ⟨⟨fetched, u⟩, next, same⟩ := Option.map_eq_some_iff.mp sent
  rw [← nextKeeps next, ← same]
  cases c.colorMode <;> rfl

theorem advanceKeeps (s : Camera) : (s.advance c).pclk = s.pclk := by
  unfold Camera.advance
  dsimp only
  split_ifs <;> rfl

theorem fallingKeeps {s t : Camera} (moves : s.fallingEdge c files heap = some t) : t.pclk = s.pclk := by
  unfold Camera.fallingEdge at moves
  cases state : s.state with
  | init =>
      simp only [state] at moves
      injection moves with same
      rw [← same]
  | sof =>
      simp only [state] at moves
      split_ifs at moves
      all_goals
        injection moves with same
        rw [← same]
  | waitSof =>
      simp only [state] at moves
      split_ifs at moves
      all_goals
        injection moves with same
        rw [← same]
  | sendLine =>
      simp only [state] at moves
      obtain ⟨u, sent, same⟩ := Option.map_eq_some_iff.mp moves
      have kept := sendKeeps sent
      rw [← same, advanceKeeps]
      exact kept
  | waitEof =>
      simp only [state] at moves
      split_ifs at moves
      all_goals
        injection moves with same
        rw [← same]

theorem risingClock {s : Camera} (low : s.pclk = false) : s.clockHandler c files heap = some { s with pclk := true } := by
  unfold Camera.clockHandler
  simp only [low, Bool.not_false]
  exact if_neg (by decide)

theorem fallingClock {s : Camera} (low : s.pclk = false) : Camera.clockHandler c files heap { s with pclk := true } = s.fallingEdge c files heap := by
  unfold Camera.clockHandler
  simp only [Bool.not_true, if_true]
  rw [← low]

theorem runStep {s t last : Camera} {n : Nat} {calls : List Sync} (moves : s.clockHandler c files heap = some t)
    (later : t.run c files heap n = some (calls, last)) : s.run c files heap (n + 1) = some (t.sync :: calls, last) := by
  unfold Camera.run
  rw [moves, Option.bind_eq_bind, Option.bind_some, later]
  rfl

theorem runRising {s : Camera} (low : s.pclk = false) : s.run c files heap 1 = some ([s.sample], { s with pclk := true }) :=
  runStep (risingClock low) rfl

theorem runFalling {s t last : Camera} {n : Nat} {calls : List Sync} (low : s.pclk = false) (moves : s.fallingEdge c files heap = some t)
    (later : t.run c files heap n = some (calls, last)) :
    s.run c files heap (n + 2) = some (s.sample :: { t.sample with pclk := false } :: calls, last) := by
  have shown : t.sync = { t.sample with pclk := false } := by
    unfold Camera.sample Camera.sync
    rw [fallingKeeps moves, low]
  rw [← shown]
  exact runStep (risingClock low) (runStep ((fallingClock low).trans moves) later)

theorem runEmits {s t : Camera} {out : List Sync} (low : s.pclk = false)
    (emits : Emits (Camera.fallingEdge c files heap) Camera.sample s out t) {n : Nat} (within : n ≤ 2 * out.length + 1) :
    ∃ last, s.run c files heap n = some ((s.sample :: out.flatMap clocked).take n, last) := by
  induction emits generalizing n with
  | nil s =>
      obtain rfl | rfl := Nat.le_one_iff_eq_zero_or_eq_one.mp within
      · exact ⟨s, rfl⟩
      · exact ⟨_, runRising low⟩
  | @cons s t u out moves rest later =>
      match n, within with
      | 0, _ => exact ⟨s, rfl⟩
      | 1, _ => exact ⟨_, runRising low⟩
      | n + 2, within =>
          have fewer : n ≤ 2 * out.length + 1 := by
            rw [List.length_cons] at within
            omega
          obtain ⟨last, ran⟩ := later ((fallingKeeps moves).trans low) fewer
          exact ⟨last, runFalling low moves ran⟩

theorem frameSome (image : List Byte) : 1 ≤ (frame c image).length := by
  unfold frame
  have positive := tlinePositive c.width
  simp only [List.length_append, List.length_replicate]
  omega

theorem framesMany (files : Nat → Option (List Byte)) (n : Nat) :
    n ≤ ((List.range n).flatMap fun k => frame c (shownImage files k)).length := by
  induction n with
  | zero => exact Nat.zero_le _
  | succ n before =>
      have one := frameSome (c := c) (shownImage files n)
      rw [List.range_succ, List.flatMap_append, List.flatMap_singleton, List.length_append]
      omega

theorem framesEmits (heap : Nat → Byte) (plain : c.Plain) (wide : 1 ≤ c.width) (high : 1 ≤ c.height) (stored : Stored c files) (memory : Camera) (n : Nat) :
    ∃ t, Emits (Camera.fallingEdge c files heap) Camera.sample (Camera.start c memory)
      (idle c :: (List.range n).flatMap fun k => frame c (shownImage files k)) t := by
  have begins : Counts c ⟨indexBefore files 0, none, 0⟩ .sof (3 * tline c.width) 0
      { Camera.start c memory with cnt := 0, targetcnt := 3 * tline c.width, state := .sof, bytesel := 0, framesel := 0 } :=
    ⟨⟨rfl, rfl, rfl, rfl, rfl, rfl⟩, rfl, rfl, rfl⟩
  obtain ⟨t, emitted, _⟩ := Emission.emitsRounds (n := n)
    (fun k _ s start => framePhase plain wide high (fetchShown heap stored k) start) begins
  have moves : Camera.fallingEdge c files heap (Camera.start c memory) =
      some { Camera.start c memory with cnt := 0, targetcnt := 3 * tline c.width, state := .sof, bytesel := 0, framesel := 0 } := rfl
  exact ⟨t, .cons moves emitted⟩

/- The camera sends one image file after the other, and begins with the first one again behind the last one.
Each byte of an image is there once, in its order, with the lines that announce it. -/
theorem runFrames (plain : c.Plain) (wide : 1 ≤ c.width) (high : 1 ≤ c.height) (stored : Stored c files) (memory : Camera) (n : Nat) :
    ∃ last, (Camera.start c memory).run c files heap n = some
      ((idle c :: (idle c :: (List.range n).flatMap fun k => frame c (shownImage files k)).flatMap clocked).take n, last) := by
  obtain ⟨t, emitted⟩ := framesEmits heap plain wide high stored memory n
  have many := framesMany (c := c) files n
  exact runEmits rfl emitted (by rw [List.length_cons]; omega)

def twoImages (index : Nat) : Option (List Byte) :=
  if index = 0 then some [1, 2, 3, 4] else if index = 1 then some [5, 6, 7, 8] else none

theorem twoStored : Stored (build false 2 1 2 true true false 0) twoImages := by
  refine ⟨rfl, fun index image found => ?_⟩
  unfold twoImages at found
  split_ifs at found
  all_goals
    injection found with same
    rw [← same]
    decide

theorem runFramesTwo :
    ∃ last, (Camera.start (build false 2 1 2 true true false 0)
        ⟨true, .waitEof, 5, 0, 1, 1, 1, 0, true, true, 7, 7, 2, ⟨3, none, 1⟩⟩).run (build false 2 1 2 true true false 0) twoImages (fun _ => 9) 40000 =
      some ((idle (build false 2 1 2 true true false 0) :: (idle (build false 2 1 2 true true false 0) ::
        (List.range 40000).flatMap fun k => frame (build false 2 1 2 true true false 0) (shownImage twoImages k)).flatMap clocked).take 40000, last) :=
  runFrames (.inl ⟨rfl, by decide, by decide⟩) (by decide) (by decide) twoStored _ _

end Run

end Gvsoc.Himax
