import Gvsoc.Bytes

/-! `Himax`: a camera. It sends the lines of an image with a clock of its own, and goes on with the next image file. -/
namespace Gvsoc.Himax
open Bytes (Byte byteOf littleEndian)

abbrev Pixel := BitVec 32

inductive ColorMode where
  | custom
  | gray
  | rgb565
  | raw
  deriving DecidableEq, Repr

inductive State where
  | init
  | sof
  | waitSof
  | sendLine
  | waitEof
  deriving DecidableEq, Repr

/- What `build` takes from the configuration. A polarity is zero or one. The number of images is never set, and anything may be there. -/
structure Config where
  width : Nat
  height : Nat
  pixelSize : Nat
  colorMode : ColorMode
  vsyncPolarity : Bool
  hsyncPolarity : Bool
  little : Bool
  nbImages : Nat

def build (raw : Bool) (width height pixelSize : Nat) (vsyncPolarity hsyncPolarity little : Bool) (nbImages : Nat) : Config :=
  let colorMode : ColorMode := if raw then .raw else .gray
  if pixelSize ≠ 0 then ⟨width, height, pixelSize, .custom, vsyncPolarity, hsyncPolarity, little, nbImages⟩
  else ⟨width, height, 1, colorMode, vsyncPolarity, hsyncPolarity, little, nbImages⟩

structure Stream where
  frameIndex : Nat
  rawImage : Option (Nat → Byte)
  currentPixel : Nat

structure Sync where
  pclk : Bool
  href : Bool
  vsync : Bool
  data : Pixel
  deriving DecidableEq, Repr

structure Camera where
  pclk : Bool
  state : State
  cnt : Nat
  targetcnt : Nat
  lineptr : Nat
  colptr : Nat
  bytesel : Nat
  framesel : Nat
  vsync : Bool
  href : Bool
  data : Pixel
  pixel : Pixel
  pixelBytes : Nat
  stream : Stream

/- The raw image files by their index. What lies behind an image in the heap is left open. -/
variable (c : Config) (files : Nat → Option (List Byte)) (heap : Nat → Byte)

def Config.imageSize : Nat := c.width * c.height * c.pixelSize

def Config.nbPixel : Nat := c.width * c.height

def tline (width : Nat) : Nat := (width + 144) * 2

namespace Stream

def openImage (t : Stream) (index : Nat) : Option Stream :=
  (files index).bind fun bytes =>
    if c.imageSize ≤ bytes.length then
      some { t with
        rawImage := some fun i => if i < c.imageSize then bytes.getD i 0 else heap i
        frameIndex := index + 1 }
    else none

def fetchImage (t : Stream) : Option Stream :=
  match files t.frameIndex with
  | some _ => t.openImage c files heap t.frameIndex
  | none => if t.frameIndex = 0 then none else t.openImage c files heap 0

/- Four bytes are read, and those of the pixel are kept. The shift of the mask is only defined for less than four bytes. -/
def readPixel (image : Nat → Byte) (index : Nat) : Pixel :=
  BitVec.ofNat 32 (littleEndian (fun i => image (index * c.pixelSize + i)) 4) &&& ((1#32 <<< (c.pixelSize * 8)) - 1)

def swapped (result : Pixel) : Pixel :=
  if c.pixelSize = 2 then ((result &&& 0xFF00) >>> 8) ||| ((result &&& 0x00FF) <<< 8)
  else if c.pixelSize = 3 then ((result &&& 0xFF0000) >>> 16) ||| ((result &&& 0x00FF00) >>> 0) ||| ((result &&& 0x0000FF) <<< 16)
  else result

def getPixel (t : Stream) : Option (Pixel × Stream) := do
  let t ← match t.rawImage with
    | some _ => some t
    | none => t.fetchImage c files heap
  let image ← t.rawImage
  let result := readPixel c image t.currentPixel
  let result := if c.little then result else swapped c result
  let currentPixel := t.currentPixel + 1
  some (result, if currentPixel = c.nbPixel then { t with currentPixel := 0, rawImage := none } else { t with currentPixel })

end Stream

namespace Camera

/- The stream is new, from `build`. What `start` does not set is left as it is. -/
def start (memory : Camera) : Camera :=
  { memory with
    pclk := false
    state := .init
    vsync := !c.vsyncPolarity
    href := !c.hsyncPolarity
    data := 0
    pixelBytes := 0
    stream := ⟨0, none, 0⟩ }

def nextPixel (s : Camera) : Option (Option Pixel × Camera) :=
  if s.pixelBytes = 0 then
    (s.stream.getPixel c files heap).map fun (pixel, stream) => (some pixel, { s with stream, pixelBytes := c.pixelSize - 1 })
  else some (none, { s with pixelBytes := s.pixelBytes - 1 })

def sendData (s : Camera) : Option Camera :=
  (s.nextPixel c files heap).map fun (fetched, s) =>
    match c.colorMode with
    | .custom =>
        let pixel := fetched.getD s.pixel
        { s with data := pixel &&& 0xFF, pixel := pixel >>> 8 }
    | .gray => { s with data := fetched.getD s.data }
    | .raw =>
        let pixel := fetched.getD s.pixel
        -- The bits of a bayer pattern. The line is counted from the width, and may be negative.
        let line : Int := c.width - s.lineptr - 1
        let shift := if line % 2 = 1 then (if s.colptr % 2 = 1 then 16 else 8) else if s.colptr % 2 = 1 then 8 else 0
        { s with pixel, data := (pixel >>> shift) &&& 0xFF }
    | .rgb565 =>
        let pixel := fetched.getD s.pixel
        { s with
          pixel
          data :=
            if s.bytesel ≠ 0 then (((pixel >>> 10) &&& 0x7) <<< 5) ||| (((pixel >>> 3) &&& 0x1F) <<< 0)
            else (((pixel >>> 19) &&& 0x1F) <<< 3) ||| (((pixel >>> 13) &&& 0x7) <<< 0) }

def advance (s : Camera) : Camera :=
  let lastByte := if c.colorMode = .custom then c.pixelSize - 1 else 0
  if s.bytesel = lastByte then
    let s := { s with bytesel := 0 }
    if s.colptr + 1 = c.width then
      let s := { s with colptr := 0 }
      if s.lineptr + 1 = c.height then { s with state := .waitEof, cnt := 0, targetcnt := 10 * tline c.width, lineptr := 0 }
      else { s with lineptr := s.lineptr + 1 }
    else { s with colptr := s.colptr + 1 }
  else { s with bytesel := s.bytesel + 1 }

def fallingEdge (s : Camera) : Option Camera :=
  match s.state with
  | .init => some { s with cnt := 0, targetcnt := 3 * tline c.width, state := .sof, bytesel := 0, framesel := 0 }
  | .sof =>
      let s := { s with vsync := c.vsyncPolarity, cnt := s.cnt + 1 }
      if s.cnt = s.targetcnt then
        some { s with cnt := 0, targetcnt := 17 * tline c.width, state := .waitSof, vsync := !c.vsyncPolarity }
      else some s
  | .waitSof =>
      let s := { s with cnt := s.cnt + 1 }
      if s.cnt = s.targetcnt then some { s with state := .sendLine, lineptr := 0, colptr := 0 } else some s
  | .sendLine => ({ s with href := c.hsyncPolarity }.sendData c files heap).map (advance c)
  | .waitEof =>
      let s := { s with href := !c.hsyncPolarity, data := 0, cnt := s.cnt + 1 }
      if s.cnt = s.targetcnt then
        let framesel := s.framesel + 1
        some { s with
          state := .sof
          cnt := 0
          targetcnt := 3 * tline c.width
          framesel := if framesel = c.nbImages then 0 else framesel }
      else some s

def sync (s : Camera) : Sync := ⟨s.pclk, s.href, s.vsync, s.data⟩

def clockHandler (s : Camera) : Option Camera :=
  let s := { s with pclk := !s.pclk }
  if s.pclk = false then s.fallingEdge c files heap else some s

def run : Nat → Camera → Option (List Sync × Camera)
  | 0, s => some ([], s)
  | n + 1, s => do
      let s ← s.clockHandler c files heap
      let (calls, last) ← run n s
      some (s.sync :: calls, last)

end Camera

end Gvsoc.Himax
