import Gvsoc.SpimWire

/-! The boot loader on the other side of the pins. It takes whole frames: a start of frame that it
echoes, a request, an acknowledge, a checksum and the bytes of a chunk; or a start of frame and a
jump. A frame that comes in any other order, or that is no row of whole bytes, is refused. -/
namespace Gvsoc.Spim
open Bytes (Byte wordBytes wordOf)

def byteOfBits (bits : List Nat) : Byte := BitVec.ofNat 8 (bits.foldl (fun n bit => 2 * n + bit) 0)

def sentBytes : List Nat → Option (List Byte)
  | [] => some []
  | b7 :: b6 :: b5 :: b4 :: b3 :: b2 :: b1 :: b0 :: rest =>
      if ∀ bit ∈ [b7, b6, b5, b4, b3, b2, b1, b0], bit ≤ 1 then
        (sentBytes rest).map (byteOfBits [b7, b6, b5, b4, b3, b2, b1, b0] :: ·)
      else none
  | _ => none

theorem byteBitsList (b : Byte) : ∃ b7 b6 b5 b4 b3 b2 b1 b0, byteBits b = [b7, b6, b5, b4, b3, b2, b1, b0] :=
  ⟨_, _, _, _, _, _, _, _, rfl⟩

theorem byteBitsRead : ∀ b : Byte, (∀ bit ∈ byteBits b, bit ≤ 1) ∧ byteOfBits (byteBits b) = b := by decide +kernel

theorem sentPayload (payload : List Byte) : sentBytes (payload.flatMap byteBits) = some payload := by
  induction payload with
  | nil => rfl
  | cons b rest ih =>
      obtain ⟨b7, b6, b5, b4, b3, b2, b1, b0, shape⟩ := byteBitsList b
      obtain ⟨driven, same⟩ := byteBitsRead b
      rw [shape] at driven same
      rw [List.flatMap_cons, shape]
      simp only [List.cons_append, List.nil_append, sentBytes, ih, if_pos driven, same, Option.map_some]

inductive Phase where
  | idle
  | framed
  | requested (addr : BitVec 32) (size : Nat)
  | acked (addr : BitVec 32) (size : Nat)
  | announced (addr : BitVec 32) (size : Nat)
  deriving DecidableEq, Repr

structure Target where
  phase : Phase := .idle
  chunks : List (BitVec 32 × List Byte) := []
  jumps : List (BitVec 32) := []
  deriving DecidableEq, Repr

def Target.take (t : Target) (reply : Byte) (bytes : List Byte) : Option Target :=
  match t.phase with
  | .idle => if bytes = [0x5A] then some { t with phase := if reply = 0xA5 then .framed else .idle } else none
  | .framed =>
      match bytes with
      | [cmd, a0, a1, a2, a3, sizeMinus1, _] =>
          if cmd = 0x02 then some { t with phase := .requested (wordOf 32 [a0, a1, a2, a3]) (sizeMinus1.toNat + 1) }
          else if cmd = 0x03 then some { t with phase := .idle, jumps := t.jumps ++ [wordOf 32 [a0, a1, a2, a3]] }
          else none
      | _ => none
  | .requested addr size =>
      if bytes = [0x00] then some { t with phase := if reply = 0x79 then .acked addr size else .requested addr size } else none
  | .acked addr size => if bytes.length = 1 then some { t with phase := .announced addr size } else none
  | .announced addr size =>
      if bytes.length = size then some { t with phase := .idle, chunks := t.chunks ++ [(addr, bytes)] } else none

def Target.frame (t : Target) (frame : List Edge) : Option Target :=
  (sentBytes (frame.map Prod.fst)).bind (t.take (answer frame))

def accept (frames : List (List Edge)) : Option Target := frames.foldlM Target.frame {}

theorem acceptFrame {frames : List (List Edge)} {frame : List Edge} {job : Job} {t : Transfer} {target next : Target}
    (before : accept frames = some target) (done : Done job t frame) (taken : target.take (answer frame) job.payload = some next) :
    accept (frames ++ [frame]) = some next := by
  have read : target.frame frame = some next := by
    rw [Target.frame, done.bits, sentPayload]
    exact taken
  rw [accept] at before ⊢
  simp [List.foldlM_append, before, read]

end Gvsoc.Spim
