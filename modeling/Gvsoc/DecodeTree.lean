import Gvsoc.Grouping
import Mathlib.Data.Nat.Bitwise

/-! The instruction decoder: the tree that the instruction set generator builds from the encodings, the items it is
written as, and the walk of the simulator. -/
namespace Gvsoc.Decoder
open Grouping (groupBy)

section Instructions

/- The encoding is kept from the lowest bit. -/
structure Instr where
  label : String
  encoding : List Char
  deriving DecidableEq, Repr

/- Encodings are written from the highest bit, with blanks between the fields. -/
def Instr.new (label : String) (encoding : List Char) : Instr := ⟨label, encoding.reverse.filter (· ≠ ' ')⟩

namespace Instr

variable (i : Instr)

def len : Nat := i.encoding.length

def fixed (bit : Nat) : Option Bool :=
  match i.encoding[bit]? with
  | some '0' => some false
  | some '1' => some true
  | _ => none

def getStr : String := String.ofList i.encoding.reverse ++ ": " ++ i.label

end Instr

end Instructions

section Search

abbrev Mask := BitVec 32

def bitMask (bit : Nat) : Mask := BitVec.twoPow 32 bit

def minSize : List Instr → Nat
  | [] => 0
  | instr :: rest => rest.foldl (fun size other => if other.len < size then other.len else size) instr.len

def addFixed (instr : Instr) (size : Nat) (currentMask start : Mask) : Mask :=
  (List.range size).foldl (fun searchMask bit =>
    if currentMask.getLsbD bit = false then searchMask
    else if (instr.fixed bit).isSome then searchMask ||| bitMask bit else searchMask) start

def currentMask (instrs : List Instr) (mask : Mask) : Mask :=
  let size := minSize instrs
  let current := mask &&& (bitMask size - 1)
  current &&& instrs.foldl (fun searchMask instr => addFixed instr size current searchMask) 0

structure Browse where
  searchMask : Mask
  done : Bool
  firstBit : Option Nat

def browseBit (instr : Instr) (b : Browse) (bit : Nat) : Browse :=
  if b.done = true ∨ instr.fixed bit = none ∨ b.searchMask.getLsbD bit = false then
    { b with searchMask := b.searchMask &&& ~~~ bitMask bit, done := b.done || b.firstBit.isSome }
  else if b.firstBit = none then { b with firstBit := some bit }
  else b

def browse (instr : Instr) (searchMask : Mask) : Browse :=
  (List.range instr.len).foldl (browseBit instr) ⟨searchMask, false, none⟩

def browseInstr (found : Mask × Nat) (instr : Instr) : Mask × Nat :=
  let b := browse instr found.1
  (b.searchMask, match b.firstBit with
    | some bit => if found.2 < bit then bit else found.2
    | none => found.2)

def findCommon (instrs : List Instr) (mask : Mask) : Mask × Nat := instrs.foldl browseInstr (currentMask instrs mask, 0)

def keepDefined (size : Nat) (current : Mask) (searchMask : Mask) (instr : Instr) : Mask :=
  let instrMask := addFixed instr size current 0
  if instrMask = 0 then searchMask else searchMask &&& instrMask

/- The second search: the bits that are fixed in all instructions which fix any. The size is that of the last one. -/
def findDefined (instrs : List Instr) (mask : Mask) (firstBit : Nat) : Mask × Nat :=
  let size := instrs.foldl (fun _ instr => instr.len) 0
  let current := currentMask instrs mask
  let searchMask := instrs.foldl (keepDefined size current) current
  (searchMask, match (List.range size).find? (fun bit => searchMask.getLsbD bit) with
    | some bit => bit
    | none => firstBit)

def search (instrs : List Instr) (mask : Mask) : Mask × Nat :=
  let found := findCommon instrs mask
  if found.1 = 0 ∧ 1 < instrs.length then findDefined instrs mask found.2 else found

end Search

section Build

/- The bits of an instruction at the mask from the highest one, nothing if one of them is free (`OTHERS`). -/
abbrev Opcode := List Bool

def opcodeOf (mask : Mask) (instr : Instr) : Option Opcode :=
  ((List.range instr.len).reverse.filter (fun bit => mask.getLsbD bit)).mapM instr.fixed

inductive DecodeTree where
  | leaf (instr : Instr) (opcode : Opcode) (others : Bool)
  | tree (opcode : Opcode) (firstBit opcodeWidth : Nat) (needTree : Bool) (subtrees : List DecodeTree)

inductive BuildError where
  | sameOpcode (text : String)
  | noTree
  | outOfFuel
  deriving DecidableEq, Repr

def sameOpcodeText (instrs : List Instr) : String :=
  instrs.foldl (fun text instr => text ++ instr.getStr ++ "\n") "Error the following instructions have the same opcode:\n"

def opcodeWidth (keys : List (Option Opcode)) : Nat :=
  keys.foldl (fun width key => match key with
    | none => width
    | some opcode => if width < opcode.length then opcode.length else width) 0

/- The constructor of `DecodeTree`. Every level takes bits from the mask, so the mask bounds the depth. -/
def build : Nat → List Instr → Mask → Opcode → Except BuildError DecodeTree
  | 0, _, _, _ => .error .outOfFuel
  | fuel + 1, instrs, mask, opcode =>
      if instrs = [] then .ok (.tree opcode 0 0 false [])
      else
        let found := search instrs mask
        if found.1 = 0 ∧ 1 < instrs.length then .error (.sameOpcode (sameOpcodeText instrs))
        else do
          let groups := groupBy (opcodeOf found.1) instrs
          let subtrees ← groups.mapM (fun (key, members) =>
            match if members.length = 1 ∧ found.1 = 0 ∨ key = none then members.head? else none with
            | some instr => .ok (.leaf instr opcode key.isNone)
            | none => build fuel members (mask &&& ~~~ found.1) (key.getD []))
          .ok (.tree opcode found.2 (opcodeWidth (groups.map Prod.fst)) (groups.any (fun group => group.1 ≠ some [])) subtrees)

end Build

section Items

inductive Item where
  | insn (opcode : Nat) (opcodeOthers : Bool) (instr : Instr)
  | group (opcode bit width : Nat) (groups : List Item)

namespace Item

def opcode : Item → Nat
  | .insn opcode _ _ => opcode
  | .group opcode _ _ _ => opcode

def opcodeOthers : Item → Bool
  | .insn _ others _ => others
  | .group _ _ _ _ => false

end Item

def binary (opcode : Opcode) : Nat := opcode.foldl (fun n b => 2 * n + b.toNat) 0

mutual

def DecodeTree.gen : DecodeTree → Item
  | .leaf instr opcode others => .insn (binary opcode) others instr
  | .tree opcode firstBit opcodeWidth needTree subtrees =>
      if needTree then .group (binary opcode) firstBit opcodeWidth (genAll subtrees)
      else (genAll subtrees).headD (.group (binary opcode) firstBit opcodeWidth [])

def genAll : List DecodeTree → List Item
  | [] => []
  | subtree :: rest => subtree.gen :: genAll rest

end

/- `IsaDecodeTree`: there is no tree to refer to for an empty set of instructions. -/
def dumpTree (instrs : List Instr) : Except BuildError Item :=
  if instrs = [] then .error .noTree else (build 33 instrs 0xffffffff [false]).map DecodeTree.gen

end Items

section Walk

def decodeInsn (active : Instr → Bool) (instr : Instr) : Option Instr := if active instr then some instr else none

mutual

def decodeItem (active : Instr → Bool) (opcode : Nat) : Item → Option Instr
  | .insn _ _ instr => decodeInsn active instr
  | .group _ bit width groups => decodeOpcodeGroup active opcode ((opcode >>> bit) &&& (2 ^ width - 1)) groups none

def decodeOpcodeGroup (active : Instr → Bool) (opcode groupOpcode : Nat) : List Item → Option (Option Instr) → Option Instr
  | [], other => other.getD none
  | item :: rest, other =>
      if groupOpcode = item.opcode ∧ item.opcodeOthers = false then decodeItem active opcode item
      else decodeOpcodeGroup active opcode groupOpcode rest
        (if item.opcodeOthers then some (decodeItem active opcode item) else other)

end

def decodeOpcode (active : Instr → Bool) (isaSet : List Item) (opcode : Nat) : Option Instr :=
  isaSet.findSome? (decodeItem active opcode)

end Walk

end Gvsoc.Decoder
