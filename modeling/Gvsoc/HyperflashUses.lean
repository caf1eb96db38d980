import Gvsoc.ArrayWatch
import Gvsoc.HyperflashBus
import Gvsoc.HyperflashErase

/-! Which cells of its array the flash uses. -/
namespace Gvsoc.Hyperflash
open Bytes (Byte)
open ArrayWatch (Range)

def eraseSectorUses (size addr : BitVec 32) : List Range :=
  let addr := addr &&& ~~~(sectorSize - 1)
  if size ≤ addr then [] else [⟨addr.toNat, sectorSize.toNat⟩]

def eraseChipUses (size addr : BitVec 32) : Nat → List Range
  | 0 => []
  | left + 1 => if addr < addr + size then eraseSectorUses size addr ++ eraseChipUses size (addr + sectorSize) left else []

namespace Flash

variable (s : Flash)

def commandUses (address : BitVec 32) (word : Word) : List Range :=
  match s.state with
  | .waitCmd5 =>
      if word.address = 0x555 ∧ word.cmd = 0x10 then eraseChipUses s.size 0 (2 ^ 14 + 1)
      else if word.cmd = 0x30 then eraseSectorUses s.size address
      else []
  | _ => []

def confirms (address : BitVec 32) (data : Byte) : Bool :=
  s.burstWrite && decide (address.sshiftRight 1 = s.sector ∧ data = 0x29)

def accessUses (address : BitVec 32) (read : Bool) (data : Byte) : List Range :=
  if s.size.sle address then []
  else if read then
    match s.state with
    | .getStatusReg => []
    | _ => [⟨address.toInt, 1⟩]
  else if s.state = .program then (if s.confirms address data then [] else [⟨address.toInt, 1⟩])
  else if s.pendingBytes = 0 then []
  else s.commandUses address (s.wordOf address data)

def uses : Action → List Range
  | .cs _ => []
  | .byte data => match s.hyperState with
      | .ca => []
      | .data => s.accessUses s.currentAddress s.read data

end Flash

section Frame

variable {s next : Flash} {address : BitVec 32} {data : Byte} {word : Word} {i : Int}

def Apart (i : Int) (used : List Range) : Prop := ∀ r ∈ used, ¬(r.start ≤ i ∧ i < r.start + r.length)

theorem eraseSectorFrame (apart : Apart i (eraseSectorUses s.size address)) : (s.eraseSector address).data i = s.data i := by
  unfold eraseSectorUses Apart at apart
  unfold Flash.eraseSector
  dsimp only at apart ⊢
  split
  · rfl
  · rename_i small
    rw [if_neg small] at apart
    exact if_neg (apart _ (List.mem_singleton.mpr rfl))

theorem eraseChipFrame {left : Nat} (apart : Apart i (eraseChipUses s.size address left))
    (erased : s.eraseChipFrom address left = some next) : next.data i = s.data i := by
  induction left generalizing s address with
  | zero => simp [Flash.eraseChipFrom] at erased
  | succ left ih =>
      unfold Flash.eraseChipFrom at erased
      unfold eraseChipUses at apart
      split at erased
      · rename_i more
        rw [if_pos more] at apart
        rw [ih (fun r used => apart r (List.mem_append_right _ (by rwa [eraseSectorSize] at used))) erased]
        exact eraseSectorFrame (fun r used => apart r (List.mem_append_left _ used))
      · cases erased
        rfl

theorem commandFrame (apart : Apart i (s.commandUses address word)) (taken : s.command address word = some next) :
    next.data i = s.data i := by
  unfold Flash.commandUses at apart
  cases commandCases taken with
  | moved plain same state => rw [same]
  | chip ready at555 chip done =>
      simp only [Flash.command, ready, if_pos (And.intro at555 chip)] at taken
      simp only [ready, if_pos (And.intro at555 chip)] at apart
      obtain ⟨erased, found, rfl⟩ := Option.map_eq_some_iff.mp taken
      have same : erased.data i = s.data i := eraseChipFrame apart found
      exact same
  | sector ready sector done erased =>
      rw [erased]
      refine eraseSectorFrame ?_
      rw [ready] at apart
      dsimp only at apart
      rw [if_neg (by rw [sector]; simp), if_pos sector] at apart
      exact apart

theorem byteApart (apart : Apart i [⟨address.toInt, 1⟩]) : i ≠ address.toInt := by
  intro same
  exact apart _ (List.mem_singleton.mpr rfl) ⟨by simp [same], by simp [same]⟩

theorem programFrame (apart : Apart i (if s.confirms address data then [] else [⟨address.toInt, 1⟩])) :
    (s.programByte address data).data i = s.data i := by
  unfold Flash.programByte Flash.confirms at *
  by_cases burst : s.burstWrite = true
  · rw [if_pos burst]
    by_cases confirm : address.sshiftRight 1 = s.sector ∧ data = 0x29
    · rw [if_pos confirm]
    · rw [if_neg (by rw [decide_eq_false confirm, Bool.and_false]; exact Bool.false_ne_true)] at apart
      have other := byteApart apart
      rw [if_neg confirm]
      dsimp only
      split <;> exact Function.update_of_ne other _ _
  · rw [if_neg (by simp [burst])] at apart
    rw [if_neg burst]
    exact Function.update_of_ne (byteApart apart) _ _

theorem usesFrame {a : Action} (apart : Apart i (s.uses a)) (taken : s.act a = some next) : next.data i = s.data i := by
  cases a with
  | cs value =>
      cases taken
      rw [(csState s value).1]
  | byte data =>
      obtain ⟨⟨moved, sent⟩, synced, rfl⟩ := Option.map_eq_some_iff.mp taken
      unfold Flash.syncCycle at synced
      unfold Flash.uses at apart
      cases phase : s.hyperState with
      | ca =>
          rw [phase] at synced
          dsimp only at synced
          split_ifs at synced <;> (cases synced; rfl)
      | data =>
          rw [phase] at synced apart
          dsimp only at apart
          obtain ⟨⟨accessed, out⟩, access, same⟩ := Option.map_eq_some_iff.mp synced
          cases same
          unfold Flash.handleAccess at access
          unfold Flash.accessUses at apart
          split_ifs at access with outside reading program first
          · cases access
            rfl
          · split at access
            · dsimp only at access
              split_ifs at access <;> (cases access; rfl)
            · cases access
              rfl
          · rw [if_neg outside, if_neg reading, if_pos program] at apart
            cases access
            exact programFrame apart
          · cases access
            rfl
          · rw [if_neg outside, if_neg reading, if_neg program, if_neg first] at apart
            obtain ⟨commanded, word, same⟩ := Option.map_eq_some_iff.mp access
            cases same
            have same : accessed.data i = s.data i := commandFrame (s := { s with pendingCmd := 0, pendingBytes := 0 }) apart word
            exact same

end Frame

section Erase

variable {s : Flash} {size addr : BitVec 32}

theorem unsignedSize (sized : 0 ≤ size.toInt) : size.toInt = size.toNat ∧ size.toNat < 2 ^ 31 := by
  have signed := BitVec.toInt_eq_toNat_cond size
  have bound := size.isLt
  split at signed <;> omega

theorem sectorInside (sized : 0 ≤ size.toInt) : (∀ r ∈ eraseSectorUses size addr, r.Inside size.toInt) ↔
    (addr.toNat / 0x40000 * 0x40000 < size.toNat → (addr.toNat / 0x40000 + 1) * 0x40000 ≤ size.toNat) := by
  have base := sectorBase addr
  obtain ⟨whole, -⟩ := unsignedSize sized
  have width : sectorSize.toNat = 0x40000 := rfl
  unfold eraseSectorUses
  dsimp only
  split
  · rename_i outside
    rw [BitVec.le_def, base] at outside
    exact iff_of_true (by simp) (fun inside => by omega)
  · rename_i inside
    rw [BitVec.le_def, base] at inside
    simp only [List.mem_singleton, forall_eq, Range.Inside, base, width, whole]
    omega

theorem chipInside (sized : 0 ≤ size.toInt) (whole : size.toNat % 0x40000 = 0) {left : Nat} :
    ∀ r ∈ eraseChipUses size addr left, r.Inside size.toInt := by
  induction left generalizing addr with
  | zero => simp [eraseChipUses]
  | succ left ih =>
      unfold eraseChipUses
      split
      · intro r used
        rcases List.mem_append.mp used with sector | later
        · exact (sectorInside sized).mpr (fun inside => by omega) r sector
        · exact ih r later
      · simp

/- The erase gets to every sector that starts below the size. -/
theorem chipReaches (sized : 0 ≤ size.toInt) {left sectors : Nat} (start : addr.toNat % 0x40000 = 0)
    (inside : addr.toNat + sectors * 0x40000 < size.toNat) (enough : sectors < left) :
    ⟨(addr.toNat + sectors * 0x40000 : Nat), 0x40000⟩ ∈ eraseChipUses size addr left := by
  obtain ⟨-, small⟩ := unsignedSize sized
  have width : sectorSize.toNat = 0x40000 := rfl
  induction sectors generalizing addr left with
  | zero =>
      obtain ⟨left, rfl⟩ : ∃ n, left = n + 1 := ⟨left - 1, by omega⟩
      have more : addr < addr + size := by
        rw [BitVec.lt_def, BitVec.toNat_add]
        omega
      have base := sectorBase addr
      unfold eraseChipUses
      rw [if_pos more]
      refine List.mem_append_left _ ?_
      unfold eraseSectorUses
      dsimp only
      rw [if_neg (by rw [BitVec.le_def, base]; omega), base, width]
      refine List.mem_singleton.mpr ?_
      congr 2
      omega
  | succ sectors ih =>
      obtain ⟨left, rfl⟩ : ∃ n, left = n + 1 := ⟨left - 1, by omega⟩
      have more : addr < addr + size := by
        rw [BitVec.lt_def, BitVec.toNat_add]
        omega
      have next : (addr + sectorSize).toNat = addr.toNat + 0x40000 := by
        rw [BitVec.toNat_add, width]
        omega
      unfold eraseChipUses
      rw [if_pos more]
      refine List.mem_append_right _ ?_
      have later : ⟨((addr + sectorSize).toNat + sectors * 0x40000 : Nat), 0x40000⟩ ∈ eraseChipUses size (addr + sectorSize) left :=
        ih (by omega) (by omega) (by omega)
      rw [next] at later
      rwa [show addr.toNat + (sectors + 1) * 0x40000 = addr.toNat + 0x40000 + sectors * 0x40000 by omega]

/- On a flash smaller than a sector the sum never wraps. -/
theorem eraseChipHangs (some' : 0 < s.size.toNat) (small : s.size.toNat < 0x40000) (start : addr.toNat % 0x40000 = 0) (left : Nat) :
    s.eraseChipFrom addr left = none := by
  induction left generalizing s addr with
  | zero => rfl
  | succ left ih =>
      have width : sectorSize.toNat = 0x40000 := rfl
      have bound := addr.isLt
      have more : addr < addr + s.size := by
        rw [BitVec.lt_def, BitVec.toNat_add]
        omega
      unfold Flash.eraseChipFrom
      rw [if_pos more]
      refine ih (by rwa [eraseSectorSize]) (by rwa [eraseSectorSize]) ?_
      rw [BitVec.toNat_add, width]
      omega

theorem chipSafe (sized : 0 ≤ s.size.toInt) :
    (s.eraseChip.isSome = true ∧ ∀ r ∈ eraseChipUses s.size 0 (2 ^ 14 + 1), r.Inside s.size.toInt) ↔ s.size.toNat % 0x40000 = 0 := by
  obtain ⟨same, small⟩ := unsignedSize sized
  constructor
  · rintro ⟨ends, inside⟩
    by_contra partial'
    by_cases less : s.size.toNat < 0x40000
    · have never : s.eraseChipFrom 0 (2 ^ 14 + 1) = none := eraseChipHangs (by omega) less (by simp) _
      unfold Flash.eraseChip at ends
      rw [never] at ends
      contradiction
    · have last := @chipReaches s.size 0 sized (2 ^ 14 + 1) (s.size.toNat / 0x40000) (by simp) (by simp; omega) (by omega)
      have bound := (inside _ last).2
      have zero : (0 : BitVec 32).toNat = 0 := rfl
      push_cast [zero] at bound
      omega
  · intro whole
    refine ⟨?_, chipInside sized whole⟩
    by_cases empty : s.size.toNat = 0
    · have zero : s.size = 0 := BitVec.eq_of_toNat_eq (by simpa using empty)
      simp [Flash.eraseChip, Flash.eraseChipFrom, zero]
    · exact eraseChipEnds (by omega)

end Erase

section Safe

variable {s next : Flash} {data : Byte} {address : BitVec 32}

def flashDevice : ArrayWatch.Device Flash Action := ⟨Flash.act, Flash.uses, fun s => s.size.toInt⟩

structure Flash.Framed (s : Flash) : Prop where
  sized : 0 ≤ s.size.toInt
  count : s.hyperState = .ca → 1 ≤ s.caCount ∧ s.caCount ≤ 6

def Flash.touches (s : Flash) (data : Byte) : Bool :=
  decide (s.hyperState = .data ∧ s.size.sle s.currentAddress = false ∧
    if s.read then s.state ≠ .getStatusReg else s.state = .program ∧ s.confirms s.currentAddress data = false)

/- No cell is read or programmed at an address with its top bit set, only a whole sector is erased, and the chip only if it
consists of whole sectors. -/
def Flash.Fine (s : Flash) : Action → Prop
  | .cs _ => True
  | .byte data =>
      (s.touches data = true → 0 ≤ s.currentAddress.toInt) ∧
        ∀ word ∈ s.completes data, s.state = .waitCmd5 →
          if word.address = 0x555 ∧ word.cmd = 0x10 then s.size.toNat % 0x40000 = 0
          else word.cmd = 0x30 → 0 ≤ s.currentAddress.toInt →
            (s.currentAddress.toInt / 0x40000 + 1) * 0x40000 ≤ s.size.toInt

instance (s : Flash) (a : Action) : Decidable (s.Fine a) :=
  match a with
  | .cs _ => .isTrue trivial
  | .byte _ => inferInstanceAs (Decidable (_ ∧ _))

theorem cellInside (below : ¬s.size.sle address = true) :
    (∀ r ∈ [Range.mk address.toInt 1], r.Inside s.size.toInt) ↔ 0 ≤ address.toInt := by
  have small : address.toInt < s.size.toInt := by simpa [BitVec.sle] using below
  simp only [List.mem_singleton, forall_eq, Range.Inside]
  omega

theorem sectorWhole (sized : 0 ≤ s.size.toInt) (below : ¬s.size.sle address = true) :
    (∀ r ∈ eraseSectorUses s.size address, r.Inside s.size.toInt) ↔
      (0 ≤ address.toInt → (address.toInt / 0x40000 + 1) * 0x40000 ≤ s.size.toInt) := by
  have small : address.toInt < s.size.toInt := by simpa [BitVec.sle] using below
  obtain ⟨same, bound⟩ := unsignedSize sized
  have signed := BitVec.toInt_eq_toNat_cond address
  rw [sectorInside sized]
  split at signed <;> omega

theorem commandSafe (sized : 0 ≤ s.size.toInt) (below : ¬s.size.sle address = true) (word : Word) :
    ((s.command address word).isSome = true ∧ ∀ r ∈ s.commandUses address word, r.Inside s.size.toInt) ↔
      (s.state = .waitCmd5 →
        if word.address = 0x555 ∧ word.cmd = 0x10 then s.size.toNat % 0x40000 = 0
        else word.cmd = 0x30 → 0 ≤ address.toInt → (address.toInt / 0x40000 + 1) * 0x40000 ≤ s.size.toInt) := by
  by_cases ready : s.state = .waitCmd5
  · simp only [Flash.command, Flash.commandUses, ready, forall_const]
    by_cases chip : word.address = 0x555 ∧ word.cmd = 0x10
    · simp only [if_pos chip, Option.isSome_map]
      exact chipSafe sized
    · simp only [if_neg chip]
      by_cases sector : word.cmd = 0x30
      · rw [if_pos sector, if_pos sector]
        have inside := sectorWhole sized below
        simp only [Option.isSome_some, true_and, sector, forall_const]
        exact inside
      · rw [if_neg sector, if_neg sector]
        exact iff_of_true ⟨rfl, by simp⟩ (fun same => absurd same sector)
  · refine iff_of_true ⟨?_, ?_⟩ (fun same => absurd same ready)
    · unfold Flash.command
      split <;> (try split_ifs) <;> simp_all
    · unfold Flash.commandUses
      split
      · rename_i same
        exact absurd same ready
      · simp

def SameBus (s t : Flash) : Prop := t.hyperState = s.hyperState ∧ t.size = s.size

theorem eraseSectorBus (s : Flash) (addr : BitVec 32) : SameBus s (s.eraseSector addr) := by
  simp only [Flash.eraseSector]
  split <;> exact ⟨rfl, rfl⟩

theorem eraseChipBus {addr : BitVec 32} {left : Nat} (erased : s.eraseChipFrom addr left = some next) : SameBus s next := by
  induction left generalizing s addr with
  | zero => simp [Flash.eraseChipFrom] at erased
  | succ left ih =>
      simp only [Flash.eraseChipFrom] at erased
      split at erased
      · obtain ⟨phase, size⟩ := ih erased
        obtain ⟨phase', size'⟩ := eraseSectorBus s addr
        exact ⟨phase.trans phase', size.trans size'⟩
      · cases erased
        exact ⟨rfl, rfl⟩

theorem commandBus {word : Word} (taken : s.command address word = some next) : SameBus s next := by
  unfold Flash.command at taken
  cases state : s.state <;> rw [state] at taken <;> simp only at taken
  case waitCmd5 =>
      split_ifs at taken
      · obtain ⟨erased, chip, rfl⟩ := Option.map_eq_some_iff.mp taken
        have same : SameBus s erased := eraseChipBus chip
        exact same
      · cases taken
        exact eraseSectorBus s address
      · cases taken
        exact ⟨rfl, rfl⟩
  all_goals
    try split_ifs at taken
    all_goals
      cases taken
      exact ⟨rfl, rfl⟩

theorem programBus (s : Flash) (address : BitVec 32) (data : Byte) : SameBus s (s.programByte address data) := by
  unfold Flash.programByte
  dsimp only
  split
  · split
    · exact ⟨rfl, rfl⟩
    · split <;> exact ⟨rfl, rfl⟩
  · exact ⟨rfl, rfl⟩

theorem accessBus {regAccess read : Bool} {sent : Option Byte} (taken : s.handleAccess regAccess address read data = some (next, sent)) :
    SameBus s next := by
  unfold Flash.handleAccess at taken
  split_ifs at taken
  · cases taken
    exact ⟨rfl, rfl⟩
  · split at taken
    · dsimp only at taken
      split_ifs at taken <;> (cases taken; exact ⟨rfl, rfl⟩)
    · cases taken
      exact ⟨rfl, rfl⟩
  · cases taken
    exact programBus s address data
  · cases taken
    exact ⟨rfl, rfl⟩
  · obtain ⟨commanded, word, same⟩ := Option.map_eq_some_iff.mp taken
    cases same
    exact commandBus (s := { s with pendingCmd := 0, pendingBytes := 0 }) word

theorem actFramed {a : Action} (framed : s.Framed) (taken : s.act a = some next) : next.Framed ∧ next.size = s.size := by
  cases a with
  | cs value =>
      cases taken
      have size : (s.csSync value).size = s.size := by
        unfold Flash.csSync
        cases value with
        | true => rfl
        | false =>
            simp only [Bool.false_eq_true, if_false]
            cases s.state with
            | program => simp only; split <;> rfl
            | _ => rfl
      obtain ⟨-, count⟩ := csPhase s value
      exact ⟨⟨by rw [size]; exact framed.sized, fun _ => by rw [count]; omega⟩, size⟩
  | byte data =>
      obtain ⟨⟨moved, sent⟩, synced, rfl⟩ := Option.map_eq_some_iff.mp taken
      unfold Flash.syncCycle at synced
      cases phase : s.hyperState with
      | ca =>
          rw [phase] at synced
          dsimp only at synced
          split_ifs at synced with range zero
          · cases synced
            exact ⟨⟨framed.sized, fun same => by cases same⟩, rfl⟩
          · cases synced
            refine ⟨⟨framed.sized, fun _ => ?_⟩, rfl⟩
            dsimp only
            omega
      | data =>
          rw [phase] at synced
          obtain ⟨⟨accessed, out⟩, access, same⟩ := Option.map_eq_some_iff.mp synced
          cases same
          obtain ⟨kept, size⟩ := accessBus access
          exact ⟨⟨by dsimp only; rw [size]; exact framed.sized, fun same => by dsimp only at same; rw [kept, phase] at same; cases same⟩, size⟩

theorem accessSafe (sized : 0 ≤ s.size.toInt) (phase : s.hyperState = .data) :
    ((s.handleAccess s.regAccess s.currentAddress s.read data).isSome = true ∧
      ∀ r ∈ s.accessUses s.currentAddress s.read data, r.Inside s.size.toInt) ↔ s.Fine (.byte data) := by
  have untouched (quiet : s.touches data = false) (none : s.completes data = none) : s.Fine (.byte data) :=
    ⟨by simp [quiet], by simp [none]⟩
  have touched (touches : s.touches data = true) (none : s.completes data = none) :
      s.Fine (.byte data) ↔ 0 ≤ s.currentAddress.toInt := by
    simp [Flash.Fine, touches, none]
  by_cases outside : s.size.sle s.currentAddress = true
  · refine iff_of_true ⟨?_, ?_⟩ (untouched ?_ ?_)
    · simp [Flash.handleAccess, outside]
    · simp [Flash.accessUses, outside]
    · simp [Flash.touches, outside]
    · simp [Flash.completes, outside]
  · have below : s.size.sle s.currentAddress = false := by simpa using outside
    by_cases reading : s.read = true
    · have none : s.completes data = none := by simp [Flash.completes, reading]
      by_cases status : s.state = .getStatusReg
      · refine iff_of_true ⟨?_, ?_⟩ (untouched ?_ none)
        · simp [Flash.handleAccess, below, reading, status]
        · simp [Flash.accessUses, below, reading, status]
        · simp [Flash.touches, reading, status]
      · have uses : s.accessUses s.currentAddress s.read data = [⟨s.currentAddress.toInt, 1⟩] := by
          simp [Flash.accessUses, below, reading]
        have ends : (s.handleAccess s.regAccess s.currentAddress s.read data).isSome = true := by
          simp [Flash.handleAccess, below, reading]
        rw [uses, ends, touched (by simp [Flash.touches, phase, below, reading, status]) none]
        simpa using cellInside outside
    · by_cases program : s.state = .program
      · have none : s.completes data = none := by simp [Flash.completes, program]
        have ends : (s.handleAccess s.regAccess s.currentAddress s.read data).isSome = true := by
          simp [Flash.handleAccess, below, reading, program]
        by_cases confirm : s.confirms s.currentAddress data = true
        · refine iff_of_true ⟨ends, ?_⟩ (untouched ?_ none)
          · simp [Flash.accessUses, below, reading, program, confirm]
          · simp [Flash.touches, reading, confirm]
        · have uses : s.accessUses s.currentAddress s.read data = [⟨s.currentAddress.toInt, 1⟩] := by
            simp [Flash.accessUses, below, reading, program, confirm]
          rw [uses, ends, touched (by simp [Flash.touches, phase, below, reading, program, confirm]) none]
          simpa using cellInside outside
      · have quiet : s.touches data = false := by simp [Flash.touches, reading, program]
        by_cases first : s.pendingBytes = 0#32
        · refine iff_of_true ⟨?_, ?_⟩ (untouched quiet ?_)
          · simp [Flash.handleAccess, below, reading, program, first]
          · simp [Flash.accessUses, below, reading, program, first]
          · simp [Flash.completes, first]
        · have word : s.completes data = some (s.wordOf s.currentAddress data) := by
            simp [Flash.completes, phase, below, reading, program, first]
          have uses : s.accessUses s.currentAddress s.read data = s.commandUses s.currentAddress (s.wordOf s.currentAddress data) := by
            simp [Flash.accessUses, below, reading, program, first]
          have ends : (s.handleAccess s.regAccess s.currentAddress s.read data).isSome =
              (Flash.command { s with pendingCmd := 0, pendingBytes := 0 } s.currentAddress (s.wordOf s.currentAddress data)).isSome := by
            simp [Flash.handleAccess, below, reading, program, first]
          have safe := commandSafe (s := { s with pendingCmd := 0, pendingBytes := 0 }) sized outside (s.wordOf s.currentAddress data)
          rw [uses, ends]
          simp only [Flash.Fine, quiet, word, Bool.false_eq_true, false_implies, true_and, Option.mem_def, Option.some.injEq, forall_eq']
          exact safe

theorem byteSafe (framed : s.Framed) : flashDevice.Safe s (.byte data) ↔ s.Fine (.byte data) := by
  cases phase : s.hyperState with
  | ca =>
      have count := framed.count phase
      have quiet : s.touches data = false := by simp [Flash.touches, phase]
      have none : s.completes data = Option.none := by simp [Flash.completes, phase]
      refine iff_of_true ⟨?_, ?_⟩ ⟨by simp [quiet], by simp [none]⟩
      · simp only [flashDevice, Flash.act, Flash.syncCycle, phase, Option.isSome_map]
        rw [if_pos (by omega)]
        rfl
      · simp [flashDevice, Flash.uses, phase]
  | data =>
      rw [← accessSafe framed.sized phase]
      unfold ArrayWatch.Device.Safe flashDevice Flash.act Flash.uses Flash.syncCycle
      simp only [phase, Option.isSome_map]

theorem flashSafe {a : Action} (framed : s.Framed) : flashDevice.Safe s a ↔ s.Fine a := by
  cases a with
  | cs value => exact iff_of_true ⟨rfl, by simp [flashDevice, Flash.uses]⟩ trivial
  | byte data => exact byteSafe framed

end Safe

end Gvsoc.Hyperflash
