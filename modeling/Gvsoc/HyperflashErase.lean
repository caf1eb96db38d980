import Gvsoc.Hyperflash

/-! Programming only clears bits of the flash. Bits are set by the two erase commands, and
the flash gets there only through all words of the unlock sequence. -/
namespace Gvsoc.Hyperflash
open Bytes (Byte)
open Machine (Run anyStep)

def unlock : List Word := [⟨0x555, 0xAA⟩, ⟨0x2AA, 0x55⟩, ⟨0x555, 0x80⟩, ⟨0x555, 0xAA⟩, ⟨0x2AA, 0x55⟩]

def State.unlocked : State → List Word
  | .waitCmd1 => unlock.take 1
  | .waitCmd2 => unlock.take 2
  | .waitCmd3 => unlock.take 3
  | .waitCmd4 => unlock.take 4
  | .waitCmd5 => unlock
  | _ => []

def Cleared (old new : Int → Byte) : Prop := ∀ i b, (new i).getLsbD b = true → (old i).getLsbD b = true

section Data

variable {s next : Flash} {address : BitVec 32} {data value : Byte} {word : Word}

theorem clearedRefl (old : Int → Byte) : Cleared old old := fun _ _ set => set

theorem andByteClears (s : Flash) (address : BitVec 32) (value : Byte) : Cleared s.data (s.andByte address value).data := by
  intro i b set
  unfold Flash.andByte at set
  dsimp only at set
  by_cases here : i = address.toInt
  · rw [here, Function.update_self, BitVec.getLsbD_and, Bool.and_eq_true] at set
    rw [here]
    exact set.1
  · rwa [Function.update_of_ne here] at set

theorem programClears (s : Flash) (address : BitVec 32) (data : Byte) :
    Cleared s.data (s.programByte address data).data := by
  unfold Flash.programByte
  dsimp only
  split
  · split
    · exact clearedRefl _
    · split
      · exact andByteClears _ _ _
      · exact andByteClears _ _ _
  · exact andByteClears _ _ _

theorem programState (s : Flash) (address : BitVec 32) (data : Byte) : (s.programByte address data).state = s.state := by
  unfold Flash.programByte
  dsimp only
  split
  · split
    · rfl
    · split <;> rfl
  · rfl

theorem sectorBase (addr : BitVec 32) : (addr &&& ~~~(sectorSize - 1)).toNat = addr.toNat / 0x40000 * 0x40000 := by
  have shifted : addr &&& ~~~(sectorSize - 1) = (addr >>> 18) <<< 18 := by
    apply BitVec.eq_of_getLsbD_eq
    intro i small
    have mask : ∀ j < 32, (~~~(sectorSize - 1)).getLsbD j = decide (18 ≤ j) := by decide
    rw [BitVec.getLsbD_and, mask i small, BitVec.getLsbD_shiftLeft, BitVec.getLsbD_ushiftRight]
    by_cases low : i < 18
    · simp [low]
    · have high : 18 ≤ i := by omega
      simp [low, high, small, show 18 + (i - 18) = i by omega]
  have bound := addr.isLt
  rw [shifted, BitVec.toNat_shiftLeft, BitVec.toNat_ushiftRight, Nat.shiftLeft_eq, Nat.shiftRight_eq_div_pow]
  omega

theorem eraseSectorData {i : Int} {b : Nat} (inside : 0 ≤ i ∧ i < s.size.toInt) (clear : (s.data i).getLsbD b = false)
    (set : ((s.eraseSector address).data i).getLsbD b = true) :
    i / 0x40000 = 2 * (address.sshiftRight 1).toInt / 0x40000 := by
  unfold Flash.eraseSector at set
  dsimp only at set
  split at set
  · simp [clear] at set
  · rename_i small
    dsimp only at set
    split at set
    · rename_i here
      have base := sectorBase address
      have width : sectorSize.toNat = 0x40000 := rfl
      have below : 2 * s.size.toNat < 2 ^ 32 := by
        have signed := BitVec.toInt_eq_toNat_cond s.size
        have := s.size.isLt
        split at signed <;> omega
      rw [BitVec.not_le, BitVec.lt_def, base] at small
      rw [base, width] at here
      have whole : address.toInt = address.toNat := by
        rw [BitVec.toInt_eq_toNat_of_lt]
        omega
      rw [BitVec.toInt_sshiftRight, Int.shiftRight_eq_div_pow, whole]
      omega
    · simp [clear] at set

theorem eraseSectorSize (s : Flash) (addr : BitVec 32) : (s.eraseSector addr).size = s.size := by
  unfold Flash.eraseSector
  dsimp only
  split <;> rfl

theorem eraseChipFromEnds {addr : BitVec 32} {left : Nat} (large : 0x40000 ≤ s.size.toNat)
    (enough : 2 ^ 32 ≤ addr.toNat + 0x40000 * left) : (s.eraseChipFrom addr left).isSome = true := by
  induction left generalizing s addr with
  | zero =>
      have := addr.isLt
      omega
  | succ left ih =>
      unfold Flash.eraseChipFrom
      split
      · rename_i more
        have width : sectorSize.toNat = 0x40000 := rfl
        have bound := s.size.isLt
        rw [BitVec.lt_def, BitVec.toNat_add] at more
        refine ih (by rwa [eraseSectorSize]) ?_
        rw [BitVec.toNat_add, width]
        omega
      · rfl

theorem eraseChipEnds (large : 0x40000 ≤ s.size.toNat) : s.eraseChip.isSome = true :=
  eraseChipFromEnds large (by decide)

end Data

section Words

variable {s next : Flash} {address : BitVec 32} {word : Word}

/- A command word either leaves the array alone and moves at most one word along the unlock
sequence, or is one of the two erase commands. -/
inductive Commanded (s : Flash) (address : BitVec 32) (word : Word) (next : Flash) : Prop where
  | moved (plain : s.erases word = false) (same : next.data = s.data)
      (state : next.state.unlocked = [] ∨ next.state = s.state ∨ next.state.unlocked = s.state.unlocked ++ [word])
  | chip (ready : s.state = .waitCmd5) (at555 : word.address = 0x555) (chip : word.cmd = 0x10)
      (done : next.state = .waitCmd0)
  | sector (ready : s.state = .waitCmd5) (sector : word.cmd = 0x30) (done : next.state = .waitCmd0)
      (erased : next.data = (s.eraseSector address).data)

theorem plainState (other : s.state ≠ .waitCmd5) : s.erases word = false := by
  unfold Flash.erases
  simp [other]

theorem wordIs {a : BitVec 32} {c : BitVec 16} (same : word.address = a ∧ word.cmd = c) : word = ⟨a, c⟩ := by
  obtain ⟨rfl, rfl⟩ := same
  rfl

theorem commandNext {a : BitVec 32} {c : BitVec 16} {state : State} (other : s.state ≠ .waitCmd5)
    (longer : state.unlocked = s.state.unlocked ++ [⟨a, c⟩])
    (taken : (if word.address = a ∧ word.cmd = c then some {s with state := state} else some s) = some next) :
    Commanded s address word next := by
  split at taken
  · rename_i same
    cases taken
    exact .moved (plainState other) rfl (.inr (.inr (wordIs same ▸ longer)))
  · cases taken
    exact .moved (plainState other) rfl (.inr (.inl rfl))

theorem commandCases (taken : s.command address word = some next) : Commanded s address word next := by
  unfold Flash.command at taken
  cases ready : s.state with
  | waitCmd0 =>
      rw [ready] at taken
      have plain : s.erases word = false := plainState (by simp [ready])
      dsimp only at taken
      split at taken
      · rename_i match0
        cases taken
        exact .moved plain rfl (.inr (.inr (by rw [ready, wordIs match0]; rfl)))
      · split at taken
        · cases taken
          exact .moved plain rfl (.inl rfl)
        · cases taken
          exact .moved plain rfl (.inr (.inl rfl))
  | waitCmd1 =>
      rw [ready] at taken
      exact commandNext (by simp [ready]) (by rw [ready]; rfl) taken
  | waitCmd2 =>
      rw [ready] at taken
      have plain : s.erases word = false := plainState (by simp [ready])
      dsimp only at taken
      split at taken
      · cases taken
        exact .moved plain rfl (.inl rfl)
      · split at taken
        · rename_i match2
          cases taken
          exact .moved plain rfl (.inr (.inr (by rw [ready, wordIs match2]; rfl)))
        · split at taken
          · cases taken
            exact .moved plain rfl (.inl rfl)
          · split at taken
            · cases taken
              exact .moved plain rfl (.inr (.inl ready.symm))
            · split at taken
              · cases taken
                exact .moved plain rfl (.inl rfl)
              · cases taken
                exact .moved plain rfl (.inr (.inl rfl))
  | waitCmd3 =>
      rw [ready] at taken
      exact commandNext (by simp [ready]) (by rw [ready]; rfl) taken
  | waitCmd4 =>
      rw [ready] at taken
      exact commandNext (by simp [ready]) (by rw [ready]; rfl) taken
  | waitCmd5 =>
      rw [ready] at taken
      dsimp only at taken
      split at taken
      · rename_i chip
        obtain ⟨erased, _, rfl⟩ := Option.map_eq_some_iff.mp taken
        exact .chip ready chip.1 chip.2 rfl
      · split at taken
        · rename_i sector
          cases taken
          exact .sector ready sector rfl rfl
        · rename_i noChip noSector
          cases taken
          refine .moved ?_ rfl (.inr (.inl rfl))
          unfold Flash.erases
          simp only [decide_eq_false_iff_not]
          rintro ⟨_, chip | sector⟩
          · exact noChip chip
          · exact noSector sector
  | programStart =>
      rw [ready] at taken
      cases taken
      exact .moved (plainState (by simp [ready])) rfl (.inr (.inl rfl))
  | program =>
      rw [ready] at taken
      cases taken
      exact .moved (plainState (by simp [ready])) rfl (.inr (.inl rfl))
  | getStatusReg =>
      rw [ready] at taken
      cases taken
      exact .moved (plainState (by simp [ready])) rfl (.inr (.inl rfl))

inductive Accessed (s : Flash) (data : Byte) (next : Flash) : Prop where
  | quiet (word : s.completes data = none) (clears : Cleared s.data next.data)
      (state : next.state.unlocked = [] ∨ next.state = s.state)
  | command (word : Word) (completed : s.completes data = some word)
      (commanded : Commanded s s.currentAddress word next)

theorem erasesSame {ready : Flash} (same : ready.state = s.state) : ready.erases word = s.erases word := by
  unfold Flash.erases
  rw [same]

theorem accessCases {data : Byte} {sent : Option Byte} (phase : s.hyperState = .data)
    (taken : s.handleAccess s.regAccess s.currentAddress s.read data = some (next, sent)) : Accessed s data next := by
  unfold Flash.handleAccess at taken
  split at taken
  · rename_i outside
    cases taken
    exact .quiet (by simp [Flash.completes, outside]) (clearedRefl _) (.inr rfl)
  · rename_i inside
    split at taken
    · rename_i reading
      have word : s.completes data = none := by simp [Flash.completes, reading]
      split at taken
      · rename_i status
        dsimp only at taken
        split at taken
        · cases taken
          exact .quiet word (clearedRefl _) (.inl rfl)
        · cases taken
          exact .quiet word (clearedRefl _) (.inr rfl)
      · cases taken
        exact .quiet word (clearedRefl _) (.inr rfl)
    · rename_i writing
      split at taken
      · rename_i program
        cases taken
        exact .quiet (by simp [Flash.completes, program]) (programClears _ _ _) (.inr (programState _ _ _))
      · rename_i waiting
        split at taken
        · rename_i first
          cases taken
          exact .quiet (by simp [Flash.completes, first]) (clearedRefl _) (.inr rfl)
        · rename_i second
          obtain ⟨after, commanded, same⟩ := Option.map_eq_some_iff.mp taken
          cases same
          have completed : s.completes data = some (s.wordOf s.currentAddress data) := by
            unfold Flash.completes
            rw [if_pos ⟨phase, by simpa using writing, waiting, second, by simpa using inside⟩]
          refine .command _ completed ?_
          cases commandCases commanded with
          | moved plain same state => exact .moved ((erasesSame rfl).symm.trans plain) same state
          | chip ready at555 chip done => exact .chip ready at555 chip done
          | sector ready sector done erased =>
              refine .sector ready sector done (erased.trans ?_)
              unfold Flash.eraseSector
              dsimp only
              split <;> rfl

theorem accessedCongr {data : Byte} {mid : Flash} (accessed : Accessed s data mid)
    (same : next.data = mid.data) (state : next.state = mid.state) : Accessed s data next := by
  cases accessed with
  | quiet word clears moved => exact .quiet word (same ▸ clears) (state ▸ moved)
  | command word completed commanded =>
      refine .command word completed ?_
      cases commanded with
      | moved plain kept moved => exact .moved plain (same.trans kept) (state ▸ moved)
      | chip ready at555 chip done => exact .chip ready at555 chip (state.trans done)
      | sector ready sector done erased => exact .sector ready sector (state.trans done) (same.trans erased)

theorem syncCases {data : Byte} {sent : Option Byte} (taken : s.syncCycle data = some (next, sent)) :
    Accessed s data next := by
  unfold Flash.syncCycle at taken
  cases phase : s.hyperState with
  | ca =>
      have word : s.completes data = none := by simp [Flash.completes, phase]
      rw [phase] at taken
      dsimp only at taken
      split at taken
      · split at taken
        · cases taken
          exact .quiet word (clearedRefl _) (.inr rfl)
        · cases taken
          exact .quiet word (clearedRefl _) (.inr rfl)
      · contradiction
  | data =>
      rw [phase] at taken
      obtain ⟨⟨mid, out⟩, accessed, same⟩ := Option.map_eq_some_iff.mp taken
      cases same
      exact accessedCongr (accessCases phase accessed) rfl rfl

theorem csState (s : Flash) (value : Bool) : (s.csSync value).data = s.data ∧
    ((s.csSync value).state = s.state ∨ (s.csSync value).state.unlocked = []) := by
  unfold Flash.csSync
  cases value with
  | true => exact ⟨rfl, .inl rfl⟩
  | false =>
      dsimp only [Bool.false_eq_true, if_false]
      rw [if_neg Bool.false_ne_true]
      cases s.state with
      | programStart => exact ⟨rfl, .inr rfl⟩
      | program =>
          dsimp only
          split
          · exact ⟨rfl, .inr rfl⟩
          · exact ⟨rfl, .inr rfl⟩
      | _ => exact ⟨rfl, .inl rfl⟩

end Words

section Runs

variable {s next : Session} {trace : List (Action × Session)} {a : Action}

def Follows (s : Session) : Prop := s.flash.state.unlocked.Sublist s.words

theorem stepByte {data : Byte} (taken : step s (.byte data) = some next) : Accessed s.flash data next.flash ∧
    next.words = (match s.flash.completes data with | some word => s.log word | none => s.words) := by
  obtain ⟨⟨flash, sent⟩, synced, rfl⟩ := Option.map_eq_some_iff.mp taken
  exact ⟨syncCases synced, rfl⟩

theorem stepFollows (good : Follows s) (taken : step s a = some next) : Follows next := by
  unfold Follows at good ⊢
  cases a with
  | cs value =>
      cases taken
      rcases (csState s.flash value).2 with same | nothing
      · rw [same]
        exact good
      · rw [nothing]
        exact List.nil_sublist _
  | byte data =>
      obtain ⟨accessed, words⟩ := stepByte taken
      rw [words]
      cases accessed with
      | quiet word clears state =>
          rw [word]
          rcases state with nothing | same
          · rw [nothing]
            exact List.nil_sublist _
          · rw [same]
            exact good
      | command word completed commanded =>
          rw [completed]
          cases commanded with
          | moved plain same state =>
              have log : s.log word = s.words ++ [word] := if_neg (by simp [plain])
              dsimp only
              rw [log]
              rcases state with nothing | same | longer
              · rw [nothing]
                exact List.nil_sublist _
              · rw [same]
                exact good.trans (List.sublist_append_left _ _)
              · rw [longer]
                exact good.append (List.Sublist.refl _)
          | chip ready at555 chip done =>
              rw [done]
              exact List.nil_sublist _
          | sector ready sector done erased =>
              rw [done]
              exact List.nil_sublist _

theorem startFollows {flash : Flash} (built : flash.Built) : Follows ⟨flash, []⟩ := by
  unfold Follows
  rw [built.state]
  exact List.nil_sublist _

theorem erasedByCommand {flash : Flash} {i : Int} {b : Nat} (built : flash.Built)
    (run : Run step anyStep ⟨flash, []⟩ trace s) (taken : step s a = some next)
    (inside : 0 ≤ i ∧ i < s.flash.size.toInt) (clear : (s.flash.data i).getLsbD b = false)
    (set : (next.flash.data i).getLsbD b = true) :
    ∃ data word, a = .byte data ∧ s.flash.completes data = some word ∧
      ((word.cmd = 0x30 ∧ i / 0x40000 = 2 * word.address.toInt / 0x40000) ∨
        (word.cmd = 0x10 ∧ word.address = 0x555)) ∧
      unlock.Sublist s.words := by
  have follows : Follows s :=
    Machine.runInvariant run (startFollows built) (fun _ _ _ good _ taken => stepFollows good taken)
  cases a with
  | cs value =>
      cases taken
      rw [(csState s.flash value).1, clear] at set
      contradiction
  | byte data =>
      cases (stepByte taken).1 with
      | quiet word clears state =>
          rw [clears i b set] at clear
          contradiction
      | command word completed commanded =>
          have address : word.address = s.flash.currentAddress.sshiftRight 1 := by
            unfold Flash.completes at completed
            split at completed
            · cases completed
              rfl
            · contradiction
          unfold Follows at follows
          cases commanded with
          | moved plain same state =>
              rw [same, clear] at set
              contradiction
          | chip ready at555 chip done =>
              rw [ready] at follows
              exact ⟨data, word, rfl, completed, .inr ⟨chip, at555⟩, follows⟩
          | sector ready sector done erased =>
              rw [ready] at follows
              rw [erased] at set
              have home := eraseSectorData inside clear set
              exact ⟨data, word, rfl, completed, .inl ⟨sector, address ▸ home⟩, follows⟩

def sendWord (low mid high : Byte) (cmd : Byte) : List Action :=
  [.cs false, .byte 0, .byte 0, .byte high, .byte mid, .byte 0, .byte low, .byte cmd, .byte 0, .cs true]

def clearFlash : Flash :=
  ⟨0x40000, fun _ => 0, .waitCmd0, .ca, 0, 0, 0, 6, 0, false, false, -1, 0⟩

def unlockActions : List Action :=
  sendWord 2 0x55 1 0xAA ++ sendWord 4 0xAA 0 0x55 ++ sendWord 2 0x55 1 0x80 ++ sendWord 2 0x55 1 0xAA ++
    sendWord 4 0xAA 0 0x55 ++ (sendWord 0 0 0 0x30).take 8

def unlocked : Session := Machine.reach step anyStep ⟨clearFlash, []⟩ unlockActions

theorem erasedByCommandSector : ∃ trace next, Run step anyStep ⟨clearFlash, []⟩ trace unlocked ∧
    step unlocked (.byte 0) = some next ∧ next.flash.data 5 = 0xff ∧
    ∃ data word, Action.byte 0 = .byte data ∧ unlocked.flash.completes data = some word ∧
      ((word.cmd = 0x30 ∧ (5 : Int) / 0x40000 = 2 * word.address.toInt / 0x40000) ∨
        (word.cmd = 0x10 ∧ word.address = 0x555)) ∧ unlock.Sublist unlocked.words := by
  obtain ⟨trace, run, _⟩ := Machine.reachRun step anyStep ⟨clearFlash, []⟩ unlockActions (by decide +kernel)
  have set : (step unlocked (.byte 0)).map (fun t => t.flash.data 5) = some 0xff := by decide +kernel
  obtain ⟨next, taken, erased⟩ := Option.map_eq_some_iff.mp set
  refine ⟨trace, _, run, taken, erased, erasedByCommand (b := 0) ⟨rfl, rfl, rfl, rfl, rfl⟩ run taken ?_ ?_ ?_⟩
  · decide +kernel
  · decide +kernel
  · rw [erased]
    rfl

end Runs

end Gvsoc.Hyperflash
