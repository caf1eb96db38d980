import Gvsoc.Hyperflash

/-! Transactions on the bus of the flash. -/
namespace Gvsoc.Hyperflash
open Bytes (Byte byteOf putByte putByteBit)

def Flash.act (s : Flash) : Action → Option Flash
  | .byte data => (s.syncCycle data).map Prod.fst
  | .cs value => some (s.csSync value)

def play (s : Flash) (actions : List Action) : Option Flash := actions.foldlM Flash.act s

def addressOf (ca : BitVec 48) : BitVec 32 := (ca.extractLsb' 0 3).setWidth 32 ||| (ca.extractLsb' 16 29).setWidth 32 <<< 3

/- A header that announces a write at a byte address. Its other bits are free. -/
structure Header (address : Nat) where
  ca : BitVec 48
  writes : ca.getLsbD 47 = false
  addressed : addressOf ca = BitVec.ofNat 32 address

def Header.bytes {address : Nat} (header : Header address) : List Byte :=
  [byteOf header.ca 5, byteOf header.ca 4, byteOf header.ca 3, byteOf header.ca 2, byteOf header.ca 1, byteOf header.ca 0]

/- The chip select is active low. -/
def transaction {address : Nat} (header : Header address) (data : List Byte) : List Action :=
  .cs false :: (header.bytes.map .byte ++ (data.map .byte ++ [.cs true]))

section Play

variable {s next : Flash} {address : Nat}

@[simp] theorem playNil (s : Flash) : play s [] = some s := rfl

@[simp] theorem playCons (s : Flash) (a : Action) (rest : List Action) :
    play s (a :: rest) = (s.act a).bind (fun next => play next rest) := by
  unfold play
  rw [List.foldlM_cons]
  rfl

theorem playAppend (s : Flash) (left right : List Action) :
    play s (left ++ right) = (play s left).bind (fun next => play next right) := by
  unfold play
  rw [List.foldlM_append]
  rfl

theorem playKeeps {P : Flash → Prop} {actions : List Action} (keeps : ∀ s a next, a ∈ actions → P s → s.act a = some next → P next)
    (start : P s) (played : play s actions = some next) : P next := by
  induction actions generalizing s with
  | nil =>
      cases played
      exact start
  | cons a rest ih =>
      rw [playCons] at played
      obtain ⟨mid, taken, later⟩ := Option.bind_eq_some_iff.mp played
      exact ih (fun s b next inside => keeps s b next (List.mem_cons_of_mem a inside))
        (keeps s a mid List.mem_cons_self start taken) later

theorem putHeader (v ca : BitVec 48) :
    putByte (putByte (putByte (putByte (putByte (putByte v 5 (byteOf ca 5)) 4 (byteOf ca 4)) 3 (byteOf ca 3)) 2 (byteOf ca 2))
      1 (byteOf ca 1)) 0 (byteOf ca 0) = ca := by
  apply BitVec.eq_of_getLsbD_eq
  intro k small
  have part : k / 8 = 0 ∨ k / 8 = 1 ∨ k / 8 = 2 ∨ k / 8 = 3 ∨ k / 8 = 4 ∨ k / 8 = 5 := by omega
  have bit (i : Nat) (own : k / 8 = i) : (byteOf ca i).getLsbD (k % 8) = ca.getLsbD k := by
    unfold byteOf
    rw [BitVec.getLsbD_setWidth, BitVec.getLsbD_ushiftRight, show 8 * i + k % 8 = k by omega]
    simp [Nat.mod_lt]
  simp only [putByteBit _ _ _ _ small]
  rcases part with own | own | own | own | own | own
  all_goals
    rw [own]
    simp [bit _ own]

def Flash.opened (s : Flash) (header : Header address) : Flash :=
  { s.csSync false with
    hyperState := .data
    ca := header.ca
    caCount := 0
    currentAddress := BitVec.ofNat 32 address
    regAccess := header.ca.getLsbD 46 }

theorem headerPlayed (phase : s.hyperState = .ca) (count : s.caCount = 6) (header : Header address) :
    play s (header.bytes.map .byte) = some
      { s with
        hyperState := .data
        ca := header.ca
        caCount := 0
        currentAddress := BitVec.ofNat 32 address
        regAccess := header.ca.getLsbD 46 } := by
  have addressed := header.addressed
  have whole := putHeader s.ca header.ca
  obtain ⟨size, data, state, hyperState, pendingBytes, pendingCmd, ca, caCount, currentAddress, regAccess, burstWrite, nbWord, sector⟩ := s
  simp only at phase count whole
  subst phase count
  simp [Header.bytes, Flash.act, Flash.syncCycle, whole, Flash.lowAddr, Flash.highAddr, Flash.addressSpace, ← addressed, addressOf]

theorem csPhase (s : Flash) (value : Bool) : (s.csSync value).hyperState = .ca ∧ (s.csSync value).caCount = 6 := by
  unfold Flash.csSync
  cases value with
  | true => exact ⟨rfl, rfl⟩
  | false =>
      simp only [Bool.false_eq_true, if_false]
      cases s.state with
      | program => simp only; split <;> exact ⟨rfl, rfl⟩
      | _ => exact ⟨rfl, rfl⟩

theorem transactionPlayed (s : Flash) (header : Header address) (data : List Byte) :
    play s (transaction header data) = (play (s.opened header) (data.map .byte)).map (fun next => next.csSync true) := by
  obtain ⟨phase, count⟩ := csPhase s false
  unfold transaction
  rw [playCons, Flash.act, Option.bind_some, playAppend, headerPlayed phase count header, Option.bind_some, playAppend]
  unfold Flash.opened
  cases play _ (data.map .byte) with
  | none => rfl
  | some next => rfl

end Play

end Gvsoc.Hyperflash
