import Gvsoc.CText
import Gvsoc.Io
import Gvsoc.Machine

/-! `Rsp::decode`: what a debugger can ask of the registered cores, packet after packet. A handler that follows a pointer to
no core, or writes outside of one of its arrays, has no result. -/
namespace Gvsoc.RspSession
open Bytes (Byte)
open CText
open Io (bytesFrom)
open Machine (Run anyStep)

abbrev Word := BitVec 32

def rspPacketMaxSize : Word := 16 * 1024

def replyBufLen : Nat := 256

def defaultThread : Word := 9

structure Core where
  id : Word
  name : List Byte
  nbRegs : Nat
  regSize : Nat

structure Cores where
  list : List Core
  nonempty : list ≠ []
  distinct : (list.map Core.id).Nodup
  named : ∀ core ∈ list, core.name.length < replyBufLen
  words : ∀ core ∈ list, core.regSize = 4

def Cores.find (c : Cores) (id : Word) : Option Core := c.list.find? (fun core => core.id = id)

/- What the cores answer while a packet is handled, and what is in the arrays of the handler before it writes them. -/
structure Answers where
  running : Bool
  regSet : Word → Word → Bool
  regGet : Word → Option Word
  regs : Nat → Word
  cont : Bool
  stack : Nat → Byte

inductive Call where
  | cont (core : Word)
  | stepi (core : Word)
  | regSet (core addr value : Word)
  | ioAccess (addr : Word) (size : Nat) (data : List Byte)
  deriving DecidableEq

structure Session where
  activeCore : Word
  activeCoreForOther : Word
  sent : List (List Byte)
  calls : List Call

def Session.start : Session := ⟨9, 0, [], []⟩

def ntohl (v : Word) : Word := v.extractLsb' 0 8 ++ v.extractLsb' 8 8 ++ v.extractLsb' 16 8 ++ v.extractLsb' 24 8

section Parse

def regAssignment (text : List Byte) : Option (Word × Word) := do
  let (addr, rest) ← scan 16 text
  match rest with
  | c :: rest =>
      if c = ch '=' then
        let (wdata, _) ← scanDigits 16 ((rest.dropWhile isSpace).take 8)
        some (toUnsigned addr, toUnsigned wdata)
      else none
  | [] => none

def vAction (str : List Byte) : Option Word × Byte :=
  let name := str.takeWhile (· ≠ ch ':')
  (if ch ':' ∈ str then some (atoi (str.drop (name.length + 1))) else none, name.headD 0)

def vActions (data : List Byte) : List (Option Word × Byte) := (tokens (ch ';') (cString (data.drop 6))).map vAction

def extraThread (data : List Byte) : Option Word := do
  let text := cString data
  if (ascii "qThreadExtraInfo,").isPrefixOf text then
    let (n, _) ← scan 16 (text.drop 17)
    some (toUnsigned n)
  else none

end Parse

namespace Session

variable (c : Cores) (a : Answers) (s : Session)

def send (data : List Byte) : Session × Bool := ({s with sent := s.sent ++ [data]}, true)

def sendStr (text : String) : Session × Bool := s.send (ascii text)

def call (call : Call) : Session := {s with calls := s.calls ++ [call]}

def setActiveCore (id : Word) : Session × Int := if (c.find id).isSome then ({s with activeCore := id}, 0) else (s, -1)

def getCore (id : Word) : Option Core := c.find (if id = -1 then s.activeCore else id)

def signal : Option (Session × Bool) := do
  let core ← s.getCore c (-1)
  let s := {s with activeCoreForOther := core.id}
  let text := ascii "S" ++ hex false 2 (if a.running then 0 else 17)
  let str ← snprintf 128 a.stack 0 128 text
  some (s.send (bytesFrom str 0 text.length))

def regWrite (text : List Byte) : Option (Session × Bool) :=
  match regAssignment text with
  | none => some (s, false)
  | some (addr, wdata) => do
      let core ← s.getCore c s.activeCoreForOther
      let s := s.call (.regSet core.id addr (ntohl wdata))
      some (s.sendStr (if a.regSet addr (ntohl wdata) then "E01" else "OK"))

def regRead (text : List Byte) : Option (Session × Bool) :=
  match scan 16 text with
  | none => some (s, false)
  | some (addr, _) => do
      let _ ← s.getCore c s.activeCoreForOther
      match a.regGet (toUnsigned addr) with
      | none => some (s.sendStr "E01")
      | some rdata => do
          let dataStr ← snprintf 10 a.stack 0 9 (hex false 8 (ntohl rdata))
          some (s.send (cString (bytesFrom dataStr 0 10)))

def memWrite (data : List Byte) : Session × Bool :=
  let scanned := do
    let (addr, rest) ← scan 16 (cString data)
    match rest with
    | c :: rest => if c = ch ',' then (scan 16 rest).map (fun _ => toUnsigned addr) else none
    | [] => none
  match scanned with
  | none => (s, false)
  | some addr =>
      let i := (data.takeWhile (· ≠ ch ':')).length
      if i = data.length then (s, false)
      else (s.call (.ioAccess addr (data.length - i - 1) (data.drop (i + 1))), false)

def multithread (data : List Byte) : Session × Bool :=
  match data with
  | [] => (s, false)
  | kind :: rest =>
      if kind = ch 'c' ∨ kind = ch 'g' then
        match scan 10 (cString rest) with
        | none => (s, false)
        | some (n, _) =>
            let threadId := toInt n
            if threadId = -1 then s.sendStr "OK"
            else
              let threadId := if threadId ≠ 0 then threadId - 1 else defaultThread
              if kind = ch 'c' then
                let (s, err) := s.setActiveCore c threadId
                if err ≠ 0 then s.sendStr "E01" else s.sendStr "OK"
              else {s with activeCoreForOther := threadId}.sendStr "OK"
      else (s, false)

def threadTexts : List (List Byte) := c.list.map (fun core => hex false 1 (core.id + 1) ++ ascii ",")

def nameTexts (str : List Byte) : List (List Byte) := str.map (fun c => hex true 2 (c.signExtend 32))

def threadName (threadId : Word) : List Byte :=
  match s.getCore c (threadId - 1) with
  | some core => cString core.name
  | none => ascii "Unknown Core"

def query (data : List Byte) : Option (Session × Bool) :=
  if starts "qSupported" data then do
    let text := ascii "PacketSize=" ++ hex false 1 rspPacketMaxSize ++ ascii ";vContSupported+;hwbreak+"
    let reply ← snprintf replyBufLen a.stack 0 replyBufLen text
    some (s.send (cString (bytesFrom reply 0 replyBufLen)))
  else if starts "qTStatus" data then some (s.sendStr "")
  else if starts "qfThreadInfo" data then do
    let (reply, ret) ← printAll replyBufLen (threadTexts c) (Function.update a.stack 0 (ch 'm')) 1
    some (s.send (bytesFrom reply 0 (ret - 1)))
  else if starts "qsThreadInfo" data then some (s.sendStr "l")
  else if starts "qAttached" data then some (s.sendStr "1")
  else if starts "qC" data then some (s.sendStr "")
  else if starts "qOffsets" data then some (s.sendStr "Text=0;Data=0;Bss=0")
  else if starts "qSymbol" data then some (s.sendStr "OK")
  else if starts "qThreadExtraInfo" data then
    match extraThread data with
    | none => some (s.sendStr "E01")
    | some threadId =>
        let str := s.threadName c threadId
        if replyBufLen < str.length + 1 then none
        else do
          let (reply, ret) ← printAll replyBufLen (nameTexts str) a.stack 0
          some (s.send (bytesFrom reply 0 ret))
  else some (s.sendStr "")

/- What `set_active_core` returns is not looked at. -/
def select (tid : Option Word) : Session := match tid with
  | some tid => if tid ≠ 0 then (s.setActiveCore c (tid - 1)).1 else s
  | none => s

def vContLoop (s : Session) : List (Option Word × Byte) → Option Session
  | [] => some s
  | (tid, command) :: rest =>
      let s := s.select c tid
      if command = ch 'C' ∨ command = ch 'c' then do
        let core ← s.getCore c (-1)
        (s.call (.cont core.id)).vContLoop rest
      else if command = ch 'S' ∨ command = ch 's' then do
        let core ← s.getCore c (-1)
        (s.call (.stepi core.id)).vContLoop rest
      else s.vContLoop rest

def vPacket (data : List Byte) : Option (Session × Bool) :=
  if sameStart "vCont?" data then some (s.sendStr "vCont;c;s;C;S")
  else if sameStart "vCont" data then (s.vContLoop c (vActions data)).map (fun s => s.sendStr "OK")
  else some (s.sendStr "")

def printRegs : Nat → (Nat → Byte) → Option (Nat → Byte)
  | 0, str => some str
  | i + 1, str => do
      let str ← printRegs i str
      snprintf 512 str (i * 8) 9 (hex false 8 (ntohl (a.regs i)))

def regsSend : Option (Session × Bool) := do
  let core ← s.getCore c s.activeCoreForOther
  if core.regSize = 4 then
    let regsStr ← printRegs a core.nbRegs a.stack
    some (s.send (cString (bytesFrom regsStr 0 512)))
  else some (s.send (List.replicate (33 * 8) (ch '0')))

def decode (data : List Byte) : Option (Session × Bool) :=
  let kind := data.headD 0
  let rest := data.drop 1
  if kind = ch 'q' then s.query c a data
  else if kind = ch 'v' then s.vPacket c data
  else if kind = ch 'H' then some (s.multithread c rest)
  else if kind = ch '?' then s.signal c a
  else if kind = ch 'g' then s.regsSend c a
  else if kind = ch 'X' then some (s.memWrite rest)
  else if kind = ch 'p' then s.regRead c a (cString rest)
  else if kind = ch 'P' then s.regWrite c a (cString rest)
  else if kind = ch 'c' ∨ kind = ch 'C' then do
    let core ← s.getCore c (-1)
    some (s.call (.cont core.id), a.cont)
  else some (s, false)

end Session

def step (c : Cores) (s : Session) (packet : List Byte × Answers) : Option Session :=
  (s.decode c packet.2 packet.1).map Prod.fst

section Needs

variable (c : Cores) (s : Session)

def Cores.Has (id : Word) : Prop := (c.find id).isSome = true

instance (id : Word) : Decidable (c.Has id) := inferInstanceAs (Decidable (_ = true))

def Selected (active : Word) : Prop := active = defaultThread → c.Has defaultThread

/- The last choice for other operations is a core. The core `-1` stands for the one that is selected. -/
def Chosen : Prop := c.Has (if s.activeCoreForOther = -1 then s.activeCore else s.activeCoreForOther)

/- The texts before the last one have room behind the first characters of a reply. -/
def Fit (texts : List (List Byte)) (first : Nat) : Prop := texts = [] ∨ first + texts.dropLast.flatten.length ≤ replyBufLen

def selectedBy (active : Word) (tid : Option Word) : Word := match tid with
  | some tid => if tid ≠ 0 ∧ (c.find (tid - 1)).isSome then tid - 1 else active
  | none => active

def resumes (command : Byte) : Bool := command == ch 'C' || command == ch 'c' || command == ch 'S' || command == ch 's'

def Resumed : Word → List (Option Word × Byte) → Prop
  | _, [] => True
  | active, (tid, command) :: rest =>
      (resumes command = true → Selected c (selectedBy c active tid)) ∧ Resumed (selectedBy c active tid) rest

/- The core that is read has registers for at most 63 numbers of eight digits. -/
def RegsFit : Prop :=
  ∀ core, c.find (if s.activeCoreForOther = -1 then s.activeCore else s.activeCoreForOther) = some core → core.nbRegs ≤ 63

def Needs (data : List Byte) : Prop :=
  let kind := data.headD 0
  let rest := data.drop 1
  if kind = ch 'q' then
    (starts "qfThreadInfo" data = true → Fit (Session.threadTexts c) 1) ∧
      (starts "qThreadExtraInfo" data = true → ∀ thread, extraThread data = some thread →
        Fit (Session.nameTexts (s.threadName c thread)) 0)
  else if kind = ch 'v' then
    sameStart "vCont?" data = false ∧ sameStart "vCont" data = true →
      Resumed c s.activeCore (vActions data)
  else if kind = ch 'H' then True
  else if kind = ch '?' then Selected c s.activeCore
  else if kind = ch 'g' then Chosen c s ∧ RegsFit c s
  else if kind = ch 'X' then True
  else if kind = ch 'p' then (scan 16 (cString rest)).isSome = true → Chosen c s
  else if kind = ch 'P' then (regAssignment (cString rest)).isSome = true → Chosen c s
  else kind = ch 'c' ∨ kind = ch 'C' → Selected c s.activeCore

end Needs

section Handlers

variable {c : Cores} {a : Answers} {s next : Session} {data : List Byte} {result : Session × Bool}

def Settled (c : Cores) (s : Session) : Prop := s.activeCore = defaultThread ∨ c.Has s.activeCore

theorem settledHas (settled : Settled c s) : c.Has s.activeCore ↔ Selected c s.activeCore := by
  constructor
  · intro has initial
    rwa [initial] at has
  · intro selected
    rcases settled with initial | has
    · rw [initial]
      exact selected initial
    · exact has

theorem activeSome : (s.getCore c (-1)).isSome = true ↔ c.Has s.activeCore := by
  unfold Session.getCore Cores.Has
  rw [if_pos rfl]

theorem otherSome : (s.getCore c s.activeCoreForOther).isSome = true ↔ Chosen c s := Iff.rfl

theorem signalSome (settled : Settled c s) : (s.signal c a).isSome = true ↔ Selected c s.activeCore := by
  rw [← settledHas settled, ← activeSome]
  unfold Session.signal
  cases found : s.getCore c (-1) with
  | none => simp
  | some core =>
      have written (text : List Byte) : (snprintf 128 a.stack 0 128 text).isSome = true :=
        snprintfInside (by omega) (by omega) (by omega)
      obtain ⟨str, done⟩ := Option.isSome_iff_exists.mp (written (ascii "S" ++ hex false 2 (if a.running then 0 else 17)))
      simp only [Option.bind_eq_bind, Option.bind_some, done, Option.isSome_some]

theorem regWriteSome (text : List Byte) :
    (s.regWrite c a text).isSome = true ↔ ((regAssignment text).isSome = true → Chosen c s) := by
  rw [← otherSome]
  unfold Session.regWrite
  cases regAssignment text with
  | none => simp
  | some scanned => cases s.getCore c s.activeCoreForOther <;> simp

theorem regReadSome (text : List Byte) :
    (s.regRead c a text).isSome = true ↔ ((scan 16 text).isSome = true → Chosen c s) := by
  rw [← otherSome]
  unfold Session.regRead
  cases scan 16 text with
  | none => simp
  | some scanned =>
      obtain ⟨addr, rest⟩ := scanned
      cases s.getCore c s.activeCoreForOther with
      | none => simp
      | some core =>
          cases answer : a.regGet (toUnsigned addr) with
          | none => simp [answer]
          | some rdata =>
              have written : (snprintf 10 a.stack 0 9 (hex false 8 (ntohl rdata))).isSome = true :=
                snprintfInside (by omega) (by omega) (by omega)
              obtain ⟨str, done⟩ := Option.isSome_iff_exists.mp written
              simp [answer, done]

theorem printRegsSome (a : Answers) (n : Nat) (str : Nat → Byte) : (Session.printRegs a n str).isSome = true ↔ n ≤ 63 := by
  induction n with
  | zero => simp [Session.printRegs]
  | succ n ih =>
      rw [Session.printRegs]
      cases before : Session.printRegs a n str with
      | none =>
          simp only [before, Option.isSome_none, Bool.false_eq_true, false_iff] at ih
          exact iff_of_false (by simp) (by omega)
      | some str =>
          simp only [before, Option.isSome_some, true_iff] at ih
          rw [Option.bind_eq_bind, Option.bind_some]
          by_cases room : n + 1 ≤ 63
          · exact iff_of_true (snprintfInside (by omega) (by omega) (by omega)) room
          · obtain rfl : n = 63 := by omega
            have length := hexLength false (ntohl (a.regs 63))
            refine iff_of_false ?_ room
            rw [snprintfPast (by omega) (by omega) (by omega)]
            simp

theorem regsSome : (s.regsSend c a).isSome = true ↔ Chosen c s ∧ RegsFit c s := by
  rw [← otherSome]
  unfold Session.regsSend RegsFit
  cases found : s.getCore c s.activeCoreForOther with
  | none => simp only [Option.bind_eq_bind, Option.bind_none, Option.isSome_none, Bool.false_eq_true, false_and]
  | some core =>
      have member : core ∈ c.list := List.mem_of_find?_eq_some found
      unfold Session.getCore at found
      rw [Option.bind_eq_bind, Option.bind_some, if_pos (c.words core member), found]
      have fits := printRegsSome a core.nbRegs a.stack
      cases printed : Session.printRegs a core.nbRegs a.stack with
      | none =>
          rw [printed] at fits
          simpa using fits
      | some str =>
          rw [printed] at fits
          simpa using fits

theorem selectSettled (settled : Settled c s) (tid : Option Word) :
    Settled c (s.select c tid) ∧ (s.select c tid).activeCore = selectedBy c s.activeCore tid := by
  unfold Session.select selectedBy Session.setActiveCore
  cases tid with
  | none => exact ⟨settled, rfl⟩
  | some tid =>
      simp only
      by_cases zero : tid = 0
      · rw [if_neg (not_not.mpr zero), if_neg (fun both => both.1 zero)]
        exact ⟨settled, rfl⟩
      · rw [if_pos zero]
        by_cases has : (c.find (tid - 1)).isSome = true
        · rw [if_pos has, if_pos ⟨zero, has⟩]
          exact ⟨.inr has, rfl⟩
        · rw [if_neg has, if_neg (fun both => has both.2)]
          exact ⟨settled, rfl⟩

theorem resumedSome (settled : Settled c s) {rest : Core → Option Session} {later : Prop}
    (onward : ∀ core, (rest core).isSome = true ↔ later) :
    ((s.getCore c (-1)).bind rest).isSome = true ↔ Selected c s.activeCore ∧ later := by
  rw [← settledHas settled, ← activeSome]
  cases s.getCore c (-1) with
  | none => simp
  | some core => simp [onward core]

theorem vContSome (settled : Settled c s) (actions : List (Option Word × Byte)) :
    ((s.vContLoop c actions).isSome = true ↔ Resumed c s.activeCore actions) ∧
      ∀ next, s.vContLoop c actions = some next → Settled c next := by
  induction actions generalizing s with
  | nil =>
      refine ⟨by simp [Session.vContLoop, Resumed], fun next done => ?_⟩
      cases done
      exact settled
  | cons action rest ih =>
      obtain ⟨tid, command⟩ := action
      obtain ⟨settled', active⟩ := selectSettled settled tid
      have onward (call : Call) : (((s.select c tid).call call).vContLoop c rest).isSome = true ↔
          Resumed c (s.select c tid).activeCore rest := (ih (s := (s.select c tid).call call) settled').1
      have taken (call : Word → Call) (next : Session) (done : (((s.select c tid).getCore c (-1)).bind fun core =>
          ((s.select c tid).call (call core.id)).vContLoop c rest) = some next) : Settled c next := by
        obtain ⟨core, -, later⟩ := Option.bind_eq_some_iff.mp done
        exact (ih (s := (s.select c tid).call (call core.id)) settled').2 next later
      unfold Session.vContLoop Resumed
      simp only [← active, Option.bind_eq_bind]
      split_ifs with cont step
      · have resume : resumes command = true := by rcases cont with rfl | rfl <;> decide
        refine ⟨?_, taken .cont⟩
        rw [resumedSome settled' (fun core => onward (.cont core.id))]
        simp [resume]
      · have resume : resumes command = true := by rcases step with rfl | rfl <;> decide
        refine ⟨?_, taken .stepi⟩
        rw [resumedSome settled' (fun core => onward (.stepi core.id))]
        simp [resume]
      · have other : resumes command = false := by
          simp only [not_or] at cont step
          simp [resumes, cont, step]
        obtain ⟨some, keeps⟩ := ih settled'
        refine ⟨?_, keeps⟩
        rw [some, other]
        simp

section Branches

variable {α : Type} {b : Prop} [Decidable b] {x y : Option α}

theorem branchSome {P Q : Prop} (yes : b → (x.isSome = true ↔ P)) (no : ¬b → (y.isSome = true ↔ Q)) :
    (if b then x else y).isSome = true ↔ if b then P else Q := by
  by_cases taken : b
  · rw [if_pos taken, if_pos taken]
    exact yes taken
  · rw [if_neg taken, if_neg taken]
    exact no taken

theorem branchEither {P : Prop} (yes : b → (x.isSome = true ↔ P)) (no : ¬b → (y.isSome = true ↔ P)) :
    (if b then x else y).isSome = true ↔ P := by
  rw [branchSome yes no, ite_self]

theorem branchKeeps {P : α → Prop} (yes : b → ∀ r ∈ x, P r) (no : ¬b → ∀ r ∈ y, P r) : ∀ r ∈ if b then x else y, P r := by
  by_cases taken : b
  · rw [if_pos taken]
    exact yes taken
  · rw [if_neg taken]
    exact no taken

end Branches

theorem bindTotal {α β : Type} {o : Option α} {f : α → Option β} (total : ∀ x, (f x).isSome = true) :
    (o.bind f).isSome = o.isSome := by
  cases o with
  | none => rfl
  | some x => exact total x

theorem printedFit {texts : List (List Byte)} {buf : Nat → Byte} {first : Nat} (short : ∀ text ∈ texts, text.length ≤ 9)
    (near : first ≤ 1) : (printAll replyBufLen texts buf first).isSome = true ↔ Fit texts first := by
  have brief : ∀ text ∈ texts, text.length ≤ 2 ^ 32 := fun text member => Nat.le_trans (short text member) (by omega)
  have small : replyBufLen < 2 ^ 32 := by
    unfold replyBufLen
    omega
  have far : first ≤ replyBufLen + 2 ^ 32 := by
    unfold replyBufLen
    omega
  exact printAllInside texts buf first small far brief

theorem threadTextsShort : ∀ text ∈ Session.threadTexts c, text.length ≤ 9 := by
  intro text member
  obtain ⟨core, -, rfl⟩ := List.mem_map.mp member
  have short := hexShort false (core.id + 1) (show 1 ≤ 8 by omega)
  have comma : (ascii ",").length = 1 := rfl
  rw [List.length_append]
  omega

theorem nameTextsShort {str : List Byte} : ∀ text ∈ Session.nameTexts str, text.length ≤ 9 := by
  intro text member
  obtain ⟨char, -, rfl⟩ := List.mem_map.mp member
  have short := hexShort true (char.signExtend 32) (show 2 ≤ 8 by omega)
  omega

theorem threadNameFits (thread : Word) : (s.threadName c thread).length + 1 ≤ replyBufLen := by
  unfold Session.threadName
  cases found : s.getCore c (thread - 1) with
  | none => decide
  | some core =>
      have named := c.named core (List.mem_of_find?_eq_some found)
      have shorter := (List.takeWhile_prefix (p := (· ≠ (0 : Byte))) (l := core.name)).length_le
      simp only [cString]
      omega

theorem querySome : (s.query c a data).isSome = true ↔
    (starts "qfThreadInfo" data = true → Fit (Session.threadTexts c) 1) ∧
      (starts "qThreadExtraInfo" data = true → ∀ thread, extraThread data = some thread →
        Fit (Session.nameTexts (s.threadName c thread)) 0) := by
  have quiet {first : String} (some : starts first data = true)
      (apart : ((ascii first).isPrefixOf (ascii "qfThreadInfo") = false ∧ (ascii "qfThreadInfo").isPrefixOf (ascii first) = false) ∧
        (ascii first).isPrefixOf (ascii "qThreadExtraInfo") = false ∧ (ascii "qThreadExtraInfo").isPrefixOf (ascii first) = false) :
      (starts "qfThreadInfo" data = true → Fit (Session.threadTexts c) 1) ∧
        (starts "qThreadExtraInfo" data = true → ∀ thread, extraThread data = Option.some thread →
          Fit (Session.nameTexts (s.threadName c thread)) 0) := by
    rw [startsApart some apart.1, startsApart some apart.2]
    simp
  unfold Session.query
  refine branchEither (fun supported => iff_of_true ?_ (quiet supported (by decide))) fun _ => ?_
  · rw [Option.bind_eq_bind, bindTotal fun _ => rfl]
    exact snprintfInside (by simp) (by simp) (by simp [replyBufLen])
  refine branchEither (fun status => iff_of_true rfl (quiet status (by decide))) fun _ => ?_
  refine branchEither (fun threads => ?_) fun threads => ?_
  · have extra : starts "qThreadExtraInfo" data = false := startsApart threads (by decide)
    rw [threads, extra, Option.bind_eq_bind, bindTotal fun _ => rfl, printedFit threadTextsShort (Nat.le_refl 1)]
    simp
  refine branchEither (fun more => iff_of_true rfl (quiet more (by decide))) fun _ => ?_
  refine branchEither (fun attached => iff_of_true rfl (quiet attached (by decide))) fun _ => ?_
  refine branchEither (fun current => iff_of_true rfl (quiet current (by decide))) fun _ => ?_
  refine branchEither (fun offsets => iff_of_true rfl (quiet offsets (by decide))) fun _ => ?_
  refine branchEither (fun symbol => iff_of_true rfl (quiet symbol (by decide))) fun _ => ?_
  refine branchEither (fun extra => ?_) fun extra => iff_of_true rfl ⟨fun some => absurd some threads, fun some => absurd some extra⟩
  simp only [threads, extra, Bool.false_eq_true, false_implies, true_and, true_implies]
  cases extraThread data with
  | none => simp
  | some thread =>
      have fits := threadNameFits (c := c) (s := s) thread
      simp only [Option.some.injEq, forall_eq']
      rw [if_neg (by omega), Option.bind_eq_bind, bindTotal fun _ => rfl, printedFit nameTextsShort (Nat.zero_le 1)]

theorem vPacketSome (settled : Settled c s) : (s.vPacket c data).isSome = true ↔
    (sameStart "vCont?" data = false ∧ sameStart "vCont" data = true → Resumed c s.activeCore (vActions data)) := by
  unfold Session.vPacket
  split_ifs with question actions
  · simp [question]
  · rw [Option.isSome_map, (vContSome settled _).1]
    simp [question, actions]
  · simp [actions]

theorem decodeSome (settled : Settled c s) : (s.decode c a data).isSome = true ↔ Needs c s data := by
  unfold Session.decode Needs
  refine branchSome (fun _ => querySome) fun _ => ?_
  refine branchSome (fun _ => vPacketSome settled) fun _ => ?_
  refine branchSome (fun _ => iff_of_true rfl trivial) fun _ => ?_
  refine branchSome (fun _ => signalSome settled) fun _ => ?_
  refine branchSome (fun _ => regsSome) fun _ => ?_
  refine branchSome (fun _ => iff_of_true rfl trivial) fun _ => ?_
  refine branchSome (fun _ => regReadSome _) fun _ => ?_
  refine branchSome (fun _ => regWriteSome _) fun _ => ?_
  refine branchEither (fun resume => ?_) fun resume => iff_of_true rfl fun resumed => absurd resumed resume
  rw [← settledHas settled, ← activeSome, Option.bind_eq_bind, bindTotal fun _ => rfl]
  exact ⟨fun some _ => some, fun needs => needs resume⟩

theorem signalKeeps (done : s.signal c a = some result) : result.1.activeCore = s.activeCore := by
  unfold Session.signal at done
  obtain ⟨core, -, later⟩ := Option.bind_eq_some_iff.mp done
  obtain ⟨str, -, last⟩ := Option.bind_eq_some_iff.mp later
  cases last
  rfl

theorem regWriteKeeps {text : List Byte} (done : s.regWrite c a text = some result) : result.1.activeCore = s.activeCore := by
  unfold Session.regWrite at done
  split at done
  · cases done
    rfl
  · obtain ⟨core, -, last⟩ := Option.bind_eq_some_iff.mp done
    cases last
    rfl

theorem regReadKeeps {text : List Byte} (done : s.regRead c a text = some result) : result.1.activeCore = s.activeCore := by
  unfold Session.regRead at done
  split at done
  · cases done
    rfl
  · obtain ⟨core, -, later⟩ := Option.bind_eq_some_iff.mp done
    split at later
    · cases later
      rfl
    · obtain ⟨str, -, last⟩ := Option.bind_eq_some_iff.mp later
      cases last
      rfl

theorem regsKeeps (done : s.regsSend c a = some result) : result.1.activeCore = s.activeCore := by
  unfold Session.regsSend at done
  obtain ⟨core, -, later⟩ := Option.bind_eq_some_iff.mp done
  split_ifs at later
  · obtain ⟨str, -, last⟩ := Option.bind_eq_some_iff.mp later
    cases last
    rfl
  · cases later
    rfl

theorem memWriteKeeps : (s.memWrite data).1.activeCore = s.activeCore := by
  unfold Session.memWrite
  dsimp only
  split
  · rfl
  · split_ifs <;> rfl

theorem queryKeeps : ∀ result ∈ s.query c a data, result.1.activeCore = s.activeCore := by
  have sent (text : String) : ∀ result ∈ some (s.sendStr text), result.1.activeCore = s.activeCore := fun result done => by
    cases done
    rfl
  have printed {α : Type} (o : Option α) (text : α → List Byte) :
      ∀ result ∈ o.bind fun x => some (s.send (text x)), result.1.activeCore = s.activeCore := fun result done => by
    obtain ⟨reply, -, last⟩ := Option.bind_eq_some_iff.mp done
    cases last
    rfl
  unfold Session.query
  refine branchKeeps (fun _ => printed _ _) fun _ => ?_
  refine branchKeeps (fun _ => sent _) fun _ => ?_
  refine branchKeeps (fun _ => printed _ _) fun _ => ?_
  refine branchKeeps (fun _ => sent _) fun _ => ?_
  refine branchKeeps (fun _ => sent _) fun _ => ?_
  refine branchKeeps (fun _ => sent _) fun _ => ?_
  refine branchKeeps (fun _ => sent _) fun _ => ?_
  refine branchKeeps (fun _ => sent _) fun _ => ?_
  refine branchKeeps (fun _ => ?_) fun _ => sent _
  cases extraThread data with
  | none => exact sent _
  | some thread => exact branchKeeps (fun _ result done => by cases done) fun _ => printed _ _

theorem setSettled (settled : Settled c s) (id : Word) : Settled c (s.setActiveCore c id).1 := by
  unfold Session.setActiveCore
  split_ifs with has
  · exact .inr has
  · exact settled

theorem multithreadSettled (settled : Settled c s) : Settled c (s.multithread c data).1 := by
  unfold Session.multithread
  split
  · exact settled
  · split
    · split
      · exact settled
      · rename_i n rest scanned
        dsimp only
        generalize (if toInt n ≠ 0 then toInt n - 1 else defaultThread) = id
        have set := setSettled settled id
        split
        · exact settled
        · split
          · split <;> exact set
          · exact settled
    · exact settled

theorem vPacketSettled (settled : Settled c s) : ∀ result ∈ s.vPacket c data, Settled c result.1 := by
  unfold Session.vPacket
  refine branchKeeps (fun _ result done => ?_) fun _ => branchKeeps (fun _ result done => ?_) fun _ result done => ?_
  · cases done
    exact settled
  · obtain ⟨next, looped, rfl⟩ := Option.map_eq_some_iff.mp done
    exact (vContSome settled _).2 next looped
  · cases done
    exact settled

theorem decodeSettled (settled : Settled c s) : ∀ result ∈ s.decode c a data, Settled c result.1 := by
  have same {next : Session} (keeps : next.activeCore = s.activeCore) : Settled c next := by
    unfold Settled
    rw [keeps]
    exact settled
  unfold Session.decode
  refine branchKeeps (fun _ result done => same (queryKeeps result done)) fun _ => ?_
  refine branchKeeps (fun _ => vPacketSettled settled) fun _ => ?_
  refine branchKeeps (fun _ result done => ?_) fun _ => ?_
  · cases done
    exact multithreadSettled settled
  refine branchKeeps (fun _ result done => same (signalKeeps done)) fun _ => ?_
  refine branchKeeps (fun _ result done => same (regsKeeps done)) fun _ => ?_
  refine branchKeeps (fun _ result done => ?_) fun _ => ?_
  · cases done
    exact same memWriteKeeps
  refine branchKeeps (fun _ result done => same (regReadKeeps done)) fun _ => ?_
  refine branchKeeps (fun _ result done => same (regWriteKeeps done)) fun _ => ?_
  refine branchKeeps (fun _ result done => ?_) fun _ result done => ?_
  · obtain ⟨core, -, last⟩ := Option.bind_eq_some_iff.mp done
    cases last
    exact settled
  · cases done
    exact settled

/- After any packets, the next one is handled when, and only when, what it needs is there. -/
theorem sessionRobust (c : Cores) {trace} {last : Session} (run : Run (step c) anyStep .start trace last)
    (packet : List Byte × Answers) :
    (last.activeCore = defaultThread ∨ c.Has last.activeCore) ∧ ((step c last packet).isSome = true ↔ Needs c last packet.1) := by
  have settled : Settled c last := Machine.runInvariant run (.inl rfl) fun s packet next settled _ taken => by
    obtain ⟨result, done, rfl⟩ := Option.map_eq_some_iff.mp taken
    exact decodeSettled settled result done
  refine ⟨settled, ?_⟩
  rw [← decodeSome settled, step, Option.isSome_map]

def coreAlone : Cores :=
  { list := [⟨0, ascii "core", 33, 4⟩], nonempty := by decide, distinct := by decide, named := by decide, words := by decide }

def zeros : Answers := ⟨true, fun _ _ => false, fun _ => none, fun _ => 0, true, fun _ => 0⟩

/- The debugger selects the core, and resumes it. -/
theorem sessionRobustAlone :
    Needs coreAlone (Machine.reach (step coreAlone) anyStep .start [(ascii "Hc1", zeros), (ascii "vCont;c:1", zeros)]) (ascii "?") := by
  obtain ⟨trace, run, -⟩ := Machine.reachRun (step coreAlone) anyStep .start [(ascii "Hc1", zeros), (ascii "vCont;c:1", zeros)]
    (by decide +kernel)
  exact (sessionRobust coreAlone run (ascii "?", zeros)).2.mp (by decide +kernel)

/- With a core `0` alone, the first `?` asks a core `9`, and after `Hg5` a register is read from a core `4`. -/
theorem noCore :
    step coreAlone .start (ascii "?", zeros) = none ∧
      ((step coreAlone .start (ascii "Hg5", zeros)).bind fun s => step coreAlone s (ascii "g", zeros)).isNone = true := by
  decide +kernel

end Handlers

end Gvsoc.RspSession
