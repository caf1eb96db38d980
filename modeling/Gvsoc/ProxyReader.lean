import Gvsoc.ProxyText
import Mathlib.Logic.Function.Basic

/-! The thread of a client that reads what the proxy sends. -/
namespace Gvsoc.ProxyReader
open Bytes (Byte)
open CText (ch ascii starts)
open ProxyText

section Read

/- What the fields of a line say. A payload goes under the number that was read before it. -/
structure Reading where
  req : Option Int
  msg : List Byte
  isStop : Option Int
  isRun : Option Int
  payloads : List (Option Int × Int)

def Reading.start : Reading where
  req := none
  msg := []
  isStop := none
  isRun := none
  payloads := []

/- One field, or nothing where the thread ends: `exit` ends the whole process. -/
def Reading.field (r : Reading) (arg : List Byte) : Option Reading :=
  let name := fieldName arg
  let value := fieldValue arg
  if ch '=' ∉ arg then none
  else if name = ascii "req" then (pyInt value).map fun n => { r with req := some n }
  else if name = ascii "exit" then none
  else if name = ascii "msg" then
    if starts "stopped" value then
      ((value.splitOn (ch '='))[1]?.bind pyInt).map fun n => { r with msg := value, isStop := some n }
    else if starts "running" value then
      ((value.splitOn (ch '='))[1]?.bind pyInt).map fun n => { r with msg := value, isRun := some n }
    else some { r with msg := value }
  else if name = ascii "payload" then (pyInt value).map fun n => { r with payloads := r.payloads ++ [(r.req, n)] }
  else some r

def Reading.fields (r : Reading) : List (List Byte) → Reading × Bool
  | [] => (r, true)
  | arg :: rest => match r.field arg with
      | some next => next.fields rest
      | none => (r, false)

structure Reader where
  replies : Int → Option (List Byte)
  payloads : Int → Option (List Byte)
  running : Bool
  timestamp : Int
  alive : Bool

def Reader.start : Reader where
  replies := fun _ => none
  payloads := fun _ => none
  running := false
  timestamp := 0
  alive := true

/- The bytes behind a line. Nobody asks for those without a number. -/
def takePayloads : List (Option Int × Int) → List Byte → (Int → Option (List Byte)) → Option ((Int → Option (List Byte)) × List Byte)
  | [], stream, payloads => some (payloads, stream)
  | (req, size) :: rest, stream, payloads =>
      if stream.length < size.toNat then none
      else takePayloads rest (stream.drop size.toNat)
        (req.elim payloads fun n => Function.update payloads n (some (stream.take size.toNat)))

def Reader.put (r : Reader) (reading : Reading) (whole : Bool) (payloads : Int → Option (List Byte)) : Reader :=
  match reading.req, whole with
  | some req, true =>
      { r with
        payloads := payloads
        timestamp := reading.isStop.getD r.timestamp
        running := if reading.isStop.isSome then false else reading.isRun.isSome || r.running
        replies := Function.update r.replies req (some reading.msg) }
  | _, _ => { r with payloads := payloads, alive := false }

/- One line with its payload. Nothing where the thread waits for more. -/
def Reader.read (r : Reader) (stream : List Byte) : Option (Reader × List Byte) :=
  if r.alive then do
    let (line, rest) ← takeLine stream
    if line.all (· < 0x80) then
      let (reading, whole) := Reading.start.fields (line.splitOn (ch ';'))
      let (payloads, rest) ← takePayloads reading.payloads rest r.payloads
      some (r.put reading whole payloads, rest)
    else some ({ r with alive := false }, rest)
  else none

theorem takePayloadsMore {wanted : List (Option Int × Int)} {stream rest : List Byte} {payloads found : Int → Option (List Byte)}
    (more : List Byte) (taken : takePayloads wanted stream payloads = some (found, rest)) :
    takePayloads wanted (stream ++ more) payloads = some (found, rest ++ more) := by
  induction wanted generalizing stream payloads with
  | nil =>
      cases taken
      rfl
  | cons first wanted ih =>
      obtain ⟨req, size⟩ := first
      unfold takePayloads at taken ⊢
      obtain ⟨enough, later⟩ := Option.ite_none_left_eq_some.mp taken
      have next := ih later
      rw [if_neg (by rw [List.length_append]; omega), List.drop_append_of_le_length (by omega),
        List.take_append_of_le_length (by omega)]
      exact next

theorem readMore {r next : Reader} {stream rest : List Byte} (more : List Byte) (done : r.read stream = some (next, rest)) :
    r.read (stream ++ more) = some (next, rest ++ more) := by
  unfold Reader.read at done ⊢
  obtain ⟨alive, done⟩ := Option.ite_none_right_eq_some.mp done
  obtain ⟨⟨line, after⟩, taken, done⟩ := Option.bind_eq_some_iff.mp done
  rw [if_pos alive, takeLineMore more taken]
  dsimp only [Option.bind_eq_bind, Option.bind_some] at done ⊢
  split at done
  · rename_i plain
    obtain ⟨⟨payloads, later⟩, found, done⟩ := Option.bind_eq_some_iff.mp done
    cases done
    rw [if_pos plain, takePayloadsMore more found]
    rfl
  · rename_i strange
    cases done
    rw [if_neg strange]

end Read

section Messages

inductive Message where
  | reply (req : Nat) (msg : Option (List Byte))
  | payload (req : Nat) (bytes : List Byte)
  | stopped (time : Int)
  | running (time : Int)
  deriving DecidableEq

def Message.line : Message → List Byte
  | .reply req msg => replyText (number 10 req) msg
  | .payload req bytes => payloadLine (number 10 req) bytes.length
  | .stopped time => replyText (ascii "-1") (some (ascii "stopped=" ++ decimal time))
  | .running time => replyText (ascii "-1") (some (ascii "running=" ++ decimal time))

def Message.bytes : Message → List Byte
  | .payload _ bytes => bytes
  | _ => []

def Message.text (m : Message) : List Byte := m.line ++ m.bytes

def found (msg : Option (List Byte)) : List Byte := msg.elim [] (· ++ [lf])

def plain (msg : List Byte) : Bool :=
  msg.all clean && !starts "stopped" (msg ++ [lf]) && !starts "running" (msg ++ [lf])

def Message.Plain : Message → Prop
  | .reply _ (some msg) => plain msg = true
  | _ => True

def Reader.take (r : Reader) : Message → Reader
  | .reply req msg => { r with replies := Function.update r.replies req (some (found msg)) }
  | .payload req bytes =>
      { r with replies := Function.update r.replies req (some []), payloads := Function.update r.payloads req (some bytes) }
  | .stopped time =>
      { r with
        replies := Function.update r.replies (-1) (some (ascii "stopped=" ++ decimal time ++ [lf]))
        timestamp := time
        running := false }
  | .running time =>
      { r with
        replies := Function.update r.replies (-1) (some (ascii "running=" ++ decimal time ++ [lf]))
        running := true }

def lineOf (req : List Byte) (more : Option (List Byte)) : List Byte := ascii "req=" ++ req ++ (more.elim [] (ch ';' :: ·)) ++ [lf]

def Message.more : Message → Option (List Byte)
  | .reply _ none => none
  | .reply _ (some msg) => some (ascii "msg=" ++ msg)
  | .payload _ bytes => some (ascii "payload=" ++ decimal bytes.length)
  | .stopped time => some (ascii "msg=" ++ (ascii "stopped=" ++ decimal time))
  | .running time => some (ascii "msg=" ++ (ascii "running=" ++ decimal time))

def Message.number : Message → Int
  | .reply req _ => req
  | .payload req _ => req
  | _ => -1

theorem messageLine (m : Message) : m.line = lineOf (decimal m.number) m.more := by
  cases m with
  | reply req msg =>
      cases msg with
      | none => simp [Message.line, Message.number, Message.more, lineOf, replyText, decimalNat]
      | some msg =>
          have first : ascii ";msg=" = ch ';' :: ascii "msg=" := rfl
          simp [Message.line, Message.number, Message.more, lineOf, replyText, decimalNat, first]
  | payload req bytes =>
      have first : ascii ";payload=" = ch ';' :: ascii "payload=" := rfl
      simp [Message.line, Message.number, Message.more, lineOf, payloadLine, decimalNat, first]
  | stopped time => rfl
  | running time => rfl

variable {r : Reader} {m : Message} {rest : List Byte}

theorem moreClean (good : m.Plain) : ∀ two ∈ m.more, two.all clean = true := by
  have texts : (ascii "msg=").all clean = true ∧ (ascii "payload=").all clean = true ∧ (ascii "stopped=").all clean = true ∧
    (ascii "running=").all clean = true := by decide
  obtain ⟨msgText, payloadText, stoppedText, runningText⟩ := texts
  intro two inside
  cases m with
  | reply req msg =>
      cases msg with
      | none => contradiction
      | some msg =>
          cases inside
          have clear : plain msg = true := good
          unfold plain at clear
          simp only [Bool.and_eq_true] at clear
          rw [List.all_append, msgText, clear.1.1, Bool.true_and]
  | payload req bytes =>
      cases inside
      rw [List.all_append, payloadText, decimalClean, Bool.true_and]
  | stopped time =>
      cases inside
      rw [List.all_append, List.all_append, msgText, stoppedText, decimalClean, Bool.true_and, Bool.true_and]
  | running time =>
      cases inside
      rw [List.all_append, List.all_append, msgText, runningText, decimalClean, Bool.true_and, Bool.true_and]

section Line

variable {req : List Byte} {more : Option (List Byte)}

theorem lineTaken (first : req.all clean = true) (second : ∀ two ∈ more, two.all clean = true) :
    takeLine (lineOf req more ++ rest) = some (lineOf req more, rest) := by
  obtain ⟨-, reqLine, -⟩ := cleanPlain first
  have apart : lf ∉ ascii "req=" ∧ lf ≠ ch ';' := by decide
  have unended : lf ∉ ascii "req=" ++ req ++ more.elim [] (ch ';' :: ·) := by
    cases more with
    | none => simp [apart, reqLine]
    | some two =>
        obtain ⟨-, twoLine, -⟩ := cleanPlain (second two rfl)
        simp [apart, reqLine, twoLine]
  unfold lineOf
  rw [List.append_assoc _ [lf], List.singleton_append]
  exact takeLineFirst unended

theorem lineAscii (first : req.all clean = true) (second : ∀ two ∈ more, two.all clean = true) :
    (lineOf req more).all (· < 0x80) = true := by
  obtain ⟨-, -, -, reqPlain⟩ := cleanPlain first
  have small : (ascii "req=").all (· < 0x80) = true ∧ [lf].all (· < 0x80) = true ∧ [ch ';'].all (· < 0x80) = true := by decide
  have later : (more.elim [] (ch ';' :: ·)).all (· < 0x80) = true := by
    cases more with
    | none => rfl
    | some two =>
        obtain ⟨-, -, -, twoPlain⟩ := cleanPlain (second two rfl)
        rw [Option.elim_some, ← List.singleton_append, List.all_append, small.2.2, twoPlain, Bool.true_and]
  unfold lineOf
  rw [List.all_append, List.all_append, List.all_append, small.1, reqPlain, later, small.2.1]
  rfl

theorem lineSplit (first : req.all clean = true) (second : ∀ two ∈ more, two.all clean = true) :
    (lineOf req more).splitOn (ch ';') = more.elim [ascii "req=" ++ (req ++ [lf])] fun two => [ascii "req=" ++ req, two ++ [lf]] := by
  obtain ⟨-, -, reqField, -⟩ := cleanPlain first
  have apart : ch ';' ∉ ascii "req=" ∧ ch ';' ≠ lf := by decide
  cases more with
  | none =>
      have whole : lineOf req none = ascii "req=" ++ (req ++ [lf]) := by simp [lineOf]
      rw [whole]
      exact List.splitOn_eq_singleton (by simp [apart, reqField])
  | some two =>
      obtain ⟨-, -, twoField, -⟩ := cleanPlain (second two rfl)
      have whole : lineOf req (some two) = ascii "req=" ++ req ++ ch ';' :: (two ++ [lf]) := by simp [lineOf]
      rw [whole]
      exact splitTwo (by simp [apart, reqField]) (by simp [apart, twoField])

end Line

def Message.reading (m : Message) : Reading :=
  match m with
  | .reply req msg => { Reading.start with req := some (req : Int), msg := found msg }
  | .payload req bytes => { Reading.start with req := some (req : Int), payloads := [(some (req : Int), (bytes.length : Int))] }
  | .stopped time => { Reading.start with req := some (-1), msg := ascii "stopped=" ++ decimal time ++ [lf], isStop := some time }
  | .running time => { Reading.start with req := some (-1), msg := ascii "running=" ++ decimal time ++ [lf], isRun := some time }

section Fields

variable (f : Reading)

theorem lfSpace : [lf].all pySpace = true := by decide

theorem fieldNamed (name : String) (value : List Byte) (plain : ch '=' ∉ ascii name) :
    fieldName (ascii name ++ ch '=' :: value) = ascii name ∧ fieldValue (ascii name ++ ch '=' :: value) = value ∧
      ch '=' ∈ ascii name ++ ch '=' :: value := by
  obtain ⟨first, second⟩ := fieldOf (ascii name) value plain
  exact ⟨first, second, by simp⟩

theorem reqField (n : Int) (rest : List Byte) (spaces : rest.all pySpace = true) :
    f.field (ascii "req=" ++ (decimal n ++ rest)) = some { f with req := some n } := by
  obtain ⟨name, value, sign⟩ := fieldNamed "req" (decimal n ++ rest) (by decide)
  have shape : ascii "req=" ++ (decimal n ++ rest) = ascii "req" ++ ch '=' :: (decimal n ++ rest) := rfl
  unfold Reading.field
  rw [shape]
  simp only [name, value, sign, not_true_eq_false, if_false, if_true, pyIntDecimal n spaces, Option.map_some]

theorem payloadField (n : Int) :
    f.field (ascii "payload=" ++ decimal n ++ [lf]) = some { f with payloads := f.payloads ++ [(f.req, n)] } := by
  obtain ⟨name, value, sign⟩ := fieldNamed "payload" (decimal n ++ [lf]) (by decide)
  have shape : ascii "payload=" ++ decimal n ++ [lf] = ascii "payload" ++ ch '=' :: (decimal n ++ [lf]) := by
    rw [List.append_assoc]
    rfl
  have other : ascii "payload" ≠ ascii "req" ∧ ascii "payload" ≠ ascii "exit" ∧ ascii "payload" ≠ ascii "msg" := by decide
  unfold Reading.field
  rw [shape]
  simp only [name, value, sign, not_true_eq_false, if_false, if_true, other, pyIntDecimal n lfSpace, Option.map_some]

/- The message of a reply, and the ones of the engine, which have the time behind their own sign. -/
theorem msgField (msg : List Byte) : f.field (ascii "msg=" ++ msg ++ [lf]) =
    if starts "stopped" (msg ++ [lf]) then
      (((msg ++ [lf]).splitOn (ch '='))[1]?.bind pyInt).map fun n => { f with msg := msg ++ [lf], isStop := some n }
    else if starts "running" (msg ++ [lf]) then
      (((msg ++ [lf]).splitOn (ch '='))[1]?.bind pyInt).map fun n => { f with msg := msg ++ [lf], isRun := some n }
    else some { f with msg := msg ++ [lf] } := by
  obtain ⟨name, value, sign⟩ := fieldNamed "msg" (msg ++ [lf]) (by decide)
  have shape : ascii "msg=" ++ msg ++ [lf] = ascii "msg" ++ ch '=' :: (msg ++ [lf]) := by
    rw [List.append_assoc]
    rfl
  have other : ascii "msg" ≠ ascii "req" ∧ ascii "msg" ≠ ascii "exit" := by decide
  unfold Reading.field
  rw [shape]
  simp only [name, value, sign, not_true_eq_false, if_false, if_true, other]

theorem decimalUnsigned (n : Int) : ch '=' ∉ decimal n := by
  have digit : ∀ d < 10, CText.hexDigit false d ≠ ch '=' := by decide +kernel
  have number : ch '=' ∉ ProxyText.number 10 n.natAbs := fun inside => by
    obtain ⟨d, below, same⟩ := numberDigit (by decide) inside
    exact digit d below same.symm
  have minus : ch '=' ≠ ch '-' := by decide
  unfold decimal
  split
  · simp [minus, number]
  · exact number

theorem timeRead (word : String) (plain : ch '=' ∉ ascii word) (time : Int) :
    ((ascii word ++ ch '=' :: decimal time ++ [lf]).splitOn (ch '='))[1]?.bind pyInt = some time := by
  have apart : ch '=' ≠ lf := by decide
  have shape : ascii word ++ ch '=' :: decimal time ++ [lf] = ascii word ++ ch '=' :: (decimal time ++ [lf]) := by simp
  rw [shape, splitTwo plain (by simp [apart, decimalUnsigned])]
  exact pyIntDecimal time lfSpace

theorem startsWord (word : String) (tail : List Byte) : starts word (ascii word ++ tail) = true :=
  List.isPrefixOf_iff_prefix.mpr (List.prefix_append _ _)

end Fields

theorem fieldsRead (good : m.Plain) : Reading.start.fields
      (m.more.elim [ascii "req=" ++ (decimal m.number ++ [lf])] fun two => [ascii "req=" ++ decimal m.number, two ++ [lf]]) =
    (m.reading, true) := by
  have first (n : Int) : Reading.start.field (ascii "req=" ++ decimal n) = some { Reading.start with req := some n } := by
    have read := reqField Reading.start n [] rfl
    rwa [List.append_nil] at read
  have alone (n : Int) := reqField Reading.start n [lf] lfSpace
  cases m with
  | reply req msg =>
      cases msg with
      | none =>
          simp only [Message.more, Message.number, Option.elim_none, Reading.fields, alone]
          rfl
      | some msg =>
          have clear : plain msg = true := good
          unfold plain at clear
          simp only [Bool.and_eq_true, Bool.not_eq_true'] at clear
          simp only [Message.more, Message.number, Option.elim_some, Reading.fields, first, msgField, clear, Bool.false_eq_true, if_false]
          rfl
  | payload req bytes =>
      simp only [Message.more, Message.number, Option.elim_some, Reading.fields, first, payloadField]
      rfl
  | stopped time =>
      have shape : ascii "stopped=" ++ decimal time ++ [lf] = ascii "stopped" ++ ch '=' :: decimal time ++ [lf] := rfl
      have starting := startsWord "stopped" (ch '=' :: decimal time ++ [lf])
      have read := timeRead "stopped" (by decide) time
      simp only [Message.more, Message.number, Option.elim_some, Reading.fields, first, msgField]
      rw [shape, List.append_assoc, if_pos starting, ← List.append_assoc, read]
      rfl
  | running time =>
      have shape : ascii "running=" ++ decimal time ++ [lf] = ascii "running" ++ ch '=' :: decimal time ++ [lf] := rfl
      have starting := startsWord "running" (ch '=' :: decimal time ++ [lf])
      have other : starts "stopped" (ascii "running" ++ (ch '=' :: decimal time ++ [lf])) = false := CText.startsApart starting (by decide)
      have read := timeRead "running" (by decide) time
      simp only [Message.more, Message.number, Option.elim_some, Reading.fields, first, msgField]
      rw [shape, List.append_assoc, if_neg (by rw [other]; decide), if_pos starting, ← List.append_assoc, read]
      rfl

theorem readMessage (good : m.Plain) (alive : r.alive = true) : r.read (m.text ++ rest) = some (r.take m, rest) := by
  have clear := decimalClean m.number
  have later := moreClean good
  have split := lineSplit clear later
  have fields := fieldsRead good
  unfold Reader.read Message.text
  rw [messageLine, List.append_assoc, lineTaken clear later, if_pos alive]
  dsimp only [Option.bind_eq_bind, Option.bind_some]
  rw [if_pos (lineAscii clear later), split, fields]
  cases m with
  | reply req msg => rfl
  | payload req bytes =>
      have whole : ¬ (bytes ++ rest).length < bytes.length := by
        rw [List.length_append]
        omega
      simp only [Message.reading, Message.bytes, takePayloads, Int.toNat_natCast, if_neg whole, List.take_left, List.drop_left]
      rfl
  | stopped time => rfl
  | running time => rfl

end Messages

end Gvsoc.ProxyReader
