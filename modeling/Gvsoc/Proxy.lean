import Gvsoc.Machine
import Gvsoc.ProxyReader

/-! The command proxy with one client. Any callers of the client send commands and wait for what comes back; the server handles one command
after the other; the engine tells when it stops and when it runs. -/
namespace Gvsoc.Proxy
open Bytes (Byte)
open CText (ch ascii)
open ProxyText
open ProxyReader (Reader)

section Server

/- How a text gets to the client: written at once under the lock of the proxy, put into the stream of the replies and flushed, under the
lock or without it, or only put into the stream. -/
inductive Channel where
  | direct
  | flushLocked
  | flush
  | keep
  deriving DecidableEq

structure Answer where
  payload : Option (List Byte)
  reply : Option (Channel × Option (List Byte))
  deriving DecidableEq

def Answer.nothing : Answer := ⟨none, none⟩

/- A component that clients have the address of. `needs` are the bytes that it reads behind the command. Its answers fit into a line and have
no field of their own, as those of the test bench have for an error, and the size of a payload is an `int`. -/
structure Component (σ : Type) where
  needs : List (List Byte) → Nat
  handleCommand : σ → List (List Byte) → List Byte → Option (σ × Option (List Byte) × List Byte)
  plain : ∀ {s args raw t payload retval}, handleCommand s args raw = some (t, payload, retval) → ProxyReader.plain retval = true
  short : ∀ {s args raw t payload retval}, handleCommand s args raw = some (t, some payload, retval) → payload.length < 2 ^ 31

/- The system behind the proxy. `advance` is what the engine does by itself. -/
structure Top (σ : Type) where
  run : σ → σ
  step : σ → Int → σ × Int
  stopExec : σ → σ
  quit : σ → Int → σ
  getComponent : List (List Byte) → Nat
  component : Int → Option (Component σ)
  addTracePath : σ → List Byte → σ
  setTraceLevel : σ → List Byte → σ
  addExcludeTracePath : σ → List Byte → σ
  confTrace : σ → List Byte → Bool → σ
  advance : σ → σ

variable {σ ι : Type} (top : Top σ)

def pointer (address : Nat) : List Byte := if address = 0 then ascii "(nil)" else hexadecimal address

/- A command. Nothing where a word is missing that the code takes without a look, and where the address is none of a component. -/
def execute (s : σ) (words : List (List Byte)) (raw : List Byte) : Option (σ × Answer) :=
  match words with
  | [] => some (s, .nothing)
  | word :: args =>
      if word = ascii "run" then some (top.run s, ⟨none, some (.direct, none)⟩)
      else if word = ascii "step" then
        match args with
        | [duration] =>
            let (t, timestamp) := top.step s (strtol duration)
            some (t, ⟨none, some (.direct, some (decimal timestamp))⟩)
        | _ => some (s, .nothing)
      else if word = ascii "stop" then some (top.stopExec s, ⟨none, some (.direct, none)⟩)
      else if word = ascii "quit" then
        args.head?.map fun status => (top.quit s (strtol status), ⟨none, some (.direct, some (ascii "quit"))⟩)
      else if word = ascii "get_component" then
        args.head?.map fun path => (s, ⟨none, some (.direct, some (pointer (top.getComponent (NinaSession.split (ch '/') path))))⟩)
      else if word = ascii "component" then
        match args with
        | [] => none
        | address :: args => do
            let component ← top.component (strtol address)
            let (t, payload, retval) ← component.handleCommand s args raw
            some (t, ⟨payload, some (.flushLocked, some retval)⟩)
      else if word = ascii "trace" then
        match args with
        | [action, path] =>
            some (if action = ascii "add" then top.addTracePath s path
              else if action = ascii "level" then top.setTraceLevel s path
              else top.addExcludeTracePath s path, ⟨none, some (.flush, none)⟩)
        | _ => some (s, .nothing)
      else if word = ascii "event" then
        match args with
        | [action, path] => some (top.confTrace s path (action = ascii "add"), ⟨none, some (.keep, none)⟩)
        | _ => some (s, .nothing)
      else some (s, .nothing)

def needs : List (List Byte) → Nat
  | word :: address :: args => if word = ascii "component" then (top.component (strtol address)).elim 0 (·.needs args) else 0
  | _ => 0

def Answer.texts (req : List Byte) (answer : Answer) : List (Channel × List Byte) :=
  (answer.payload.toList.map fun bytes => (.flush, payloadLine req bytes.length ++ bytes)) ++
    (answer.reply.toList.map fun reply => (reply.1, replyText req reply.2))

structure Server where
  outbox : List (Channel × List Byte)
  cut : List Byte
  unflushed : List Byte

/- The stream has room for so many bytes. More than these are written in pieces of any size. -/
def Server.write (room : Nat) (s : Server) (n : Nat) : Option (Server × List Byte) :=
  if s.cut = [] then
    match s.outbox with
    | [] => none
    | (channel, text) :: rest =>
        let whole := s.unflushed ++ text
        match channel with
        | .direct => some ({ s with outbox := rest }, text)
        | .flushLocked => some ({ s with outbox := rest, unflushed := [] }, whole)
        | .flush =>
            if whole.length ≤ room then some ({ s with outbox := rest, unflushed := [] }, whole)
            else if 0 < n ∧ n ≤ whole.length then some (⟨rest, whole.drop n, []⟩, whole.take n)
            else none
        | .keep =>
            if whole.length ≤ room then some ({ s with outbox := rest, unflushed := whole }, [])
            else if 0 < n ∧ n ≤ whole.length then some ({ s with outbox := rest, unflushed := whole.drop n }, whole.take n)
            else none
  else if 0 < n ∧ n ≤ s.cut.length then some ({ s with cut := s.cut.drop n }, s.cut.take n)
  else none

end Server

section Client

/- A command of a client: alone, with bytes behind it, or for a payload. The last two keep the lock of the client until the bytes are sent
and until the payload is there. -/
inductive Call where
  | plain (cmd : List Byte)
  | values (cmd bytes : List Byte)
  | payload (cmd : List Byte)
  deriving DecidableEq

def Call.cmd : Call → List Byte
  | .plain cmd | .values cmd _ | .payload cmd => cmd

def Call.bytes : Call → List Byte
  | .values _ bytes => bytes
  | _ => []

/- Where a caller is. The last one waits for the reply and returns it, or what it has kept. -/
inductive Caller where
  | idle
  | values (req : Nat) (bytes : List Byte)
  | payload (req : Nat)
  | reply (req : Nat) (kept : Option (List Byte))
  deriving DecidableEq

def Caller.locks : Caller → Bool
  | .values _ _ | .payload _ => true
  | _ => false

def Call.caller (req : Nat) : Call → Caller
  | .plain _ => .reply req none
  | .values _ bytes => .values req bytes
  | .payload _ => .payload req

def Caller.waits : Caller → Option Nat
  | .idle => none
  | .values req _ | .payload req | .reply req _ => some req

end Client

section System

structure Link (σ ι : Type) where
  top : σ
  server : Server
  toServer : List Byte
  toClient : List Byte
  reader : Reader
  reqId : Nat
  lock : Option ι
  callers : ι → Caller

variable {σ ι : Type} [DecidableEq ι] (top : Top σ) (room : Nat)

def Link.start (s : σ) : Link σ ι where
  top := s
  server := ⟨[], [], []⟩
  toServer := []
  toClient := []
  reader := .start
  reqId := 0
  lock := none
  callers := fun _ => .idle

def Link.sendCmd (s : Link σ ι) (i : ι) (c : Call) : Option (Link σ ι) :=
  if s.callers i = .idle ∧ s.lock = none then
    some { s with
      reqId := s.reqId + 1
      toServer := s.toServer ++ commandLine s.reqId c.cmd
      lock := if (c.caller s.reqId).locks then some i else none
      callers := Function.update s.callers i (c.caller s.reqId) }
  else none

def Link.sendValues (s : Link σ ι) (i : ι) : Option (Link σ ι) :=
  match s.callers i with
  | .values req bytes =>
      some { s with toServer := s.toServer ++ bytes, lock := none, callers := Function.update s.callers i (.reply req (some [])) }
  | _ => none

def Link.getPayload (s : Link σ ι) (i : ι) : Option (Link σ ι) :=
  match s.callers i with
  | .payload req => (s.reader.payloads req).map fun payload =>
      { s with
        reader := { s.reader with payloads := Function.update s.reader.payloads req none }
        lock := none
        callers := Function.update s.callers i (.reply req (some payload)) }
  | _ => none

def Link.waitReply (s : Link σ ι) (i : ι) (req : Nat) (value : List Byte) : Option (Link σ ι) :=
  match s.callers i with
  | .reply own kept => (s.reader.replies own).bind fun reply =>
      if own = req ∧ kept.getD reply = value then
        some { s with
          reader := { s.reader with replies := Function.update s.reader.replies own none }
          callers := Function.update s.callers i .idle }
      else none
  | _ => none

def Link.serve (s : Link σ ι) : Option (Link σ ι) :=
  if s.server.outbox = [] ∧ s.server.cut = [] then do
    let (line, rest) ← fgets 1023 s.toServer
    let (req, cmd) := parseLine line
    let n := needs top (words cmd)
    if rest.length < n then none
    else do
      let (t, answer) ← execute top s.top (words cmd) (rest.take n)
      some { s with top := t, toServer := rest.drop n, server := { s.server with outbox := answer.texts req } }
  else none

def notifyText (running : Bool) (time : Int) : List Byte :=
  replyText (ascii "-1") (some ((if running then ascii "running=" else ascii "stopped=") ++ decimal time))

inductive Action (ι : Type) where
  | call (i : ι) (c : Call)
  | sendValues (i : ι)
  | getPayload (i : ι)
  | waitReply (i : ι) (req : Nat) (value : List Byte)
  | serve
  | write (n : Nat)
  | read
  | notify (running : Bool) (time : Int)
  | advance

/- The engine runs beside the proxy, and tells what it does at any time. -/
def step (s : Link σ ι) : Action ι → Option (Link σ ι)
  | .call i c => s.sendCmd i c
  | .sendValues i => s.sendValues i
  | .getPayload i => s.getPayload i
  | .waitReply i req value => s.waitReply i req value
  | .serve => s.serve top
  | .write n => (s.server.write room n).map fun (server, text) => { s with server := server, toClient := s.toClient ++ text }
  | .read => (s.reader.read s.toClient).map fun (reader, rest) => { s with reader := reader, toClient := rest }
  | .notify running time => some { s with toClient := s.toClient ++ notifyText running time }
  | .advance => some { s with top := top.advance s.top }

end System

section Spec

variable {σ ι : Type} (top : Top σ)

inductive Op where
  | command
  | advance
  deriving DecidableEq

structure History where
  calls : List Call
  ops : List Op
  returned : List (Nat × List Byte)
  notified : List (Bool × Int)

def History.after (h : History) : Action ι → History
  | .call _ c => { h with calls := h.calls ++ [c] }
  | .serve => { h with ops := h.ops ++ [.command] }
  | .advance => { h with ops := h.ops ++ [.advance] }
  | .waitReply _ req value => { h with returned := h.returned ++ [(req, value)] }
  | .notify running time => { h with notified := h.notified ++ [(running, time)] }
  | _ => h

def historyOf (trace : List (Action ι × Link σ ι)) : History := trace.foldl (fun h p => h.after p.1) ⟨[], [], [], []⟩

def play : σ → List Call → List Op → Option (σ × List Answer)
  | s, _, [] => some (s, [])
  | s, calls, .advance :: ops => play (top.advance s) calls ops
  | _, [], .command :: _ => none
  | s, c :: calls, .command :: ops => do
      let (t, answer) ← execute top s (words (c.cmd ++ [lf])) c.bytes
      let (last, answers) ← play t calls ops
      some (last, answer :: answers)

def Call.value (answer : Answer) : Call → Option (List Byte)
  | .plain _ => answer.reply.map fun reply => ProxyReader.found reply.2
  | .values _ _ => some []
  | .payload _ => answer.payload

/- A call the server understands: its text stands in a line, it brings the bytes that are read, and waits for a payload when there is one. -/
structure Proper (c : Call) : Prop where
  clear : c.cmd.all clean = true
  bytes : needs top (words (c.cmd ++ [lf])) = c.bytes.length
  served : ∀ s, ∃ t answer, execute top s (words (c.cmd ++ [lf])) c.bytes = some (t, answer) ∧
    (answer.payload.isSome = true ↔ c = .payload c.cmd)

def Server.overflows (room : Nat) (s : Server) : Bool :=
  s.outbox.head?.any fun text => text.1 = .keep ∧ room < (s.unflushed ++ text.2).length

/- A command fits into the line of the server, the engine tells nothing in the middle of a text, and the stream keeps whole replies. -/
def Whole (room : Nat) (s : Link σ ι) : Action ι → Prop
  | .call _ c => (commandLine s.reqId c.cmd).length ≤ 1023
  | .notify _ _ => s.server.cut = []
  | .write _ => s.server.overflows room = false
  | _ => True

instance (room : Nat) (s : Link σ ι) (a : Action ι) : Decidable (Whole room s a) := by
  cases a <;> unfold Whole <;> infer_instance

end Spec

section Commands

variable {σ : Type} (top : Top σ) (s : σ) (raw : List Byte)

theorem stepWords (duration : Int) : words (ascii "step " ++ decimal duration ++ [lf]) = [ascii "step", decimal duration] := by
  have tight : ∀ c ∈ ascii "step", CText.isSpace c = false := by decide
  exact wordsTwo tight (fun _ => decimalTight) (decimalPositive duration)

theorem stepServed {duration : Int} (low : -2 ^ 63 ≤ duration) (high : duration < 2 ^ 63) :
    execute top s (words (ascii "step " ++ decimal duration ++ [lf])) raw =
      some ((top.step s duration).1, ⟨none, some (.direct, some (decimal (top.step s duration).2))⟩) := by
  have other : ascii "step" ≠ ascii "run" := by decide
  have read := strtolDecimal low high
  unfold execute
  rw [stepWords]
  simp only [other, if_false, if_true, read]

theorem stepProper {duration : Int} (low : -2 ^ 63 ≤ duration) (high : duration < 2 ^ 63) :
    Proper top (.plain (ascii "step " ++ decimal duration)) where
  clear := by
    have first : (ascii "step ").all clean = true := by decide
    unfold Call.cmd
    rw [List.all_append, first, decimalClean]
    rfl
  bytes := by
    have other : ascii "step" ≠ ascii "component" := by decide
    unfold Call.cmd needs
    rw [stepWords]
    exact if_neg other
  served := fun s => ⟨_, _, stepServed top s _ low high, by simp [Call.cmd]⟩

theorem getComponentServed {path : List Byte} (some_path : path ≠ []) (tight : ∀ c ∈ path, CText.isSpace c = false) :
    execute top s (words (ascii "get_component " ++ path ++ [lf])) raw =
      some (s, ⟨none, some (.direct, some (pointer (top.getComponent (NinaSession.split (ch '/') path))))⟩) := by
  have split : words (ascii "get_component " ++ path ++ [lf]) = [ascii "get_component", path] := by
    have name : ∀ c ∈ ascii "get_component", CText.isSpace c = false := by decide
    exact wordsTwo name tight some_path
  have other : ascii "get_component" ∉ [ascii "run", ascii "step", ascii "stop", ascii "quit"] := by decide
  simp only [List.mem_cons, List.not_mem_nil, or_false, not_or] at other
  unfold execute
  rw [split]
  simp only [other, if_false, if_true, List.head?_cons, Option.map_some]

theorem componentWords {address : Nat} (positive : address ≠ 0) (cmd : List Byte) :
    words (ascii "component " ++ (pointer address ++ ch ' ' :: cmd)) =
      ascii "component" :: hexadecimal address :: (words cmd).filter (· ≠ []) := by
  have printed : pointer address = hexadecimal address := if_neg positive
  have name : ∀ c ∈ ascii "component", CText.isSpace c = false := by decide
  rw [printed]
  exact wordsMore name (fun _ => hexadecimalTight) (List.cons_ne_nil _ _) cmd

theorem componentNeeds {address : Nat} {component : Component σ} (there : top.component address = some component)
    (positive : address ≠ 0) (small : address < 2 ^ 63) (cmd : List Byte) :
    needs top (words (ascii "component " ++ (pointer address ++ ch ' ' :: cmd))) = component.needs ((words cmd).filter (· ≠ [])) := by
  rw [componentWords positive]
  unfold needs
  dsimp only
  rw [if_pos rfl, strtolHexadecimal small, there]
  rfl

theorem componentReached {address : Nat} {component : Component σ} (there : top.component address = some component)
    (positive : address ≠ 0) (small : address < 2 ^ 63) (cmd : List Byte) :
    execute top s (words (ascii "component " ++ (pointer address ++ ch ' ' :: cmd))) raw =
      (component.handleCommand s ((words cmd).filter (· ≠ [])) raw).map fun done =>
        (done.1, ⟨done.2.1, some (.flushLocked, some done.2.2)⟩) := by
  have other : ascii "component" ∉ [ascii "run", ascii "step", ascii "stop", ascii "quit", ascii "get_component"] := by decide
  simp only [List.mem_cons, List.not_mem_nil, or_false, not_or] at other
  rw [componentWords positive]
  unfold execute
  simp only [other, if_false, if_true, strtolHexadecimal small, there]
  rw [Option.map_eq_bind]
  rfl

end Commands

end Gvsoc.Proxy
