import Gvsoc.Io
import Gvsoc.Machine

/-! The converter cuts a request into pieces of the width of its output and sends one at each
event. One request is under way at a time; the others are denied, wait in a list and are granted
in turn. `phase` tells that the requester is inside its `resp` or `grant` callback, from where it
can send requests again. Latencies are left out. The last fields are history: a request is named
by its number, `forwarded` are the pieces that the slave got. -/
namespace Gvsoc.Conversion
open Io (IoStatus)

abbrev Word := BitVec 64

structure Config where
  outputWidth : BitVec 32
  outputAlign : BitVec 32

structure Req where
  addr : Word
  size : Word
  data : Word
  deriving DecidableEq, Repr

structure Held where
  id : Nat
  req : Req
  deriving DecidableEq, Repr

structure Piece where
  owner : Nat
  addr : Word
  size : Word
  data : Word
  deriving DecidableEq, Repr

inductive Phase where
  | idle
  | inResp
  | inGrant (held : Held)
  deriving DecidableEq, Repr

structure State where
  pendingReq : List Piece
  ongoingReq : Option Held
  ongoingSize : BitVec 32
  stalledReq : List Held
  event : Bool
  phase : Phase
  requests : List Req
  answers : List IoStatus
  forwarded : List Piece
  resps : List Nat
  grants : List Nat
  deriving DecidableEq, Repr

variable (c : Config)

def Config.mask : Word := (c.outputAlign - 1).signExtend 64

def Config.iterSize (offset size : Word) : Word :=
  let iter := c.outputWidth - (offset &&& c.mask).setWidth 32
  (if size < iter.signExtend 64 then size.setWidth 32 else iter).signExtend 64

def Config.split (owner : Nat) : Nat → Req → Option (List Piece)
  | fuel, r =>
      if r.size = 0 then some []
      else
        match fuel with
        | 0 => none
        | fuel + 1 =>
            let iter := c.iterSize r.addr r.size
            (Config.split owner fuel ⟨r.addr + iter, r.size - iter, r.data + iter⟩).map
              (⟨owner, r.addr, iter, r.data⟩ :: ·)

/- Address and size go through less than 2^64 values together: a longer loop never ends. -/
def Config.pieces (held : Held) : Option (List Piece) := c.split held.id (2 ^ 64) held.req

def State.checkState (s : State) : State := if s.pendingReq ≠ [] then { s with event := true } else s

def State.processPendingReq (s : State) (held : Held) : Option State :=
  (c.pieces held).map (fun pieces =>
    { s with
      ongoingReq := some held
      ongoingSize := held.req.size.setWidth 32
      pendingReq := pieces.reverse ++ s.pendingReq })

def Config.fits (r : Req) : Bool := (r.addr &&& ~~~c.mask) == ((r.addr + r.size - 1) &&& ~~~c.mask)

def State.answered (s : State) (answer : IoStatus) : State := { s with answers := s.answers ++ [answer] }

def State.req (s : State) (r : Req) (answer : IoStatus) : Option State :=
  let held : Held := ⟨s.requests.length, r⟩
  let s := { s with requests := s.requests ++ [r] }
  if s.ongoingReq.isSome then some ({ s with stalledReq := s.stalledReq ++ [held] }.answered .denied)
  else if c.fits r then
    let whole : Piece := ⟨held.id, r.addr, r.size, r.data⟩
    let s := { s with forwarded := s.forwarded ++ [whole] }
    if answer = .ok then some (s.answered .ok) else some (s.checkState.answered .pending)
  else (s.processPendingReq c held).map (fun s => s.checkState.answered .pending)

def State.eventHandler (s : State) (answer : IoStatus) : Option State :=
  match s.pendingReq with
  | [] => none
  | piece :: rest =>
      let s := { s with event := false, pendingReq := rest, forwarded := s.forwarded ++ [piece] }
      if answer = .ok then
        let left := s.ongoingSize - piece.size.setWidth 32
        let s := { s with ongoingSize := left }
        if left = 0 then
          s.ongoingReq.map (fun held => { s with ongoingReq := none, resps := s.resps ++ [held.id], phase := .inResp })
        else some s.checkState
      else some s.checkState

inductive Action where
  | req (r : Req) (answer : IoStatus)
  | event (answer : IoStatus)
  | respReturns
  | grantReturns
  deriving DecidableEq, Repr

def step (s : State) : Action → Option State
  | .req r answer => s.req c r answer
  | .event answer => if s.phase = .idle ∧ s.event = true then s.eventHandler answer else none
  | .respReturns =>
      if s.phase = .inResp then
        match s.stalledReq with
        | [] => some { s with phase := .idle }.checkState
        | held :: rest => some { s with stalledReq := rest, grants := s.grants ++ [held.id], phase := .inGrant held }
      else none
  | .grantReturns =>
      match s.phase with
      | .inGrant held => (s.processPendingReq c held).map (fun s => { s with phase := .idle }.checkState)
      | _ => none

end Gvsoc.Conversion
