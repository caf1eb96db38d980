import Gvsoc.Io

/-! The router: the map entries in the order of their bases, the binary tree that is built from
them, and the loop that cuts a request into one piece for each entry. All numbers have 64 bits;
the size of a piece goes through a 32-bit integer. Latencies and counters are left out. -/
namespace Gvsoc.Routing
open Io (IoStatus)

abbrev Word := BitVec 64

/- Where an entry sends to: a port, an interface that may be unconnected, or nowhere. -/
inductive Target where
  | port
  | itf (bound : Bool)
  | none
  deriving DecidableEq, Repr

structure MapEntry where
  base : Word
  size : Word
  removeOffset : Word
  addOffset : Word
  target : Target
  deriving DecidableEq, Repr

/- `MapEntry` again, with its children once `init_entries` has run. -/
inductive Tree where
  | leaf (entry : MapEntry)
  | node (base lowestBase : Word) (left right : Tree)
  deriving DecidableEq, Repr

structure Router where
  firstMapEntry : List MapEntry
  defaultMapEntry : Option MapEntry
  errorMapEntry : Option MapEntry
  deriving DecidableEq, Repr

def insertSorted (entry : MapEntry) : List MapEntry → List MapEntry
  | [] => [entry]
  | current :: rest => if current.base < entry.base then current :: insertSorted entry rest else entry :: current :: rest

def Router.insert (m : Router) (entry : MapEntry) : Router :=
  if entry.size ≠ 0 then
    if entry.target ≠ .none then { m with firstMapEntry := insertSorted entry m.firstMapEntry }
    else { m with errorMapEntry := some entry }
  else { m with defaultMapEntry := some entry }

def Router.build (entries : List MapEntry) : Router := entries.foldl Router.insert ⟨[], none, none⟩

def Tree.lowest : Tree → Word
  | .leaf entry => entry.base
  | .node _ lowestBase _ _ => lowestBase

/- One level of `init_entries`: two by two, and the last one alone. -/
def mergeLevel : List Tree → List Tree
  | left :: right :: rest => .node right.lowest left.lowest left right :: mergeLevel rest
  | level => level

/- Levels until one entry is left; the length bounds their number. -/
def initEntries : Nat → List Tree → Option Tree
  | _, [] => none
  | _, [top] => some top
  | 0, _ => none
  | fuel + 1, level => initEntries fuel (mergeLevel level)

def Router.topMapEntry (m : Router) : Option Tree := initEntries m.firstMapEntry.length (m.firstMapEntry.map .leaf)

def Tree.descend (offset : Word) : Tree → MapEntry
  | .leaf entry => entry
  | .node base _ left right => if base ≤ offset then right.descend offset else left.descend offset

def Router.find (m : Router) (offset : Word) : Option MapEntry :=
  m.topMapEntry.bind (fun top =>
    let entry := top.descend offset
    if offset < entry.base ∨ entry.base + entry.size - 1 < offset then none else some entry)

def Router.select (m : Router) (offset size : Word) : Option (MapEntry × Bool) :=
  match m.find offset with
  | some entry => some (entry, false)
  | none =>
      let error := m.errorMapEntry.any (fun error =>
        error.base ≤ offset ∧ offset + size - 1 ≤ error.base + error.size - 1)
      if error then none else m.defaultMapEntry.map (·, true)

/- `iter_size`, a 32-bit signed integer, compared with and added to 64-bit unsigned numbers. -/
def iterSize (entry : MapEntry) (isDefault : Bool) (offset size : Word) : Word :=
  let whole : BitVec 32 := (if isDefault then size else entry.size - (offset - entry.base)).setWidth 32
  let iter := if size < whole.signExtend 64 then size.setWidth 32 else whole
  iter.signExtend 64

def MapEntry.translate (entry : MapEntry) (offset : Word) : Word :=
  let addr := if entry.removeOffset ≠ 0 then offset - entry.removeOffset else offset
  if entry.addOffset ≠ 0 then offset + entry.addOffset else addr

structure Req where
  addr : Word
  size : Word
  data : Word
  args : Nat
  deriving DecidableEq, Repr

structure Forward where
  offset : Word
  entry : MapEntry
  isDefault : Bool
  addr : Word
  size : Word
  data : Word
  deriving DecidableEq, Repr

/- The variables of the loop; `result` has no value before the first piece. -/
structure Loop where
  req : Req
  offset : Word
  size : Word
  data : Word
  result : Option IoStatus
  forwards : List Forward
  deriving DecidableEq, Repr

variable (m : Router) (answers : Nat → IoStatus)

/- The piece is sent and its answer kept; the arguments that were pushed are popped on OK only. -/
def Loop.forward (s : Loop) (entry : MapEntry) (isDefault : Bool) : Loop :=
  let iter := iterSize entry isDefault s.offset s.size
  let piece : Forward := ⟨s.offset, entry, isDefault, entry.translate s.offset, iter, s.data⟩
  let answer := answers s.forwards.length
  let args := if answer = .ok then s.req.args else s.req.args + 1
  { req := ⟨piece.addr, iter, s.data, args⟩
    offset := s.offset + iter
    size := s.size - iter
    data := s.data + iter
    result := some answer
    forwards := s.forwards ++ [piece] }

/- An entry without a target takes its piece and answers OK. -/
def Loop.skip (s : Loop) (entry : MapEntry) (isDefault : Bool) : Loop :=
  let iter := iterSize entry isDefault s.offset s.size
  { s with
    req := { s.req with addr := entry.translate s.offset, size := iter, data := s.data }
    offset := s.offset + iter
    size := s.size - iter
    data := s.data + iter
    result := some .ok }

def Loop.turn (s : Loop) : Loop × Bool :=
  match m.select s.offset s.size with
  | none => ({ s with result := some .invalid }, true)
  | some (entry, isDefault) =>
      match entry.target with
      | .port => (s.forward answers entry isDefault, false)
      | .itf true => (s.forward answers entry isDefault, false)
      | .itf false =>
          let iter := iterSize entry isDefault s.offset s.size
          let req := { s.req with addr := entry.translate s.offset, size := iter, data := s.data }
          ({ s with req := req, result := some .invalid }, true)
      | .none => (s.skip entry isDefault, false)

structure Returned where
  result : Option IoStatus
  req : Req
  forwards : List Forward
  deriving DecidableEq, Repr

def Loop.run (first : Req) : Nat → Loop → Option Returned
  | fuel, s =>
      if s.size = 0 then
        let req := if s.result = some .ok then { s.req with addr := first.addr, size := first.size, data := first.data } else s.req
        some ⟨s.result, req, s.forwards⟩
      else
        match fuel with
        | 0 => none
        | fuel + 1 =>
            match s.turn m answers with
            | (s, true) => some ⟨s.result, s.req, s.forwards⟩
            | (s, false) => s.run first fuel

def Router.req (m : Router) (answers : Nat → IoStatus) (fuel : Nat) (r : Req) : Option Returned :=
  Loop.run m answers r fuel ⟨r, r.addr, r.size, r.data, none, []⟩

end Gvsoc.Routing
