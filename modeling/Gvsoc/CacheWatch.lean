import Gvsoc.CacheRead

/-! The cache with what surrounds it: a memory that others write, a port that can leave bytes of
a failed refill in the line and still answers a refill it had denied. The other fields are
history: the last refill of each line, the bytes stored over it since, and for every request
that the cache took its answer and its `resp` calls. A request is named by its number. -/
namespace Gvsoc.Cache
open Bytes (Byte)
open Io (IoStatus)

structure Fill where
  tag : BitVec 32
  bytes : Nat → Byte
  stale : Bool

structure Watched where
  cache : State
  memory : Nat → Byte
  granted : Bool
  fills : Nat → Option Fill
  stores : Nat → Nat → Option Byte
  outdated : Bool
  waiting : List Nat
  requests : List Req
  answers : List IoStatus
  resps : List Nat

inductive Event where
  | req (r : Req) (answer : IoStatus) (left : Nat → Option Byte)
  | moves (i : Nat)
  | refillResponse
  | fsm (answer : IoStatus) (left : Nat → Option Byte)
  | flush
  | flushLineAddr (addr : BitVec 32)
  | flushLine
  | enable (active : Bool)
  | memory (bytes : Nat → Byte)

def State.spoil (s : State) (j : Nat) (left : Nat → Option Byte) : State :=
  s.setLine j { s.lines j with data := fun i => (left i).getD ((s.lines j).data i) }

def Watched.filled (w : Watched) (j : Nat) (tag : BitVec 32) (stale : Bool) : Watched :=
  { w with
    fills := Function.update w.fills j (some ⟨tag, fun i => w.memory (w.cache.refillReq.addr.toNat + i), stale⟩)
    stores := Function.update w.stores j (fun _ => none) }

def Watched.stored (w : Watched) (j : Nat) (r : Req) : Watched :=
  match r.isWrite, r.data with
  | true, some bytes =>
      { w with stores := Function.update w.stores j (fun i => if i < r.size then some (bytes.getD i 0) else w.stores j i) }
  | _, _ => w

variable (c : Config)

def Watched.handle (w : Watched) (id : Nat) (r : Req) (answer : IoStatus) (left : Nat → Option Byte) :
    Watched × IoStatus :=
  let (cache, status) := w.cache.handleReq c w.memory r answer
  let next := { w with cache := cache }
  match w.cache.getLine c r, w.cache.pendingRefill, answer with
  | some j, _, _ => (next.stored j r, status)
  | none, true, _ => ({ next with waiting := w.waiting ++ [id] }, status)
  | none, false, .ok => ((next.filled (c.victim w.cache r) (c.tagOf r.addr) false).stored (c.victim w.cache r) r, status)
  | none, false, .pending => ({ next with waiting := id :: w.waiting, outdated := false }, status)
  | none, false, .invalid => ({ next with cache := cache.spoil (c.victim w.cache r) left }, status)
  | none, false, .denied => ({ next with granted := true }, status)

def Watched.replay (w : Watched) (answer : IoStatus) (left : Nat → Option Byte) : Watched :=
  let w := { w with cache := { w.cache with fsmEvent := false } }
  match w.cache.pendingRefill, w.cache.refillPendingReqs, w.waiting with
  | false, r :: rest, id :: ids =>
      let (next, status) :=
        { w with cache := { w.cache with refillPendingReqs := rest }, waiting := ids }.handle c id r answer left
      { next with cache := next.cache.checkState, resps := if status = .ok then next.resps ++ [id] else next.resps }
  | _, _, _ => { w with cache := w.cache.checkState }

def Watched.owed (w : Watched) : Bool := w.cache.pendingRefill || w.granted

def watchedStep (w : Watched) : Event → Option Watched
  | .req r answer left =>
      if w.cache.enabled then
        let (next, status) := w.handle c w.answers.length r answer left
        some { next with requests := next.requests ++ [r], answers := next.answers ++ [status] }
      else some { w with cache := (w.cache.req c w.memory r answer).1 }
  | .moves i =>
      if w.owed ∧ i < c.lineSize then
        let line := w.cache.lines w.cache.refillReq.line
        let data := Function.update line.data i (w.memory (w.cache.refillReq.addr.toNat + i))
        some { w with cache := w.cache.setLine w.cache.refillReq.line { line with data := data } }
      else none
  | .refillResponse =>
      if w.owed then
        (w.cache.refillResponse c w.memory).map (fun cache =>
          { w.filled w.cache.refillReq.line w.cache.refillTag w.outdated with
            cache := cache
            granted := false
            waiting := w.waiting.tail
            resps := w.resps ++ w.waiting.head?.toList })
      else none
  | .fsm answer left => if w.cache.fsmEvent then some (w.replay c answer left) else none
  | .flush =>
      let fills := fun j => (w.fills j).map (fun fill => { fill with stale := true })
      some { w with cache := w.cache.flush c, fills := fills, outdated := true }
  | .flushLineAddr addr => some { w with cache := { w.cache with flushLineAddr := addr } }
  | .flushLine =>
      let tag := w.cache.flushLineAddr >>> c.lineSizeBits
      let fills := fun j => (w.fills j).map (fun fill => { fill with stale := fill.stale || fill.tag = tag })
      some { w with
        cache := w.cache.flushLine c w.cache.flushLineAddr
        fills := fills
        outdated := w.outdated || w.cache.refillTag = tag }
  | .enable active => some { w with cache := { w.cache with enabled := active } }
  | .memory bytes => some { w with memory := bytes }

section Cache

variable {c} {w next : Watched} {r : Req} {answer : IoStatus} {id : Nat} {left : Nat → Option Byte}

@[simp] theorem storedCache (w : Watched) (j : Nat) (r : Req) : (w.stored j r).cache = w.cache := by
  unfold Watched.stored
  split <;> rfl

theorem handleStatus : (w.handle c id r answer left).2 = (w.cache.handleReq c w.memory r answer).2 := by
  unfold Watched.handle
  dsimp only
  split <;> rfl

end Cache

end Gvsoc.Cache
