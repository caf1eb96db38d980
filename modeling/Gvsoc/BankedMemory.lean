import Gvsoc.InterleaverBanks
import Gvsoc.MemoryBounds
import Gvsoc.Spread

/-! Memories behind an interleaver. The request object goes from one memory to the next, with the address, the size and the data of a
piece. -/
namespace Gvsoc.BankedMemory
open Bytes (Byte)
open Io (IoStatus)
open Interleave (Config Loop)
open MemoryBounds (Memory memcpy)

abbrev Word := BitVec 64

structure Access where
  addr : Word
  size : Word
  data : Word
  isWrite : Bool
  isDebug : Bool
  buffer : Nat → Byte

structure Served where
  memories : Nat → Memory
  buffer : Nat → Byte
  latency : Int
  duration : Word

variable (beyond : Nat → BitVec 32) (c : Config)

def putBack (buffer : Nat → Byte) (index : Nat) : Option (Nat → Byte) → Nat → Byte
  | none => buffer
  | some data => fun p => if p < index then buffer p else data (p - index)

@[simp] theorem putBackSome (buffer : Nat → Byte) (index : Nat) (data : Nat → Byte) (p : Nat) :
    putBack buffer index (some data) p = if p < index then buffer p else data (p - index) := rfl

/- `req_forward` to a memory. -/
def Served.forward (t : Served) (a : Access) (cycles time : Int) (output : Nat) (r : Interleave.Req) : Option (IoStatus × Served) :=
  let index := (r.data - a.data).toNat
  let data := if r.data = 0 then none else some fun i => t.buffer (index + i)
  ((t.memories output).req ⟨r.addr, r.size, a.isWrite, a.isDebug, data, t.latency, t.duration⟩ cycles time).map fun (status, memory, r) =>
    (status, ⟨Function.update t.memories output memory, putBack t.buffer index r.data, r.latency, r.duration⟩)

def serve (a : Access) (cycles time : Int) : Nat → Loop → Served → Option (IoStatus × Served)
  | fuel, s, t =>
      if s.size = 0 then some (.ok, t)
      else
        match fuel with
        | 0 => none
        | fuel + 1 => do
            let next := s.forward beyond c
            let (status, t) ← t.forward a cycles time (c.outputId beyond s.offset) next.req
            match status with
            | .ok => serve a cycles time fuel next t
            | .pending => some (if s.size = s.loopSize beyond c then .pending else .invalid, t)
            | _ => some (.invalid, t)

/- A turn takes a byte at least, or the loop does not end. -/
def request (a : Access) (cycles time : Int) (memories : Nat → Memory) : Option (IoStatus × Served) :=
  serve beyond c a cycles time a.size.toNat
    ⟨⟨a.addr, a.size, a.data⟩, a.addr - c.removeOffset, a.size, a.data, c.alignSize beyond a.addr, []⟩ ⟨memories, a.buffer, 0, 0⟩

def run : List (Access × Int × Int) → (Nat → Memory) → Option (List (IoStatus × (Nat → Byte)) × (Nat → Memory))
  | [], memories => some ([], memories)
  | (a, cycles, time) :: rest, memories => do
      let (status, t) ← request beyond c a cycles time memories
      let (answers, last) ← run rest t.memories
      some ((status, t.buffer) :: answers, last)

section Flat

def Access.stored (a : Access) (flat : Word → Byte) : Word → Byte :=
  if a.isWrite then fun x => if (x - a.addr).toNat < a.size.toNat then a.buffer (x - a.addr).toNat else flat x else flat

def Access.loaded (a : Access) (flat : Word → Byte) : Nat → Byte :=
  if a.isWrite then a.buffer else fun i => if i < a.size.toNat then flat (a.addr + BitVec.ofNat 64 i) else a.buffer i

def flatRun : List Access → (Word → Byte) → List (IoStatus × (Nat → Byte)) × (Word → Byte)
  | [], flat => ([], flat)
  | a :: rest, flat =>
      let (answers, last) := flatRun rest (a.stored flat)
      ((.ok, a.loaded flat) :: answers, last)

def layout : Spread.Layout Word Nat := ⟨c.id beyond, fun x => (c.local beyond x).toNat⟩

def contents (memories : Nat → Memory) : Word → Byte := Spread.gather (layout beyond c) fun output => (memories output).memData

/- Memories that are up, and that check nothing. -/
structure Plain (sizes : Nat → Word) (memories : Nat → Memory) : Prop where
  up : ∀ output, (memories output).poweredUp = true
  unchecked : ∀ output, (memories output).checkMem = none
  size : ∀ output, (memories output).size = sizes output

structure Inside (sizes : Nat → Word) (a : Access) : Prop where
  data : a.data ≠ 0
  ends : a.data.toNat + a.size.toNat ≤ 2 ^ 64
  bytes : ∀ i < a.size.toNat, c.local beyond (a.addr + BitVec.ofNat 64 i) < sizes (c.id beyond (a.addr + BitVec.ofNat 64 i))

end Flat

section Loop

variable {beyond : Nat → BitVec 32} {c : Config} {first : Interleave.Req}

theorem runLater {answers others : Nat → IoStatus} {fuel : Nat} {s : Loop} (same : ∀ i, s.forwards.length ≤ i → answers i = others i) :
    s.run beyond c answers first fuel = s.run beyond c others first fuel := by
  induction fuel generalizing s with
  | zero =>
      unfold Loop.run
      rfl
  | succ fuel ih =>
      have more : (s.forward beyond c).forwards.length = s.forwards.length + 1 := by simp [Loop.forward]
      unfold Loop.run
      dsimp only
      rw [same _ (Nat.le_refl _), ih fun i later => same i (by omega)]

theorem runDone (answers : Nat → IoStatus) (fuel : Nat) {s : Loop} (done : s.size = 0) :
    s.run beyond c answers first fuel = some ⟨.ok, first, s.forwards⟩ := by
  unfold Loop.run
  exact if_pos done

def afterAnswer (beyond : Nat → BitVec 32) (c : Config) (first : Interleave.Req) (answers : Nat → IoStatus) (fuel : Nat) (s : Loop) :
    IoStatus → Option Interleave.Returned
  | .ok => (s.forward beyond c).run beyond c answers first fuel
  | .pending => some ⟨if s.size = s.loopSize beyond c then .pending else .invalid, (s.forward beyond c).req, (s.forward beyond c).forwards⟩
  | _ => some ⟨.invalid, (s.forward beyond c).req, (s.forward beyond c).forwards⟩

theorem runTurn (answers : Nat → IoStatus) (fuel : Nat) {s : Loop} (more : s.size ≠ 0) :
    s.run beyond c answers first (fuel + 1) = afterAnswer beyond c first answers fuel s (answers s.forwards.length) := by
  rw [Loop.run]
  exact if_neg more

/- The loop is the one of the interleaver, with the answers of the memories. -/
theorem serveRuns (first : Interleave.Req) {a : Access} {cycles time : Int} {fuel : Nat} {s : Loop} {t u : Served} {status : IoStatus}
    (served : serve beyond c a cycles time fuel s t = some (status, u)) :
    ∃ answers ret, s.run beyond c answers first fuel = some ret ∧ ret.status = status := by
  induction fuel generalizing s t with
  | zero =>
      unfold serve at served
      by_cases done : s.size = 0
      · rw [if_pos done] at served
        exact ⟨fun _ => .ok, _, runDone _ _ done, congrArg Prod.fst (Option.some.inj served)⟩
      · rw [if_neg done] at served
        cases served
  | succ fuel ih =>
      unfold serve at served
      by_cases done : s.size = 0
      · rw [if_pos done] at served
        exact ⟨fun _ => .ok, _, runDone _ _ done, congrArg Prod.fst (Option.some.inj served)⟩
      · rw [if_neg done] at served
        obtain ⟨⟨answer, v⟩, forwarded, next⟩ := Option.bind_eq_some_iff.mp served
        cases answer with
        | ok =>
            obtain ⟨answers, ret, runs, result⟩ := ih next
            have more : (s.forward beyond c).forwards.length = s.forwards.length + 1 := by simp [Loop.forward]
            refine ⟨Function.update answers s.forwards.length .ok, ret, ?_, result⟩
            rw [runTurn _ _ done, Function.update_self, ← runs]
            exact runLater fun i later => Function.update_of_ne (by omega) _ _
        | pending => exact ⟨fun _ => .pending, _, runTurn _ _ done, congrArg Prod.fst (Option.some.inj next)⟩
        | invalid => exact ⟨fun _ => .invalid, _, runTurn _ _ done, congrArg Prod.fst (Option.some.inj next)⟩
        | denied => exact ⟨fun _ => .denied, _, runTurn _ _ done, congrArg Prod.fst (Option.some.inj next)⟩

end Loop

section Memory

variable {m : Memory} {r : MemoryBounds.Req}

theorem plainReq (cycles time : Int) (up : m.poweredUp = true) (unchecked : m.checkMem = none) (fits : r.addr.toNat + r.size.toNat ≤ m.size.toNat)
    {data : Nat → Byte} (given : r.data = some data) :
    ∃ m' r', m.req r cycles time = some (.ok, m', r') ∧ m'.poweredUp = true ∧ m'.checkMem = none ∧ m'.size = m.size ∧
      m'.memData = (if r.isWrite then memcpy m.memData r.addr.toNat data 0 r.size.toNat else m.memData) ∧
      r'.data = some (if r.isWrite then data else memcpy data 0 m.memData r.addr.toNat r.size.toNat) := by
  have kept : MemoryBounds.Kept m r (if r.isDebug then (m, r) else m.account r cycles time) := by
    split_ifs
    · constructor <;> rfl
    · exact MemoryBounds.accountKept m r cycles time
  have bound := m.size.isLt
  unfold Memory.req
  rw [if_neg (by simp [up])]
  generalize (if r.isDebug then (m, r) else m.account r cycles time) = after at kept
  obtain ⟨m1, r1⟩ := after
  obtain ⟨up', size, memData, check, addr, length, isWrite, same⟩ := kept
  dsimp only at up' size memData check addr length isWrite same ⊢
  have inside : ¬ m1.size < r1.addr + r1.size := by
    rw [addr, length, size, BitVec.lt_def, BitVec.toNat_add]
    have less := Nat.mod_le (r.addr.toNat + r.size.toNat) (2 ^ 64)
    omega
  have ends : m1.endless r1 = false := by
    unfold Memory.endless
    rw [check, unchecked]
    rfl
  have initialized : m1.uninitialized r1 = false := by
    unfold Memory.uninitialized
    rw [check, unchecked]
  rw [if_neg inside, ← memData, ← addr, ← length, ← isWrite, ← size]
  cases write : r1.isWrite with
  | true =>
      unfold Memory.write
      rw [if_pos rfl, ends, same, given, check, unchecked]
      exact ⟨_, _, rfl, up'.trans up, rfl, rfl, rfl, same.trans given⟩
  | false =>
      unfold Memory.read
      rw [if_neg (by decide), initialized, ends]
      refine ⟨_, _, rfl, up'.trans up, check.trans unchecked, rfl, rfl, ?_⟩
      rw [same, given]
      rfl

end Memory

section Piece

variable {beyond : Nat → BitVec 32} {c : Config} {sizes : Nat → Word} {a : Access} {flat : Word → Byte} {s : Loop} {t : Served}

theorem rowEnds {base size : Word} {n : Nat} (some : 0 < n) (inside : ∀ i < n, base + BitVec.ofNat 64 i < size) :
    base.toNat + n ≤ size.toNat := by
  by_contra behind
  have first := inside 0 some
  rw [BitVec.add_zero, BitVec.lt_def] at first
  have last := inside (size.toNat - base.toNat) (by omega)
  have bound := size.isLt
  rw [BitVec.lt_def, BitVec.toNat_add, BitVec.toNat_ofNat, Nat.add_mod_mod, Nat.add_sub_cancel' (by omega), Nat.mod_eq_of_lt bound] at last
  exact Nat.lt_irrefl _ last

def Access.upTo (a : Access) (size : Word) : Access := { a with size }

structure Serving (beyond : Nat → BitVec 32) (c : Config) (sizes : Nat → Word) (a : Access) (flat : Word → Byte) (s : Loop) (t : Served) : Prop where
  tiled : Interleave.Tiled beyond c ⟨a.addr, a.size, a.data⟩ s
  data : s.data = a.data + (a.size - s.size)
  plain : Plain sizes t.memories
  contents : contents beyond c t.memories = (a.upTo (a.size - s.size)).stored flat
  buffer : t.buffer = (a.upTo (a.size - s.size)).loaded flat

theorem plainUpdate {memories : Nat → Memory} (plain : Plain sizes memories) {output : Nat} {m : Memory} (up : m.poweredUp = true)
    (unchecked : m.checkMem = none) (size : m.size = (memories output).size) : Plain sizes (Function.update memories output m) := by
  refine ⟨fun other => ?_, fun other => ?_, fun other => ?_⟩
  all_goals by_cases same : other = output
  · rw [same, Function.update_self, up]
  · rw [Function.update_of_ne same, plain.up]
  · rw [same, Function.update_self, unchecked]
  · rw [Function.update_of_ne same, plain.unchecked]
  · rw [same, Function.update_self, size, plain.size]
  · rw [Function.update_of_ne same, plain.size]

theorem contentsUpdate (memories : Nat → Memory) (output : Nat) (m : Memory) :
    contents beyond c (Function.update memories output m) =
      Spread.gather (layout beyond c) (Function.update (fun output => (memories output).memData) output m.memData) := by
  unfold contents
  congr 1
  funext other
  by_cases same : other = output
  · rw [same, Function.update_self, Function.update_self]
  · rw [Function.update_of_ne same, Function.update_of_ne same]

structure Next (beyond : Nat → BitVec 32) (c : Config) (sizes : Nat → Word) (a : Access) (s : Loop) (k n : Nat) : Prop where
  before : (a.size - s.size).toNat = k
  length : (s.loopSize beyond c).toNat = n
  after : (a.size - (s.forward beyond c).size).toNat = k + n
  row : (layout beyond c).Row (fun i => a.addr + BitVec.ofNat 64 (k + i)) (c.outputId beyond s.offset) (c.newOffset beyond s.offset).toNat n
  fits : (c.newOffset beyond s.offset).toNat + n ≤ (sizes (c.outputId beyond s.offset)).toNat
  small : k + n ≤ a.size.toNat

theorem nextPiece (tiled : Interleave.Tiled beyond c ⟨a.addr, a.size, a.data⟩ s) (inside : Inside beyond c sizes a)
    (forward : Interleave.Tiled beyond c ⟨a.addr, a.size, a.data⟩ (s.forward beyond c))
    (less : (s.forward beyond c).size.toNat < s.size.toNat) :
    Next beyond c sizes a s (a.size - s.size).toNat (s.loopSize beyond c).toNat := by
  have left : s.size.toNat ≤ a.size.toNat := tiled.left
  have before : (a.size - s.size).toNat = a.size.toNat - s.size.toNat := BitVec.toNat_sub_of_le left
  have rest : (s.forward beyond c).size = s.size - s.loopSize beyond c := rfl
  have bound := s.size.isLt
  have bounds : 0 < (s.loopSize beyond c).toNat ∧ (s.loopSize beyond c).toNat ≤ s.size.toNat := by
    rw [rest, BitVec.toNat_sub] at less
    have some := (s.loopSize beyond c).isLt
    omega
  have after : (a.size - (s.forward beyond c).size).toNat = (a.size - s.size).toNat + (s.loopSize beyond c).toNat := by
    have fewer : (s.size - s.loopSize beyond c).toNat = s.size.toNat - (s.loopSize beyond c).toNat := BitVec.toNat_sub_of_le bounds.2
    have through : (a.size - (s.size - s.loopSize beyond c)).toNat = a.size.toNat - (s.size - s.loopSize beyond c).toNat :=
      BitVec.toNat_sub_of_le (by rw [BitVec.le_def]; omega)
    rw [rest]
    omega
  have address (i : Nat) : a.addr + BitVec.ofNat 64 ((a.size - s.size).toNat + i) = s.offset + c.removeOffset + BitVec.ofNat 64 i := by
    have place : s.offset + c.removeOffset - a.addr = a.size - s.size := tiled.place
    rw [BitVec.ofNat_add, BitVec.ofNat_toNat, BitVec.setWidth_eq, ← place]
    ring
  have member : (⟨s.offset + c.removeOffset, c.outputId beyond s.offset, c.newOffset beyond s.offset, s.loopSize beyond c, s.data⟩ :
      Interleave.Forward) ∈ (s.forward beyond c).forwards := List.mem_append_right _ List.mem_cons_self
  have bytes (i : Nat) (small : i < (s.loopSize beyond c).toNat) :
      c.outputId beyond s.offset = c.id beyond (a.addr + BitVec.ofNat 64 ((a.size - s.size).toNat + i)) ∧
        c.newOffset beyond s.offset + BitVec.ofNat 64 i = c.local beyond (a.addr + BitVec.ofNat 64 ((a.size - s.size).toNat + i)) := by
    rw [address]
    exact forward.bytes _ member i small
  have fits : (c.newOffset beyond s.offset).toNat + (s.loopSize beyond c).toNat ≤ (sizes (c.outputId beyond s.offset)).toNat := by
    refine rowEnds bounds.1 fun i small => ?_
    obtain ⟨id, place⟩ := bytes i small
    rw [id, place]
    exact inside.bytes _ (by omega)
  refine ⟨rfl, rfl, after, fun i small => ?_, fits, by omega⟩
  obtain ⟨id, place⟩ := bytes i small
  refine ⟨id.symm, ?_⟩
  have whole := (sizes (c.outputId beyond s.offset)).isLt
  have number := BitVec.toNat_add (c.newOffset beyond s.offset) (BitVec.ofNat 64 i)
  rw [BitVec.toNat_ofNat, Nat.add_mod_mod, Nat.mod_eq_of_lt (by omega)] at number
  rw [← number, place]
  rfl

theorem distance (addr : Word) {i : Nat} (small : i < 2 ^ 64) : (addr + BitVec.ofNat 64 i - addr).toNat = i := by
  rw [show addr + BitVec.ofNat 64 i - addr = BitVec.ofNat 64 i by ring, BitVec.toNat_ofNat, Nat.mod_eq_of_lt small]

theorem fromDistance (addr x : Word) : addr + BitVec.ofNat 64 (x - addr).toNat = x := by
  rw [BitVec.ofNat_toNat, BitVec.setWidth_eq]
  ring

section Directions

theorem storedWrite (write : a.isWrite = true) (size x : Word) :
    (a.upTo size).stored flat x = if (x - a.addr).toNat < size.toNat then a.buffer (x - a.addr).toNat else flat x := by
  unfold Access.stored
  exact congrFun (if_pos write) x

theorem storedRead (read : a.isWrite = false) (size : Word) : (a.upTo size).stored flat = flat := by
  unfold Access.stored
  exact if_neg (ne_true_of_eq_false read)

theorem loadedWrite (write : a.isWrite = true) (size : Word) : (a.upTo size).loaded flat = a.buffer := by
  unfold Access.loaded
  exact if_pos write

theorem loadedRead (read : a.isWrite = false) (size : Word) (p : Nat) :
    (a.upTo size).loaded flat p = if p < size.toNat then flat (a.addr + BitVec.ofNat 64 p) else a.buffer p := by
  unfold Access.loaded
  exact congrFun (if_neg (ne_true_of_eq_false read)) p

end Directions

section Contents

variable {k n : Nat} {m : Memory} {memory : Nat → Byte}

theorem storedNext (apart : (layout beyond c).Apart) (next : Next beyond c sizes a s k n) (write : a.isWrite = true)
    (so : contents beyond c t.memories = (a.upTo (a.size - s.size)).stored flat)
    (stored : m.memData = memcpy (t.memories (c.outputId beyond s.offset)).memData (c.newOffset beyond s.offset).toNat
      (fun i => a.buffer (k + i)) 0 n) :
    contents beyond c (Function.update t.memories (c.outputId beyond s.offset) m) =
      (a.upTo (a.size - (s.forward beyond c).size)).stored flat := by
  have written : ∀ p, m.memData p =
      if (c.newOffset beyond s.offset).toNat ≤ p ∧ p < (c.newOffset beyond s.offset).toNat + n
      then a.buffer (k + (p - (c.newOffset beyond s.offset).toNat)) else (t.memories (c.outputId beyond s.offset)).memData p := by
    intro p
    rw [stored]
    unfold memcpy
    rw [Nat.zero_add]
  have whole := a.size.isLt
  have small := next.small
  rw [contentsUpdate]
  funext x
  rw [storedWrite write, next.after]
  by_cases here : k ≤ (x - a.addr).toNat ∧ (x - a.addr).toNat < k + n
  · have at' : a.addr + BitVec.ofNat 64 (k + ((x - a.addr).toNat - k)) = x := by
      rw [Nat.add_sub_cancel' here.1, fromDistance]
    have put := Spread.rowStored (fun output => (t.memories output).memData) (fun i => a.buffer (k + i)) written next.row
      (i := (x - a.addr).toNat - k) (by omega)
    rw [at', Nat.add_sub_cancel' here.1] at put
    rw [put, if_pos here.2]
  · have other : ∀ i < n, x ≠ a.addr + BitVec.ofNat 64 (k + i) := by
      intro i inside same
      rw [same, distance _ (by omega)] at here
      omega
    rw [Spread.rowOthers (fun output => (t.memories output).memData) (fun i => a.buffer (k + i)) written apart next.row other]
    have old := congrFun so x
    rw [storedWrite write, next.before] at old
    rw [show Spread.gather (layout beyond c) (fun output => (t.memories output).memData) x = contents beyond c t.memories x from rfl, old]
    by_cases below : (x - a.addr).toNat < k
    · rw [if_pos below, if_pos (by omega)]
    · rw [if_neg below, if_neg (by omega)]

theorem loadedNext (next : Next beyond c sizes a s k n) (read : a.isWrite = false)
    (so : contents beyond c t.memories = flat) (buffer : t.buffer = (a.upTo (a.size - s.size)).loaded flat)
    {loaded : Nat → Byte} (load : loaded = memcpy (fun i => t.buffer (k + i)) 0 (t.memories (c.outputId beyond s.offset)).memData
      (c.newOffset beyond s.offset).toNat n) :
    putBack t.buffer k (some loaded) = (a.upTo (a.size - (s.forward beyond c).size)).loaded flat := by
  funext p
  have old := congrFun buffer p
  rw [loadedRead read, next.before] at old
  rw [loadedRead read, next.after, load]
  rw [putBackSome]
  unfold memcpy
  by_cases below : p < k
  · rw [if_pos below, old, if_pos below, if_pos (by omega)]
  · rw [if_neg below]
    by_cases here : p < k + n
    · have got := Spread.rowLoaded (fun output => (t.memories output).memData) next.row (i := p - k) (by omega)
      rw [Nat.add_sub_cancel' (by omega)] at got
      rw [if_pos ⟨Nat.zero_le _, by omega⟩, if_pos here, Nat.sub_zero, got, ← so]
      rfl
    · have back : k + (p - k) = p := by omega
      rw [if_neg (by omega), if_neg here]
      dsimp only
      rw [back, old, if_neg below]

end Contents

theorem forwardServing (apart : (layout beyond c).Apart) (inside : Inside beyond c sizes a) (cycles time : Int)
    (forward : Interleave.Tiled beyond c ⟨a.addr, a.size, a.data⟩ (s.forward beyond c))
    (less : (s.forward beyond c).size.toNat < s.size.toNat) (serving : Serving beyond c sizes a flat s t) :
    ∃ u, t.forward a cycles time (c.outputId beyond s.offset) (s.forward beyond c).req = some (.ok, u) ∧
      Serving beyond c sizes a flat (s.forward beyond c) u := by
  have next := nextPiece serving.tiled inside forward less
  have index : (s.data - a.data).toNat = (a.size - s.size).toNat := by
    rw [serving.data]
    congr 1
    ring
  have given : s.data ≠ 0 := by
    have far := next.small
    have ends := inside.ends
    have some : 0 < (s.loopSize beyond c).toNat := by
      have rest : (s.forward beyond c).size = s.size - s.loopSize beyond c := rfl
      rw [rest, BitVec.toNat_sub] at less
      have bound := s.size.isLt
      have most := (s.loopSize beyond c).isLt
      omega
    have start : a.data.toNat ≠ 0 := fun zero => inside.data (BitVec.eq_of_toNat_eq zero)
    intro zero
    have number := BitVec.toNat_add a.data (a.size - s.size)
    rw [← serving.data, zero, Nat.mod_eq_of_lt (by omega)] at number
    have none : (0 : Word).toNat = 0 := rfl
    omega
  obtain ⟨m, r, done, up, unchecked, size, memData, data⟩ := plainReq (m := t.memories (c.outputId beyond s.offset))
    (r := ⟨c.newOffset beyond s.offset, s.loopSize beyond c, a.isWrite, a.isDebug, some fun i => t.buffer ((s.data - a.data).toNat + i),
      t.latency, t.duration⟩) cycles time (serving.plain.up _) (serving.plain.unchecked _) (by rw [serving.plain.size]; exact next.fits) rfl
  dsimp only at memData data
  rw [index] at memData data
  have forwards : t.forward a cycles time (c.outputId beyond s.offset) (s.forward beyond c).req = some (.ok,
      ⟨Function.update t.memories (c.outputId beyond s.offset) m, putBack t.buffer (a.size - s.size).toNat r.data, r.latency, r.duration⟩) := by
    unfold Served.forward
    change Option.map _ ((t.memories _).req ⟨_, _, _, _, if s.data = 0 then none else _, _, _⟩ cycles time) = _
    rw [if_neg given]
    exact (congrArg _ done).trans (by rw [← index]; rfl)
  have pointer : (s.forward beyond c).data = a.data + (a.size - (s.forward beyond c).size) := by
    have moved : (s.forward beyond c).data = s.data + s.loopSize beyond c := if_neg given
    have rest : (s.forward beyond c).size = s.size - s.loopSize beyond c := rfl
    rw [moved, rest, serving.data]
    ring
  refine ⟨_, forwards, forward, pointer, plainUpdate serving.plain up unchecked size, ?_, ?_⟩
  · cases direction : a.isWrite with
    | true =>
        have whole := serving.buffer
        rw [loadedWrite direction] at whole
        rw [direction, if_pos rfl, whole] at memData
        exact storedNext apart next direction serving.contents memData
    | false =>
        have so := serving.contents
        rw [storedRead direction] at so ⊢
        rw [direction, if_neg (by decide)] at memData
        rw [contentsUpdate, memData, Function.update_eq_self]
        exact so
  · cases direction : a.isWrite with
    | true =>
        have whole := serving.buffer
        rw [loadedWrite direction] at whole ⊢
        rw [direction, if_pos rfl] at data
        rw [data, ← whole]
        funext p
        dsimp only
        rw [putBackSome]
        split_ifs with below
        · rfl
        · rw [Nat.add_sub_cancel' (by omega)]
    | false =>
        have so := serving.contents
        rw [storedRead direction] at so
        rw [direction, if_neg (by decide)] at data
        rw [data]
        exact loadedNext next direction so serving.buffer rfl

theorem servingDone (done : s.size = 0) (serving : Serving beyond c sizes a flat s t) :
    contents beyond c t.memories = a.stored flat ∧ t.buffer = a.loaded flat := by
  obtain ⟨_, _, _, contents, buffer⟩ := serving
  have whole : a.upTo (a.size - 0) = a := by
    unfold Access.upTo
    rw [sub_zero]
  rw [done] at contents buffer
  exact ⟨contents.trans (by rw [whole]), buffer.trans (by rw [whole])⟩

section Geometry

variable (apart : (layout beyond c).Apart) (multiple : c.removeOffset.toNat % 2 ^ c.interleavingBits = 0)
  (block : c.interleavingBits ≤ 30) (stage : c.stageBits ≤ 30) (fits : c.interleavingBits + c.stageBits ≤ 31)

include apart multiple block stage fits in
theorem serveServing (inside : Inside beyond c sizes a) (cycles time : Int) {fuel : Nat}
    (serving : Serving beyond c sizes a flat s t) (enough : s.size.toNat ≤ fuel) :
    ∃ u, serve beyond c a cycles time fuel s t = some (.ok, u) ∧ Plain sizes u.memories ∧
      contents beyond c u.memories = a.stored flat ∧ u.buffer = a.loaded flat := by
  induction fuel generalizing s t with
  | zero =>
      have done : s.size = 0 := BitVec.eq_of_toNat_eq (Nat.le_zero.mp enough)
      refine ⟨t, ?_, serving.plain, servingDone done serving⟩
      unfold serve
      exact if_pos done
  | succ fuel later =>
      by_cases done : s.size = 0
      · refine ⟨t, ?_, serving.plain, servingDone done serving⟩
        unfold serve
        exact if_pos done
      · obtain ⟨forward, less⟩ := Interleave.forwardTiled multiple block stage fits serving.tiled done
        obtain ⟨u, moved, next⟩ := forwardServing apart inside cycles time forward less serving
        obtain ⟨v, served, rest⟩ := later next (by omega)
        refine ⟨v, ?_, rest⟩
        unfold serve
        rw [if_neg done]
        dsimp only
        rw [moved]
        exact served

include apart multiple block stage fits in
theorem requestServed (inside : Inside beyond c sizes a) (cycles time : Int) {memories : Nat → Memory} (plain : Plain sizes memories) :
    ∃ t, request beyond c a cycles time memories = some (.ok, t) ∧ Plain sizes t.memories ∧
      contents beyond c t.memories = a.stored (contents beyond c memories) ∧ t.buffer = a.loaded (contents beyond c memories) := by
  refine serveServing apart multiple block stage fits inside cycles time ⟨Interleave.startTiled block _, ?_, plain, ?_, ?_⟩ (Nat.le_refl _)
  · show a.data = a.data + (a.size - a.size)
    ring
  · show _ = (a.upTo (a.size - a.size)).stored _
    rw [sub_self]
    funext x
    unfold Access.stored
    split_ifs with write
    · exact (if_neg (Nat.not_lt_zero _)).symm
    · rfl
  · show a.buffer = (a.upTo (a.size - a.size)).loaded _
    rw [sub_self]
    unfold Access.loaded
    split_ifs with write
    · rfl
    · funext p
      exact (if_neg (Nat.not_lt_zero _)).symm

end Geometry

end Piece

section Run

variable {beyond : Nat → BitVec 32} {c : Config} {sizes : Nat → Word}

/- The memories behind the interleaver are one memory for the masters: whatever they ask for, each of them gets the bytes that the last
requests before have written, wherever these are cut. -/
theorem runFlat (power : 2 ^ c.stageBits ≤ c.nbSlaves) (multiple : c.removeOffset.toNat % 2 ^ c.interleavingBits = 0)
    (block : c.interleavingBits ≤ 30) (fits : c.interleavingBits + c.stageBits ≤ 31) {memories : Nat → Memory} (plain : Plain sizes memories)
    {requests : List (Access × Int × Int)} (inside : ∀ r ∈ requests, Inside beyond c sizes r.1) :
    ∃ last, run beyond c requests memories = some ((flatRun (requests.map Prod.fst) (contents beyond c memories)).1, last) ∧
      contents beyond c last = (flatRun (requests.map Prod.fst) (contents beyond c memories)).2 := by
  have stage := Interleave.stageSmall power
  have apart : (layout beyond c).Apart := fun x y id place => Interleave.bankedInjective power fits id (BitVec.eq_of_toNat_eq place)
  induction requests generalizing memories with
  | nil => exact ⟨memories, rfl, rfl⟩
  | cons r rest later =>
      obtain ⟨a, cycles, time⟩ := r
      obtain ⟨t, served, plain', contents', buffer⟩ :=
        requestServed apart multiple block stage fits (inside _ List.mem_cons_self) cycles time plain
      obtain ⟨last, ran, final⟩ := later plain' fun r member => inside r (List.mem_cons_of_mem _ member)
      rw [contents'] at ran final
      refine ⟨last, ?_, final⟩
      unfold run
      rw [served, Option.bind_eq_bind, Option.bind_some]
      dsimp only
      rw [ran, buffer]
      rfl

def fourMemories (_ : Nat) : Memory :=
  { size := 16, widthBits := 2, memData := fun _ => 0x57, checkMem := none, nextPacketStart := 0
    poweredUp := true, powerActive := false, lastAccessTimestamp := -1, quanta := fun _ _ => 0 }

def sevenBytes (isWrite : Bool) : Access := ⟨0x100e, 7, 0x80, isWrite, false, fun i => BitVec.ofNat 8 i⟩

theorem sevenInside (isWrite : Bool) : Inside Interleave.shiftCount Interleave.fourBytes (fun _ => 16) (sevenBytes isWrite) := by
  refine ⟨?_, ?_, ?_⟩
  · change (0x80 : Word) ≠ 0
    decide
  · change (0x80 : Word).toNat + (7 : Word).toNat ≤ 2 ^ 64
    decide
  · change ∀ i < 7, Interleave.fourBytes.local Interleave.shiftCount (0x100e + BitVec.ofNat 64 i) < 16
    decide

theorem runFlatSeven :
    ∃ last, run Interleave.shiftCount Interleave.fourBytes [(sevenBytes true, 3, 30), (sevenBytes false, 3, 30)] fourMemories =
        some ((flatRun [sevenBytes true, sevenBytes false] (contents Interleave.shiftCount Interleave.fourBytes fourMemories)).1, last) ∧
      contents Interleave.shiftCount Interleave.fourBytes last =
        (flatRun [sevenBytes true, sevenBytes false] (contents Interleave.shiftCount Interleave.fourBytes fourMemories)).2 := by
  have plain : Plain (fun _ => 16) fourMemories := ⟨fun _ => rfl, fun _ => rfl, fun _ => rfl⟩
  refine runFlat (by decide) (by decide) (by decide) (by decide) plain ?_
  intro r member
  obtain rfl | member := List.mem_cons.mp member
  · exact sevenInside true
  · obtain rfl := List.mem_singleton.mp member
    exact sevenInside false

end Run

end Gvsoc.BankedMemory
