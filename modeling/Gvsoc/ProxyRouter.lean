import Gvsoc.Io
import Gvsoc.Proxy
import Gvsoc.Router

/-! The router as a component that a client of the proxy reads and writes the memory with. -/
namespace Gvsoc.Proxy
open Bytes (Byte)
open CText (ch ascii)
open Io (IoStatus)
open ProxyText
open Routing (Router)

section Handler

/- What is behind a router. In a state, for a write or a read, it answers the pieces of a request, and makes of them the next state and what
the buffer of the request holds then. -/
structure Targets (σ : Type) where
  answers : σ → Bool → List Byte → Nat → IoStatus
  access : σ → Bool → List Byte → List Routing.Forward → σ × (Nat → Byte)

variable {σ : Type} (m : Router) (targets : Targets σ)

def routerNeeds : List (List Byte) → Nat
  | name :: _ :: size :: _ => if name = ascii "mem_write" then (strtol size).toNat else 0
  | _ => 0

def errText (error : Bool) : List Byte := ascii "err=" ++ [if error then ch '1' else ch '0']

/- The data pointer of the request counts from the start of the buffer. -/
def proxyReq (addr size : Int) : Routing.Req := ⟨BitVec.ofInt 64 addr, BitVec.ofInt 64 size, 0, 0⟩

/- An access through the router. Nothing where no array has the size, or no `int` for a payload, where the loop over the request goes on for
ever, and where it leaves the status without a value. -/
def routerAccess (s : σ) (isWrite : Bool) (addr size : Int) (raw : List Byte) : Option (σ × Option (List Byte) × List Byte) :=
  if size < 0 ∨ isWrite = false ∧ 2 ^ 31 ≤ size then none
  else do
    let returned ← m.req (targets.answers s isWrite raw) size.toNat (proxyReq addr size)
    let result ← returned.result
    let (t, buffer) := targets.access s isWrite raw returned.forwards
    -- The payload is sent whatever the router has answered, and its own status is the one of the reply.
    if isWrite then some (t, none, errText (2 ^ 31 ≤ size || result ≠ .ok))
    else some (t, some ((List.range size.toNat).map buffer), errText false)

/- `router::handle_command`. Nothing where a word is missing that the code takes without a look. -/
def routerHandleCommand (s : σ) (args : List (List Byte)) (raw : List Byte) : Option (σ × Option (List Byte) × List Byte) :=
  match args with
  | [] => none
  | name :: rest =>
      if name = ascii "mem_write" ∨ name = ascii "mem_read" then
        match rest with
        | addr :: size :: _ => routerAccess m targets s (name = ascii "mem_write") (strtol addr) (strtol size) raw
        | _ => none
      else some (s, none, errText true)

variable {m targets} {s t : σ} {args : List (List Byte)} {raw retval : List Byte} {payload : Option (List Byte)}

theorem accessCases {isWrite : Bool} {addr size : Int} (done : routerAccess m targets s isWrite addr size raw = some (t, payload, retval)) :
    (∃ error, retval = errText error) ∧ ∀ bytes, payload = some bytes → bytes.length < 2 ^ 31 := by
  obtain ⟨sized, done⟩ := Option.ite_none_left_eq_some.mp done
  simp only [Option.bind_eq_bind, Option.bind_eq_some_iff] at done
  obtain ⟨returned, -, result, -, done⟩ := done
  cases isWrite with
  | true =>
      cases done
      exact ⟨⟨_, rfl⟩, fun _ none => absurd none (Option.some_ne_none _).symm⟩
  | false =>
      cases done
      refine ⟨⟨_, rfl⟩, fun bytes same => ?_⟩
      cases same
      have small : size < 2 ^ 31 := not_le.mp fun large => sized (.inr ⟨rfl, large⟩)
      rw [List.length_map, List.length_range]
      omega

theorem routerCases (handled : routerHandleCommand m targets s args raw = some (t, payload, retval)) :
    (∃ error, retval = errText error) ∧ ∀ bytes, payload = some bytes → bytes.length < 2 ^ 31 := by
  unfold routerHandleCommand at handled
  split at handled
  · contradiction
  · split at handled
    · split at handled
      · exact accessCases handled
      · contradiction
    · cases handled
      exact ⟨⟨_, rfl⟩, fun _ none => absurd none (Option.some_ne_none _).symm⟩

theorem errPlain (error : Bool) : ProxyReader.plain (errText error) = true := by cases error <;> decide

theorem routerPlain (handled : routerHandleCommand m targets s args raw = some (t, payload, retval)) : ProxyReader.plain retval = true := by
  obtain ⟨⟨error, rfl⟩, -⟩ := routerCases handled
  exact errPlain error

theorem routerShort {bytes : List Byte} (handled : routerHandleCommand m targets s args raw = some (t, some bytes, retval)) :
    bytes.length < 2 ^ 31 := (routerCases handled).2 bytes rfl

variable (m targets)

def routerComponent : Component σ where
  needs := routerNeeds
  handleCommand := routerHandleCommand m targets
  plain := routerPlain
  short := routerShort

end Handler

section Accesses

def memCmd (name : String) (address addr size : Nat) : List Byte :=
  ascii "component " ++ (pointer address ++ ch ' ' :: (ascii name ++ ch ' ' :: (hexadecimal addr ++ ch ' ' :: hexadecimal size)))

def memWrite (address addr : Nat) (values : List Byte) : Call := .values (memCmd "mem_write" address addr values.length) values

def memRead (address addr size : Nat) : Call := .payload (memCmd "mem_read" address addr size)

variable {σ : Type} {top : Top σ} {m : Router} {targets : Targets σ} {address addr size : Nat}

theorem memWords {name : String} (tight : ∀ c ∈ ascii name, CText.isSpace c = false) (some : ascii name ≠ []) :
    (words (ascii name ++ ch ' ' :: (hexadecimal addr ++ ch ' ' :: (hexadecimal size ++ [lf])))).filter (· ≠ []) =
      [ascii name, hexadecimal addr, hexadecimal size] := by
  have digits : ∀ n, hexadecimal n ≠ [] := fun _ => List.cons_ne_nil _ _
  rw [wordsMore tight (fun _ => hexadecimalTight) (digits addr), wordsLast fun _ => hexadecimalTight]
  simp [some, digits]

theorem memText (name : String) : memCmd name address addr size ++ [lf] = ascii "component " ++ (pointer address ++ ch ' ' ::
    (ascii name ++ ch ' ' :: (hexadecimal addr ++ ch ' ' :: (hexadecimal size ++ [lf])))) := by
  simp [memCmd]

theorem memNeeds {name : String} (there : top.component address = some (routerComponent m targets)) (positive : address ≠ 0)
    (small : address < 2 ^ 63) (tight : ∀ c ∈ ascii name, CText.isSpace c = false) (some : ascii name ≠ []) :
    needs top (words (memCmd name address addr size ++ [lf])) = routerNeeds [ascii name, hexadecimal addr, hexadecimal size] := by
  rw [memText, componentNeeds top there positive small, memWords tight some]
  rfl

theorem memReached {name : String} (there : top.component address = some (routerComponent m targets)) (positive : address ≠ 0)
    (small : address < 2 ^ 63) (tight : ∀ c ∈ ascii name, CText.isSpace c = false) (some_name : ascii name ≠ []) (s : σ) (raw : List Byte) :
    execute top s (words (memCmd name address addr size ++ [lf])) raw =
      (routerHandleCommand m targets s [ascii name, hexadecimal addr, hexadecimal size] raw).map fun done =>
        (done.1, ⟨done.2.1, some (.flushLocked, some done.2.2)⟩) := by
  rw [memText, componentReached top s raw there positive small, memWords tight some_name]
  rfl

theorem memReadServed (there : top.component address = some (routerComponent m targets)) (positive : address ≠ 0) (small : address < 2 ^ 63)
    (place : addr < 2 ^ 63) (sized : size < 2 ^ 31) {s : σ} {raw : List Byte} {returned : Routing.Returned} {result : IoStatus}
    (ended : m.req (targets.answers s false raw) size (proxyReq addr size) = some returned) (told : returned.result = some result) :
    execute top s (words (memCmd "mem_read" address addr size ++ [lf])) raw =
      some ((targets.access s false raw returned.forwards).1,
        ⟨some ((List.range size).map (targets.access s false raw returned.forwards).2), some (.flushLocked, some (errText false))⟩) := by
  have other : ascii "mem_read" ≠ ascii "mem_write" := by decide
  have inside : ¬((size : Int) < 0 ∨ false = false ∧ (2 : Int) ^ 31 ≤ size) := by omega
  have handled : routerHandleCommand m targets s [ascii "mem_read", hexadecimal addr, hexadecimal size] raw =
      routerAccess m targets s false addr size raw := by
    rw [routerHandleCommand, strtolHexadecimal place, strtolHexadecimal (Nat.lt_trans sized (by decide))]
    simp only [other, or_true, if_true, decide_false]
  rw [memReached there positive small (by decide) (by decide), handled, routerAccess, if_neg inside, Int.toNat_natCast, ended]
  simp only [Option.bind_eq_bind, Option.bind_some, told]
  rfl

theorem memWriteServed (there : top.component address = some (routerComponent m targets)) (positive : address ≠ 0) (small : address < 2 ^ 63)
    (place : addr < 2 ^ 63) (sized : size < 2 ^ 31) {s : σ} {raw : List Byte} {returned : Routing.Returned} {result : IoStatus}
    (ended : m.req (targets.answers s true raw) size (proxyReq addr size) = some returned) (told : returned.result = some result) :
    execute top s (words (memCmd "mem_write" address addr size ++ [lf])) raw =
      some ((targets.access s true raw returned.forwards).1, ⟨none, some (.flushLocked, some (errText (result ≠ .ok)))⟩) := by
  have inside : ¬((size : Int) < 0 ∨ true = false ∧ (2 : Int) ^ 31 ≤ size) := by simp
  have short : ¬(2 : Int) ^ 31 ≤ size := by omega
  have handled : routerHandleCommand m targets s [ascii "mem_write", hexadecimal addr, hexadecimal size] raw =
      routerAccess m targets s true addr size raw := by
    rw [routerHandleCommand, strtolHexadecimal place, strtolHexadecimal (Nat.lt_trans sized (by decide))]
    simp only [true_or, if_true, decide_true]
  rw [memReached there positive small (by decide) (by decide), handled, routerAccess, if_neg inside, Int.toNat_natCast, ended]
  simp only [Option.bind_eq_bind, Option.bind_some, told, short, decide_false, Bool.false_or]
  rfl

def Settles (m : Router) (targets : Targets σ) (isWrite : Bool) (raw : List Byte) (addr size : Nat) : Prop :=
  ∀ s, ((m.req (targets.answers s isWrite raw) size (proxyReq addr size)).bind fun returned => returned.result).isSome = true

theorem memCmdClean {name : String} (clear : (ascii name).all clean = true) : (memCmd name address addr size).all clean = true := by
  have digits : ∀ n, (hexadecimal n).all clean = true := fun n => by
    rw [hexadecimal, List.all_append, numberClean 16 n (by decide) (by decide)]
    rfl
  have printed : (pointer address).all clean = true := by
    unfold pointer
    split
    · decide
    · exact digits address
  have space : clean (ch ' ') = true := by decide
  have first : (ascii "component ").all clean = true := by decide
  simp only [memCmd, List.all_append, List.all_cons, clear, digits, printed, space, first, Bool.and_self]

theorem memReadProper (there : top.component address = some (routerComponent m targets)) (positive : address ≠ 0) (small : address < 2 ^ 63)
    (place : addr < 2 ^ 63) (sized : size < 2 ^ 31) (settles : Settles m targets false [] addr size) : Proper top (memRead address addr size) where
  clear := memCmdClean (by decide)
  bytes := by
    have other : ascii "mem_read" ≠ ascii "mem_write" := by decide
    have needed : routerNeeds [ascii "mem_read", hexadecimal addr, hexadecimal size] = 0 := by
      rw [routerNeeds]
      exact if_neg other
    exact (memNeeds there positive small (by decide) (by decide)).trans needed
  served := fun s => by
    obtain ⟨result, told⟩ := Option.isSome_iff_exists.mp (settles s)
    obtain ⟨returned, ended, told⟩ := Option.bind_eq_some_iff.mp told
    exact ⟨_, _, memReadServed there positive small place sized ended told, by simp [memRead, Call.cmd]⟩

theorem memWriteProper {values : List Byte} (there : top.component address = some (routerComponent m targets)) (positive : address ≠ 0)
    (small : address < 2 ^ 63) (place : addr < 2 ^ 63) (sized : values.length < 2 ^ 31)
    (settles : Settles m targets true values addr values.length) : Proper top (memWrite address addr values) where
  clear := memCmdClean (by decide)
  bytes := by
    have needed : routerNeeds [ascii "mem_write", hexadecimal addr, hexadecimal values.length] = values.length := by
      rw [routerNeeds, strtolHexadecimal (Nat.lt_trans sized (by decide))]
      exact if_pos rfl
    exact (memNeeds there positive small (by decide) (by decide)).trans needed
  served := fun s => by
    obtain ⟨result, told⟩ := Option.isSome_iff_exists.mp (settles s)
    obtain ⟨returned, ended, told⟩ := Option.bind_eq_some_iff.mp told
    exact ⟨_, _, memWriteServed there positive small place sized ended told, by simp [memWrite, Call.cmd]⟩

end Accesses

section Flat

def flatTargets : Targets (Nat → Byte) where
  answers := fun _ _ _ _ => .ok
  access := fun s isWrite raw forwards =>
    let values (i : Nat) : Byte := raw.getD i 0
    if isWrite then
      (forwards.foldl (fun s f => Cells.write s f.addr.toNat (Io.bytesFrom values f.data.toNat f.size.toNat)) s, values)
    else (s, forwards.foldl (fun buffer f => Cells.write buffer f.data.toNat (Io.bytesFrom s f.addr.toNat f.size.toNat)) values)

/- Two entries that bring the addresses from 0x1000 on to the start of the memory. -/
def flatRouter : Router := .build [⟨0x1000, 0x1000, 0x1000, 0, .port⟩, ⟨0x2000, 0x1000, 0x1000, 0, .port⟩]

def flatTop : Top (Nat → Byte) where
  run := fun s => s
  step := fun s duration => (s, duration)
  stopExec := fun s => s
  quit := fun s _ => s
  getComponent := fun _ => 0x10
  component := fun address => if address = 0x10 then some (routerComponent flatRouter flatTargets) else none
  addTracePath := fun s _ => s
  setTraceLevel := fun s _ => s
  addExcludeTracePath := fun s _ => s
  confTrace := fun s _ _ => s
  advance := fun s => s

end Flat

end Gvsoc.Proxy
