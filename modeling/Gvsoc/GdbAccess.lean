import Gvsoc.Io
import Gvsoc.Ledger
import Gvsoc.Machine

/-! `Gdb_server::io_access`: one memory access of the debugger at a time. `pending_access` is
set before the request is sent and cleared by the clock event alone. -/
namespace Gvsoc.GdbServer
open Bytes (Byte)
open Io (IoStatus)
open Ledger (Balanced)
open Machine (Run anyStep)

structure IoReq where
  addr : BitVec 32
  size : Int
  data : List Byte
  isWrite : Bool
  latency : Nat
  deriving DecidableEq

/- An event that is enqueued is kept with its cycles. `sent` is what the debugger got. -/
structure Server where
  pendingAccess : Bool
  event : Option Nat
  ioReq : IoReq
  sent : List String
  deriving DecidableEq

def Server.start : Server := ⟨false, none, ⟨0, 0, [], false, 0⟩, []⟩

namespace Server

variable (s : Server)

def ioAccessDone (status : Int) : Server :=
  {s with sent := s.sent ++ [if status ≠ 0 then "E03" else "OK"]}

def handle : Server :=
  if s.pendingAccess then {s with pendingAccess := false}.ioAccessDone 0 else s

/- The reply of the target comes with the latency that it has put into the request. Any
other reply aborts. -/
def ioAccess (addr : BitVec 32) (size : Int) (data : List Byte) (isWrite : Bool) (err : IoStatus) (latency : Nat) :
    Option (Server × Int) :=
  if s.pendingAccess then some (s, -1)
  else
    let s := {s with pendingAccess := true, ioReq := ⟨addr, size, data, isWrite, latency⟩}
    match err with
    | .ok => some ({s with event := some (latency + 1)}, 0)
    | .invalid => some (s.ioAccessDone (-1), 0)
    | _ => none

/- One cycle of the clock. The event is no longer enqueued when its method is called. -/
def cycle : Server :=
  match s.event with
  | some n => if n ≤ 1 then {s with event := none}.handle else {s with event := some (n - 1)}
  | none => s

end Server

inductive Action where
  | access (addr : BitVec 32) (size : Int) (data : List Byte) (isWrite : Bool) (err : IoStatus) (latency : Nat)
  | cycle
  deriving DecidableEq

/- The server with its calls: what each of them returned, the last one that was accepted, and
the one that each reply was sent for. -/
structure Session where
  server : Server
  returns : List Int
  current : Nat
  replied : List Nat

def Session.start : Session := ⟨.start, [], 0, []⟩

def Session.reply (s : Session) (server : Server) (current : Nat) : Session :=
  {s with
    server := server
    current := current
    replied := s.replied ++ List.replicate (server.sent.length - s.server.sent.length) current}

def step (s : Session) : Action → Option Session
  | .access addr size data isWrite err latency => do
      let (server, ret) ← s.server.ioAccess addr size data isWrite err latency
      some {s.reply server (if ret = 0 then s.returns.length else s.current) with returns := s.returns ++ [ret]}
  | .cycle => some (s.reply s.server.cycle s.current)

def Session.InProgress (s : Session) (call : Nat) : Prop := s.returns[call]? = some 0 ∧ call ∉ s.replied

def Session.waiting (s : Session) : List Nat := if s.server.event.isSome then [s.current] else []

/- The call that waits for its event gets its reply after as many cycles, whatever is asked
of the server in between. -/
structure Sound (s : Session) : Prop where
  flag : s.server.pendingAccess = true ↔ s.server.event.isSome = true
  balanced : Balanced (· = 0) s.returns (s.waiting ++ s.replied)
  free : (∀ call, ¬s.InProgress call) → ∀ addr size data isWrite err latency next,
    s.server.ioAccess addr size data isWrite err latency = some next → next.2 = 0
  answered : ∀ n trace last, s.server.event = some n → Run step anyStep s trace last →
    n ≤ trace.countP (fun p => p.1 = .cycle) → s.current ∈ last.replied

def Served (s : Session) : Action → Prop
  | .access _ _ _ _ err _ => err = .invalid → s.server.pendingAccess = true
  | .cycle => True

instance : ∀ s a, Decidable (Served s a)
  | s, .access _ _ _ _ err _ => inferInstanceAs (Decidable (err = .invalid → s.server.pendingAccess = true))
  | _, .cycle => .isTrue trivial

section Steps

inductive Stepped (s : Session) : Action → Session → Prop where
  | refused {addr size data isWrite err latency} (busy : s.server.pendingAccess = true) :
      Stepped s (.access addr size data isWrite err latency) {s with returns := s.returns ++ [-1]}
  | sent {addr size data isWrite latency} (free : s.server.pendingAccess = false) :
      Stepped s (.access addr size data isWrite .ok latency) {s with
        server := {s.server with
          pendingAccess := true, event := some (latency + 1), ioReq := ⟨addr, size, data, isWrite, latency⟩}
        returns := s.returns ++ [0]
        current := s.returns.length}
  | invalid {addr size data isWrite latency} (free : s.server.pendingAccess = false) :
      Stepped s (.access addr size data isWrite .invalid latency) {s with
        server := {s.server with
          pendingAccess := true, ioReq := ⟨addr, size, data, isWrite, latency⟩, sent := s.server.sent ++ ["E03"]}
        returns := s.returns ++ [0]
        current := s.returns.length
        replied := s.replied ++ [s.returns.length]}
  | idle (none : s.server.event = none) : Stepped s .cycle s
  | wait {n} (far : s.server.event = some (n + 2)) :
      Stepped s .cycle {s with server := {s.server with event := some (n + 1)}}
  | stray {n} (due : s.server.event = some n) (near : n ≤ 1) (free : s.server.pendingAccess = false) :
      Stepped s .cycle {s with server := {s.server with event := none}}
  | done {n} (due : s.server.event = some n) (near : n ≤ 1) (busy : s.server.pendingAccess = true) :
      Stepped s .cycle {s with
        server := {s.server with pendingAccess := false, event := none, sent := s.server.sent ++ ["OK"]}
        replied := s.replied ++ [s.current]}

theorem replyNothing (s : Session) (server : Server) (current : Nat) (none : server.sent = s.server.sent) :
    s.reply server current = {s with server := server, current := current} := by
  unfold Session.reply
  rw [none, Nat.sub_self]
  simp

theorem replyOne (s : Session) (server : Server) (current : Nat) {text : String}
    (one : server.sent = s.server.sent ++ [text]) : s.reply server current =
      {s with server := server, current := current, replied := s.replied ++ [current]} := by
  unfold Session.reply
  rw [one, List.length_append, Nat.add_sub_cancel_left]
  rfl

variable {s next : Session} {addr : BitVec 32} {size : Int} {data : List Byte} {isWrite : Bool} {err : IoStatus}
  {latency : Nat}

theorem stepAccess (taken : step s (.access addr size data isWrite err latency) = some next) :
    Stepped s (.access addr size data isWrite err latency) next := by
  obtain ⟨⟨server, ret⟩, called, rest⟩ := Option.bind_eq_some_iff.mp taken
  cases rest
  unfold Server.ioAccess at called
  cases busy : s.server.pendingAccess with
  | true =>
      rw [if_pos busy] at called
      cases called
      rw [replyNothing _ _ _ (by rfl)]
      exact .refused busy
  | false =>
      rw [if_neg (by simp [busy])] at called
      cases err with
      | ok =>
          cases called
          rw [replyNothing _ _ _ (by rfl)]
          exact .sent busy
      | invalid =>
          cases called
          rw [replyOne _ _ _ (by rfl)]
          exact .invalid busy
      | denied => contradiction
      | pending => contradiction

theorem stepCycle (taken : step s .cycle = some next) : Stepped s .cycle next := by
  cases taken
  unfold Server.cycle
  cases due : s.server.event with
  | none =>
      rw [replyNothing _ _ _ (by rfl)]
      exact .idle due
  | some n =>
      dsimp only
      split
      · rename_i near
        unfold Server.handle
        cases busy : s.server.pendingAccess with
        | true =>
            rw [if_pos rfl, replyOne _ _ _ (by rfl)]
            exact .done due near busy
        | false =>
            rw [if_neg (by simp), replyNothing _ _ _ (by rfl)]
            rw [← busy]
            exact .stray due near busy
      · rename_i far
        obtain ⟨m, rfl⟩ : ∃ m, n = m + 2 := ⟨n - 2, by omega⟩
        rw [replyNothing _ _ _ (by rfl)]
        exact .wait due

theorem stepInverted {a : Action} (taken : step s a = some next) : Stepped s a next := by
  cases a with
  | access => exact stepAccess taken
  | cycle => exact stepCycle taken

end Steps

section Runs

variable {s next : Session} {trace : List (Action × Session)} {a : Action}

/- What every step keeps: the flag is up exactly while the event is enqueued, and every
accepted call waits for that event or has its reply. -/
structure Kept (s : Session) : Prop where
  flag : s.server.pendingAccess = true ↔ s.server.event.isSome = true
  balanced : Balanced (· = 0) s.returns (s.waiting ++ s.replied)
  later : ∀ n, s.server.event = some n → 0 < n

theorem startKept : Kept .start where
  flag := by decide
  balanced := ⟨List.nodup_nil, fun call => by simp [Session.start, Session.waiting, Server.start]⟩
  later := by simp [Session.start, Server.start]

theorem keptIdle (kept : Kept s) (free : s.server.pendingAccess = false) : s.server.event = none := by
  by_contra some
  have busy := kept.flag.mpr (Option.isSome_iff_ne_none.mpr some)
  simp [free] at busy

theorem waitingNone (none : s.server.event = none) : s.waiting = [] := by
  unfold Session.waiting
  rw [none]
  rfl

theorem waitingSome {n : Nat} (due : s.server.event = some n) : s.waiting = [s.current] := by
  unfold Session.waiting
  rw [due]
  rfl

theorem stepKept (kept : Kept s) (served : Served s a) (taken : step s a = some next) : Kept next := by
  cases stepInverted taken with
  | refused busy => exact ⟨kept.flag, Ledger.balancedSettled kept.balanced (by decide), kept.later⟩
  | sent free =>
      have balanced := kept.balanced
      rw [waitingNone (keptIdle kept free), List.nil_append] at balanced
      exact ⟨by simp, Ledger.balancedOwed 0 balanced rfl, by simp⟩
  | invalid free => exact absurd (served rfl) (by simp [free])
  | idle none => exact kept
  | wait far =>
      have balanced := kept.balanced
      rw [waitingSome far] at balanced
      exact ⟨⟨fun _ => rfl, fun _ => kept.flag.mpr (by rw [far]; rfl)⟩, balanced, by simp⟩
  | stray due near free =>
      rw [keptIdle kept free] at due
      contradiction
  | done due near busy =>
      have balanced := kept.balanced
      rw [waitingSome due] at balanced
      exact ⟨by simp, Ledger.balancedPaid balanced, by simp⟩

theorem keptFree (kept : Kept s) (none : ∀ call, ¬s.InProgress call) : s.server.pendingAccess = false := by
  by_contra busy
  obtain ⟨n, due⟩ := Option.isSome_iff_exists.mp (kept.flag.mp (by simpa using busy))
  have balanced := kept.balanced
  rw [waitingSome due] at balanced
  obtain ⟨ret, found, rfl⟩ := (balanced.exact s.current).mp (by simp)
  exact none s.current ⟨found, (List.nodup_cons.mp balanced.once).1⟩

theorem freeAccepts {addr size data isWrite err latency} {called : Server × Int}
    (free : s.server.pendingAccess = false)
    (taken : s.server.ioAccess addr size data isWrite err latency = some called) : called.2 = 0 := by
  unfold Server.ioAccess at taken
  rw [if_neg (by simp [free])] at taken
  cases err with
  | ok => cases taken; rfl
  | invalid => cases taken; rfl
  | denied => contradiction
  | pending => contradiction

def Approaches (call n elapsed : Nat) (s : Session) : Prop :=
  call ∈ s.replied ∨ (s.server.pendingAccess = true ∧ s.current = call ∧
    ∃ left, s.server.event = some left ∧ left + elapsed = n ∧ 0 < left)

theorem stepApproaches {call n elapsed : Nat} (near : Approaches call n elapsed s) (taken : step s a = some next) :
    Approaches call n (elapsed + if a = .cycle then 1 else 0) next := by
  rcases near with replied | ⟨flag, current, left, due, sum, some⟩
  · left
    cases stepInverted taken with
    | invalid free => exact List.mem_append_left _ replied
    | done due near busy => exact List.mem_append_left _ replied
    | refused busy => exact replied
    | sent free => exact replied
    | idle none => exact replied
    | wait far => exact replied
    | stray due near free => exact replied
  · cases stepInverted taken with
    | refused busy => exact .inr ⟨flag, current, left, due, by simpa using sum, some⟩
    | sent free => simp [flag] at free
    | invalid free => simp [flag] at free
    | idle none => simp [none] at due
    | wait far =>
        rw [due, Option.some_inj] at far
        exact .inr ⟨flag, current, _, rfl, by simp; omega, by omega⟩
    | stray _ _ free => simp [flag] at free
    | done _ _ busy => exact .inl (by simp [current])

theorem runApproaches {call n : Nat} (near : Approaches call n 0 s) (run : Run step anyStep s trace next) :
    Approaches call n (trace.countP (fun p => p.1 = .cycle)) next := by
  induction run with
  | nil => exact near
  | snoc before allowed taken ih =>
      have moved := stepApproaches ih taken
      rw [List.countP_append]
      simpa using moved

theorem keptSound (kept : Kept s) : Sound s where
  flag := kept.flag
  balanced := kept.balanced
  free := fun none _ _ _ _ _ _ _ taken => freeAccepts (keptFree kept none) taken
  answered := by
    intro n trace last due run enough
    have flag := kept.flag.mpr (by rw [due]; rfl)
    rcases runApproaches (.inr ⟨flag, rfl, n, due, rfl, kept.later n due⟩) run with replied | ⟨_, _, left, _, sum, some⟩
    · exact replied
    · omega

/- An access answered at once leaves the flag up, with no event to take it down. -/
theorem invalidUnsound (kept : Kept s) (served : ¬Served s a) (taken : step s a = some next) : ¬Sound next := by
  intro sound
  cases stepInverted taken with
  | invalid free =>
      have none : s.server.event.isSome = true := sound.flag.mp rfl
      simp [keptIdle kept free] at none
  | refused busy => exact served (fun _ => busy)
  | sent free => exact served (by simp [Served])
  | idle none => exact served trivial
  | wait far => exact served trivial
  | stray due near free => exact served trivial
  | done due near busy => exact served trivial

theorem servedKept (run : Run step Served .start trace s) : Kept s :=
  Machine.runInvariant run startKept (fun _ _ _ kept served taken => stepKept kept served taken)

theorem servedSound (run : Run step Served .start trace s) : ∀ p ∈ trace, Sound p.2 := by
  rintro ⟨a, mid⟩ inside
  obtain ⟨left, right, rfl⟩ := List.append_of_mem inside
  obtain ⟨before, early, served, taken, _⟩ := Machine.runPrefix run
  exact keptSound (stepKept (servedKept early) served taken)

theorem soundServed (run : Run step anyStep .start trace s) (sound : ∀ p ∈ trace, Sound p.2) :
    Run step Served .start trace s := by
  induction run with
  | nil => exact .nil _
  | snoc before allowed taken ih =>
      have early := ih (fun p inside => sound p (List.mem_append_left _ inside))
      refine .snoc early ?_ taken
      by_contra unserved
      exact invalidUnsound (servedKept early) unserved taken (sound _ (List.mem_append_right _ (List.mem_singleton_self _)))

theorem accessAccounting (run : Run step anyStep .start trace s) :
    Run step Served .start trace s ↔ Sound .start ∧ ∀ p ∈ trace, Sound p.2 :=
  ⟨fun served => ⟨keptSound startKept, servedSound served⟩, fun sound => soundServed run sound.2⟩

def twoWrites : List Action :=
  [.access 0x1c000000 4 [1, 2, 3, 4] true .ok 1, .access 0x1c000004 4 [5, 6, 7, 8] true .ok 1, .cycle, .cycle,
    .access 0x1c000008 4 [9, 10, 11, 12] true .ok 0, .cycle]

theorem accessAccountingWrites : ∃ trace s, Run step Served .start trace s ∧ trace.map Prod.fst = twoWrites ∧
    (∀ p ∈ trace, Sound p.2) ∧ s.returns = [0, -1, 0] ∧ s.replied = [0, 2] ∧ s.server.sent = ["OK", "OK"] := by
  have done : (Machine.follow step Served .start twoWrites).isSome = true := rfl
  obtain ⟨trace, served, labels⟩ := Machine.followRun (Option.some_get done).symm
  have run : Run step anyStep .start trace _ := Machine.runWeaken (fun _ _ _ => trivial) served
  exact ⟨trace, _, served, labels, ((accessAccounting run).mp served).2, rfl, rfl, rfl⟩

theorem stuckForever (busy : s.server.pendingAccess = true) (dropped : s.server.event = none)
    (run : Run step anyStep s trace next) : next.server.pendingAccess = true ∧ next.server.event = none := by
  refine Machine.runInvariant (P := fun t => t.server.pendingAccess = true ∧ t.server.event = none) run ⟨busy, dropped⟩ ?_
  rintro t a next ⟨busy, dropped⟩ _ taken
  cases stepInverted taken with
  | refused _ => exact ⟨busy, dropped⟩
  | sent free => simp [busy] at free
  | invalid free => simp [busy] at free
  | idle _ => exact ⟨busy, dropped⟩
  | wait far => simp [dropped] at far
  | stray due => simp [dropped] at due
  | done due => simp [dropped] at due

/- A write that the target refuses is reported at once. The flag stays up: the next write is
refused, and every other one, and the debugger gets no reply to them. -/
def failedWrite : List Action :=
  [.access 0 4 [1, 2, 3, 4] true .invalid 0, .access 0x1c000000 4 [1, 2, 3, 4] true .ok 1]

theorem accessStuck : ∃ trace s, Run step anyStep .start trace s ∧ trace.map Prod.fst = failedWrite ∧
    s.server.pendingAccess = true ∧ s.server.event = none ∧ s.returns = [0, -1] ∧ s.replied = [0] ∧
    s.server.sent = ["E03"] ∧ ¬Sound s := by
  have done : (Machine.follow step anyStep .start failedWrite).isSome = true := rfl
  obtain ⟨trace, run, labels⟩ := Machine.followRun (Option.some_get done).symm
  exact ⟨trace, _, run, labels, rfl, rfl, rfl, rfl, rfl, fun sound => Bool.noConfusion (sound.flag.mp rfl)⟩

end Runs

end Gvsoc.GdbServer
