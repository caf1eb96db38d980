import Gvsoc.Machine
import Gvsoc.RouterLoop
import Mathlib.Algebra.Order.Ring.Int
import Mathlib.Order.CompletePartialOrder
import Mathlib.Order.Interval.Set.Disjoint

/-! The bandwidth of a router: a request is delayed until its entry is free, and books the entry for as long as its bytes
take. The booking starts from the cycle of the call, the service from the time the request arrives with its latency. -/
namespace Gvsoc.Booking

/- Bookings of something that serves one client at a time: each begins where the ones before are known to have ended. -/

variable {τ ι : Type} [LinearOrder τ] {window : ι → τ × τ} {booked : List ι} {free free' : τ} {next : ι}

def Apart (a b : τ × τ) : Prop := Disjoint (Set.Ico a.1 a.2) (Set.Ico b.1 b.2)

structure Until (window : ι → τ × τ) (booked : List ι) (free : τ) : Prop where
  apart : booked.Pairwise (fun a b => Apart (window a) (window b))
  ended : ∀ a ∈ booked, (window a).2 ≤ free

theorem untilNone (free : τ) : Until window [] free := ⟨.nil, by simp⟩

theorem apartAfter {a b : τ × τ} (after : a.2 ≤ b.1) : Apart a b :=
  Set.disjoint_left.mpr fun _ first second => absurd (lt_of_lt_of_le first.2 (le_trans after second.1)) (lt_irrefl _)

theorem apartEmpty {a b : τ × τ} (empty : a.2 ≤ a.1) : Apart a b := by
  unfold Apart
  rw [Set.Ico_eq_empty (not_lt.mpr empty)]
  exact Set.empty_disjoint _

theorem untilSnoc (booking : Until window booked free) (begins : free ≤ (window next).1) (ends : (window next).2 ≤ free')
    (later : free ≤ free') : Until window (booked ++ [next]) free' := by
  refine ⟨?_, ?_⟩
  · rw [List.pairwise_append]
    refine ⟨booking.apart, List.pairwise_singleton _ _, fun a member b last => ?_⟩
    rw [List.mem_singleton.mp last]
    exact apartAfter (le_trans (booking.ended a member) begins)
  · intro a member
    rcases List.mem_append.mp member with before | last
    · exact le_trans (booking.ended a before) later
    · rw [List.mem_singleton.mp last]
      exact ends

end Gvsoc.Booking

namespace Gvsoc.Routing
open Io (IoStatus)
open Booking (Until)
open Machine (Run)

section Accounting

structure Timing where
  bandwidth : BitVec 32
  latency : BitVec 32
  entryLatency : MapEntry → BitVec 32

structure Window where
  entry : MapEntry
  start : Int
  size : Word

structure Traffic where
  nextPacketTime : MapEntry → Int
  cycles : Int
  windows : List Window

structure Timed where
  loop : Loop
  traffic : Traffic
  latency : Int
  duration : Word

structure Arrival where
  now : Int
  req : Req
  debug : Bool
  latency : Int
  duration : Word
  answers : Nat → IoStatus
  stalls : Nat → Int
  fuel : Nat

variable (c : Timing) (m : Router)

def Timing.packetDuration (size : Word) : Word := (size + c.bandwidth.signExtend 64 - 1) / c.bandwidth.signExtend 64

def Timed.setDuration (s : Timed) (duration : Word) : Timed := if s.duration < duration then { s with duration := duration } else s

def Timed.account (s : Timed) (now : Int) (debug : Bool) (entry : MapEntry) : Timed :=
  if debug then s
  else if c.bandwidth ≠ 0 then
    let packetDuration := c.packetDuration s.loop.size
    let next := s.traffic.nextPacketTime entry
    let routerLatency := next - now
    let latency := (if routerLatency > s.latency then routerLatency else s.latency) + (c.entryLatency entry).toNat
    let routerTime := if now < next then next else now
    let window : Window := ⟨entry, now + latency - (c.entryLatency entry).toNat, s.loop.size⟩
    { s.setDuration packetDuration with
      latency := latency
      traffic := { s.traffic with
        nextPacketTime := Function.update s.traffic.nextPacketTime entry (routerTime + packetDuration.toInt)
        windows := s.traffic.windows ++ [window] } }
  else { s with latency := s.latency + (c.entryLatency entry + c.latency).toNat }

def Timed.turn (s : Timed) (a : Arrival) : Timed × Bool :=
  let s := match m.select s.loop.offset s.loop.size with
    | some (entry, _) => s.account c a.now a.debug entry
    | none => s
  let (loop, returns) := s.loop.turn m a.answers
  let added := if s.loop.forwards.length < loop.forwards.length then a.stalls s.loop.forwards.length else 0
  ({ s with loop := loop, latency := s.latency + added }, returns)

def Timed.run (a : Arrival) : Nat → Timed → Option Traffic
  | fuel, s =>
      if s.loop.size = 0 then some s.traffic
      else
        match fuel with
        | 0 => none
        | fuel + 1 =>
            match s.turn c m a with
            | (s, true) => some s.traffic
            | (s, false) => s.run a fuel

def arrive (s : Traffic) (a : Arrival) : Option Traffic :=
  if s.cycles ≤ a.now then Timed.run c m a a.fuel ⟨.start a.req, { s with cycles := a.now }, a.latency, a.duration⟩ else none

def Traffic.start : Traffic := ⟨fun _ => 0, 0, []⟩

end Accounting

section Windows

variable (c : Timing) (m : Router)

def Timing.serviceTime (size : Word) : Int := -(-(size.toNat : Int)).fdiv c.bandwidth.toInt

def Timing.span (w : Window) : Int × Int := (w.start, w.start + c.serviceTime w.size)

/- The entry takes the whole request: it does not end before it, and the size survives the 32-bit integer of the loop. -/
def OnePiece (entry : MapEntry) (isDefault : Bool) (r : Req) : Prop :=
  r.size.toNat < 2 ^ 31 ∧ (2 ^ 31 ≤ distance entry isDefault r.addr r.size % 2 ^ 32 ∨
    r.size.toNat ≤ distance entry isDefault r.addr r.size % 2 ^ 32)

/- The request is in one entry, and it does not come with a latency that goes over what the entry is booked for. -/
def Timely (s : Traffic) (a : Arrival) : Prop :=
  match m.select a.req.addr a.req.size with
  | none => True
  | some (entry, isDefault) =>
      OnePiece entry isDefault a.req ∧ (a.debug = true ∨ a.latency ≤ 0 ∨ a.now + a.latency ≤ s.nextPacketTime entry)

instance (entry : MapEntry) (isDefault : Bool) (r : Req) : Decidable (OnePiece entry isDefault r) :=
  inferInstanceAs (Decidable (_ ∧ (_ ∨ _)))

instance (s : Traffic) (a : Arrival) : Decidable (Timely m s a) := by
  unfold Timely
  split <;> infer_instance

end Windows

section Disjoint

variable {c : Timing} {m : Router} {s next : Traffic} {a : Arrival} {entry : MapEntry} {isDefault : Bool} {r : Req}

theorem onePieceSize (one : OnePiece entry isDefault r) : iterSize entry isDefault r.addr r.size = r.size := by
  obtain ⟨small, most⟩ := one
  unfold distance at most
  unfold iterSize
  revert most
  generalize (if isDefault then r.size else entry.size - (r.addr - entry.base)) = whole
  intro most
  have number := Bytes.signedNumber (whole.setWidth 32)
  rw [BitVec.toNat_setWidth] at number
  dsimp only
  split
  · exact throughInt small
  · rename_i below
    apply BitVec.eq_of_toNat_eq
    rw [BitVec.lt_def, number] at below
    rw [number]
    split at below <;> split <;> omega

theorem accountLoop (c : Timing) (s : Timed) (now : Int) (debug : Bool) (entry : MapEntry) :
    (s.account c now debug entry).loop = s.loop := by
  unfold Timed.account
  split
  · rfl
  · split
    · dsimp only
      unfold Timed.setDuration
      split <;> rfl
    · rfl

theorem arriveOnce (selected : m.select a.req.addr a.req.size = some (entry, isDefault)) (one : OnePiece entry isDefault a.req)
    (taken : arrive c m s a = some next) : next = { s with cycles := a.now } ∨
      next = (Timed.account c ⟨.start a.req, { s with cycles := a.now }, a.latency, a.duration⟩ a.now a.debug entry).traffic := by
  unfold arrive at taken
  split at taken
  · generalize first : (⟨.start a.req, { s with cycles := a.now }, a.latency, a.duration⟩ : Timed) = t at taken
    have loop : t.loop = .start a.req := first ▸ rfl
    have traffic : t.traffic = { s with cycles := a.now } := first ▸ rfl
    unfold Timed.run at taken
    split at taken
    · exact .inl (Option.some.inj taken ▸ traffic)
    · right
      cases fuel : a.fuel with
      | zero => simp [fuel] at taken
      | succ fuel =>
          simp only [fuel] at taken
          have accounted : (t.turn c m a).1.traffic = (t.account c a.now a.debug entry).traffic ∧
              (t.turn c m a).1.loop = ((Loop.start a.req).turn m a.answers).1 ∧
              (t.turn c m a).2 = ((Loop.start a.req).turn m a.answers).2 := by
            have here : m.select t.loop.offset t.loop.size = some (entry, isDefault) := by rw [loop]; exact selected
            unfold Timed.turn
            simp only [here]
            simp only [accountLoop, loop]
            exact ⟨trivial, trivial, trivial⟩
          cases shape : t.turn c m a with
          | mk last returns =>
              rw [shape] at accounted taken
              cases returns with
              | true => exact Option.some.inj taken ▸ accounted.1
              | false =>
                  -- the piece was the whole request
                  have finished : last.loop.size = 0 := by
                    obtain ⟨e, d, chosen, ⟨-, turn⟩ | ⟨-, turn⟩⟩ := turnCases accounted.2.2.symm
                    all_goals
                      rw [Loop.start, selected] at chosen
                      cases chosen
                      rw [accounted.2.1, turn]
                      simp only [Loop.forward, Loop.skip, Loop.start]
                      rw [onePieceSize one, sub_self]
                  dsimp only at taken
                  unfold Timed.run at taken
                  rw [if_pos finished] at taken
                  exact Option.some.inj taken ▸ accounted.1
  · contradiction

theorem packetDurationWhole {size : Word} (positive : 0 < c.bandwidth.toInt) (small : size.toNat < 2 ^ 31) :
    (c.packetDuration size).toInt = c.serviceTime size ∧ 0 ≤ c.serviceTime size := by
  have width : c.bandwidth.toNat < 2 ^ 31 ∧ c.bandwidth.toInt = c.bandwidth.toNat := by
    rw [BitVec.toInt_eq_toNat_cond] at positive ⊢
    have bound := c.bandwidth.isLt
    split at positive <;> split <;> omega
  have wide : (c.bandwidth.signExtend 64).toNat = c.bandwidth.toNat := by
    rw [Bytes.signedNumber, if_neg (by omega), Nat.add_zero]
  have some : 0 < c.bandwidth.toNat := by omega
  have booked : (c.packetDuration size).toNat = (size.toNat + c.bandwidth.toNat - 1) / c.bandwidth.toNat := by
    have one : (1 : Word).toNat = 1 := rfl
    have dividend : (size + c.bandwidth.signExtend 64 - 1).toNat = size.toNat + c.bandwidth.toNat - 1 := by
      rw [BitVec.toNat_sub, BitVec.toNat_add, wide, one]
      omega
    rw [Timing.packetDuration, BitVec.toNat_udiv, dividend, wide]
  have least : (c.packetDuration size).toNat < 2 ^ 32 := by
    rw [booked]
    have := Nat.div_le_self (size.toNat + c.bandwidth.toNat - 1) c.bandwidth.toNat
    omega
  have number : (c.packetDuration size).toInt = (c.packetDuration size).toNat := by
    rw [BitVec.toInt_eq_toNat_cond, if_pos (by omega)]
  have service : c.serviceTime size = (c.packetDuration size).toNat := by
    have remainder := Nat.div_add_mod (size.toNat + c.bandwidth.toNat - 1) c.bandwidth.toNat
    have below := Nat.mod_lt (size.toNat + c.bandwidth.toNat - 1) some
    rw [← booked] at remainder
    generalize (size.toNat + c.bandwidth.toNat - 1) % c.bandwidth.toNat = left at remainder below
    have quotient := (Int.ediv_emod_unique (a := -(size.toNat : Int)) (r := (c.bandwidth.toNat - 1 - left : Int))
      (q := -((c.packetDuration size).toNat : Int)) (b := c.bandwidth.toNat) (by omega)).mpr ⟨by
        have cast : (c.bandwidth.toNat * (c.packetDuration size).toNat + left : Int) = size.toNat + c.bandwidth.toNat - 1 := by
          have := congrArg (Int.ofNat) remainder
          simp only [Int.ofNat_eq_natCast] at this
          push_cast [Nat.cast_sub (show 1 ≤ size.toNat + c.bandwidth.toNat by omega)] at this
          exact this
        linarith, by omega, by omega⟩
    rw [Timing.serviceTime, width.2, Int.fdiv_eq_ediv_of_nonneg _ (by omega), quotient.1, neg_neg]
  exact ⟨number.trans service.symm, by omega⟩

def windowsOf (s : Traffic) (entry : MapEntry) : List Window := s.windows.filter (·.entry = entry)

def Booked (c : Timing) (s : Traffic) : Prop := ∀ entry, Until c.span (windowsOf s entry) (s.nextPacketTime entry)

theorem bookedSame (booked : Booked c s) (times : next.nextPacketTime = s.nextPacketTime) (windows : next.windows = s.windows) :
    Booked c next := by
  intro entry
  rw [windowsOf, windows, times]
  exact booked entry

theorem accountWindow (t : Timed) (now : Int) (entry : MapEntry) (limited : c.bandwidth ≠ 0) : ∃ w : Window, w.entry = entry ∧ w.size = t.loop.size ∧
    w.start = max (now + t.latency) (t.traffic.nextPacketTime entry) ∧
    (t.account c now false entry).traffic = { t.traffic with
      nextPacketTime := Function.update t.traffic.nextPacketTime entry
        (max now (t.traffic.nextPacketTime entry) + (c.packetDuration t.loop.size).toInt)
      windows := t.traffic.windows ++ [w] } := by
  have time : (if now < t.traffic.nextPacketTime entry then t.traffic.nextPacketTime entry else now) =
      max now (t.traffic.nextPacketTime entry) := by
    split <;> omega
  unfold Timed.account
  rw [if_neg (by simp), if_pos limited]
  dsimp only
  refine ⟨_, rfl, rfl, ?_, by rw [time]⟩
  dsimp only
  split <;> omega

theorem accountBooked {t : Timed} {now : Int} {debug : Bool} (positive : 0 < c.bandwidth.toInt) (small : t.loop.size.toNat < 2 ^ 31)
    (covered : debug = true ∨ t.latency ≤ 0 ∨ now + t.latency ≤ t.traffic.nextPacketTime entry) (booked : Booked c t.traffic) :
    Booked c (t.account c now debug entry).traffic := by
  obtain ⟨duration, cycles⟩ := packetDurationWhole positive small
  cases debug with
  | true => exact bookedSame booked rfl rfl
  | false =>
      have latency : t.latency ≤ 0 ∨ now + t.latency ≤ t.traffic.nextPacketTime entry := covered.resolve_left (by simp)
      have limited : c.bandwidth ≠ 0 := by
        intro none
        rw [none] at positive
        contradiction
      obtain ⟨w, own, size, start, after⟩ := accountWindow t now entry limited
      rw [after, duration]
      intro other
      dsimp only [windowsOf]
      rw [List.filter_append]
      by_cases same : other = entry
      · have kept : [w].filter (·.entry = other) = [w] := by simp [own, same]
        rw [kept, same, Function.update_self]
        refine Booking.untilSnoc (booked entry) ?_ ?_ ?_
        · simp only [Timing.span, start]
          omega
        · simp only [Timing.span, start, size]
          omega
        · omega
      · have dropped : [w].filter (·.entry = other) = [] := by simp [own, Ne.symm same]
        rw [dropped, List.append_nil, Function.update_of_ne same]
        exact booked other

theorem arriveBooked (positive : 0 < c.bandwidth.toInt) (booked : Booked c s) (timely : Timely m s a)
    (taken : arrive c m s a = some next) : Booked c next := by
  have begun : Booked c { s with cycles := a.now } := bookedSame booked rfl rfl
  cases selected : m.select a.req.addr a.req.size with
  | none =>
      -- nothing is accounted for
      unfold arrive at taken
      split at taken
      · unfold Timed.run at taken
        split at taken
        · exact Option.some.inj taken ▸ begun
        · cases fuel : a.fuel with
          | zero => simp [fuel] at taken
          | succ fuel =>
              have refused : (Loop.start a.req).turn m a.answers = ({ Loop.start a.req with result := some .invalid }, true) := by
                simp [Loop.turn, Loop.start, selected]
              have here : m.select (Loop.start a.req).offset (Loop.start a.req).size = none := selected
              simp only [fuel, Timed.turn, here, refused] at taken
              exact Option.some.inj taken ▸ begun
      · contradiction
  | some choice =>
      obtain ⟨entry, isDefault⟩ := choice
      simp only [Timely, selected] at timely
      rcases arriveOnce selected timely.1 taken with rfl | rfl
      · exact begun
      · exact accountBooked positive timely.1.1 timely.2 begun

/- What the entries are allotted never overlaps, where no request comes with a latency that its entry is not booked for. -/
theorem windowsApart (c : Timing) (m : Router) {trace last}
    (run : Run (arrive c m) (fun s a => Timely m s a) .start trace last) :
    last.windows.Pairwise (fun a b => a.entry = b.entry → Booking.Apart (c.span a) (c.span b)) := by
  by_cases positive : 0 < c.bandwidth.toInt
  · have booked : Booked c last := Machine.runInvariant run (fun _ => Booking.untilNone _)
      (fun _ _ _ booked timely taken => arriveBooked positive booked timely taken)
    refine List.pairwise_iff_forall_sublist.mpr fun {a b} sub same => ?_
    have pair : [a, b].Sublist (windowsOf last b.entry) := by
      have kept := sub.filter (fun w => decide (w.entry = b.entry))
      simpa [windowsOf, same] using kept
    exact List.pairwise_iff_forall_sublist.mp (booked b.entry).apart pair
  · -- a negative width: all windows are empty
    have none (w : Window) : (c.span w).2 ≤ (c.span w).1 := by
      have quotient := Int.fdiv_nonneg_of_nonpos_of_nonpos (a := -(w.size.toNat : Int)) (b := c.bandwidth.toInt) (by omega) (by omega)
      simp only [Timing.span, Timing.serviceTime]
      omega
    exact List.pairwise_of_forall fun a b _ => Booking.apartEmpty (none a)

def fourBytes : Timing := ⟨4, 0, fun _ => 2⟩

def twoEntries : Router := Router.build [⟨0x1000, 0x1000, 0, 0, .port⟩, ⟨0x2000, 0x1000, 0, 0, .port⟩]

def arrival (now : Int) (addr size : Word) (latency : Int) : Arrival :=
  ⟨now, ⟨addr, size, 0, 0⟩, false, latency, 0, accept, fun _ => 0, 1⟩

def busy : List Arrival := [arrival 0 0x1000 7 0, arrival 0 0x2000 4 0, arrival 0 0x1008 8 0, arrival 1 0x1010 4 2]

theorem windowsApartBusy :
    ∃ trace last, Run (arrive fourBytes twoEntries) (fun s a => Timely twoEntries s a) .start trace last ∧
      last.windows.map fourBytes.span = [(0, 2), (0, 1), (2, 4), (4, 5)] ∧
      last.windows.Pairwise (fun a b => a.entry = b.entry → Booking.Apart (fourBytes.span a) (fourBytes.span b)) := by
  obtain ⟨trace, run, -⟩ := Machine.reachRun (arrive fourBytes twoEntries) (fun s a => Timely twoEntries s a) .start busy (by decide +kernel)
  exact ⟨trace, _, run, by decide +kernel, windowsApart fourBytes twoEntries run⟩

/- A request that comes with a latency of ten cycles, and one ten cycles later. -/
def late : List Arrival := [arrival 0 0x1000 4 10, arrival 10 0x1004 4 0]

def firstEntry : MapEntry := ⟨0x1000, 0x1000, 0, 0, .port⟩

/- Both are served in the same cycle. -/
theorem windowsMeet :
    (∀ a ∈ late, twoEntries.select a.req.addr a.req.size = some (firstEntry, false) ∧ OnePiece firstEntry false a.req) ∧
    ∃ trace last, Run (arrive fourBytes twoEntries) Machine.anyStep .start trace last ∧ trace.map Prod.fst = late ∧
      ¬ last.windows.Pairwise (fun a b => a.entry = b.entry → Booking.Apart (fourBytes.span a) (fourBytes.span b)) := by
  refine ⟨by decide +kernel, ?_⟩
  obtain ⟨trace, run, actions⟩ := Machine.reachRun (arrive fourBytes twoEntries) Machine.anyStep .start late (by decide +kernel)
  refine ⟨trace, _, run, actions, fun apart => ?_⟩
  have windows : (Machine.reach (arrive fourBytes twoEntries) Machine.anyStep .start late).windows.map (fun w => (w.entry, fourBytes.span w)) =
      [(firstEntry, (10, 11)), (firstEntry, (10, 11))] := by decide +kernel
  have mapped := (List.pairwise_map (f := fun w => (w.entry, fourBytes.span w))
    (R := fun a b => a.1 = b.1 → Booking.Apart a.2 b.2)).mpr apart
  rw [windows] at mapped
  have both : Booking.Apart ((10, 11) : Int × Int) (10, 11) := by simpa using mapped
  have cycle : (10 : Int) ∈ Set.Ico 10 11 := by simp
  exact Set.disjoint_left.mp both cycle cycle

end Disjoint

end Gvsoc.Routing
