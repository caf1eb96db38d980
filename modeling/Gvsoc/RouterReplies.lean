import Gvsoc.RouterLoop

/-! The status of a request that is cut into several pieces. The router returns the answer to the last piece, and it
goes on with the request whatever the answer to a piece is. -/
namespace Gvsoc.Routing
open Io (IoStatus)

section Replies

variable (m : Router) (answers : Nat → IoStatus) (r : Req)

/- How the map cuts the request, up to an address with a rest: which of the pieces have a target. The answers play no part. -/
inductive Cut : List Bool → Word → Word → Prop
  | start : Cut [] r.addr r.size
  | piece {sent offset size entry isDefault} (before : Cut sent offset size) (more : size ≠ 0)
      (selected : m.select offset size = some (entry, isDefault)) (connected : entry.target ≠ .itf false) :
      Cut (sent ++ [decide (entry.target ≠ .none)]) (offset + iterSize entry isDefault offset size)
        (size - iterSize entry isDefault offset size)

/- One reply for each piece, which is OK where there is no target to answer. -/
def replies : Nat → List Bool → List IoStatus
  | _, [] => []
  | n, true :: rest => answers n :: replies (n + 1) rest
  | n, false :: rest => .ok :: replies n rest

def Loop.writes (s : Loop) : Bool := (m.select s.offset s.size).isSome

structure Aggregates : Prop where
  ok : ∀ fuel ret, m.req answers fuel r = some ret → ret.result = some .ok → ∀ i < ret.forwards.length, answers i = .ok
  waits : ∀ s, Reaches m answers r s → s.size ≠ 0 → (∃ i < s.forwards.length, answers i = .pending) → s.writes m = false

/- The reply to the last piece speaks for all of them, and after a pending one there is nothing left that has an entry. -/
structure LastSpeaks : Prop where
  ok : ∀ sent offset, Cut m r sent offset 0 → (replies answers 0 sent).getLast? = some .ok → ∀ a ∈ replies answers 0 sent, a = .ok
  waits : ∀ sent offset size, Cut m r sent offset size → size ≠ 0 → (replies answers 0 sent).getLast? = some .pending →
    m.select offset size = none

end Replies

section Turns

variable {m : Router} {answers : Nat → IoStatus} {r : Req} {s : Loop} {entry : MapEntry} {isDefault : Bool} {fuel n : Nat}
  {ret : Returned} {sent : List Bool}

theorem runTurn (more : s.size ≠ 0) (goesOn : (s.turn m answers).2 = false) :
    s.run m answers r (fuel + 1) = (s.turn m answers).1.run m answers r fuel := by
  have split : s.turn m answers = ((s.turn m answers).1, false) := Prod.ext rfl goesOn
  rw [Loop.run, if_neg more]
  rw [split]

theorem reachesRun (reached : Reaches m answers r s) (fuel : Nat) :
    ∃ before, m.req answers before r = s.run m answers r fuel := by
  induction reached generalizing fuel with
  | start => exact ⟨fuel, rfl⟩
  | turn reached more goesOn rec =>
      obtain ⟨before, same⟩ := rec (fuel + 1)
      exact ⟨before, same.trans (runTurn more goesOn)⟩

theorem runOk (reached : Reaches m answers r s) (done : s.run m answers r fuel = some ret) (ok : ret.result = some .ok) :
    ∃ last, Reaches m answers r last ∧ last.size = 0 ∧ last.result = some .ok ∧ ret.forwards = last.forwards := by
  induction fuel using Nat.strongRecOn generalizing s with
  | ind fuel rec =>
      rcases runCases done with ⟨finished, result, -, forwards⟩ | ⟨-, returns, result, -⟩ | ⟨more, goesOn, rest, fewer, later⟩
      · exact ⟨s, reached, finished, result.symm.trans ok, forwards⟩
      · have invalid := result.symm.trans ok
        rw [turnReturns returns] at invalid
        contradiction
      · exact rec rest fewer (.turn reached more goesOn) later

theorem repliesSnoc (kind : Bool) :
    replies answers n (sent ++ [kind]) = replies answers n sent ++ [if kind then answers (n + sent.count true) else .ok] := by
  induction sent generalizing n with
  | nil => cases kind <;> simp [replies]
  | cons first rest rec =>
      cases first with
      | true =>
          have shift : n + 1 + rest.count true = n + (rest.count true + 1) := by omega
          simp [replies, rec, shift]
      | false => simp [replies, rec]

theorem repliesOk : (∀ a ∈ replies answers n sent, a = .ok) ↔ ∀ i < sent.count true, answers (n + i) = .ok := by
  induction sent using List.reverseRecOn with
  | nil => simp [replies]
  | append_singleton sent kind rec =>
      rw [repliesSnoc]
      cases kind with
      | false => simpa [or_imp, forall_and] using rec
      | true =>
          simp only [List.mem_append, List.mem_singleton, or_imp, forall_and, forall_eq, if_true, List.count_append,
            List.count_singleton_self, Nat.lt_succ_iff_lt_or_eq, rec]

theorem repliesPending : .pending ∈ replies answers n sent ↔ ∃ i < sent.count true, answers (n + i) = .pending := by
  induction sent using List.reverseRecOn with
  | nil => simp [replies]
  | append_singleton sent kind rec =>
      rw [repliesSnoc]
      cases kind with
      | false => simpa using rec
      | true =>
          simp only [List.mem_append, List.mem_singleton, if_true, List.count_append, List.count_singleton_self,
            Nat.lt_succ_iff_lt_or_eq, rec, or_and_right, exists_or, exists_eq_left]
          rw [eq_comm]

end Turns

section Bridge

variable {m : Router} {answers : Nat → IoStatus} {r : Req} {s : Loop} {sent : List Bool} {offset size : Word}

structure At (answers : Nat → IoStatus) (s : Loop) (sent : List Bool) : Prop where
  result : s.result = (replies answers 0 sent).getLast?
  count : s.forwards.length = sent.count true

theorem turnPiece (at' : At answers s sent) {entry : MapEntry} {isDefault : Bool}
    (selected : m.select s.offset s.size = some (entry, isDefault)) (connected : entry.target ≠ .itf false) :
    (s.turn m answers).2 = false ∧ At answers (s.turn m answers).1 (sent ++ [decide (entry.target ≠ .none)]) ∧
      (s.turn m answers).1.offset = s.offset + iterSize entry isDefault s.offset s.size ∧
      (s.turn m answers).1.size = s.size - iterSize entry isDefault s.offset s.size := by
  have sends (target : entry.target = .port ∨ entry.target = .itf true) :
      (s.turn m answers).2 = false ∧ At answers (s.turn m answers).1 (sent ++ [decide (entry.target ≠ .none)]) ∧
        (s.turn m answers).1.offset = s.offset + iterSize entry isDefault s.offset s.size ∧
        (s.turn m answers).1.size = s.size - iterSize entry isDefault s.offset s.size := by
    have sent' : decide (entry.target ≠ .none) = true := by rcases target with is | is <;> simp [is]
    rw [turnForwards selected target, sent']
    refine ⟨rfl, ⟨?_, ?_⟩, rfl, rfl⟩
    · simp [Loop.forward, repliesSnoc, at'.count]
    · simp [Loop.forward, at'.count]
  cases target : entry.target with
  | port => simpa [target] using sends (.inl target)
  | itf bound =>
      cases bound with
      | true => simpa [target] using sends (.inr target)
      | false => exact absurd target connected
  | none =>
      have turn : s.turn m answers = (s.skip entry isDefault, false) := by simp [Loop.turn, selected, target]
      rw [turn]
      refine ⟨rfl, ⟨?_, ?_⟩, rfl, rfl⟩
      · simp [Loop.skip, repliesSnoc]
      · simp [Loop.skip, at'.count]

theorem reachesCut (reached : Reaches m answers r s) : ∃ sent, Cut m r sent s.offset s.size ∧ At answers s sent := by
  induction reached with
  | start => exact ⟨[], .start, rfl, rfl⟩
  | @turn s reached more goesOn rec =>
      obtain ⟨sent, cut, at'⟩ := rec
      obtain ⟨entry, isDefault, selected, -⟩ := turnCases goesOn
      have connected : entry.target ≠ .itf false := by
        intro target
        simp [Loop.turn, selected, target] at goesOn
      obtain ⟨-, after, offset, size⟩ := turnPiece at' selected connected
      rw [offset, size]
      exact ⟨_, .piece cut more selected connected, after⟩

theorem cutReaches (answers : Nat → IoStatus) (cut : Cut m r sent offset size) :
    ∃ s, Reaches m answers r s ∧ s.offset = offset ∧ s.size = size ∧ At answers s sent := by
  induction cut with
  | start => exact ⟨.start r, .start, rfl, rfl, rfl, rfl⟩
  | piece cut more selected connected rec =>
      obtain ⟨s, reached, rfl, rfl, at'⟩ := rec
      obtain ⟨goesOn, after, offset, size⟩ := turnPiece at' selected connected
      exact ⟨_, .turn reached more goesOn, offset, size, after⟩

/- A pending piece is the last one where nothing with an entry comes after it. -/
theorem pendingLast (speaks : LastSpeaks m answers r) (cut : Cut m r sent offset size)
    (pending : .pending ∈ replies answers 0 sent) : (replies answers 0 sent).getLast? = some .pending := by
  induction cut with
  | start => simp [replies] at pending
  | piece cut more selected connected rec =>
      rw [repliesSnoc] at pending ⊢
      rcases List.mem_append.mp pending with before | last
      · rw [speaks.waits _ _ _ cut more (rec before)] at selected
        contradiction
      · rw [List.getLast?_concat, ← List.mem_singleton.mp last]

/- The status stands for all pieces and a pending request is left alone, if and only if the last reply speaks for all. -/
theorem statusAggregated (m : Router) (answers : Nat → IoStatus) (r : Req) : Aggregates m answers r ↔ LastSpeaks m answers r := by
  constructor
  · intro aggregates
    refine ⟨?_, ?_⟩
    · intro sent offset cut last
      obtain ⟨s, reached, -, finished, at'⟩ := cutReaches answers cut
      obtain ⟨before, same⟩ := reachesRun reached 0
      have done : s.run m answers r 0 = some ⟨s.result, { s.req with addr := r.addr, size := r.size, data := r.data }, s.forwards⟩ := by
        rw [Loop.run, if_pos finished, if_pos (at'.result.trans last)]
      have all := aggregates.ok before _ (same.trans done) (at'.result.trans last)
      refine repliesOk.mpr fun i inside => ?_
      rw [Nat.zero_add]
      exact all i (at'.count ▸ inside)
    · intro sent offset size cut more last
      obtain ⟨s, reached, rfl, rfl, at'⟩ := cutReaches answers cut
      have pending : .pending ∈ replies answers 0 sent := List.mem_of_getLast? last
      obtain ⟨i, inside, waits⟩ := repliesPending.mp pending
      rw [Nat.zero_add] at waits
      have quiet := aggregates.waits s reached more ⟨i, at'.count ▸ inside, waits⟩
      simpa [Loop.writes] using quiet
  · intro speaks
    refine ⟨?_, ?_⟩
    · intro fuel ret done ok i inside
      obtain ⟨last, reached, finished, result, forwards⟩ := runOk .start done ok
      obtain ⟨sent, cut, at'⟩ := reachesCut reached
      rw [finished] at cut
      have all := repliesOk.mp (speaks.ok sent _ cut (at'.result.symm.trans result)) i
      rw [Nat.zero_add] at all
      exact all (by rw [← at'.count, ← forwards]; exact inside)
    · rintro s reached more ⟨i, inside, waits⟩
      obtain ⟨sent, cut, at'⟩ := reachesCut reached
      have pending : .pending ∈ replies answers 0 sent := repliesPending.mpr ⟨i, at'.count ▸ inside, by rwa [Nat.zero_add]⟩
      rw [Loop.writes, speaks.waits sent _ _ cut more (pendingLast speaks cut pending)]
      rfl

def neighbours : List MapEntry := [⟨0x1000, 0x1000, 0, 0, .port⟩, ⟨0x2000, 0x1000, 0, 0, .port⟩]

def firstAnswers (first : IoStatus) : Nat → IoStatus
  | 0 => first
  | _ + 1 => .ok

def acrossNeighbours : Req := ⟨0x1ffc, 8, 0, 0⟩

/- The error of the first piece is lost, and a pending first piece is overwritten by the second one. -/
theorem statusOverwritten :
    ¬ Aggregates (Router.build neighbours) (firstAnswers .invalid) acrossNeighbours ∧
      ¬ Aggregates (Router.build neighbours) (firstAnswers .pending) acrossNeighbours := by
  constructor
  · intro aggregates
    have done : (((Router.build neighbours).req (firstAnswers .invalid) 2 acrossNeighbours).map
      (fun ret => (ret.result, ret.forwards.length))) = some (some .ok, 2) := by decide
    obtain ⟨ret, returned, both⟩ := Option.map_eq_some_iff.mp done
    obtain ⟨result, count⟩ := Prod.ext_iff.mp both
    have two : ret.forwards.length = 2 := count
    have first := aggregates.ok 2 ret returned result 0 (by omega)
    contradiction
  · intro aggregates
    have reached : Reaches (Router.build neighbours) (firstAnswers .pending) acrossNeighbours _ :=
      .turn .start (by decide) (by decide)
    have quiet := aggregates.waits _ reached (by decide) ⟨0, by decide, rfl⟩
    revert quiet
    decide

end Bridge

end Gvsoc.Routing
