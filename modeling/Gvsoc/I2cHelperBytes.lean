import Gvsoc.I2cHelperSteps

/-! Every byte has eight rising edges for its bits and one for its answer, and the answer is right when the helper lets the line go. -/
namespace Gvsoc.I2cHelper
open Bytes (Byte)

section Follows

def asked (seen : List Seen) : List Request :=
  seen.filterMap fun
    | .request request => some request
    | _ => none

def Follows (w next : World) : Prop := ∃ added, next.seen = w.seen ++ added ∧ w.requests = asked added ++ next.requests

variable {w middle next : World}

theorem followsSame (seen : next.seen = w.seen) (requests : next.requests = w.requests) : Follows w next :=
  ⟨[], by rw [seen, List.append_nil], requests.symm⟩

theorem followsTrans (first : Follows w middle) (second : Follows middle next) : Follows w next := by
  obtain ⟨early, seen, requests⟩ := first
  obtain ⟨late, seenLate, requestsLate⟩ := second
  refine ⟨early ++ late, ?_, ?_⟩
  · rw [seenLate, seen, List.append_assoc]
  · rw [requests, requestsLate, asked, asked, asked, List.filterMap_append, List.append_assoc]

theorem settleFollows (w : World) : Follows w w.settle := by
  unfold World.settle
  dsimp only
  split
  · exact followsSame rfl rfl
  · refine ⟨_, rfl, ?_⟩
    unfold World.edges
    split <;> split <;> rfl

theorem releaseFollows (w : World) : Follows w w.release := by
  unfold World.release
  split
  · exact followsTrans (followsSame rfl rfl) (settleFollows _)
  · exact followsSame rfl rfl

theorem syncFollows (w : World) : Follows w w.syncPins := by
  have driven : Follows w { w with masterScl := w.helper.resScl, masterSda := w.helper.resSda } := followsSame rfl rfl
  exact followsTrans (followsTrans driven (settleFollows _)) (releaseFollows _)

theorem askFollows (w : World) : Follows w w.ask := by
  unfold World.ask
  split
  case h_1 none => exact followsSame rfl rfl
  case h_2 request rest left => exact ⟨[.request request], rfl, left⟩

theorem callbackFollows (w : World) (id : Operation) (status : Status) : Follows w (w.callback id status) := by
  have told : Follows w { w with seen := w.seen ++ [.callback w.current id status w.pull] } := ⟨_, rfl, rfl⟩
  unfold World.callback
  dsimp only
  split
  · exact told
  · exact followsTrans told (askFollows _)

theorem actFollows (w : World) (sclRising sclFalling sclSteady sdaRising sdaFalling : Bool) :
    Follows w (w.act sclRising sclFalling sclSteady sdaRising sdaFalling) := by
  have called : ∀ s id status, Follows w (World.callback { w with helper := s } id status) := fun s id status =>
    followsTrans (followsSame rfl rfl) (callbackFollows { w with helper := s } id status)
  unfold World.act
  dsimp only
  split
  case h_2 | h_3 => split <;> first | exact called _ _ _ | exact followsSame rfl rfl
  case h_6 =>
      split
      · split
        · exact followsTrans (called _ _ _) (followsSame rfl rfl)
        · exact followsSame rfl rfl
      · exact followsSame rfl rfl
  case h_7 =>
      split
      · exact followsTrans (callbackFollows w _ _) (followsSame rfl rfl)
      · exact followsSame rfl rfl
  all_goals repeat' split
  all_goals exact followsSame rfl rfl

theorem stepFollows {action : Action} (stepped : step w action = some next) : Follows w next := by
  cases action with
  | tick =>
      simp only [step] at stepped
      split at stepped
      · contradiction
      · exact Option.some.inj stepped ▸ followsSame rfl rfl
  | clock =>
      simp only [step] at stepped
      split at stepped
      · obtain rfl := Option.some.inj stepped
        unfold World.clockEventHandler
        split
        · exact followsTrans (followsSame rfl rfl) (syncFollows _)
        · exact followsSame rfl rfl
      · contradiction
  | fsm =>
      simp only [step] at stepped
      split at stepped
      · obtain rfl := Option.some.inj stepped
        unfold World.fsmEventHandler World.fsmStep
        split
        · exact followsSame rfl rfl
        · refine followsTrans (followsTrans ?_ (actFollows _ _ _ _ _ _)) (syncFollows _)
          exact followsSame rfl rfl
      · contradiction
  | slave pull =>
      simp only [step] at stepped
      split at stepped
      · exact Option.some.inj stepped ▸ followsTrans (followsSame rfl rfl) (settleFollows _)
      · contradiction
  | notify => exact Option.some.inj stepped ▸ followsSame rfl rfl

theorem runFollows {actions : List Action} (ran : run w actions = some next) : Follows w next := by
  induction actions generalizing w with
  | nil => exact Option.some.inj ran ▸ followsSame rfl rfl
  | cons action rest ih =>
      obtain ⟨middle, stepped, later⟩ := Option.bind_eq_some_iff.mp ran
      exact followsTrans (stepFollows stepped) (ih later)

end Follows

section Runs

variable {low high : Nat} {w next : World}

theorem stepReached {action : Action} (reached : Reached low high w) (stepped : step w action = some next) :
    Reached low high next ∧ Nears low high (if action = .tick then 1 else 0) w next := by
  cases action with
  | tick => exact ⟨tickReached reached stepped, tickNears reached stepped⟩
  | clock => exact clockReached reached stepped
  | fsm => exact fsmReached reached stepped
  | slave pull => exact slaveReached reached stepped
  | notify => exact ⟨notifyReached reached stepped, notifyNears reached stepped⟩

theorem runReached {actions : List Action} (reached : Reached low high w) (ran : run w actions = some next) : Reached low high next := by
  induction actions generalizing w with
  | nil => exact Option.some.inj ran ▸ reached
  | cons action rest ih =>
      obtain ⟨middle, stepped, later⟩ := Option.bind_eq_some_iff.mp ran
      exact ih (stepReached reached stepped).1 later

theorem buildReached (low high : Nat) {body : List Request} (inner : Request.stop ∉ body) :
    Reached low high (World.build low high (.start :: body ++ [.stop])) :=
  .starting (v := ⟨.idle, true, true, true, true, false, true, false, true, 0, 0, false, none, some 1, false, 0⟩) (Nat.le_refl 1)
    ⟨body, rfl, inner⟩

theorem stepEnabled (w : World) : ∃ action next, action ∈ [Action.tick, .clock, .fsm] ∧ step w action = some next := by
  by_cases clock : w.helper.clockEvent = some 0
  · exact ⟨.clock, _, by simp, if_pos clock⟩
  by_cases fsm : w.helper.fsmEvent = some 0
  · exact ⟨.fsm, _, by simp, if_pos fsm⟩
  · exact ⟨.tick, _, by simp, if_neg (not_or.mpr ⟨clock, fsm⟩)⟩

def cycles (actions : List Action) : Nat := actions.count .tick

theorem runAnswers {request : Request} {b : Byte} {actions : List Action} (reached : Reached low high w)
    (current : w.current = some request) (carries : request.byte = some b) (ran : run w actions = some next)
    (long : bound low high w < cycles actions) :
    ∃ status pulled, .callback (some request) .ack status pulled ∈ next.seen.drop w.seen.length := by
  induction actions generalizing w with
  | nil => exact absurd long (Nat.not_lt_zero _)
  | cons action rest ih =>
      obtain ⟨middle, stepped, later⟩ := Option.bind_eq_some_iff.mp ran
      obtain ⟨reached', nears⟩ := stepReached reached stepped
      have counted : cycles (action :: rest) = cycles rest + if action = .tick then 1 else 0 := by
        simp [cycles, List.count_cons]
      rcases nears request b current carries with ⟨kept, nearer⟩ | ⟨status, pulled, member⟩
      · obtain ⟨status, pulled, member⟩ := ih reached' (kept.trans current) later (by omega)
        obtain ⟨added, grown, -⟩ := stepFollows stepped
        have longer : w.seen.length ≤ middle.seen.length := by simp [grown]
        exact ⟨status, pulled, List.drop_subset_drop_left _ longer member⟩
      · obtain ⟨added, grown, -⟩ := runFollows later
        have inside : w.seen.length ≤ middle.seen.length := by
          obtain ⟨some, seen, -⟩ := stepFollows stepped
          simp [seen]
        rw [grown, List.drop_append_of_le_length inside]
        exact ⟨status, pulled, List.mem_append_left _ member⟩

end Runs

section Answers

variable {right other : Byte → Bool → Status → Prop} {seen log : List Seen} {request : Request} {b : Byte} {status : Status} {pulled : Bool}

theorem clocksQuiet {edges : List Seen} (clocks : Clocks edges) {current : Option Request} {id : Operation} :
    Seen.callback current id status pulled ∉ edges := by
  intro member
  obtain ⟨_, _, same⟩ := clocks _ member
  contradiction

theorem bitsClocks (b : Byte) : Clocks (bits b) := by
  intro seen member
  obtain ⟨bit, -, same⟩ := List.mem_map.mp member
  exact ⟨bit, false, same.symm⟩

theorem segmentRight {current : Request} (segment : Segment right current log)
    (member : .callback (some request) .ack status pulled ∈ log) (carries : request.byte = some b) : right b pulled status := by
  cases segment with
  | start clocks | stop clocks =>
      rcases List.mem_append.mp member with early | late
      · exact absurd early (clocksQuiet clocks)
      · simp at late
  | byte holds honest =>
      rcases List.mem_append.mp member with early | late
      · exact absurd early (clocksQuiet (bitsClocks _))
      · simp only [List.mem_cons, List.not_mem_nil, or_false, reduceCtorEq, false_or, Seen.callback.injEq, Option.some.injEq] at late
        obtain ⟨rfl, -, rfl, rfl⟩ := late
        obtain rfl := Option.some.inj (holds.symm.trans carries)
        exact honest

theorem pastRight (past : Past right log) (member : .callback (some request) .ack status pulled ∈ log) (carries : request.byte = some b) :
    right b pulled status := by
  induction past with
  | nil => exact absurd member List.not_mem_nil
  | more before ended ih =>
      rcases List.mem_append.mp member with early | late
      · exact ih early
      · exact segmentRight ended ((List.mem_cons.mp late).resolve_left (fun same => nomatch same)) carries

theorem partQuiet {current : Request} {part : List Seen} (inside : Part current part) :
    Seen.callback (some request) .ack status pulled ∉ part := by
  intro member
  cases inside with
  | waits plain clocks => exact clocksQuiet clocks member
  | start clocks | stop clocks =>
      rcases List.mem_append.mp member with early | late
      · exact clocksQuiet clocks early
      · simp at late
  | byte carries => exact clocksQuiet (bitsClocks _) (List.mem_of_mem_take member)
  | slot carries =>
      rcases List.mem_append.mp member with early | late
      · exact clocksQuiet (bitsClocks _) early
      · simp at late

theorem logRight (whole : Log right seen) (member : .callback (some request) .ack status pulled ∈ seen) (carries : request.byte = some b) :
    right b pulled status := by
  rcases whole with past | ⟨past, current, part, rfl, before, inside⟩
  · exact pastRight past member carries
  · rcases List.mem_append.mp member with early | late
    · exact pastRight before early carries
    · exact absurd ((List.mem_cons.mp late).resolve_left (fun same => nomatch same)) (partQuiet inside)

theorem pastChange (past : Past right log)
    (change : ∀ {request b status pulled}, .callback (some request) .ack status pulled ∈ log → request.byte = some b →
      right b pulled status → other b pulled status) : Past other log := by
  induction past with
  | nil => exact .nil
  | more before ended ih =>
      refine .more (ih fun member => change (List.mem_append_left _ member)) ?_
      cases ended with
      | start clocks => exact .start clocks
      | byte carries honest => exact .byte carries (change (by simp) carries honest)
      | stop clocks => exact .stop clocks

theorem logChange (whole : Log right seen)
    (change : ∀ {request b status pulled}, .callback (some request) .ack status pulled ∈ seen → request.byte = some b →
      right b pulled status → other b pulled status) : Log other seen := by
  rcases whole with past | ⟨past, current, part, rfl, before, inside⟩
  · exact .inl (pastChange past change)
  · exact .inr ⟨past, current, part, rfl, pastChange before fun member => change (List.mem_append_left _ member), inside⟩

end Answers

section Transfers

def Honest (_ : Byte) (pulled : Bool) (status : Status) : Prop := status = .ok ↔ pulled = true

def Heeded (seen : List Seen) : Prop :=
  ∀ request b status pulled, .callback (some request) .ack status pulled ∈ seen → request.byte = some b → pulled = true ∨ b.getLsbD 0 = true

structure Transfers (low high : Nat) (requests : List Request) (w : World) : Prop where
  log : Log Honest w.seen
  order : asked w.seen ++ w.requests = requests
  moves : ∃ action next, action ∈ [Action.tick, .clock, .fsm] ∧ step w action = some next
  answers : ∀ request b more later, w.current = some request → request.byte = some b → run w more = some later →
    37 * (low + high + 2) ≤ cycles more → ∃ status pulled, .callback (some request) .ack status pulled ∈ later.seen.drop w.seen.length

theorem helperTransfers {low high : Nat} {body : List Request} {actions : List Action} {w : World} (inner : Request.stop ∉ body)
    (ran : run (World.build low high (.start :: body ++ [.stop])) actions = some w) :
    Transfers low high (.start :: body ++ [.stop]) w ↔ Heeded w.seen := by
  have reached := runReached (buildReached low high inner) ran
  have measured := reachedLog reached
  constructor
  · intro transfers request b status pulled member carries
    have honest : status = .ok ↔ pulled = true := logRight transfers.log member carries
    have found : status = .ok ↔ pulled = true ∨ b.getLsbD 0 = false := logRight measured member carries
    by_cases answered : pulled = true
    · exact .inl answered
    · refine .inr (Bool.eq_true_of_not_eq_false fun dark => ?_)
      exact answered (honest.mp (found.mpr (.inr dark)))
  · intro heeded
    refine ⟨logChange measured fun {request b status pulled} member carries found => ?_, ?_, stepEnabled w, ?_⟩
    · refine Iff.trans found ⟨fun low => ?_, .inl⟩
      rcases heeded request b status pulled member carries with pulls | bright
      · exact pulls
      · exact low.resolve_right (by simp [bright])
    · obtain ⟨added, grown, requests⟩ := runFollows ran
      rw [grown]
      exact (congrArg (Request.start :: ·) requests).symm
    · intro request b more later current carries ran' long
      have near := (reachedTimer reached current carries).2
      have product := Nat.mul_le_mul_right (low + high + 2) (rankBound w)
      refine runAnswers reached current carries ran' (Nat.lt_of_lt_of_le ?_ long)
      rw [bound]
      omega

def zeroByte (slot : List Action) : List Action :=
  [.tick, .fsm, .tick, .fsm, .tick, .fsm] ++ (List.replicate 17 [.tick, .clock, .tick, .fsm]).flatten ++ slot ++ [.tick, .clock, .tick, .fsm]

def zeroLog (pulled : Bool) : List Seen :=
  [.request .start, .sdaHigh false, .callback (some .start) .start .ok false, .request (.data 0)] ++
    List.replicate 8 (.rising false false) ++
    [.rising false pulled, .callback (some (.data 0)) .ack .ok pulled, .request .stop]

theorem helperTransfersPulled :
    ∃ w, run (World.build 1 1 [.start, .data 0, .stop]) (zeroByte [.slave true]) = some w ∧ Heeded w.seen ∧
      Transfers 1 1 [.start, .data 0, .stop] w := by
  have seen : (run (World.build 1 1 [.start, .data 0, .stop]) (zeroByte [.slave true])).map World.seen = some (zeroLog true) := by rfl
  obtain ⟨w, ran, log⟩ := Option.map_eq_some_iff.mp seen
  have heeded : Heeded w.seen := by
    rw [log]
    intro request b status pulled member carries
    simp [zeroLog] at member
    exact .inl member.2.2
  have inner : Request.stop ∉ [Request.data 0] := by simp
  exact ⟨w, ran, heeded, (helperTransfers inner ran).mpr heeded⟩

theorem helperTransfersOpen :
    ∃ w, run (World.build 1 1 [.start, .data 0, .stop]) (zeroByte []) = some w ∧ ¬Transfers 1 1 [.start, .data 0, .stop] w := by
  have seen : (run (World.build 1 1 [.start, .data 0, .stop]) (zeroByte [])).map World.seen = some (zeroLog false) := by rfl
  obtain ⟨w, ran, log⟩ := Option.map_eq_some_iff.mp seen
  refine ⟨w, ran, fun transfers => ?_⟩
  have member : .callback (some (.data 0)) .ack .ok false ∈ w.seen := by simp [log, zeroLog]
  have honest : Honest 0 false .ok := logRight transfers.log member rfl
  exact absurd (honest.mp rfl) (by decide)

end Transfers

end Gvsoc.I2cHelper
